/-
SpringDome.Net.RequestBody — the requests that the two `post` methods of
`HttpClientUtil.java` build, and what a server reads in them.

Both methods hand the text of the JSON object to `new StringEntity(String)`,
which encodes it in ISO-8859-1 at once. `setContentEncoding("UTF-8")` comes
later and only sets a header (`setContentEncoding_content`), so that a server
that goes by it gets back the text if it is ASCII, and something else if it is
not.
-/
import SpringDome.Lib.Charset

namespace SpringDome.Net

open SpringDome.Lib.Charset

/-! ## 1. Entities and requests -/

structure StringEntity where
  content : List UInt8
  contentEncoding : Option String
  contentType : Option String

namespace StringEntity

/-- `new StringEntity(String)`. -/
def new (text : String) : StringEntity :=
  ⟨encodeLatin1 text.toList, none, some "text/plain; charset=ISO-8859-1"⟩

def setContentEncoding (e : StringEntity) (contentEncoding : String) : StringEntity :=
  { e with contentEncoding := some contentEncoding }

def setContentType (e : StringEntity) (contentType : String) : StringEntity :=
  { e with contentType := some contentType }

@[simp] theorem new_content (text : String) : (new text).content = encodeLatin1 text.toList := rfl

/-- The headers say nothing about the bytes. -/
@[simp] theorem setContentEncoding_content (e : StringEntity) (contentEncoding : String) :
    (e.setContentEncoding contentEncoding).content = e.content := rfl

@[simp] theorem setContentType_content (e : StringEntity) (contentType : String) :
    (e.setContentType contentType).content = e.content := rfl

end StringEntity

structure HttpPost where
  url : String
  headers : List (String × String)
  entity : Option StringEntity

namespace HttpPost

/-- `new HttpPost(String)`. -/
def new (url : String) : HttpPost := ⟨url, [], none⟩

def addHeader (p : HttpPost) (name value : String) : HttpPost :=
  { p with headers := p.headers ++ [(name, value)] }

def setEntity (p : HttpPost) (s : StringEntity) : HttpPost := { p with entity := some s }

end HttpPost

section Requests

variable {J : Type} [ToString J]

/-- What `post(String, JSONObject, String)` executes. -/
def postWithTokenRequest (url : String) (json : J) (token : Option String) : HttpPost :=
  let post := HttpPost.new url
  let s := ((StringEntity.new (toString json)).setContentEncoding "UTF-8").setContentType
    "application/json"
  let post := match token with
    | some token => post.addHeader "Authorization" ("Bearer " ++ token)
    | none => post
  post.setEntity s

/-- What `post(String, JSONObject)` executes. -/
def postRequest (url : String) (json : J) : HttpPost :=
  let post := HttpPost.new url
  let s := ((StringEntity.new (toString json)).setContentEncoding "UTF-8").setContentType
    "text/plain"
  post.setEntity s

/-! ## 2. Bodies -/

/-- The request carries the entity with these bytes, and says that they are
UTF-8. -/
def HttpPost.Carries (p : HttpPost) (content : List UInt8) : Prop :=
  ∃ s, p.entity = some s ∧ s.content = content ∧ s.contentEncoding = some "UTF-8"

/-- Either method, with any address and token. -/
inductive PostedAs (json : J) : HttpPost → Prop where
  | withToken (url : String) (token : Option String) :
      PostedAs json (postWithTokenRequest url json token)
  | plain (url : String) : PostedAs json (postRequest url json)

/-- One body for one text. -/
theorem PostedAs.carries_iff {json : J} {p : HttpPost} (h : PostedAs json p)
    {content : List UInt8} :
    p.Carries content ↔ content = encodeLatin1 (toString json).toList := by
  have hcarries : ∀ {s : StringEntity}, p.entity = some s →
      s.content = encodeLatin1 (toString json).toList → s.contentEncoding = some "UTF-8" →
      (p.Carries content ↔ content = encodeLatin1 (toString json).toList) := by
    intro s hentity hcontent hencoding
    constructor
    · rintro ⟨s', hs', rfl, -⟩
      obtain rfl := Option.some.inj (hentity.symm.trans hs')
      exact hcontent
    · rintro rfl
      exact ⟨s, hentity, hcontent, hencoding⟩
  cases h with
  | withToken url token => exact hcarries (s := _) rfl (by simp) rfl
  | plain url => exact hcarries (s := _) rfl (by simp) rfl

/-- **What a server reads.** The body of a request, decoded as UTF-8, is the
text of the JSON object if and only if that is ASCII. Two bodies are the same
if and only if the texts are, `?` read for every character that is not in
ISO-8859-1. -/
theorem requestBody_lossless_iff {json : J} {p : HttpPost} (h : PostedAs json p) :
    ∃ content, p.Carries content ∧
      (∀ d : Decoder, d.decode content = some (toString json).toList ↔
        IsAscii (toString json).toList) ∧
      ∀ (json' : J) (p' : HttpPost), PostedAs json' p' → (p'.Carries content ↔
        (toString json').toList.map asLatin1 = (toString json).toList.map asLatin1) := by
  refine ⟨_, h.carries_iff.mpr rfl, fun d => d.decode_latin1_iff _, ?_⟩
  intro json' p' h'
  rw [h'.carries_iff, encodeLatin1_eq_iff]
  exact eq_comm

end Requests

/-- A JSON object with a name, and its text for a name without quotes. -/
structure NameJson where
  name : String

instance : ToString NameJson := ⟨fun json => "\x7b\"name\":\"" ++ json.name ++ "\"\x7d"⟩

theorem post_ascii_name :
    ∃ content, (postWithTokenRequest "http://localhost" (NameJson.mk "ann") (some "7")).Carries
        content ∧
      ∀ d : Decoder, d.decode content = some (toString (NameJson.mk "ann")).toList := by
  have hposted : PostedAs (NameJson.mk "ann") _ := .withToken "http://localhost" (some "7")
  obtain ⟨content, hcarries, hdecode, -⟩ := requestBody_lossless_iff hposted
  exact ⟨content, hcarries, fun d => (hdecode d).mpr (by decide)⟩

/-- A name that ISO-8859-1 does not have never arrives, and two such names
have one body. -/
theorem post_loses_name :
    toString (NameJson.mk "\u4e2d") ≠ toString (NameJson.mk "\u6587") ∧
      ∃ content, (postRequest "http://localhost" (NameJson.mk "\u4e2d")).Carries content ∧
        (postRequest "http://localhost" (NameJson.mk "\u6587")).Carries content ∧
        ∀ d : Decoder, d.decode content ≠ some (toString (NameJson.mk "\u4e2d")).toList := by
  refine ⟨by decide, _, (PostedAs.plain _).carries_iff.mpr rfl,
    (PostedAs.plain _).carries_iff.mpr (by decide), ?_⟩
  intro d h
  have hascii := (d.decode_latin1_iff _).mp h
  revert hascii
  decide

end SpringDome.Net
