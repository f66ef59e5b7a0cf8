/-
SpringDome.Net.HttpClientUtil — the three entry points of
`HttpClientUtil.java`, cut at every access of the static field
`httpResponse`.

An entry point builds its request, executes it, and stores the response in
the field; then it reads the field again for the status line, for the entity
and in its `finally` block. `After` is the code behind the `execute` as a tree
of these accesses, and `HttpCall` has one tree for the case that the response
was stored and one for the case that something threw before.

`sendGet` logs `new Date("yyyy mm dd hh mm ss")` between the status line and
the branch on it. `Date` parses its argument, knows none of these words, and
throws, so the body of a response to `sendGet` is never read.
-/
import Mathlib.Data.List.Basic

namespace SpringDome.Net

/-! ## Responses and results -/

/-- A body, as long as it has not been read or discarded. Reading fails when
there is no `content`. -/
structure HttpEntity (B : Type) where
  content : Option B
  consumed : Bool
  deriving DecidableEq, Repr

structure HttpResponse (B : Type) where
  statusCode : Int
  entity : Option (HttpEntity B)
  deriving DecidableEq, Repr

/-- What a call returns: a body, the decimal text of a status code, null, or
an exception. -/
inductive Result (B : Type) where
  | body (b : B)
  | code (n : Int)
  | null
  | threw
  deriving DecidableEq, Repr

/-! ## The code behind `execute` -/

/-- `npe` is the path taken when the field is null. -/
inductive After (B : Type) where
  | done (r : Result B)
  /-- `httpResponse.getStatusLine().getStatusCode()`. -/
  | status (npe : After B) (k : Int → After B)
  /-- `httpResponse.getEntity()`; without an entity `absent`, otherwise the
  entity is read, which may throw. -/
  | entity (npe absent : After B) (k : Option B → After B)
  /-- `httpResponse != null`. -/
  | check (isNull notNull : After B)
  /-- `EntityUtils.consume(httpResponse.getEntity())`. -/
  | consume (rest : After B)

/-- An entry point: what runs once the response is stored, and what runs once
something in the `try` block threw before that. -/
structure HttpCall (B : Type) where
  stored : After B
  thrown : After B

variable {B : Type}

/-- The `finally` block, on the way to a result. -/
def finallyBlock (r : Result B) : After B := .check (.done r) (.consume (.done r))

/-- `code >= 200 && code < 300`. -/
def isSuccess (code : Int) : Bool := 200 ≤ code && code < 300

/-! ## `new Date(text)` -/

/-- The words `Date.parse` knows. -/
def dateWords : List String :=
  ["am", "pm", "monday", "tuesday", "wednesday", "thursday", "friday", "saturday", "sunday",
    "january", "february", "march", "april", "may", "june", "july", "august", "september",
    "october", "november", "december", "gmt", "ut", "utc", "est", "edt", "cst", "cdt", "mst",
    "mdt", "pst", "pdt"]

/-- A word of a date: the first letters of a known word, at least two. -/
def isDateWord (word : List Char) : Bool :=
  2 ≤ word.length && dateWords.any fun known => (word.map Char.toLower).isPrefixOf known.toList

/-- `new Date(text)` throws for a word it does not know. -/
def dateRejects (text : String) : Bool :=
  (text.toList.splitOnP fun c => !c.isAlpha).any fun word => !word.isEmpty && !isDateWord word

/-! ## The entry points -/

def sendGet : HttpCall B where
  stored := .status (finallyBlock (.code 0)) fun code =>
    if dateRejects "yyyy mm dd hh mm ss" then finallyBlock (.code code)
    else if isSuccess code then
      .entity (finallyBlock (.code code)) (finallyBlock (.code code)) fun cont =>
        match cont with
        | some cont => finallyBlock (.body cont)
        | none => finallyBlock (.code code)
    else finallyBlock (.code code)
  thrown := finallyBlock (.code 0)

/-- Both `post` methods; `absent` is the path of a successful response without
an entity. -/
def posting (absent : After B) : HttpCall B where
  stored := .status (finallyBlock .null) fun code =>
    if isSuccess code then
      .entity (finallyBlock .null) absent fun content =>
        match content with
        | some content => finallyBlock (.body content)
        | none => finallyBlock .null
    else finallyBlock .null
  thrown := finallyBlock .null

/-- `post(String, JSONObject, String)` returns null without an entity. -/
def postWithToken : HttpCall B := posting (finallyBlock .null)

/-- `post(String, JSONObject)`: `toByteArray` of a null entity throws, and
what follows the handler returns null. -/
def post : HttpCall B := posting (finallyBlock .null)

inductive EntryPoint where
  | sendGet
  | postWithToken
  | post
  deriving DecidableEq, Repr

def EntryPoint.call : EntryPoint → HttpCall B
  | .sendGet => Net.sendGet
  | .postWithToken => Net.postWithToken
  | .post => Net.post

end SpringDome.Net
