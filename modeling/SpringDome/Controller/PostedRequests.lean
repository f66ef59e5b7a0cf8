/-
SpringDome.Controller.PostedRequests — `HttpClientUtil.post` against the
controller: what a client gets to know.

`main` of `HttpClientUtil.java` posts to `/api/selectIdwq` and parses what
comes back, with a copy of the generated class. What is replied travels as
`Delivers` says, or is lost on the way. Through the static field, the history of
the server and the bytes, a call that is not disturbed learns the name the
server knows, or null (`post_selectIdwq`).
-/
import SpringDome.Controller.ApiRuns
import SpringDome.Net.SendGet

namespace SpringDome.Controller

open SpringDome.Bean
open SpringDome.Lib
open SpringDome.Mapper
open SpringDome.Net
open SpringDome.Protobuf (Runtime vectorRuntime vectorRuntime_lawful)

variable {U : Type} {rt : Runtime U}

/-! ## 1. An exchange -/

/-- What `execute` may come to when this is replied. -/
inductive Delivers : Reply → Option (HttpResponse (List UInt8)) → Prop where
  /-- `execute` throws. -/
  | lost (reply : Reply) : Delivers reply none
  | bytes (bytes : List UInt8) : Delivers (.protobuf bytes) (some ⟨200, some ⟨some bytes, false⟩⟩)
  /-- The response arrives, but reading its entity fails. -/
  | broken (bytes : List UInt8) : Delivers (.protobuf bytes) (some ⟨200, some ⟨none, false⟩⟩)
  /-- The page for an exception. -/
  | error (code : Int) (hcode : isSuccess code = false)
      (entity : Option (HttpEntity (List UInt8))) : Delivers .error (some ⟨code, entity⟩)

/-- The response is read to its end. -/
def Arrives (outcome : Option (HttpResponse (List UInt8))) : Prop :=
  ∃ response bytes, outcome = some response ∧ response.content = some bytes

/-- What `post` returns, by its outcome. -/
def posted : Option (HttpResponse (List UInt8)) → Result (List UInt8)
  | none => .null
  | some response =>
      if isSuccess response.statusCode then response.content.elim .null .body else .null

/-- Whatever an earlier call left in the field. -/
theorem post_alone (outcome field : Option (HttpResponse (List UInt8))) :
    (if outcome.isSome then (EntryPoint.call .post).stored
      else (EntryPoint.call .post).thrown).alone (outcome.or field) = posted outcome := by
  cases outcome with
  | none => cases field <;> rfl
  | some response =>
      obtain ⟨code, entity⟩ := response
      show (if isSuccess code then _ else _ : After (List UInt8)).alone _ = _
      cases hcode : isSuccess code with
      | false => simp [posted, hcode, finallyBlock, After.alone]
      | true =>
          cases entity with
          | none => simp [posted, hcode, finallyBlock, After.alone, HttpResponse.content]
          | some entity =>
              cases hcontent : HttpResponse.content ⟨code, some entity⟩ <;>
                simp [posted, hcode, hcontent, finallyBlock, After.alone]

/-! ## 2. What a client learns -/

/-- The name for a number, if the exchange succeeds, or null. -/
structure Learns (rt : Runtime U) (known : User → Prop) (id : Int32)
    (outcome : Option (HttpResponse (List UInt8))) (r : Result (List UInt8)) : Prop where
  sound : r ≠ .null → ∃ name bytes, r = .body bytes ∧ known ⟨some id, some name⟩ ∧
    Says rt bytes id name
  complete : Arrives outcome → ∀ name, known ⟨some id, some name⟩ →
    ∃ bytes, r = .body bytes ∧ Says rt bytes id name

/-- One name at most is known, and the reply says it. -/
theorem learns_posted {b b' : Book} {fits : User → Bool} {known : User → Prop} {id : Int32}
    {reply : Reply} {outcome : Option (HttpResponse (List UInt8))}
    (hknown : ∀ id name, b id = some name ↔ known ⟨some id, name⟩)
    (hstep : b.Step rt fits (.selectIdwq id) reply b') (hdelivers : Delivers reply outcome) :
    Learns rt known id outcome (posted outcome) := by
  obtain ⟨-, hreply⟩ := hstep
  cases hdelivers with
  | lost => exact ⟨fun hne => absurd rfl hne, fun ⟨_, _, heq, _⟩ => nomatch heq⟩
  | bytes bytes =>
      rcases hreply with ⟨name, bytes', hname, heq, hsays⟩ | ⟨-, heq⟩
      · cases heq
        refine ⟨fun _ => ⟨name, bytes, rfl, (hknown id _).mp hname, hsays⟩, ?_⟩
        intro _ name' hname'
        have hsame := (hknown id _).mpr hname'
        rw [hname] at hsame
        cases hsame
        exact ⟨bytes, rfl, hsays⟩
      · cases heq
  | broken bytes =>
      refine ⟨fun hne => absurd rfl hne, ?_⟩
      rintro ⟨response, bytes', heq, hcontent⟩
      cases heq
      cases hcontent
  | error code hcode entity =>
      have hnull : posted (some ⟨code, entity⟩) = .null := by
        show (if isSuccess code = true then _ else Result.null) = _
        rw [hcode]
        rfl
      refine ⟨fun hne => absurd hnull hne, ?_⟩
      intro _ name hname
      rcases hreply with ⟨name', bytes, -, heq, -⟩ | ⟨hnone, -⟩
      · cases heq
      · exact absurd ((hknown id _).mpr hname) (hnone name)

/-- **From the table to the client.** The server is at any point of any history,
and the client in any state that earlier calls left. A post of `selectIdwq` that
is not disturbed returns; what it returns, if it is not null, is a message with
the name that is known for the number; and if one is known, null is returned
only for an exchange that failed. -/
theorem post_selectIdwq {strict : Bool} {m : Mysql} {fits : User → Bool} {table table' : List User}
    (hrt : rt.Lawful) (hm : Keyed m fits) (hadmits : m.admits table = true)
    {before after : List (Request × Reply)} {id : Int32} {reply : Reply}
    (h : History (Handles strict m rt) table (before ++ (.selectIdwq id, reply) :: after) table')
    {N : Nat} {calls : Fin N → EntryPoint} {s : HttpThreads (List UInt8) N} {i : Fin N}
    (hcall : calls i = .post) (hreach : (httpThreads (List UInt8) calls).Reachable s)
    (hstart : (s.thread i).pc = .start) {outcome : Option (HttpResponse (List UInt8))}
    (hdelivers : Delivers reply outcome) :
    (∃ n t r, (httpThreads (List UInt8) calls).exec s (soloRun i (.executed outcome) n) = some t ∧
      (t.thread i).pc = .returned r) ∧
    ∀ n t r, (httpThreads (List UInt8) calls).exec s (soloRun i (.executed outcome) n) = some t →
      (t.thread i).pc = .returned r → Learns rt (Known table before) id outcome r := by
  obtain ⟨hreturns, halone⟩ :=
    call_alone hstart (fieldKnown_of_reachable hreach) (.executed outcome)
  refine ⟨hreturns, ?_⟩
  intro n t r ht hr
  obtain rfl := halone n t r ht hr
  obtain ⟨b, b', hstep, hknown⟩ := book_known hrt hm hadmits h
  rw [hcall, HttpCall.result, post_alone]
  exact learns_posted hknown hstep hdelivers

def annBytes : List UInt8 := [8, 1, 16, 1, 26, 3, 97, 110, 110]

/-- Ann is saved, and asked for. -/
theorem handles_annBytes : History (Handles true keyMysql (vectorRuntime fun _ => 1)) []
    ([(.save 1 "ann", .text "true")] ++ (.selectIdwq 1, .protobuf annBytes) :: []) [ann] :=
  .cons ⟨.rows 1, (performs_insert ann).mpr rfl, rfl⟩
    (.cons ⟨.user (some ann), (performs_selectByPrimaryKey (some 1)).mpr rfl,
        (replySelectIdwq_ok rfl).symm⟩
      (.nil [ann]))

def twoPosts : Fin 2 → EntryPoint := fun _ => .post

/-- The first call found no server; the second learns the name. -/
theorem post_selectIdwq_ann :
    ∃ s, (httpThreads (List UInt8) twoPosts).exec (httpThreads (List UInt8) twoPosts).init
        (soloRun 0 (.executed none) 1) = some s ∧
      ∀ n t r, (httpThreads (List UInt8) twoPosts).exec s
          (soloRun 1 (.executed (some ⟨200, some ⟨some annBytes, false⟩⟩)) n) = some t →
        (t.thread 1).pc = .returned r →
          ∃ bytes, r = .body bytes ∧ Says (vectorRuntime fun _ => 1) bytes 1 "ann" := by
  have hpost : twoPosts 1 = .post := rfl
  refine ⟨_, rfl, ?_⟩
  intro n t r ht hr
  have hlearns := (post_selectIdwq (vectorRuntime_lawful fun _ => 1) keyed_keyMysql (by decide)
    handles_annBytes hpost ⟨soloRun 0 (.executed none) 1, rfl⟩ rfl (.bytes annBytes)).2 n t r ht hr
  exact hlearns.complete ⟨_, annBytes, rfl, rfl⟩ "ann"
    (.inr ⟨1, "ann", rfl, List.mem_cons_self⟩)

end SpringDome.Controller
