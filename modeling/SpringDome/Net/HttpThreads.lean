/-
SpringDome.Net.HttpThreads — any number of `HttpClientUtil` calls at once,
over the one static field they share.

A call stores its response in `httpResponse` and finds it again there, so two
calls whose windows overlap (from the `execute` to the last access in the
`finally` block) can read each other's status and body: `posts_swap_bodies`.
A call whose `execute` throws stores nothing, and its `finally` block then
consumes the response of an earlier call.

Each call carries a record of the responses it touched (`Seen`).
`noCrossTalk` shows that the two defects are all there is: in a run in which
nothing is stored while another call is in its window, and in which `execute`
throws only while nothing was ever stored, every call touches its own
response only. The invariant is that a call in its window finds its own
response in the field (`HttpInv`).
-/
import SpringDome.Lib.Machine
import SpringDome.Net.HttpClientUtil
import Mathlib.Data.Fin.Basic

namespace SpringDome.Net

open SpringDome.Lib

variable {B : Type} {N : Nat}

/-! ## 1. Calls in progress -/

/-- The responses a call obtained, took its status from, took its entity
from, and consumed. -/
structure Seen where
  own : Option Nat
  statusFrom : Option Nat
  entityFrom : Option Nat
  consumedFrom : Option Nat
  deriving DecidableEq, Repr

/-- The call has touched its own response only. -/
def Seen.OwnOnly (s : Seen) : Prop :=
  ∀ r, s.statusFrom = some r ∨ s.entityFrom = some r ∨ s.consumedFrom = some r → s.own = some r

inductive CallPc (B : Type) where
  /-- Before `new HttpGet(url)` or `new HttpPost(url)`. -/
  | start
  /-- In the `try` block, up to and including `execute`. -/
  | executing
  /-- At an access of the field. -/
  | after (rest : After B)
  /-- The entity of response `ref` is about to be read. -/
  | reading (ref : Nat) (k : Option B → After B)
  | returned (r : Result B)

/-- More accesses of the field are to come. -/
def After.usesField : After B → Bool
  | .done _ => false
  | _ => true

/-- Between the outcome of `execute` and the last access of the field. -/
def CallPc.inWindow : CallPc B → Bool
  | .after rest => rest.usesField
  | .reading .. => true
  | _ => false

structure HttpThread (B : Type) where
  pc : CallPc B
  seen : Seen

/-- The field, the responses obtained so far (a response is named by its
position), and the calls. -/
structure HttpThreads (B : Type) (N : Nat) where
  httpResponse : Option Nat
  responses : List (HttpResponse B)
  thread : Fin N → HttpThread B

inductive HttpAct (B : Type) where
  /-- The request object is built, or its constructor throws. -/
  | create (ok : Bool)
  /-- `execute` answers a response, which is stored; or something in the `try`
  block up to `execute` throws. -/
  | execute (outcome : Option (HttpResponse B))
  /-- The next access of the field, or the reading of an entity, or the
  return. -/
  | access

namespace HttpThreads

/-- Move call `i`. -/
def goto (s : HttpThreads B N) (i : Fin N) (pc : CallPc B) (seen : Seen) : HttpThreads B N :=
  { s with thread := Function.update s.thread i ⟨pc, seen⟩ }

def entityOf (s : HttpThreads B N) (ref : Nat) : Option (HttpEntity B) :=
  s.responses[ref]?.bind HttpResponse.entity

/-- Whatever is left of the body of a response is gone. -/
def discard (s : HttpThreads B N) (ref : Nat) : HttpThreads B N :=
  { s with responses := s.responses.modify ref fun response =>
      { response with entity := response.entity.map fun e => { e with consumed := true } } }

/-- Reading an entity to its end. -/
def contentOf (s : HttpThreads B N) (ref : Nat) : Option B :=
  (s.entityOf ref).bind fun e => if e.consumed then none else e.content

@[simp] theorem goto_httpResponse (s : HttpThreads B N) (i : Fin N) (pc : CallPc B)
    (seen : Seen) : (s.goto i pc seen).httpResponse = s.httpResponse := rfl

@[simp] theorem discard_httpResponse (s : HttpThreads B N) (ref : Nat) :
    (s.discard ref).httpResponse = s.httpResponse := rfl

@[simp] theorem discard_thread (s : HttpThreads B N) (ref : Nat) :
    (s.discard ref).thread = s.thread := rfl

@[simp] theorem discard_length (s : HttpThreads B N) (ref : Nat) :
    (s.discard ref).responses.length = s.responses.length := by simp [discard]

/-- The next access of a call that is behind its `execute`. -/
def accessField (s : HttpThreads B N) (i : Fin N) (seen : Seen) : After B → HttpThreads B N
  | .done r => s.goto i (.returned r) seen
  | .status npe k =>
      match s.httpResponse.bind fun ref => s.responses[ref]? with
      | none => s.goto i (.after npe) seen
      | some response =>
          s.goto i (.after (k response.statusCode)) { seen with statusFrom := s.httpResponse }
  | .entity npe absent k =>
      match s.httpResponse with
      | none => s.goto i (.after npe) seen
      | some ref =>
          s.goto i (if (s.entityOf ref).isSome then .reading ref k else .after absent)
            { seen with entityFrom := some ref }
  | .check isNull notNull =>
      s.goto i (.after (if s.httpResponse.isNone then isNull else notNull)) seen
  | .consume rest =>
      match s.httpResponse with
      | none => s.goto i (.returned .threw) seen
      | some ref =>
          (s.discard ref).goto i (.after rest)
            (if (s.entityOf ref).isSome then { seen with consumedFrom := some ref } else seen)

def step (calls : Fin N → EntryPoint) (s : HttpThreads B N) :
    Fin N × HttpAct B → Option (HttpThreads B N)
  | (i, .create ok) =>
      match (s.thread i).pc with
      | .start => some (s.goto i (if ok then .executing else .returned .threw) (s.thread i).seen)
      | _ => none
  | (i, .execute outcome) =>
      match (s.thread i).pc, outcome with
      | .executing, some response =>
          some { (s.goto i (.after (calls i).call.stored)
              { (s.thread i).seen with own := some s.responses.length }) with
            httpResponse := some s.responses.length
            responses := s.responses ++ [response] }
      | .executing, none => some (s.goto i (.after (calls i).call.thrown) (s.thread i).seen)
      | _, _ => none
  | (i, .access) =>
      match (s.thread i).pc with
      | .after rest => some (s.accessField i (s.thread i).seen rest)
      | .reading ref k =>
          some ((s.discard ref).goto i (.after (k (s.contentOf ref))) (s.thread i).seen)
      | _ => none

/-- **What a step does.** -/
theorem step_cases {calls : Fin N → EntryPoint} {s s' : HttpThreads B N} {i : Fin N}
    {act : HttpAct B} (h : s.step calls (i, act) = some s') :
    (∃ ok, act = .create ok ∧ (s.thread i).pc = .start ∧
      s' = s.goto i (if ok then .executing else .returned .threw) (s.thread i).seen) ∨
    (∃ response, act = .execute (some response) ∧ (s.thread i).pc = .executing ∧
      s' = { (s.goto i (.after (calls i).call.stored)
          { (s.thread i).seen with own := some s.responses.length }) with
        httpResponse := some s.responses.length
        responses := s.responses ++ [response] }) ∨
    (act = .execute none ∧ (s.thread i).pc = .executing ∧
      s' = s.goto i (.after (calls i).call.thrown) (s.thread i).seen) ∨
    (∃ rest, act = .access ∧ (s.thread i).pc = .after rest ∧
      s' = s.accessField i (s.thread i).seen rest) ∨
    ∃ ref k, act = .access ∧ (s.thread i).pc = .reading ref k ∧
      s' = (s.discard ref).goto i (.after (k (s.contentOf ref))) (s.thread i).seen := by
  cases act with
  | create ok =>
      simp only [step] at h
      split at h
      · next hpc => exact .inl ⟨ok, rfl, hpc, (Option.some.inj h).symm⟩
      · cases h
  | execute outcome =>
      simp only [step] at h
      split at h
      · next response hpc => exact .inr (.inl ⟨response, rfl, hpc, (Option.some.inj h).symm⟩)
      · next hpc => exact .inr (.inr (.inl ⟨rfl, hpc, (Option.some.inj h).symm⟩))
      · cases h
  | access =>
      simp only [step] at h
      split at h
      · next rest hpc =>
          exact .inr (.inr (.inr (.inl ⟨rest, rfl, hpc, (Option.some.inj h).symm⟩)))
      · next ref k hpc =>
          exact .inr (.inr (.inr (.inr ⟨ref, k, rfl, hpc, (Option.some.inj h).symm⟩)))
      · cases h

/-- An access moves its own call and may discard the response in the field;
whose response is whose does not change. -/
theorem accessField_cases (s : HttpThreads B N) (i : Fin N) (seen : Seen) (rest : After B) :
    ∃ pc seen', seen'.own = seen.own ∧ (s.accessField i seen rest = s.goto i pc seen' ∨
      ∃ ref, s.accessField i seen rest = (s.discard ref).goto i pc seen') := by
  cases rest with
  | done r => exact ⟨_, _, rfl, .inl rfl⟩
  | status npe k =>
      simp only [accessField]
      split
      · exact ⟨_, _, rfl, .inl rfl⟩
      · refine ⟨_, _, ?_, .inl rfl⟩
        rfl
  | entity npe absent k =>
      simp only [accessField]
      split
      · exact ⟨_, _, rfl, .inl rfl⟩
      · refine ⟨_, _, ?_, .inl rfl⟩
        rfl
  | check isNull notNull => exact ⟨_, _, rfl, .inl rfl⟩
  | consume rest =>
      simp only [accessField]
      split
      · exact ⟨_, _, rfl, .inl rfl⟩
      · next ref _ =>
          refine ⟨_, _, ?_, .inr ⟨ref, rfl⟩⟩
          split
          · rfl
          · rfl

end HttpThreads

/-- `N` calls of the entry points; the field starts null. -/
def httpThreads (B : Type) (calls : Fin N → EntryPoint) :
    Lib.Machine (HttpThreads B N) (Fin N × HttpAct B) where
  init := ⟨none, [], fun _ => ⟨.start, ⟨none, none, none, none⟩⟩⟩
  step := HttpThreads.step calls

/-! ## 2. Undisturbed runs -/

/-- A response is stored only while no call is in its window, and a call
stores none only while none was ever stored. -/
def Undisturbed (s : HttpThreads B N) : Fin N × HttpAct B → Prop
  | (_, .execute (some _)) => ∀ j, (s.thread j).pc.inWindow = false
  | (_, .execute none) => s.httpResponse = none
  | _ => True

instance (s : HttpThreads B N) : ∀ a, Decidable (Undisturbed s a)
  | (_, .execute (some _)) =>
      inferInstanceAs (Decidable (∀ j, (s.thread j).pc.inWindow = false))
  | (_, .execute none) => inferInstanceAs (Decidable (s.httpResponse = none))
  | (_, .create _) => isTrue trivial
  | (_, .access) => isTrue trivial

/-- What is true of one call: in its window the field holds its own response,
and it has touched no other. -/
structure CallInv (field : Option Nat) (t : HttpThread B) : Prop where
  window : t.pc.inWindow = true → t.seen.own = field
  reading : ∀ ref k, t.pc = .reading ref k → t.seen.own = some ref
  early : t.pc = .start ∨ t.pc = .executing → t.seen = ⟨none, none, none, none⟩
  ownOnly : t.seen.OwnOnly

def HttpInv (s : HttpThreads B N) : Prop := ∀ i, CallInv s.httpResponse (s.thread i)

/-- Moving one call, with the field as it was. -/
theorem HttpInv.goto {s : HttpThreads B N} (h : HttpInv s) {i : Fin N} {pc : CallPc B}
    {seen : Seen} (hi : CallInv s.httpResponse ⟨pc, seen⟩) : HttpInv (s.goto i pc seen) := by
  intro j
  by_cases hj : j = i
  · subst hj; simpa [HttpThreads.goto] using hi
  · simpa [HttpThreads.goto, hj] using h j

/-- A call that goes on in its window with the same record. -/
theorem CallInv.after {field : Option Nat} {t : HttpThread B} (h : CallInv field t)
    (hwindow : t.pc.inWindow = true) (rest : After B) : CallInv field ⟨.after rest, t.seen⟩ where
  window := fun _ => h.window hwindow
  reading := by simp
  early := by simp
  ownOnly := h.ownOnly

theorem CallInv.returned {field : Option Nat} {t : HttpThread B} (h : CallInv field t)
    (r : Result B) : CallInv field ⟨.returned r, t.seen⟩ where
  window := by simp [CallPc.inWindow]
  reading := by simp
  early := by simp
  ownOnly := h.ownOnly

/-- A field access of a call in its window. -/
theorem HttpInv.accessField {s : HttpThreads B N} (h : HttpInv s) {i : Fin N} {rest : After B}
    (hpc : (s.thread i).pc = .after rest) :
    HttpInv (s.accessField i (s.thread i).seen rest) := by
  have hi := h i
  cases rest with
  | done r => exact h.goto (hi.returned r)
  | status npe k =>
      have hwindow : (s.thread i).pc.inWindow = true := by rw [hpc]; rfl
      simp only [HttpThreads.accessField]
      split
      · exact h.goto (hi.after hwindow npe)
      · refine h.goto ⟨fun _ => hi.window hwindow, by simp, by simp, ?_⟩
        rintro r (hr | hr)
        · exact (hi.window hwindow).trans hr
        · exact hi.ownOnly r (Or.inr hr)
  | entity npe absent k =>
      have hwindow : (s.thread i).pc.inWindow = true := by rw [hpc]; rfl
      simp only [HttpThreads.accessField]
      split
      · exact h.goto (hi.after hwindow npe)
      · rename_i ref hfield
        have hown : (s.thread i).seen.own = some ref := (hi.window hwindow).trans hfield
        have honly : Seen.OwnOnly { (s.thread i).seen with entityFrom := some ref } := by
          rintro r (hr | hr | hr)
          · exact hi.ownOnly r (Or.inl hr)
          · exact hown.trans hr
          · exact hi.ownOnly r (Or.inr (Or.inr hr))
        split
        · refine h.goto ⟨fun _ => hi.window hwindow, ?_, by simp, honly⟩
          intro ref' k' heq
          cases heq
          exact hown
        · exact h.goto ⟨fun _ => hi.window hwindow, by simp, by simp, honly⟩
  | check isNull notNull =>
      have hwindow : (s.thread i).pc.inWindow = true := by rw [hpc]; rfl
      exact h.goto (hi.after hwindow _)
  | consume rest =>
      have hwindow : (s.thread i).pc.inWindow = true := by rw [hpc]; rfl
      simp only [HttpThreads.accessField]
      split
      · exact h.goto (hi.returned .threw)
      · rename_i ref hfield
        have hown : (s.thread i).seen.own = some ref := (hi.window hwindow).trans hfield
        have hdiscard : HttpInv (s.discard ref) := h
        refine hdiscard.goto ⟨?_, by simp, by simp, ?_⟩
        · intro _
          split
          · exact hi.window hwindow
          · exact hi.window hwindow
        · split
          · rintro r (hr | hr | hr)
            · exact hi.ownOnly r (Or.inl hr)
            · exact hi.ownOnly r (Or.inr (Or.inl hr))
            · exact hown.trans hr
          · exact hi.ownOnly

/-- **One step.** Every undisturbed step keeps the invariant. -/
theorem HttpInv.step {calls : Fin N → EntryPoint} {s s' : HttpThreads B N}
    {a : Fin N × HttpAct B} (h : HttpInv s) (hundisturbed : Undisturbed s a)
    (hstep : s.step calls a = some s') : HttpInv s' := by
  obtain ⟨i, act⟩ := a
  have hi := h i
  obtain ⟨ok, rfl, hpc, rfl⟩ | ⟨response, rfl, hpc, rfl⟩ | ⟨rfl, hpc, rfl⟩ | ⟨rest, rfl, hpc, rfl⟩ |
    ⟨ref, k, rfl, hpc, rfl⟩ := HttpThreads.step_cases hstep
  · cases ok with
    | true => exact h.goto ⟨by simp [CallPc.inWindow], by simp, fun _ => hi.early (.inl hpc),
        hi.ownOnly⟩
    | false => exact h.goto (hi.returned .threw)
  · -- the new response: nobody else looks for an old one
    have hseen := hi.early (.inr hpc)
    intro j
    by_cases hj : j = i
    · subst hj
      simp only [HttpThreads.goto, Function.update_self, hseen]
      exact ⟨fun _ => rfl, by simp, by simp, by simp [Seen.OwnOnly]⟩
    · have hout := hundisturbed j
      simp only [HttpThreads.goto, Function.update_of_ne hj]
      exact ⟨by simp [hout], (h j).reading, (h j).early, (h j).ownOnly⟩
  · -- nothing was stored: the field is null, as is the call's own response
    have hseen := hi.early (.inr hpc)
    have hnull : s.httpResponse = none := hundisturbed
    exact h.goto ⟨fun _ => by rw [hseen, hnull], by simp, by simp, hi.ownOnly⟩
  · exact h.accessField hpc
  · have hdiscard : HttpInv (s.discard ref) := h
    exact hdiscard.goto (hi.after (by rw [hpc]; rfl) _)

theorem httpInv_of_exec (calls : Fin N → EntryPoint) : ∀ run (s : HttpThreads B N),
    (httpThreads B calls).Along Undisturbed (httpThreads B calls).init run →
    (httpThreads B calls).exec (httpThreads B calls).init run = some s → HttpInv s := by
  refine Machine.along_induction _ ?_ ?_
  · exact fun j => ⟨by simp [httpThreads, CallPc.inWindow], by simp [httpThreads],
      fun _ => rfl, by simp [httpThreads, Seen.OwnOnly]⟩
  · intro run s a s' _ hinv hundisturbed hstep
    exact hinv.step hundisturbed hstep

/-! ## 3. Responses are fresh -/

/-- No two calls own one response. -/
structure FreshInv (s : HttpThreads B N) : Prop where
  obtained : ∀ i r, (s.thread i).seen.own = some r → r < s.responses.length
  distinct : ∀ i j r, (s.thread i).seen.own = some r → (s.thread j).seen.own = some r → i = j

/-- A move that keeps the call's own response. -/
theorem FreshInv.goto {s : HttpThreads B N} (h : FreshInv s) {i : Fin N} {pc : CallPc B}
    {seen : Seen} (hown : seen.own = (s.thread i).seen.own) : FreshInv (s.goto i pc seen) := by
  have hsame : ∀ j, ((s.goto i pc seen).thread j).seen.own = (s.thread j).seen.own := by
    intro j
    by_cases hj : j = i
    · subst hj; simpa [HttpThreads.goto] using hown
    · simp [HttpThreads.goto, hj]
  refine ⟨?_, ?_⟩
  · intro j r hj
    rw [hsame] at hj
    exact h.obtained j r hj
  · intro j k r hj hk
    rw [hsame] at hj hk
    exact h.distinct j k r hj hk

theorem FreshInv.discard {s : HttpThreads B N} (h : FreshInv s) (ref : Nat) :
    FreshInv (s.discard ref) where
  obtained := fun i r hi => by simpa using h.obtained i r hi
  distinct := h.distinct

theorem FreshInv.step {calls : Fin N → EntryPoint} {s s' : HttpThreads B N}
    {a : Fin N × HttpAct B} (h : FreshInv s) (hstep : s.step calls a = some s') : FreshInv s' := by
  obtain ⟨i, act⟩ := a
  obtain ⟨ok, rfl, hpc, rfl⟩ | ⟨response, rfl, hpc, rfl⟩ | ⟨rfl, hpc, rfl⟩ | ⟨rest, rfl, hpc, rfl⟩ |
    ⟨ref, k, rfl, hpc, rfl⟩ := HttpThreads.step_cases hstep
  · exact h.goto rfl
  · have hold : ∀ j r, j ≠ i → (s.thread j).seen.own = some r → r ≠ s.responses.length :=
      fun j r _ hj => (h.obtained j r hj).ne
    refine ⟨?_, ?_⟩
    · intro j r hj
      rw [List.length_append, List.length_singleton]
      by_cases hji : j = i
      · subst hji
        simp only [HttpThreads.goto, Function.update_self, Option.some_inj] at hj
        omega
      · simp only [HttpThreads.goto, Function.update_of_ne hji] at hj
        exact Nat.lt_succ_of_lt (h.obtained j r hj)
    · intro j k r hj hk
      by_cases hji : j = i
      · by_cases hki : k = i
        · rw [hji, hki]
        · subst hji
          simp only [HttpThreads.goto, Function.update_self, Option.some_inj] at hj
          simp only [HttpThreads.goto, Function.update_of_ne hki] at hk
          exact absurd hj.symm (hold k r hki hk)
      · by_cases hki : k = i
        · subst hki
          simp only [HttpThreads.goto, Function.update_self, Option.some_inj] at hk
          simp only [HttpThreads.goto, Function.update_of_ne hji] at hj
          exact absurd hk.symm (hold j r hji hj)
        · simp only [HttpThreads.goto, Function.update_of_ne hji] at hj
          simp only [HttpThreads.goto, Function.update_of_ne hki] at hk
          exact h.distinct j k r hj hk
  · exact h.goto rfl
  · obtain ⟨pc, seen, hown, heq | ⟨ref, heq⟩⟩ := s.accessField_cases i (s.thread i).seen rest
    · rw [heq]
      exact h.goto hown
    · rw [heq]
      exact (h.discard ref).goto hown
  · exact (h.discard ref).goto rfl

/-- Whatever the interleaving, a response belongs to one call. -/
theorem own_injective {calls : Fin N → EntryPoint} {s : HttpThreads B N}
    (h : (httpThreads B calls).Reachable s) {i j : Fin N} {r : Nat}
    (hi : (s.thread i).seen.own = some r) (hj : (s.thread j).seen.own = some r) : i = j := by
  have hinit : FreshInv (httpThreads B calls).init := ⟨by simp [httpThreads], by simp [httpThreads]⟩
  have hinv := (httpThreads B calls).reachable_invariant hinit (fun _ _ _ h hst => h.step hst) h
  exact hinv.distinct i j r hi hj

/-! ## 4. No cross-talk -/

/-- **When calls do not interfere.** In every undisturbed run every call,
returned or not, has taken its status and its body from its own response and
consumed no other, and no two calls have one response. -/
theorem noCrossTalk (calls : Fin N → EntryPoint) (run : List (Fin N × HttpAct B))
    (s : HttpThreads B N)
    (hexec : (httpThreads B calls).exec (httpThreads B calls).init run = some s)
    (hundisturbed : (httpThreads B calls).Along Undisturbed (httpThreads B calls).init run)
    (i : Fin N) :
    (s.thread i).seen.OwnOnly ∧
      ∀ j r, (s.thread i).seen.own = some r → (s.thread j).seen.own = some r → i = j :=
  ⟨(httpInv_of_exec calls run s hundisturbed hexec i).ownOnly,
    fun _ _ hi hj => own_injective ⟨run, hexec⟩ hi hj⟩

/-- A response with a readable body. -/
def okResponse (text : String) : HttpResponse String := ⟨200, some ⟨some text, false⟩⟩

/-- The second call executes when the first is done with its response. -/
theorem posts_one_after_another :
    ∃ s, (httpThreads String fun _ : Fin 2 => .post).exec
        (httpThreads String fun _ : Fin 2 => .post).init
        [(0, .create true), (1, .create true), (0, .execute (some (okResponse "a"))),
          (0, .access), (0, .access), (0, .access), (0, .access), (0, .access), (0, .access),
          (1, .execute (some (okResponse "b")))] = some s ∧
      (s.thread 0).pc = .returned (.body "a") ∧ (s.thread 0).seen.OwnOnly ∧
        ∀ j r, (s.thread 0).seen.own = some r → (s.thread j).seen.own = some r → 0 = j :=
  ⟨_, rfl, rfl, noCrossTalk (fun _ => .post)
    [(0, .create true), (1, .create true), (0, .execute (some (okResponse "a"))),
      (0, .access), (0, .access), (0, .access), (0, .access), (0, .access), (0, .access),
      (1, .execute (some (okResponse "b")))] _ rfl (by decide) 0⟩

/-- The second call stores its response before the first has read its own:
the first returns the body of the second. -/
theorem posts_swap_bodies :
    ¬ ∀ run s, (httpThreads String fun _ : Fin 2 => .post).exec
        (httpThreads String fun _ : Fin 2 => .post).init run = some s →
      ∀ i r, (s.thread i).pc = .returned r → (s.thread i).seen.OwnOnly := by
  intro h
  have honly := h [(0, .create true), (1, .create true), (0, .execute (some (okResponse "a"))),
    (1, .execute (some (okResponse "b"))), (0, .access), (0, .access), (0, .access),
    (0, .access), (0, .access), (0, .access)] _ rfl 0 (.body "b") rfl
  have hstatus := honly 1 (Or.inl rfl)
  cases hstatus

end SpringDome.Net
