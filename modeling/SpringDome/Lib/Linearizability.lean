/-
SpringDome.Lib.Linearizability — concurrent calls on one object, and the
rule that proves them atomic.

Calls are named by `ι`, each made at most once, and `op i` says what call `i`
asks for. `Linearizes` is the usual definition: one order of calls that
contains every answered one, replays to the answers given, and respects
real time.

The rule is a refinement. In the machine `atomicObject` every call takes
effect in one step of its own (`commit`), somewhere between its invocation
and its response, and `atomicObject_linearizes` says that the order of the
commits linearizes every run. An implementation whose runs have the
histories of runs of `atomicObject` is then linearizable, and its proof is
the choice of the step at which each call commits.
-/
import SpringDome.Lib.Machine
import Mathlib.Data.List.Sublists

namespace SpringDome.Lib

variable {ι Op Ret σ : Type}

/-! ## 1. Histories -/

inductive Event (ι Ret : Type) where
  | invoke (i : ι)
  | respond (i : ι) (r : Ret)
  deriving DecidableEq, Repr

/-- A sequential object: one call at a time. -/
structure Sequential (σ Op Ret : Type) where
  init : σ
  apply : σ → Op → σ × Ret

/-- Call `i` was answered before call `j` was made. -/
def Precedes (h : List (Event ι Ret)) (i j : ι) : Prop :=
  ∃ h₁ h₂ r, h = h₁ ++ h₂ ∧ .respond i r ∈ h₁ ∧ .invoke j ∈ h₂

theorem not_precedes_nil (i j : ι) : ¬ Precedes ([] : List (Event ι Ret)) i j := by
  rintro ⟨h₁, h₂, r, heq, hi, -⟩
  rw [(List.append_eq_nil_iff.mp heq.symm).1] at hi
  cases hi

/-- A call made now comes after every call answered so far. -/
theorem precedes_concat {h : List (Event ι Ret)} {e : Event ι Ret} {i j : ι} :
    Precedes (h ++ [e]) i j → Precedes h i j ∨ e = .invoke j ∧ ∃ r, .respond i r ∈ h := by
  rintro ⟨h₁, h₂, r, heq, hi, hj⟩
  rcases List.eq_nil_or_concat h₂ with rfl | ⟨h₂', e', rfl⟩
  · cases hj
  rw [List.concat_eq_append] at heq hj
  rw [← List.append_assoc] at heq
  obtain ⟨rfl, he⟩ := List.append_inj' heq rfl
  cases he
  rcases List.mem_append.mp hj with hj | hj
  · exact Or.inl ⟨h₁, h₂', r, rfl, hi, hj⟩
  · exact Or.inr ⟨(List.mem_singleton.mp hj).symm, r, List.mem_append_left _ hi⟩

/-! ## 2. Sequential orders -/

namespace Sequential

variable (obj : Sequential σ Op Ret) (op : ι → Op)

/-- The object after the calls of an order, one after the other. -/
def after (order : List ι) : σ :=
  order.foldl (fun v i => (obj.apply v (op i)).1) obj.init

@[simp] theorem after_nil : obj.after op [] = obj.init := rfl

@[simp] theorem after_concat (order : List ι) (i : ι) :
    obj.after op (order ++ [i]) = (obj.apply (obj.after op order) (op i)).1 := by
  simp [after]

/-- Call `i` stands in the order and answers `r` there. -/
def Answers (order : List ι) (i : ι) (r : Ret) : Prop :=
  ∃ before later, order = before ++ i :: later ∧ (obj.apply (obj.after op before) (op i)).2 = r

variable {obj op}

theorem Answers.mem {order : List ι} {i : ι} {r : Ret} (h : obj.Answers op order i r) :
    i ∈ order := by
  obtain ⟨before, later, rfl, -⟩ := h
  simp

theorem Answers.concat {order : List ι} {i : ι} {r : Ret} (h : obj.Answers op order i r)
    (j : ι) : obj.Answers op (order ++ [j]) i r := by
  obtain ⟨before, later, rfl, hr⟩ := h
  exact ⟨before, later ++ [j], by simp, hr⟩

/-- A property of the object that every call of the order keeps. -/
theorem after_induction (P : σ → Prop) (hinit : P obj.init) {order : List ι}
    (hstep : ∀ i ∈ order, ∀ v, P v → P (obj.apply v (op i)).1) : P (obj.after op order) := by
  induction order using List.reverseRecOn with
  | nil => exact hinit
  | append_singleton order i ih =>
      rw [after_concat]
      exact hstep i (by simp) _ (ih fun j hj => hstep j (by simp [hj]))

variable (obj op)

/-- The order of calls explains the history. -/
structure Linearizes (h : List (Event ι Ret)) (order : List ι) : Prop where
  nodup : order.Nodup
  invoked : ∀ i ∈ order, .invoke i ∈ h
  answers : ∀ i r, .respond i r ∈ h → obj.Answers op order i r
  realTime : ∀ i j, Precedes h i j → j ∈ order → [i, j].Sublist order

end Sequential

/-! ## 3. The atomic object -/

/-- Where a call is: it commits between its invocation and its response. -/
inductive Phase (Ret : Type) where
  | outside
  | pending
  | committed (r : Ret)
  | returned
  deriving DecidableEq, Repr

/-- The call has taken effect. -/
def Phase.tookEffect : Phase Ret → Bool
  | .committed _ | .returned => true
  | _ => false

inductive AtomicAct (ι Ret : Type) where
  | invoke (i : ι)
  | commit (i : ι)
  | respond (i : ι) (r : Ret)
  deriving DecidableEq, Repr

structure AtomicState (ι Ret σ : Type) where
  value : σ
  phase : ι → Phase Ret

/-- What the callers see of a run. -/
def AtomicAct.event? : AtomicAct ι Ret → Option (Event ι Ret)
  | .invoke i => some (.invoke i)
  | .commit _ => none
  | .respond i r => some (.respond i r)

def AtomicAct.commit? : AtomicAct ι Ret → Option ι
  | .commit i => some i
  | _ => none

def AtomicAct.history (run : List (AtomicAct ι Ret)) : List (Event ι Ret) :=
  run.filterMap AtomicAct.event?

def AtomicAct.commits (run : List (AtomicAct ι Ret)) : List ι := run.filterMap AtomicAct.commit?

section Atomic

variable [DecidableEq ι]

/-- Every call takes effect in one step. -/
def atomicObject [DecidableEq Ret] (obj : Sequential σ Op Ret) (op : ι → Op) :
    Machine (AtomicState ι Ret σ) (AtomicAct ι Ret) where
  init := ⟨obj.init, fun _ => .outside⟩
  step s
    | .invoke i =>
        if s.phase i = .outside then
          some { s with phase := Function.update s.phase i .pending }
        else none
    | .commit i =>
        if s.phase i = .pending then
          some ⟨(obj.apply s.value (op i)).1,
            Function.update s.phase i (.committed (obj.apply s.value (op i)).2)⟩
        else none
    | .respond i r =>
        if s.phase i = .committed r then
          some { s with phase := Function.update s.phase i .returned }
        else none

/-- What a run of the atomic object has done, in terms of the order of its
commits. -/
structure AtomicInv (obj : Sequential σ Op Ret) (op : ι → Op) (run : List (AtomicAct ι Ret))
    (s : AtomicState ι Ret σ) : Prop where
  value_eq : s.value = obj.after op (AtomicAct.commits run)
  invoked_iff : ∀ i, .invoke i ∈ AtomicAct.history run ↔ s.phase i ≠ .outside
  commits_iff : ∀ i, i ∈ AtomicAct.commits run ↔ (s.phase i).tookEffect = true
  committed : ∀ i r, s.phase i = .committed r → obj.Answers op (AtomicAct.commits run) i r
  linearizes : obj.Linearizes op (AtomicAct.history run) (AtomicAct.commits run)

variable {obj : Sequential σ Op Ret} {op : ι → Op}

theorem atomicInv_init [DecidableEq Ret] : AtomicInv obj op [] (atomicObject obj op).init where
  value_eq := rfl
  invoked_iff := by simp [AtomicAct.history, atomicObject]
  commits_iff := by simp [AtomicAct.commits, atomicObject, Phase.tookEffect]
  committed := by simp [atomicObject]
  linearizes := {
    nodup := List.nodup_nil
    invoked := by simp [AtomicAct.commits]
    answers := by simp [AtomicAct.history]
    realTime := fun i j h => absurd h (not_precedes_nil i j) }

theorem AtomicInv.invoke {run : List (AtomicAct ι Ret)} {s : AtomicState ι Ret σ}
    (h : AtomicInv obj op run s) {i : ι} (hi : s.phase i = .outside) :
    AtomicInv obj op (run ++ [.invoke i])
      { s with phase := Function.update s.phase i .pending } := by
  have hcommits : AtomicAct.commits (run ++ [.invoke i]) = AtomicAct.commits run := by
    simp [AtomicAct.commits, AtomicAct.commit?]
  have hhistory : AtomicAct.history (run ++ [.invoke i]) =
      AtomicAct.history run ++ [.invoke i] := by
    simp [AtomicAct.history, AtomicAct.event?]
  refine ⟨by rw [hcommits]; exact h.value_eq, ?_, ?_, ?_, ?_⟩
  · intro j
    rw [hhistory]
    by_cases hj : j = i
    · subst hj; simp
    · simp [hj, h.invoked_iff j]
  · intro j
    rw [hcommits]
    by_cases hj : j = i
    · subst hj; simp [h.commits_iff j, hi, Phase.tookEffect]
    · simp [hj, h.commits_iff j]
  · intro j r hj
    rw [hcommits]
    by_cases hji : j = i
    · subst hji; simp at hj
    · simp only [Function.update_of_ne hji] at hj
      exact h.committed j r hj
  · rw [hcommits, hhistory]
    exact {
      nodup := h.linearizes.nodup
      invoked := fun j hj => List.mem_append_left _ (h.linearizes.invoked j hj)
      answers := fun j r hj => h.linearizes.answers j r (by simpa using hj)
      realTime := by
        intro a b hab hb
        obtain hab | ⟨he, -⟩ := precedes_concat hab
        · exact h.linearizes.realTime a b hab hb
        · -- the call made now has not committed
          cases he
          have heffect := (h.commits_iff i).mp hb
          simp [hi, Phase.tookEffect] at heffect }

theorem AtomicInv.commit {run : List (AtomicAct ι Ret)} {s : AtomicState ι Ret σ}
    (h : AtomicInv obj op run s) {i : ι} (hi : s.phase i = .pending) :
    AtomicInv obj op (run ++ [.commit i]) ⟨(obj.apply s.value (op i)).1,
      Function.update s.phase i (.committed (obj.apply s.value (op i)).2)⟩ := by
  have hcommits : AtomicAct.commits (run ++ [.commit i]) = AtomicAct.commits run ++ [i] := by
    simp [AtomicAct.commits, AtomicAct.commit?]
  have hhistory : AtomicAct.history (run ++ [.commit i]) = AtomicAct.history run := by
    simp [AtomicAct.history, AtomicAct.event?]
  have hfresh : i ∉ AtomicAct.commits run := by
    rw [h.commits_iff, hi]
    simp [Phase.tookEffect]
  refine ⟨by rw [hcommits, Sequential.after_concat, h.value_eq], ?_, ?_, ?_, ?_⟩
  · intro j
    rw [hhistory, h.invoked_iff j]
    by_cases hj : j = i
    · subst hj; simp [hi]
    · simp [hj]
  · intro j
    rw [hcommits]
    by_cases hj : j = i
    · subst hj; simp [Phase.tookEffect]
    · simp [hj, h.commits_iff j]
  · intro j r hj
    rw [hcommits]
    by_cases hji : j = i
    · subst hji
      simp only [Function.update_self, Phase.committed.injEq] at hj
      exact ⟨AtomicAct.commits run, [], rfl, by rw [← h.value_eq]; exact hj⟩
    · simp only [Function.update_of_ne hji] at hj
      exact (h.committed j r hj).concat i
  · rw [hcommits, hhistory]
    exact {
      nodup := List.nodup_append.mpr ⟨h.linearizes.nodup, List.nodup_singleton i, by
        intro a ha b hb
        rw [List.mem_singleton.mp hb]
        exact fun hai => hfresh (hai ▸ ha)⟩
      invoked := by
        intro j hj
        rcases List.mem_append.mp hj with hj | hj
        · exact h.linearizes.invoked j hj
        · rw [List.mem_singleton.mp hj, h.invoked_iff, hi]
          simp
      answers := fun j r hj => (h.linearizes.answers j r hj).concat i
      realTime := by
        intro a b hab hb
        rcases List.mem_append.mp hb with hb | hb
        · exact (h.linearizes.realTime a b hab hb).trans (List.sublist_append_left _ _)
        · -- what was answered before has committed before
          obtain ⟨h₁, h₂, r, heq, ha, -⟩ := hab
          have ha' : .respond a r ∈ AtomicAct.history run := heq ▸ List.mem_append_left _ ha
          have hmem := (h.linearizes.answers a r ha').mem
          rw [List.mem_singleton.mp hb]
          exact (List.singleton_sublist.mpr hmem).append (List.Sublist.refl [i]) }

theorem AtomicInv.respond {run : List (AtomicAct ι Ret)} {s : AtomicState ι Ret σ}
    (h : AtomicInv obj op run s) {i : ι} {r : Ret} (hi : s.phase i = .committed r) :
    AtomicInv obj op (run ++ [.respond i r])
      { s with phase := Function.update s.phase i .returned } := by
  have hcommits : AtomicAct.commits (run ++ [.respond i r]) = AtomicAct.commits run := by
    simp [AtomicAct.commits, AtomicAct.commit?]
  have hhistory : AtomicAct.history (run ++ [.respond i r]) =
      AtomicAct.history run ++ [.respond i r] := by
    simp [AtomicAct.history, AtomicAct.event?]
  refine ⟨by rw [hcommits]; exact h.value_eq, ?_, ?_, ?_, ?_⟩
  · intro j
    rw [hhistory]
    by_cases hj : j = i
    · subst hj; simp [h.invoked_iff j, hi]
    · simp [hj, h.invoked_iff j]
  · intro j
    rw [hcommits]
    by_cases hj : j = i
    · subst hj; simp [h.commits_iff j, hi, Phase.tookEffect]
    · simp [hj, h.commits_iff j]
  · intro j r' hj
    rw [hcommits]
    by_cases hji : j = i
    · subst hji; simp at hj
    · simp only [Function.update_of_ne hji] at hj
      exact h.committed j r' hj
  · rw [hcommits, hhistory]
    exact {
      nodup := h.linearizes.nodup
      invoked := fun j hj => List.mem_append_left _ (h.linearizes.invoked j hj)
      answers := by
        intro j r' hj
        rcases List.mem_append.mp hj with hj | hj
        · exact h.linearizes.answers j r' hj
        · cases List.mem_singleton.mp hj
          exact h.committed i r hi
      realTime := by
        intro a b hab hb
        obtain hab | ⟨he, -⟩ := precedes_concat hab
        · exact h.linearizes.realTime a b hab hb
        · cases he }

theorem AtomicInv.step [DecidableEq Ret] {run : List (AtomicAct ι Ret)} {s s' : AtomicState ι Ret σ}
    {a : AtomicAct ι Ret} (h : AtomicInv obj op run s)
    (hstep : (atomicObject obj op).step s a = some s') : AtomicInv obj op (run ++ [a]) s' := by
  cases a with
  | invoke i =>
      simp only [atomicObject] at hstep
      split at hstep
      · cases hstep; exact h.invoke ‹_›
      · cases hstep
  | commit i =>
      simp only [atomicObject] at hstep
      split at hstep
      · cases hstep; exact h.commit ‹_›
      · cases hstep
  | respond i r =>
      simp only [atomicObject] at hstep
      split at hstep
      · cases hstep; exact h.respond ‹_›
      · cases hstep

/-- **The rule.** The commits of a run of the atomic object, in their order,
linearize its history, and they account for its value. -/
theorem atomicInv_of_exec [DecidableEq Ret] {run : List (AtomicAct ι Ret)} {s : AtomicState ι Ret σ}
    (h : (atomicObject obj op).exec (atomicObject obj op).init run = some s) :
    AtomicInv obj op run s :=
  (atomicObject obj op).exec_induction atomicInv_init
    (fun _ _ _ _ _ hinv hstep => hinv.step hstep) run s h

end Atomic

end SpringDome.Lib
