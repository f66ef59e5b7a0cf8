/-
SpringDome.Lib.Machine — deterministic labelled machines and their runs.

A `Machine` has one initial state and a partial step function; every
choice the environment makes (which thread moves, what a server answers)
is in the label. A run is a list of labels, `exec` plays it, and a state is
`Reachable` when some run from the initial state ends in it.

Two induction rules carry every result about runs:

* `exec_induction` — a property of (run so far, state) that holds at the
  start and is kept by each step holds at the end of every run;
* `along_induction` — the same for runs all of whose steps meet a guard
  `P` at the state they leave (`Along`).
-/
import Mathlib.Data.List.Induction

namespace SpringDome.Lib

universe u v

/-- A machine: one start state, and a step function that answers `none`
when the label is not enabled. -/
structure Machine (σ : Type u) (α : Type v) where
  init : σ
  step : σ → α → Option σ

namespace Machine

variable {σ : Type u} {α : Type v} (M : Machine σ α)

/-! ## Runs -/

/-- Play a list of labels from a state. -/
def exec : σ → List α → Option σ
  | s, [] => some s
  | s, a :: as => (M.step s a).bind fun s' => exec s' as

/-- Some run from the start state ends in `s`. -/
def Reachable (s : σ) : Prop := ∃ as, M.exec M.init as = some s

/-- Some label is enabled in `s`. -/
def CanStep (s : σ) : Prop := ∃ a s', M.step s a = some s'

theorem canStep_of_isSome {s : σ} (a : α) (h : (M.step s a).isSome = true) : M.CanStep s :=
  ⟨a, Option.isSome_iff_exists.mp h⟩

@[simp] theorem exec_nil (s : σ) : M.exec s [] = some s := rfl

theorem exec_cons (s : σ) (a : α) (as : List α) :
    M.exec s (a :: as) = (M.step s a).bind fun s' => M.exec s' as := rfl

theorem exec_cons_of_step {s s' : σ} {a : α} (h : M.step s a = some s') (as : List α) :
    M.exec s (a :: as) = M.exec s' as := by
  rw [exec_cons, h, Option.bind_some]

theorem exec_append (s : σ) (as bs : List α) :
    M.exec s (as ++ bs) = (M.exec s as).bind fun t => M.exec t bs := by
  induction as generalizing s with
  | nil => rfl
  | cons a as ih =>
      rw [List.cons_append, exec_cons, exec_cons]
      cases M.step s a with
      | none => rfl
      | some s' => simpa using ih s'

theorem exec_append_of_exec {s t : σ} {as : List α} (h : M.exec s as = some t) (bs : List α) :
    M.exec s (as ++ bs) = M.exec t bs := by
  rw [exec_append, h, Option.bind_some]

/-- A run that ends with one more label. -/
theorem exec_concat_eq_some {s t : σ} {as : List α} {a : α} :
    M.exec s (as ++ [a]) = some t ↔ ∃ m, M.exec s as = some m ∧ M.step m a = some t := by
  rw [exec_append]
  cases M.exec s as with
  | none => simp
  | some m =>
      rw [Option.bind_some, exec_cons]
      cases hstep : M.step m a with
      | none => simp [hstep]
      | some t' => simp [hstep]

/-- One label again and again, until it is no longer enabled, ends in one
state. -/
theorem exec_replicate_unique {s t t' : σ} {a : α} {n m : Nat}
    (h : M.exec s (List.replicate n a) = some t) (hstuck : M.step t a = none)
    (h' : M.exec s (List.replicate m a) = some t') (hstuck' : M.step t' a = none) : t = t' := by
  induction n generalizing s m with
  | zero =>
      obtain rfl := Option.some.inj h
      cases m with
      | zero => exact Option.some.inj h'
      | succ m =>
          rw [List.replicate_succ, exec_cons, hstuck] at h'
          cases h'
  | succ n ih =>
      rw [List.replicate_succ, exec_cons] at h
      obtain ⟨s', hstep, h⟩ := Option.bind_eq_some_iff.mp h
      cases m with
      | zero =>
          obtain rfl := Option.some.inj h'
          rw [hstuck'] at hstep
          cases hstep
      | succ m =>
          rw [List.replicate_succ, M.exec_cons_of_step hstep] at h'
          exact ih h h'

/-! ## Induction along runs -/

/-- Induction on a run, one step appended at a time. -/
theorem exec_induction {motive : List α → σ → Prop} (nil : motive [] M.init)
    (snoc : ∀ as s a s', M.exec M.init as = some s → motive as s →
      M.step s a = some s' → motive (as ++ [a]) s') :
    ∀ as s, M.exec M.init as = some s → motive as s := by
  intro as
  induction as using List.reverseRecOn with
  | nil =>
      intro s h
      cases h
      exact nil
  | append_singleton as a ih =>
      intro s h
      obtain ⟨m, hm, hstep⟩ := M.exec_concat_eq_some.mp h
      exact snoc as m a s hm (ih m hm) hstep

/-- An invariant holds in every reachable state. -/
theorem reachable_invariant {I : σ → Prop} (hinit : I M.init)
    (hstep : ∀ s a s', I s → M.step s a = some s' → I s') {s : σ} (h : M.Reachable s) : I s := by
  obtain ⟨as, has⟩ := h
  exact M.exec_induction hinit
    (fun _ s a s' _ hs hst => hstep s a s' hs hst) as s has

/-! ## Guarded runs -/

/-- Every step of the run meets `P` at the state it is taken from. -/
def Along (P : σ → α → Prop) : σ → List α → Prop
  | _, [] => True
  | s, a :: as => P s a ∧ ∀ s', M.step s a = some s' → Along P s' as

instance decidableAlong {P : σ → α → Prop} [∀ s a, Decidable (P s a)] :
    ∀ (s : σ) (as : List α), Decidable (M.Along P s as)
  | _, [] => isTrue trivial
  | s, a :: as =>
      match h : M.step s a with
      | none => decidable_of_iff (P s a) (by simp [Along, h])
      | some s' =>
          have : Decidable (M.Along P s' as) := decidableAlong s' as
          decidable_of_iff (P s a ∧ M.Along P s' as) (by simp [Along, h])

theorem along_append {P : σ → α → Prop} {s : σ} {as bs : List α} :
    M.Along P s (as ++ bs) ↔
      M.Along P s as ∧ ∀ t, M.exec s as = some t → M.Along P t bs := by
  induction as generalizing s with
  | nil => simp [Along]
  | cons a as ih =>
      simp only [List.cons_append, Along, exec_cons]
      cases M.step s a with
      | none => simp
      | some s' => simp [ih, and_assoc]

/-- Induction on a guarded run, one step appended at a time. -/
theorem along_induction {P : σ → α → Prop} {motive : List α → σ → Prop}
    (nil : motive [] M.init)
    (snoc : ∀ as s a s', M.exec M.init as = some s → motive as s → P s a →
      M.step s a = some s' → motive (as ++ [a]) s') :
    ∀ as s, M.Along P M.init as → M.exec M.init as = some s → motive as s := by
  intro as
  induction as using List.reverseRecOn with
  | nil =>
      intro s _ h
      cases h
      exact nil
  | append_singleton as a ih =>
      intro s hP h
      obtain ⟨m, hm, hstep⟩ := M.exec_concat_eq_some.mp h
      obtain ⟨hPas, hPa⟩ := M.along_append.mp hP
      exact snoc as m a s hm (ih m hPas hm) (hPa m hm).1 hstep

end Machine

end SpringDome.Lib
