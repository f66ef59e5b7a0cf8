/-
SpringDome.Lib.Programs — programs that call operations, and what they run on.

A program calls an operation, sees its answer, and goes on as it likes with
that; in the end it has a result. A `Handler` performs the operations on a
state, or stops. Where one handler simulates another, no program can tell the
two apart (`Simulation.run_eq`).

Where an operation may answer in more than one way, a `History` is a run of
operations with what each answered.
-/
namespace SpringDome.Lib

universe u v w x

inductive Program {Op : Type u} (Answer : Op → Type v) (ρ : Type w) where
  | ret (result : ρ)
  | call (op : Op) (next : Answer op → Program Answer ρ)

/-- What performs operations: an answer and a new state, or why it stops. -/
def Handler {Op : Type u} (Answer : Op → Type v) (ε σ : Type x) : Type (max u v x) :=
  (op : Op) → σ → Except ε (Answer op × σ)

namespace Program

variable {Op : Type u} {Answer : Op → Type v} {ρ : Type w} {ε σ τ : Type x}

def run (H : Handler Answer ε σ) : Program Answer ρ → σ → Except ε ρ
  | .ret result, _ => .ok result
  | .call op next, s =>
      match H op s with
      | .ok (a, s) => (next a).run H s
      | .error e => .error e

/-- One operation, then the other program. -/
theorem run_call_ok {H : Handler Answer ε σ} {op : Op} {a : Answer op} {s s' : σ}
    (h : H op s = .ok (a, s')) (next : Answer op → Program Answer ρ) :
    (Program.call op next).run H s = (next a).run H s' := by
  rw [run, h]

theorem run_call_error {H : Handler Answer ε σ} {op : Op} {s : σ} {e : ε}
    (h : H op s = .error e) (next : Answer op → Program Answer ρ) :
    (Program.call op next).run H s = .error e := by
  rw [run, h]

end Program

variable {Op : Type u} {Answer : Op → Type v} {ρ : Type w} {ε σ τ : Type x}

/-- One answer, and states that are related; or one reason to stop. -/
def Agree {α : Type v} (R : σ → τ → Prop) : Except ε (α × σ) → Except ε (α × τ) → Prop
  | .ok (a, s), .ok (b, t) => a = b ∧ R s t
  | .error e, .error f => e = f
  | _, _ => False

def Simulation (H : Handler Answer ε σ) (K : Handler Answer ε τ) (R : σ → τ → Prop) : Prop :=
  ∀ op s t, R s t → Agree R (H op s) (K op t)

/-- A program cannot tell a handler from one that simulates it. -/
theorem Simulation.run_eq {H : Handler Answer ε σ} {K : Handler Answer ε τ} {R : σ → τ → Prop}
    (h : Simulation H K R) (p : Program Answer ρ) {s : σ} {t : τ} (hst : R s t) :
    p.run H s = p.run K t := by
  induction p generalizing s t with
  | ret result => rfl
  | call op next ih =>
      have hagree := h op s t hst
      cases hs : H op s with
      | error e =>
          cases ht : K op t with
          | error f =>
              rw [hs, ht] at hagree
              rw [Program.run_call_error hs, Program.run_call_error ht]
              exact congrArg Except.error hagree
          | ok y =>
              rw [hs, ht] at hagree
              exact hagree.elim
      | ok x =>
          cases ht : K op t with
          | error f =>
              rw [hs, ht] at hagree
              exact hagree.elim
          | ok y =>
              rw [hs, ht] at hagree
              rw [Program.run_call_ok hs, Program.run_call_ok ht, hagree.1]
              exact ih _ hagree.2

/-- A handler that never stops for a reason does not do so in a run. -/
theorem Program.run_ne_error {H : Handler Answer ε σ} {e : ε} (h : ∀ op s, H op s ≠ .error e)
    (p : Program Answer ρ) (s : σ) : p.run H s ≠ .error e := by
  induction p generalizing s with
  | ret result => exact fun hrun => nomatch hrun
  | call op next ih =>
      cases hperform : H op s with
      | error e' =>
          rw [Program.run_call_error hperform]
          intro heq
          cases heq
          exact h op s hperform
      | ok x =>
          obtain ⟨a, s'⟩ := x
          rw [Program.run_call_ok hperform]
          exact ih a s'

/-! ## Histories -/

section Histories

variable {κ : Type u} {α : Type v} {step step' : σ → κ → α → σ → Prop}

/-- A run of calls with what each answered, from one state to another. -/
inductive History (step : σ → κ → α → σ → Prop) : σ → List (κ × α) → σ → Prop where
  | nil (s : σ) : History step s [] s
  | cons {s s' t : σ} {call : κ} {answer : α} {more : List (κ × α)} (first : step s call answer s')
      (rest : History step s' more t) : History step s ((call, answer) :: more) t

namespace History

/-- Two systems that answer the calls of a history alike have the same ones. -/
theorem congr {P : κ → Prop} (h : ∀ s call answer s', P call →
    (step s call answer s' ↔ step' s call answer s')) {s t : σ} {history : List (κ × α)}
    (hcalls : ∀ x ∈ history, P x.1) : History step s history t ↔ History step' s history t := by
  constructor
  · intro hrun
    induction hrun with
    | nil s => exact .nil s
    | cons first rest ih =>
        obtain ⟨hcall, hmore⟩ := List.forall_mem_cons.mp hcalls
        exact .cons ((h _ _ _ _ hcall).mp first) (ih hmore)
  · intro hrun
    induction hrun with
    | nil s => exact .nil s
    | cons first rest ih =>
        obtain ⟨hcall, hmore⟩ := List.forall_mem_cons.mp hcalls
        exact .cons ((h _ _ _ _ hcall).mpr first) (ih hmore)

/-- An invariant that every call keeps, and under which a call is one of another
system: the histories are those of the other system. -/
theorem refines {I : σ → Prop} {abs : σ → τ} {stepAbs : τ → κ → α → τ → Prop}
    (h : ∀ s call answer s', I s → step s call answer s' →
      I s' ∧ stepAbs (abs s) call answer (abs s')) {s t : σ} {history : List (κ × α)}
    (hrun : History step s history t) (hs : I s) :
    I t ∧ History stepAbs (abs s) history (abs t) := by
  induction hrun with
  | nil s => exact ⟨hs, .nil _⟩
  | cons first rest ih =>
      obtain ⟨hnext, hfirst⟩ := h _ _ _ _ hs first
      obtain ⟨hlast, hrest⟩ := ih hnext
      exact ⟨hlast, .cons hfirst hrest⟩

/-- A history is cut at any of its calls. -/
theorem at_call {s t : σ} {before after : List (κ × α)} {call : κ} {answer : α}
    (hrun : History step s (before ++ (call, answer) :: after) t) :
    ∃ m m', History step s before m ∧ step m call answer m' := by
  induction before generalizing s with
  | nil =>
      cases hrun with
      | cons first rest => exact ⟨s, _, .nil s, first⟩
  | cons x before ih =>
      cases hrun with
      | cons first rest =>
          obtain ⟨m, m', hm, hstep⟩ := ih rest
          exact ⟨m, m', .cons first hm, hstep⟩

end History

end Histories

end SpringDome.Lib
