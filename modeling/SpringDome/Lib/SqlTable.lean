/-
SpringDome.Lib.SqlTable — a table, and what statements do to it.

A `Database` is a `Server` that writes as well: how a cell is stored in a row,
which row an INSERT starts from, and which tables the constraints admit.
`execute` is a statement that answers a number, COUNT, DELETE, UPDATE or
INSERT. It is done as a whole or not at all, and the constraints are checked
behind it.
-/
import SpringDome.Lib.SqlSelect

namespace SpringDome.Lib.Sql

variable {R V : Type}

/-! ## 1. Statements that answer a number -/

structure Database (R V : Type) extends Server R V where
  table : String
  /-- A row with a cell written; none for a column that there is not, or a value
  that the column does not take. -/
  store : String → V → R → Option R
  /-- The row of defaults, given the rows there are. -/
  blank : List R → R
  admits : List R → Bool

namespace Database

variable (db : Database R V)

def keeps (filter : Option (Condition V)) (r : R) : Bool :=
  decide (Keeps db.dialect (db.cell r) filter)

/-- Assignments, from left to right. -/
def assign : List (String × Operand V) → R → Option R
  | [], r => some r
  | (column, x) :: more, r => (db.store column (x.eval (db.cell r)) r).bind (assign more)

/-- What the constraints refuse is not written. -/
def admitted (n : Nat) (rows : List R) : Option (Nat × List R) :=
  if db.admits rows then some (n, rows) else none

/-- The rows counted, or matched, or inserted, and the table behind the
statement; none if it fails. -/
def execute (rows : List R) : Statement V → Option (Nat × List R)
  | .select .. => none
  | .count table filter =>
      if table = db.table then some (rows.countP (db.keeps filter), rows) else none
  | .delete table filter =>
      if table = db.table then
        db.admitted (rows.countP (db.keeps filter)) (rows.filter fun r => !db.keeps filter r)
      else none
  | .insert table columns values =>
      if table = db.table then
        (db.assign (columns.zip values) (db.blank rows)).bind fun r => db.admitted 1 (rows ++ [r])
      else none
  | .update table assignments filter =>
      if table = db.table then
        (rows.mapM fun r => if db.keeps filter r then db.assign assignments r else some r).bind
          (db.admitted (rows.countP (db.keeps filter)))
      else none

/-! ## 2. Updates -/

/-- An UPDATE whose assignments can be stored writes them to the rows it
matches. -/
theorem execute_update {rows : List R} {assignments : List (String × Operand V)} {f : R → R}
    (h : ∀ r, db.assign assignments r = some (f r)) (filter : Option (Condition V)) :
    db.execute rows (.update db.table assignments filter) =
      db.admitted (rows.countP (db.keeps filter))
        (rows.map fun r => if db.keeps filter r then f r else r) := by
  have hmap : (rows.mapM fun r =>
      if db.keeps filter r then db.assign assignments r else some r) =
        some (rows.map fun r => if db.keeps filter r then f r else r) := by
    induction rows with
    | nil => rfl
    | cons r rows ih =>
        have hrow : (if db.keeps filter r then db.assign assignments r else some r) =
            some (if db.keeps filter r then f r else r) := by
          rw [h]
          split <;> rfl
        rw [List.mapM_cons, hrow, ih]
        rfl
  rw [execute, if_pos rfl, hmap]
  rfl

/-- A condition is known by the rows it keeps. -/
theorem keeps_eq {filter : Option (Condition V)} {p : R → Bool}
    (h : ∀ r, Keeps db.dialect (db.cell r) filter ↔ p r = true) : db.keeps filter = p := by
  funext r
  exact Bool.eq_iff_iff.mpr (decide_eq_true_iff.trans (h r))

end Database

end SpringDome.Lib.Sql
