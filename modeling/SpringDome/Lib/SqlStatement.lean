/-
SpringDome.Lib.SqlStatement — complete statements.

`statement` accepts the statements a table mapper sends: SELECT with a
search condition, an order and a window, SELECT COUNT, DELETE, INSERT and
UPDATE. It takes the whole token list or nothing, so a dangling word, an
INSERT without columns or an UPDATE without an assignment is no statement.

The lemmas say how each clause reads back what a mapper prints for it, with
whatever follows.
-/
import SpringDome.Lib.SqlCondition

namespace SpringDome.Lib.Sql

variable {V : Type}

/-! ## 1. Statements -/

/-- A column of an ORDER BY, with its direction as written. -/
structure OrderItem where
  column : String
  descending : Option Bool
  deriving DecidableEq, Repr

/-- LIMIT: rows to skip, rows to keep. -/
structure Window where
  offset : Nat
  limit : Nat
  deriving DecidableEq, Repr

inductive Statement (V : Type) where
  | select (distinct : Bool) (columns : List String) (table : String)
      (filter : Option (Condition V)) (order : List OrderItem) (window : Option Window)
  | count (table : String) (filter : Option (Condition V))
  | delete (table : String) (filter : Option (Condition V))
  | insert (table : String) (columns : List String) (values : List (Operand V))
  | update (table : String) (assignments : List (String × Operand V))
      (filter : Option (Condition V))

/-- The search condition of a statement. -/
def Statement.filter : Statement V → Option (Condition V)
  | .select _ _ _ filter _ _ | .count _ filter | .delete _ filter | .update _ _ filter => filter
  | .insert .. => none

/-- The row passes the search condition, or there is none. -/
def Keeps (d : Dialect V) (row : String → V) : Option (Condition V) → Prop
  | none => True
  | some c => c.eval d row = .holds

/-! ## 2. Clauses -/

def identList : List (Token V) → Option (List String × List (Token V))
  | .ident name :: .comma :: r => (identList r).map fun (names, r) => (name :: names, r)
  | .ident name :: r => some ([name], r)
  | _ => none

def whereClause : List (Token V) → Option (Option (Condition V) × List (Token V))
  | .keyword .where :: r => (condition r).map fun (c, r) => (some c, r)
  | r => some (none, r)

def orderList : List (Token V) → Option (List OrderItem × List (Token V))
  | .ident name :: .comma :: r => (orderList r).map fun (items, r) => (⟨name, none⟩ :: items, r)
  | .ident name :: .keyword .asc :: .comma :: r =>
      (orderList r).map fun (items, r) => (⟨name, some false⟩ :: items, r)
  | .ident name :: .keyword .desc :: .comma :: r =>
      (orderList r).map fun (items, r) => (⟨name, some true⟩ :: items, r)
  | .ident name :: .keyword .asc :: r => some ([⟨name, some false⟩], r)
  | .ident name :: .keyword .desc :: r => some ([⟨name, some true⟩], r)
  | .ident name :: r => some ([⟨name, none⟩], r)
  | _ => none

def orderClause : List (Token V) → Option (List OrderItem × List (Token V))
  | .keyword .order :: .keyword .by :: r => orderList r
  | r => some ([], r)

def limitClause : List (Token V) → Option (Option Window × List (Token V))
  | .keyword .limit :: .number offset :: .comma :: .number limit :: r =>
      some (some ⟨offset, limit⟩, r)
  | .keyword .limit :: .number limit :: r => some (some ⟨0, limit⟩, r)
  | r => some (none, r)

def assignmentList : List (Token V) → Option (List (String × Operand V) × List (Token V))
  | .ident name :: .comparison .eq :: t :: .comma :: r => do
      let a ← operand t
      let (as, r) ← assignmentList r
      some ((name, a) :: as, r)
  | .ident name :: .comparison .eq :: t :: r => (operand t).map fun a => ([(name, a)], r)
  | _ => none

/-- The clause must use up the tokens. -/
def ended {α : Type} : α × List (Token V) → Option α
  | (a, []) => some a
  | (_, _ :: _) => none

/-! ## 3. The statement parser -/

def selectBody (distinct : Bool) (ts : List (Token V)) : Option (Statement V) := do
  let (columns, r) ← identList ts
  match r with
  | .keyword .from :: .ident table :: r => do
      let (filter, r) ← whereClause r
      let (order, r) ← orderClause r
      let window ← (limitClause r).bind ended
      some (.select distinct columns table filter order window)
  | _ => none

def insertBody (table : String) (ts : List (Token V)) : Option (Statement V) := do
  let (columns, r) ← identList ts
  match r with
  | .rparen :: .keyword .values :: .lparen :: r => do
      let values ← (operandList r).bind ended
      if columns.length = values.length then some (.insert table columns values) else none
  | _ => none

def updateBody (table : String) (ts : List (Token V)) : Option (Statement V) := do
  let (assignments, r) ← assignmentList ts
  let filter ← (whereClause r).bind ended
  some (.update table assignments filter)

def statement : List (Token V) → Option (Statement V)
  | .keyword .select :: .keyword .count :: .lparen :: .star :: .rparen :: .keyword .from ::
      .ident table :: r => ((whereClause r).bind ended).map (.count table)
  | .keyword .select :: .keyword .distinct :: r => selectBody true r
  | .keyword .select :: r => selectBody false r
  | .keyword .delete :: .keyword .from :: .ident table :: r =>
      ((whereClause r).bind ended).map (.delete table)
  | .keyword .insert :: .keyword .into :: .ident table :: .lparen :: r => insertBody table r
  | .keyword .update :: .ident table :: .keyword .set :: r => updateBody table r
  | _ => none

/-- A prepared statement: the text and the values of its placeholders. -/
structure BoundSql (V : Type) where
  sql : String
  bindings : List V
  deriving DecidableEq, Repr

/-- The statement a driver is sent; none when the text is no complete
statement, or its placeholders are not as many as the bindings. -/
def BoundSql.parse (b : BoundSql V) : Option (Statement V) :=
  (readSql b.sql b.bindings).bind statement

/-- The filter of a where clause that stands alone. -/
def BoundSql.parseFilter (b : BoundSql V) : Option (Option (Condition V)) :=
  (readSql b.sql b.bindings).bind fun ts => (whereClause ts).bind ended

def BoundSql.Complete (b : BoundSql V) : Prop := ∃ st, b.parse = some st

/-! ## 4. Reading the clauses back -/

/-- The WHERE clause of a disjunction of conjunctions; without any there is
no clause. -/
def filterTokens : List (Block V) → List (Token V)
  | [] => []
  | b :: bs => .keyword .where :: dnfTokens b bs

def filterOf : List (Block V) → Option (Condition V)
  | [] => none
  | b :: bs => some (dnf b bs)

/-- What may stand behind a WHERE clause: nothing, an order, or a window. -/
def EndsFilter (rest : List (Token V)) : Prop :=
  ∀ t ∈ rest.head?, t = .keyword .order ∨ t = .keyword .limit

theorem whereClause_filterTokens {bs : List (Block V)}
    (h : ∀ c ∈ bs, ∀ q ∈ c.predicates, q.Complete) {rest : List (Token V)}
    (hrest : EndsFilter rest) :
    whereClause (filterTokens bs ++ rest) = some (filterOf bs, rest) := by
  cases bs with
  | nil =>
      cases rest with
      | nil => rfl
      | cons t rest => rcases hrest t rfl with rfl | rfl <;> rfl
  | cons b bs =>
      have hends : EndsCondition rest := by
        constructor
        · intro hhead
          have hand := hrest _ hhead
          simp at hand
        · intro hhead
          have hor := hrest _ hhead
          simp at hor
      rw [filterTokens, List.cons_append, whereClause, condition_dnfTokens h hends]
      rfl

theorem whereClause_incomplete {bs : List (Block V)}
    (h : ∃ c ∈ bs, ∃ q ∈ c.predicates, ¬ q.Complete) (rest : List (Token V)) :
    whereClause (filterTokens bs ++ rest) = none := by
  cases bs with
  | nil =>
      obtain ⟨c, hc, -⟩ := h
      cases hc
  | cons b bs =>
      rw [filterTokens, List.cons_append, whereClause, condition_dnfTokens_incomplete h,
        Option.map_none]

/-- The rows a disjunction of conjunctions keeps. -/
theorem keeps_filterOf (d : Dialect V) (row : String → V) (bs : List (Block V)) :
    Keeps d row (filterOf bs) ↔
      bs = [] ∨ ∃ c ∈ bs, ∀ q ∈ c.predicates, q.eval d row = .holds := by
  cases bs with
  | nil => simp [filterOf, Keeps]
  | cons b bs => simp only [filterOf, Keeps, eval_dnf, reduceCtorEq, false_or]

def OrderItem.tokens (i : OrderItem) : List (Token V) :=
  .ident i.column :: match i.descending with
    | none => []
    | some false => [.keyword .asc]
    | some true => [.keyword .desc]

def orderTokens : OrderItem → List OrderItem → List (Token V)
  | i, [] => i.tokens
  | i, j :: is => i.tokens ++ .comma :: orderTokens j is

/-- The text is a list of columns with optional directions. -/
def IsOrderList (clause : String) : Prop := ∃ i is, lex clause.toList = orderTokens i is

theorem reads_orderList {clause : String} {i : OrderItem} {is : List OrderItem}
    (h : lex clause.toList = orderTokens i is) :
    Reads (chars clause) (orderTokens i is : List (Token V)) := by
  have hitem : ∀ j : OrderItem, (j.tokens : List (Token V)).map Token.erase = j.tokens ∧
      (j.tokens : List (Token V)).filterMap Token.value? = [] := by
    rintro ⟨column, _ | _ | _⟩ <;> exact ⟨rfl, rfl⟩
  have hlist : ∀ (is : List OrderItem) (i : OrderItem),
      (orderTokens i is : List (Token V)).map Token.erase = orderTokens i is ∧
        (orderTokens i is : List (Token V)).filterMap Token.value? = [] := by
    intro is
    induction is with
    | nil => exact hitem
    | cons j is ih =>
        intro i
        rw [orderTokens, List.map_append, List.filterMap_append, (hitem i).1, (hitem i).2,
          List.map_cons, (ih j).1]
        exact ⟨rfl, (ih j).2⟩
  exact .chars (h.trans (hlist is i).1.symm) (hlist is i).2

/-- What may stand behind an order list: nothing, or a window. -/
def EndsOrder (rest : List (Token V)) : Prop := ∀ t ∈ rest.head?, t = .keyword .limit

theorem orderList_orderTokens (i : OrderItem) (is : List OrderItem) {rest : List (Token V)}
    (hrest : EndsOrder rest) : orderList (orderTokens i is ++ rest) = some (i :: is, rest) := by
  induction is generalizing i with
  | nil =>
      obtain ⟨column, descending⟩ := i
      cases rest with
      | nil => rcases descending with _ | _ | _ <;> rfl
      | cons t rest =>
          obtain rfl := hrest t rfl
          rcases descending with _ | _ | _ <;> rfl
  | cons j is ih =>
      obtain ⟨column, descending⟩ := i
      have htail := ih j
      rcases descending with _ | _ | _ <;>
        simp [orderTokens, OrderItem.tokens, orderList, htail]

end SpringDome.Lib.Sql
