/-
SpringDome.Lib.SqlSelect — what a SELECT answers.

`selectQuery` reads a SELECT and leaves the list behind ORDER BY as it stands:
which expressions a server orders by, and how, is the server's matter. A
`Server` is what the answer depends on: the cells of a row, the comparisons
(`Dialect`), and the order a list of tokens stands for.

`Server.Answers` is a relation, because SQL leaves two things open: the order of
equal rows, and which of the rows that the server takes for one a DISTINCT
answers. The first is settled by an order that is total on the rows
(`eq_mergeSort_iff`), the second if the server tells different rows apart
(`distinct_iff`). `flatten_pages` is about windows alone: consecutive ones put
together are a prefix.
-/
import SpringDome.Lib.SqlStatement
import Mathlib.Data.List.Dedup

namespace SpringDome.Lib.Sql

variable {V R : Type}

/-! ## 1. Queries -/

/-- A SELECT, with the list behind ORDER BY as it stands. -/
structure SelectQuery (V : Type) where
  distinct : Bool
  columns : List String
  table : String
  filter : Option (Condition V)
  order : Option (List (Token V))
  window : Option Window

def Token.isLimit : Token V → Bool
  | .keyword .limit => true
  | _ => false

/-- An ORDER BY list goes on to the LIMIT, or to the end. -/
def orderText : List (Token V) → Option (List (Token V)) × List (Token V)
  | .keyword .order :: .keyword .by :: r =>
      (some (r.takeWhile fun t => !t.isLimit), r.dropWhile fun t => !t.isLimit)
  | r => (none, r)

def queryBody (distinct : Bool) (ts : List (Token V)) : Option (SelectQuery V) := do
  let (columns, r) ← identList ts
  match r with
  | .keyword .from :: .ident table :: r => do
      let (filter, r) ← whereClause r
      let window ← (limitClause (orderText r).2).bind ended
      some ⟨distinct, columns, table, filter, (orderText r).1, window⟩
  | _ => none

def selectQuery : List (Token V) → Option (SelectQuery V)
  | .keyword .select :: .keyword .distinct :: r => queryBody true r
  | .keyword .select :: r => queryBody false r
  | _ => none

/-- The query a driver is sent. -/
def BoundSql.query (b : BoundSql V) : Option (SelectQuery V) :=
  (readSql b.sql b.bindings).bind selectQuery

/-- A text that can stand behind ORDER BY: no placeholders, and no LIMIT of
its own. -/
def IsOrderText (clause : String) : Prop :=
  ∀ t ∈ lex clause.toList, t ≠ .param () ∧ t ≠ .keyword .limit

instance (clause : String) : Decidable (IsOrderText clause) :=
  inferInstanceAs (Decidable (∀ t ∈ lex clause.toList, t ≠ .param () ∧ t ≠ .keyword .limit))

/-- The tokens of a text without placeholders. -/
def fixedTokens (clause : String) : List (Token V) := (lex clause.toList).filterMap Token.fixed?

theorem fixedTokens_erase {clause : String} (h : IsOrderText clause) :
    lex clause.toList = (fixedTokens clause : List (Token V)).map Token.erase ∧
      (fixedTokens clause : List (Token V)).filterMap Token.value? = [] ∧
      ∀ t ∈ (fixedTokens clause : List (Token V)), t.isLimit = false := by
  have hall : ∀ us : List (Token Unit), (∀ t ∈ us, t ≠ .param () ∧ t ≠ .keyword .limit) →
      us = (us.filterMap Token.fixed? : List (Token V)).map Token.erase ∧
        (us.filterMap Token.fixed? : List (Token V)).filterMap Token.value? = [] ∧
        ∀ t ∈ (us.filterMap Token.fixed? : List (Token V)), t.isLimit = false := by
    intro us
    induction us with
    | nil => simp
    | cons u us ih =>
        intro hus
        obtain ⟨htext, hvalues, hlimit⟩ := ih fun t ht => hus t (List.mem_cons_of_mem _ ht)
        obtain ⟨hparam, hkeyword⟩ := hus u List.mem_cons_self
        have hcons : ∀ t : Token V, u.fixed? = some t → t.erase = u → t.value? = none →
            t.isLimit = false →
            u :: us = ((u :: us).filterMap Token.fixed? : List (Token V)).map Token.erase ∧
              ((u :: us).filterMap Token.fixed? : List (Token V)).filterMap Token.value? = [] ∧
              ∀ t ∈ ((u :: us).filterMap Token.fixed? : List (Token V)), t.isLimit = false := by
          intro t hfixed herase hvalue hplain
          rw [List.filterMap_cons_some hfixed]
          refine ⟨?_, ?_, ?_⟩
          · rw [List.map_cons, herase, ← htext]
          · rw [List.filterMap_cons_none hvalue, hvalues]
          · intro s hs
            rcases List.mem_cons.mp hs with rfl | hs
            · exact hplain
            · exact hlimit s hs
        cases u with
        | param v => exact absurd rfl hparam
        | keyword k =>
            refine hcons (.keyword k) rfl rfl rfl ?_
            cases k <;> first | rfl | exact absurd rfl hkeyword
        | _ => exact hcons _ rfl rfl rfl rfl
  exact hall _ h

/-- An order list is read back, with a window or nothing behind it. -/
theorem orderText_order {ts rest : List (Token V)} (hts : ∀ t ∈ ts, t.isLimit = false)
    (hrest : EndsOrder rest) :
    orderText (.keyword .order :: .keyword .by :: (ts ++ rest)) = (some ts, rest) := by
  have hplain : ∀ t ∈ ts, (!t.isLimit) = true := by
    intro t ht
    simp [hts t ht]
  simp only [orderText]
  rw [List.takeWhile_append_of_pos hplain, List.dropWhile_append_of_pos hplain]
  cases rest with
  | nil => simp
  | cons t rest =>
      obtain rfl := hrest t rfl
      simp [Token.isLimit]

/-! ## 2. Answers -/

/-- What an answer depends on besides the table. -/
structure Server (R V : Type) where
  dialect : Dialect V
  cell : R → String → V
  orderBy : List (Token V) → Option (R → R → Bool)

/-- Nulls come first. -/
def Dialect.rank (d : Dialect V) (x y : V) : Ordering :=
  match d.isNull x, d.isNull y with
  | true, true => .eq
  | true, false => .lt
  | false, true => .gt
  | false, false => d.compare x y

/-- The rows in a window. -/
def windowed {α : Type} : Option Window → List α → List α
  | none, rows => rows
  | some w, rows => (rows.drop w.offset).take w.limit

/-- One row of those that are taken for the same, whichever it is. -/
structure Distinct (same : R → R → Prop) (rows chosen : List R) : Prop where
  sub : ∀ r ∈ chosen, r ∈ rows
  once : chosen.Pairwise fun a b => ¬ same a b
  cover : ∀ r ∈ rows, ∃ r' ∈ chosen, same r' r

instance (d : Dialect V) (row : String → V) : (c : Option (Condition V)) → Decidable (Keeps d row c)
  | none => isTrue trivial
  | some c => inferInstanceAs (Decidable (c.eval d row = .holds))

namespace Server

/-- The selected cells of a row. -/
def values (srv : Server R V) (q : SelectQuery V) (r : R) : List V := q.columns.map (srv.cell r)

/-- The rows the search condition keeps. -/
def passing (srv : Server R V) (q : SelectQuery V) (table : List R) : List R :=
  table.filter fun r => Keeps srv.dialect (srv.cell r) q.filter

/-- Without ORDER BY any order will do. -/
def order (srv : Server R V) (q : SelectQuery V) : Option (R → R → Bool) :=
  match q.order with
  | none => some fun _ _ => true
  | some ts => srv.orderBy ts

/-- Two rows that DISTINCT does not tell apart: the comparison of the server
takes their cells for equal, and null for null. -/
def Same (srv : Server R V) (q : SelectQuery V) (a b : R) : Prop :=
  ∀ column ∈ q.columns, srv.dialect.rank (srv.cell a column) (srv.cell b column) = .eq

/-- The rows of an answer, in whatever order. -/
def Picks (srv : Server R V) (q : SelectQuery V) (table chosen : List R) : Prop :=
  if q.distinct then Distinct (srv.Same q) (srv.passing q table) chosen
  else chosen.Perm (srv.passing q table)

/-- A list of rows the server may answer. -/
def Answers (srv : Server R V) (table : List R) (q : SelectQuery V) (answer : List (List V)) :
    Prop :=
  ∃ le chosen, srv.order q = some le ∧ srv.Picks q table chosen ∧
    chosen.Pairwise (fun a b => le a b = true) ∧
    answer = (windowed q.window chosen).map (srv.values q)

end Server

/-! A server that orders by columns. -/

/-- Two rows by one column. -/
def OrderItem.rank (i : OrderItem) (d : Dialect V) (cell : R → String → V) (a b : R) : Ordering :=
  let o := d.rank (cell a i.column) (cell b i.column)
  if i.descending = some true then o.swap else o

/-- A list of columns with directions, compared one after the other. -/
def columnOrder (d : Dialect V) (cell : R → String → V) (ts : List (Token V)) :
    Option (R → R → Bool) :=
  ((orderList ts).bind ended).map fun items a b =>
    items.foldr (fun i o => (i.rank d cell a b).then o) .eq != .gt

/-! ## 3. Total orders -/

/-- The order tells any two different rows apart. -/
structure TotallyOrders (le : R → R → Bool) (rows : List R) : Prop where
  total : ∀ a ∈ rows, ∀ b ∈ rows, le a b = true ∨ le b a = true
  trans : ∀ a ∈ rows, ∀ b ∈ rows, ∀ c ∈ rows, le a b = true → le b c = true → le a c = true
  antisymm : ∀ a ∈ rows, ∀ b ∈ rows, le a b = true → le b a = true → a = b

theorem TotallyOrders.subset {le : R → R → Bool} {rows base : List R} (h : TotallyOrders le rows)
    (hsub : ∀ r ∈ base, r ∈ rows) : TotallyOrders le base where
  total := fun a ha b hb => h.total a (hsub a ha) b (hsub b hb)
  trans := fun a ha b hb c hc => h.trans a (hsub a ha) b (hsub b hb) c (hsub c hc)
  antisymm := fun a ha b hb => h.antisymm a (hsub a ha) b (hsub b hb)

/-- Sorting puts rows in order that are totally ordered among themselves. -/
theorem TotallyOrders.pairwise_mergeSort {le : R → R → Bool} {rows : List R}
    (h : TotallyOrders le rows) : (rows.mergeSort le).Pairwise fun a b => le a b = true := by
  -- the order is total on the rows only, so they are sorted with their membership attached
  have hattach : (rows.attach.mergeSort fun a b => le a.1 b.1).map Subtype.val =
      rows.mergeSort le := by
    rw [List.map_mergeSort (f := Subtype.val) (s := le) fun _ _ _ _ => rfl,
      List.attach_map_subtype_val]
  rw [← hattach, List.pairwise_map]
  refine List.pairwise_mergeSort ?_ ?_ rows.attach
  · exact fun a b c => h.trans a.1 a.2 b.1 b.2 c.1 c.2
  · exact fun a b => (Bool.or_eq_true _ _).mpr (h.total a.1 a.2 b.1 b.2)

/-- There is one way to put them in order. -/
theorem TotallyOrders.eq_mergeSort_iff {le : R → R → Bool} {rows : List R}
    (h : TotallyOrders le rows) {chosen : List R} :
    chosen.Perm rows ∧ (chosen.Pairwise fun a b => le a b = true) ↔
      chosen = rows.mergeSort le := by
  have hperm := List.mergeSort_perm rows le
  constructor
  · rintro ⟨hchosen, hsorted⟩
    refine List.Perm.eq_of_pairwise ?_ hsorted h.pairwise_mergeSort (hchosen.trans hperm.symm)
    intro a b ha hb
    exact h.antisymm a (hchosen.mem_iff.mp ha) b (hperm.mem_iff.mp hb)
  · rintro rfl
    exact ⟨hperm, h.pairwise_mergeSort⟩

/-- If no two different rows are taken for one, each is answered once. -/
theorem distinct_iff [DecidableEq R] {same : R → R → Prop} {rows : List R}
    (hsame : ∀ a ∈ rows, ∀ b ∈ rows, same a b ↔ a = b) {chosen : List R} :
    Distinct same rows chosen ↔ chosen.Perm rows.dedup := by
  constructor
  · intro h
    have hnodup : chosen.Nodup := by
      refine h.once.imp_of_mem ?_
      intro a b ha hb hnot heq
      exact hnot ((hsame a (h.sub a ha) b (h.sub b hb)).mpr heq)
    rw [List.perm_ext_iff_of_nodup hnodup (List.nodup_dedup _)]
    intro r
    rw [List.mem_dedup]
    refine ⟨h.sub r, ?_⟩
    intro hr
    obtain ⟨r', hr', hcover⟩ := h.cover r hr
    rwa [← (hsame r' (h.sub r' hr') r hr).mp hcover]
  · intro hperm
    have hmem : ∀ {r}, r ∈ chosen ↔ r ∈ rows := hperm.mem_iff.trans List.mem_dedup
    refine ⟨fun r => hmem.mp, ?_, ?_⟩
    · refine (hperm.nodup_iff.mpr (List.nodup_dedup _)).imp_of_mem ?_
      intro a b ha hb hne heq
      exact hne ((hsame a (hmem.mp ha) b (hmem.mp hb)).mp heq)
    · intro r hr
      exact ⟨r, hmem.mpr hr, (hsame r hr r hr).mpr rfl⟩

/-! ## 4. Windows -/

/-- Consecutive pages put together. -/
theorem flatten_pages {α : Type} (rows : List α) (n m : Nat) :
    ((List.range m).flatMap fun k => (rows.drop (k * n)).take n) = rows.take (m * n) := by
  induction m with
  | zero => simp
  | succ m ih =>
      rw [List.range_succ, List.flatMap_append, ih, List.flatMap_singleton, Nat.succ_mul,
        List.take_add]

end SpringDome.Lib.Sql
