/-
SpringDome.Lib.SqlCondition — search conditions: their three-valued meaning,
their parser, and the round trip for a disjunction of conjunctions.

`disjunction`, `conjunction` and `primary` are a recursive descent over
tokens with SQL's precedence: the `and` of a BETWEEN belongs to the
predicate, AND binds tighter than OR, and parentheses override both. Their
first argument bounds the recursion; `condition` gives them more than any
token list needs.

A builder that writes each conjunction in parentheses and joins them with
`or` prints `dnfTokens`. `condition_dnfTokens` says that this text parses to
the disjunction it was printed from, and `condition_dnfTokens_incomplete`
that one `in` without a list spoils the whole text. What the comparisons and
LIKE do on two values is the parameter `Dialect`.
-/
import SpringDome.Lib.SqlText
import Mathlib.Algebra.GroupWithZero.Nat

namespace SpringDome.Lib.Sql

variable {V : Type}

/-! ## 1. Three-valued logic -/

inductive Truth where
  | holds | fails | unknown
  deriving DecidableEq, Repr

namespace Truth

def ofBool (b : Bool) : Truth := if b then .holds else .fails

def not : Truth → Truth
  | .holds => .fails
  | .fails => .holds
  | .unknown => .unknown

def and : Truth → Truth → Truth
  | .fails, _ | _, .fails => .fails
  | .holds, .holds => .holds
  | _, _ => .unknown

def or : Truth → Truth → Truth
  | .holds, _ | _, .holds => .holds
  | .fails, .fails => .fails
  | _, _ => .unknown

/-- `not` in front of BETWEEN, IN or LIKE. -/
def negateIf (negated : Bool) (t : Truth) : Truth := if negated then t.not else t

theorem and_eq_holds {a b : Truth} : a.and b = .holds ↔ a = .holds ∧ b = .holds := by
  cases a <;> cases b <;> simp [and]

theorem or_eq_holds {a b : Truth} : a.or b = .holds ↔ a = .holds ∨ b = .holds := by
  cases a <;> cases b <;> simp [or]

end Truth

/-! ## 2. Conditions -/

inductive Operand (V : Type) where
  | column (name : String)
  | value (v : V)
  deriving DecidableEq, Repr

inductive Predicate (V : Type) where
  | compare (op : Comparison) (a b : Operand V)
  | isNull (negated : Bool) (a : Operand V)
  | between (negated : Bool) (a lo hi : Operand V)
  | inList (negated : Bool) (a : Operand V) (items : List (Operand V))
  | like (negated : Bool) (a b : Operand V)
  deriving DecidableEq, Repr

inductive Condition (V : Type) where
  | atom (p : Predicate V)
  | and (p q : Condition V)
  | or (p q : Condition V)
  deriving DecidableEq, Repr

/-- How a database compares two values that are not null. -/
structure Dialect (V : Type) where
  isNull : V → Bool
  compare : V → V → Ordering
  like : V → V → Bool

def Comparison.accepts : Comparison → Ordering → Bool
  | .eq, o => o == .eq
  | .ne, o => o != .eq
  | .lt, o => o == .lt
  | .le, o => o != .gt
  | .gt, o => o == .gt
  | .ge, o => o != .lt

section Meaning

variable (d : Dialect V) (row : String → V)

def Operand.eval : Operand V → V
  | .column name => row name
  | .value v => v

/-- A comparison with a null is unknown. -/
def comparing (op : Comparison) (x y : V) : Truth :=
  if d.isNull x || d.isNull y then .unknown else .ofBool (op.accepts (d.compare x y))

def Predicate.eval : Predicate V → Truth
  | .compare op a b => comparing d op (a.eval row) (b.eval row)
  | .isNull negated a => (Truth.ofBool (d.isNull (a.eval row))).negateIf negated
  | .between negated a lo hi =>
      ((comparing d .ge (a.eval row) (lo.eval row)).and
        (comparing d .le (a.eval row) (hi.eval row))).negateIf negated
  | .inList negated a items =>
      (items.foldr (fun b t => (comparing d .eq (a.eval row) (b.eval row)).or t)
        .fails).negateIf negated
  | .like negated a b =>
      (if d.isNull (a.eval row) || d.isNull (b.eval row) then .unknown
        else Truth.ofBool (d.like (a.eval row) (b.eval row))).negateIf negated

def Condition.eval : Condition V → Truth
  | .atom p => p.eval d row
  | .and p q => p.eval.and q.eval
  | .or p q => p.eval.or q.eval

end Meaning

/-! ## 3. The parser -/

def operand : Token V → Option (Operand V)
  | .ident name => some (.column name)
  | .param v => some (.value v)
  | _ => none

/-- `a, b, c)`, behind the opening parenthesis. -/
def operandList : List (Token V) → Option (List (Operand V) × List (Token V))
  | t :: .comma :: r => do
      let a ← operand t
      let (items, r) ← operandList r
      some (a :: items, r)
  | t :: .rparen :: r => (operand t).map fun a => ([a], r)
  | _ => none

/-- BETWEEN, IN and LIKE, behind an optional `not`. -/
def negatable (negated : Bool) (a : Operand V) :
    List (Token V) → Option (Predicate V × List (Token V))
  | .keyword .between :: lo :: .keyword .and :: hi :: r => do
      let lo ← operand lo
      let hi ← operand hi
      some (.between negated a lo hi, r)
  | .keyword .in :: .lparen :: r => do
      let (items, r) ← operandList r
      some (.inList negated a items, r)
  | .keyword .like :: b :: r => (operand b).map fun b => (.like negated a b, r)
  | _ => none

def predicate : List (Token V) → Option (Predicate V × List (Token V))
  | t :: r => do
      let a ← operand t
      match r with
      | .keyword .is :: .keyword .null :: r => some (.isNull false a, r)
      | .keyword .is :: .keyword .not :: .keyword .null :: r => some (.isNull true a, r)
      | .comparison op :: b :: r => (operand b).map fun b => (.compare op a b, r)
      | .keyword .not :: r => negatable true a r
      | r => negatable false a r
  | [] => none

mutual

def disjunction : Nat → List (Token V) → Option (Condition V × List (Token V))
  | 0, _ => none
  | n + 1, ts => do
      let (p, r) ← conjunction n ts
      match r with
      | .keyword .or :: r => (disjunction n r).map fun (q, r) => (.or p q, r)
      | r => some (p, r)

def conjunction : Nat → List (Token V) → Option (Condition V × List (Token V))
  | 0, _ => none
  | n + 1, ts => do
      let (p, r) ← primary n ts
      match r with
      | .keyword .and :: r => (conjunction n r).map fun (q, r) => (.and p q, r)
      | r => some (p, r)

def primary : Nat → List (Token V) → Option (Condition V × List (Token V))
  | 0, _ => none
  | n + 1, .lparen :: ts => do
      let (p, r) ← disjunction n ts
      match r with
      | .rparen :: r => some (p, r)
      | _ => none
  | _ + 1, ts => (predicate ts).map fun (p, r) => (.atom p, r)

end

/-- A search condition at the head of a token list. -/
def condition (ts : List (Token V)) : Option (Condition V × List (Token V)) :=
  disjunction (3 * ts.length + 5) ts

/-! ## 4. The printer -/

def Operand.token : Operand V → Token V
  | .column name => .ident name
  | .value v => .param v

/-- `not`, if so. -/
def notTokens (negated : Bool) : List (Token V) := if negated then [.keyword .not] else []

def itemTokens : Operand V → List (Operand V) → List (Token V)
  | a, [] => [a.token, .rparen]
  | a, b :: items => a.token :: .comma :: itemTokens b items

/-- Without items there is nothing to put in the parentheses, and no
parentheses either. -/
def listTokens : List (Operand V) → List (Token V)
  | [] => []
  | a :: items => .lparen :: itemTokens a items

theorem itemTokens_eq (a : Operand V) (items : List (Operand V)) :
    itemTokens a items = a.token :: items.flatMap (fun b => [.comma, b.token]) ++ [.rparen] := by
  induction items generalizing a with
  | nil => rfl
  | cons b items ih => rw [itemTokens, ih]; simp

/-- The predicate behind its first operand. -/
def Predicate.tail : Predicate V → List (Token V)
  | .compare op _ b => [.comparison op, b.token]
  | .isNull negated _ => .keyword .is :: notTokens negated ++ [.keyword .null]
  | .between negated _ lo hi =>
      notTokens negated ++ [.keyword .between, lo.token, .keyword .and, hi.token]
  | .inList negated _ items => notTokens negated ++ .keyword .in :: listTokens items
  | .like negated _ b => notTokens negated ++ [.keyword .like, b.token]

def Predicate.subject : Predicate V → Operand V
  | .compare _ a _ | .isNull _ a | .between _ a _ _ | .inList _ a _ | .like _ a _ => a

def Predicate.tokens (p : Predicate V) : List (Token V) := p.subject.token :: p.tail

/-- Every IN has a list. -/
def Predicate.Complete : Predicate V → Prop
  | .inList _ _ items => items ≠ []
  | _ => True

instance : (p : Predicate V) → Decidable p.Complete
  | .inList _ _ [] => isFalse fun h => h rfl
  | .inList _ _ (_ :: _) => isTrue (List.cons_ne_nil _ _)
  | .compare .. | .isNull .. | .between .. | .like .. => isTrue trivial

def conjTokens : Predicate V → List (Predicate V) → List (Token V)
  | p, [] => p.tokens
  | p, q :: ps => p.tokens ++ .keyword .and :: conjTokens q ps

def conj : Predicate V → List (Predicate V) → Condition V
  | p, [] => .atom p
  | p, q :: ps => .and (.atom p) (conj q ps)

/-- A conjunction of at least one predicate. -/
abbrev Block (V : Type) := Predicate V × List (Predicate V)

def Block.predicates (b : Block V) : List (Predicate V) := b.1 :: b.2

/-- A conjunction in parentheses. -/
def Block.tokens (b : Block V) : List (Token V) := .lparen :: conjTokens b.1 b.2 ++ [.rparen]

def dnfTokens : Block V → List (Block V) → List (Token V)
  | b, [] => b.tokens
  | b, c :: bs => b.tokens ++ .keyword .or :: dnfTokens c bs

theorem dnfTokens_eq (b : Block V) (bs : List (Block V)) :
    dnfTokens b bs = b.tokens ++ bs.flatMap fun c => .keyword .or :: c.tokens := by
  induction bs generalizing b with
  | nil => simp [dnfTokens]
  | cons c bs ih => rw [dnfTokens, ih]; simp

def dnf : Block V → List (Block V) → Condition V
  | b, [] => conj b.1 b.2
  | b, c :: bs => .or (conj b.1 b.2) (dnf c bs)

/-! The values, in the order of their placeholders. -/

theorem values_itemTokens (v : V) (vs : List V) :
    (itemTokens (.value v) (vs.map .value)).filterMap Token.value? = v :: vs := by
  induction vs generalizing v with
  | nil => rfl
  | cons w vs ih => exact congrArg (v :: ·) (ih w)

theorem values_listTokens (vs : List V) :
    (listTokens (vs.map .value)).filterMap Token.value? = vs := by
  cases vs with
  | nil => rfl
  | cons v vs =>
      rw [List.map_cons, listTokens, List.filterMap_cons_none (by rfl), values_itemTokens]

/-- The values of a predicate. -/
def Predicate.values (p : Predicate V) : List V := p.tokens.filterMap Token.value?

theorem values_conjTokens (p : Predicate V) (ps : List (Predicate V)) :
    (conjTokens p ps).filterMap Token.value? = (p :: ps).flatMap Predicate.values := by
  induction ps generalizing p with
  | nil => simp [conjTokens, Predicate.values]
  | cons q ps ih =>
      rw [conjTokens, List.filterMap_append, List.filterMap_cons_none (by rfl), ih]
      rfl

theorem values_dnfTokens (b : Block V) (bs : List (Block V)) :
    (dnfTokens b bs).filterMap Token.value? =
      (b :: bs).flatMap fun c => c.predicates.flatMap Predicate.values := by
  have hblock : ∀ c : Block V,
      c.tokens.filterMap Token.value? = c.predicates.flatMap Predicate.values := by
    intro c
    rw [Block.tokens, List.filterMap_append, List.filterMap_cons_none (by rfl), values_conjTokens]
    exact List.append_nil _
  induction bs generalizing b with
  | nil => simp [dnfTokens, hblock]
  | cons c bs ih =>
      rw [dnfTokens, List.filterMap_append, List.filterMap_cons_none (by rfl), ih, hblock]
      rfl

/-! ## 5. Round trips -/

@[simp] theorem operand_token (a : Operand V) : operand a.token = some a := by
  cases a <;> rfl

theorem operandList_itemTokens (a : Operand V) (items : List (Operand V)) (rest : List (Token V)) :
    operandList (itemTokens a items ++ rest) = some (a :: items, rest) := by
  induction items generalizing a with
  | nil => simp [itemTokens, operandList]
  | cons b items ih => simp [itemTokens, operandList, ih]

theorem predicate_tokens {p : Predicate V} (h : p.Complete) (rest : List (Token V)) :
    predicate (p.tokens ++ rest) = some (p, rest) := by
  cases p with
  | compare op a b => simp [Predicate.tokens, Predicate.tail, Predicate.subject, predicate]
  | isNull negated a =>
      cases negated <;>
        simp [Predicate.tokens, Predicate.tail, Predicate.subject, predicate, notTokens]
  | between negated a lo hi =>
      cases negated <;>
        simp [Predicate.tokens, Predicate.tail, Predicate.subject, predicate, notTokens, negatable]
  | inList negated a items =>
      obtain ⟨b, items, rfl⟩ := List.exists_cons_of_ne_nil h
      cases negated <;>
        simp [Predicate.tokens, Predicate.tail, Predicate.subject, predicate, notTokens, negatable,
          listTokens, operandList_itemTokens]
  | like negated a b =>
      cases negated <;>
        simp [Predicate.tokens, Predicate.tail, Predicate.subject, predicate, notTokens, negatable]

/-- An `in` without a list, and no parenthesis behind it, does not parse. -/
theorem predicate_incomplete {p : Predicate V} (h : ¬ p.Complete) {rest : List (Token V)}
    (hrest : rest.head? ≠ some .lparen) : predicate (p.tokens ++ rest) = none := by
  cases p with
  | inList negated a items =>
      have hitems : items = [] := by simpa [Predicate.Complete] using h
      subst hitems
      cases rest with
      | nil =>
          cases negated <;>
            simp [Predicate.tokens, Predicate.tail, Predicate.subject, predicate, notTokens,
              negatable, listTokens]
      | cons t rest =>
          cases t with
          | lparen => simp at hrest
          | _ =>
              cases negated <;>
                simp [Predicate.tokens, Predicate.tail, Predicate.subject, predicate, notTokens,
                  negatable, listTokens]
  | _ => exact absurd trivial h

/-! One turn of the two loops. -/

section Turns

variable {n : Nat} {ts r : List (Token V)} {p : Condition V}

theorem conjunction_none (h : primary n ts = none) : conjunction (n + 1) ts = none := by
  rw [conjunction, h]
  rfl

theorem conjunction_and (h : primary n ts = some (p, .keyword .and :: r)) :
    conjunction (n + 1) ts = (conjunction n r).map fun x => (.and p x.1, x.2) := by
  rw [conjunction, h]
  rfl

theorem conjunction_end (h : primary n ts = some (p, r)) (hr : r.head? ≠ some (.keyword .and)) :
    conjunction (n + 1) ts = some (p, r) := by
  rw [conjunction, h, Option.bind_eq_bind, Option.bind_some]
  dsimp only
  split
  · exact absurd rfl hr
  · rfl

theorem disjunction_none (h : conjunction n ts = none) : disjunction (n + 1) ts = none := by
  rw [disjunction, h]
  rfl

theorem disjunction_or (h : conjunction n ts = some (p, .keyword .or :: r)) :
    disjunction (n + 1) ts = (disjunction n r).map fun x => (.or p x.1, x.2) := by
  rw [disjunction, h]
  rfl

theorem disjunction_end (h : conjunction n ts = some (p, r)) (hr : r.head? ≠ some (.keyword .or)) :
    disjunction (n + 1) ts = some (p, r) := by
  rw [disjunction, h, Option.bind_eq_bind, Option.bind_some]
  dsimp only
  split
  · exact absurd rfl hr
  · rfl

end Turns

/-- A predicate is no parenthesis. -/
theorem primary_tokens (n : Nat) (p : Predicate V) (rest : List (Token V)) :
    primary (n + 1) (p.tokens ++ rest) =
      (predicate (p.tokens ++ rest)).map fun x => (.atom x.1, x.2) := by
  have htokens : p.tokens ++ rest = p.subject.token :: (p.tail ++ rest) := rfl
  rw [htokens]
  cases p.subject <;> rfl

theorem primary_complete {p : Predicate V} (h : p.Complete) (n : Nat) (rest : List (Token V)) :
    primary (n + 1) (p.tokens ++ rest) = some (.atom p, rest) := by
  rw [primary_tokens, predicate_tokens h, Option.map_some]

/-- What stands behind a conjunction: nothing that would continue it. -/
def EndsConj (rest : List (Token V)) : Prop :=
  rest.head? ≠ some (.keyword .and) ∧ rest.head? ≠ some .lparen

theorem conjunction_conjTokens {p : Predicate V} {ps : List (Predicate V)}
    (h : ∀ q ∈ p :: ps, q.Complete) {rest : List (Token V)} (hrest : EndsConj rest) {n : Nat}
    (hn : ps.length + 2 ≤ n) :
    conjunction n (conjTokens p ps ++ rest) = some (conj p ps, rest) := by
  induction ps generalizing p n with
  | nil =>
      obtain ⟨n, rfl⟩ : ∃ m, n = m + 2 := ⟨n - 2, by simp at hn; omega⟩
      exact conjunction_end (primary_complete (h p (by simp)) n rest) hrest.1
  | cons q ps ih =>
      obtain ⟨n, rfl⟩ : ∃ m, n = m + 2 := ⟨n - 2, by simp at hn; omega⟩
      have hlength : ps.length + 2 ≤ n + 1 := by simp at hn; omega
      rw [conjTokens, List.append_assoc, List.cons_append,
        conjunction_and (primary_complete (h p (by simp)) n _),
        ih (fun r hr => h r (List.mem_cons_of_mem _ hr)) hlength]
      rfl

theorem conjunction_incomplete {p : Predicate V} {ps : List (Predicate V)}
    (h : ∃ q ∈ p :: ps, ¬ q.Complete) {rest : List (Token V)} (hrest : EndsConj rest) (n : Nat) :
    conjunction n (conjTokens p ps ++ rest) = none := by
  -- whatever follows the predicate, it is no parenthesis
  have hbad : ∀ {q : Predicate V} {r : List (Token V)} (m : Nat), ¬ q.Complete →
      r.head? ≠ some .lparen → primary m (q.tokens ++ r) = none := by
    intro q r m hq hr
    cases m with
    | zero => simp [primary]
    | succ m => rw [primary_tokens, predicate_incomplete hq hr, Option.map_none]
  induction ps generalizing p n with
  | nil =>
      obtain ⟨q, hq, hincomplete⟩ := h
      rw [List.mem_singleton.mp hq] at hincomplete
      cases n with
      | zero => simp [conjunction]
      | succ n => exact conjunction_none (hbad n hincomplete hrest.2)
  | cons q ps ih =>
      rw [conjTokens, List.append_assoc, List.cons_append]
      cases n with
      | zero => simp [conjunction]
      | succ n =>
          by_cases hp : p.Complete
          · have htail : ∃ r ∈ q :: ps, ¬ r.Complete := by
              obtain ⟨r, hr, hincomplete⟩ := h
              rcases List.mem_cons.mp hr with rfl | hr
              · exact absurd hp hincomplete
              · exact ⟨r, hr, hincomplete⟩
            cases n with
            | zero => exact conjunction_none (by simp [primary])
            | succ n =>
                rw [conjunction_and (primary_complete hp n _), ih htail, Option.map_none]
          · exact conjunction_none (hbad n hp (by simp))

/-! A block is one primary; its parenthesis ends the conjunction inside. -/

theorem primary_block {b : Block V} (h : ∀ q ∈ b.predicates, q.Complete) (rest : List (Token V))
    {n : Nat} (hn : b.2.length + 4 ≤ n) :
    primary n (b.tokens ++ rest) = some (conj b.1 b.2, rest) := by
  obtain ⟨n, rfl⟩ : ∃ m, n = m + 2 := ⟨n - 2, by omega⟩
  have hinner : disjunction (n + 1) (conjTokens b.1 b.2 ++ .rparen :: rest) =
      some (conj b.1 b.2, .rparen :: rest) := by
    refine disjunction_end (conjunction_conjTokens h ⟨by simp, by simp⟩ (by omega)) (by simp)
  rw [Block.tokens, List.append_assoc, List.singleton_append, List.cons_append, primary, hinner]
  rfl

theorem primary_block_incomplete {b : Block V} (h : ∃ q ∈ b.predicates, ¬ q.Complete)
    (rest : List (Token V)) (n : Nat) : primary n (b.tokens ++ rest) = none := by
  have hinner : ∀ m, disjunction m (conjTokens b.1 b.2 ++ .rparen :: rest) = none := by
    intro m
    cases m with
    | zero => simp [disjunction]
    | succ m => exact disjunction_none (conjunction_incomplete h ⟨by simp, by simp⟩ m)
  cases n with
  | zero => simp [primary]
  | succ n =>
      rw [Block.tokens, List.append_assoc, List.singleton_append, List.cons_append, primary,
        hinner n]
      rfl

/-- What stands behind a search condition. -/
def EndsCondition (rest : List (Token V)) : Prop :=
  rest.head? ≠ some (.keyword .and) ∧ rest.head? ≠ some (.keyword .or)

/-- Enough fuel for a disjunction of blocks. -/
def fuelFor (blocks : List (Block V)) : Nat := (blocks.map fun b => b.2.length + 1).sum + 6

theorem disjunction_dnfTokens {b : Block V} {bs : List (Block V)}
    (h : ∀ c ∈ b :: bs, ∀ q ∈ c.predicates, q.Complete) {rest : List (Token V)}
    (hrest : EndsCondition rest) {n : Nat} (hn : fuelFor (b :: bs) ≤ n) :
    disjunction n (dnfTokens b bs ++ rest) = some (dnf b bs, rest) := by
  induction bs generalizing b n with
  | nil =>
      simp only [fuelFor, List.map_cons, List.map_nil, List.sum_cons, List.sum_nil] at hn
      obtain ⟨n, rfl⟩ : ∃ m, n = m + 2 := ⟨n - 2, by omega⟩
      exact disjunction_end (conjunction_end (primary_block (h b (by simp)) rest (by omega))
        hrest.1) hrest.2
  | cons c bs ih =>
      have hfuel : fuelFor (b :: c :: bs) = b.2.length + 1 + fuelFor (c :: bs) := by
        simp only [fuelFor, List.map_cons, List.sum_cons]
        omega
      have hsix : 6 ≤ fuelFor (c :: bs) := by simp [fuelFor]
      obtain ⟨n, rfl⟩ : ∃ m, n = m + 2 := ⟨n - 2, by omega⟩
      have hfirst : conjunction (n + 1) (b.tokens ++ .keyword .or :: (dnfTokens c bs ++ rest)) =
          some (conj b.1 b.2, .keyword .or :: (dnfTokens c bs ++ rest)) :=
        conjunction_end (primary_block (h b (by simp)) _ (by omega)) (by simp)
      rw [dnfTokens, List.append_assoc, List.cons_append, disjunction_or hfirst,
        ih (fun d hd => h d (List.mem_cons_of_mem _ hd)) (by omega)]
      rfl

theorem disjunction_incomplete {b : Block V} {bs : List (Block V)}
    (h : ∃ c ∈ b :: bs, ∃ q ∈ c.predicates, ¬ q.Complete) (rest : List (Token V)) {n : Nat}
    (hn : fuelFor (b :: bs) ≤ n) : disjunction n (dnfTokens b bs ++ rest) = none := by
  induction bs generalizing b n with
  | nil =>
      simp only [fuelFor, List.map_cons, List.map_nil, List.sum_cons, List.sum_nil] at hn
      obtain ⟨n, rfl⟩ : ∃ m, n = m + 2 := ⟨n - 2, by omega⟩
      obtain ⟨c, hc, hbad⟩ := h
      rw [List.mem_singleton.mp hc] at hbad
      exact disjunction_none (conjunction_none (primary_block_incomplete hbad rest n))
  | cons c bs ih =>
      have hfuel : fuelFor (b :: c :: bs) = b.2.length + 1 + fuelFor (c :: bs) := by
        simp only [fuelFor, List.map_cons, List.sum_cons]
        omega
      have hsix : 6 ≤ fuelFor (c :: bs) := by simp [fuelFor]
      obtain ⟨n, rfl⟩ : ∃ m, n = m + 2 := ⟨n - 2, by omega⟩
      rw [dnfTokens, List.append_assoc, List.cons_append]
      by_cases hb : ∀ q ∈ b.predicates, q.Complete
      · have htail : ∃ d ∈ c :: bs, ∃ q ∈ d.predicates, ¬ q.Complete := by
          obtain ⟨d, hd, q, hq, hbad⟩ := h
          rcases List.mem_cons.mp hd with rfl | hd
          · exact absurd (hb q hq) hbad
          · exact ⟨d, hd, q, hq, hbad⟩
        have hfirst : conjunction (n + 1) (b.tokens ++ .keyword .or :: (dnfTokens c bs ++ rest)) =
            some (conj b.1 b.2, .keyword .or :: (dnfTokens c bs ++ rest)) :=
          conjunction_end (primary_block hb _ (by omega)) (by simp)
        rw [disjunction_or hfirst, ih htail (by omega), Option.map_none]
      · have hbad : ∃ q ∈ b.predicates, ¬ q.Complete := by simpa using hb
        exact disjunction_none (conjunction_none (primary_block_incomplete hbad _ n))

/-! `condition` has the fuel for its own tokens. -/

theorem length_conjTokens (p : Predicate V) (ps : List (Predicate V)) :
    ps.length + 1 ≤ (conjTokens p ps).length := by
  induction ps generalizing p with
  | nil => simp [conjTokens, Predicate.tokens]
  | cons q ps ih =>
      have hq := ih q
      simp only [conjTokens, List.length_append, List.length_cons]
      omega

theorem fuelFor_le (b : Block V) (bs : List (Block V)) :
    fuelFor (b :: bs) ≤ 3 * (dnfTokens b bs).length + 5 := by
  induction bs generalizing b with
  | nil =>
      have hb := length_conjTokens b.1 b.2
      simp only [fuelFor, dnfTokens, Block.tokens, List.map_cons, List.map_nil, List.sum_cons,
        List.sum_nil, List.length_cons, List.length_append, List.length_nil]
      omega
  | cons c bs ih =>
      have hb := length_conjTokens b.1 b.2
      have hc := ih c
      simp only [fuelFor, dnfTokens, Block.tokens, List.map_cons, List.sum_cons,
        List.length_cons, List.length_append, List.length_nil] at hc ⊢
      omega

/-- **Round trip.** -/
theorem condition_dnfTokens {b : Block V} {bs : List (Block V)}
    (h : ∀ c ∈ b :: bs, ∀ q ∈ c.predicates, q.Complete) {rest : List (Token V)}
    (hrest : EndsCondition rest) : condition (dnfTokens b bs ++ rest) = some (dnf b bs, rest) := by
  refine disjunction_dnfTokens h hrest ?_
  have hfuel := fuelFor_le b bs
  rw [List.length_append]
  omega

theorem condition_dnfTokens_incomplete {b : Block V} {bs : List (Block V)}
    (h : ∃ c ∈ b :: bs, ∃ q ∈ c.predicates, ¬ q.Complete) (rest : List (Token V)) :
    condition (dnfTokens b bs ++ rest) = none := by
  refine disjunction_incomplete h rest ?_
  have hfuel := fuelFor_le b bs
  rw [List.length_append]
  omega

/-! ## 6. The meaning of a disjunction of conjunctions -/

theorem eval_conj (d : Dialect V) (row : String → V) (p : Predicate V) (ps : List (Predicate V)) :
    (conj p ps).eval d row = .holds ↔ ∀ q ∈ p :: ps, q.eval d row = .holds := by
  induction ps generalizing p with
  | nil => simp [conj, Condition.eval]
  | cons q ps ih =>
      rw [conj, Condition.eval, Truth.and_eq_holds, ih, @List.forall_mem_cons _ _ p]
      rfl

/-- A disjunction of conjunctions holds when all of some block does. -/
theorem eval_dnf (d : Dialect V) (row : String → V) (b : Block V) (bs : List (Block V)) :
    (dnf b bs).eval d row = .holds ↔
      ∃ c ∈ b :: bs, ∀ q ∈ c.predicates, q.eval d row = .holds := by
  induction bs generalizing b with
  | nil => simp [dnf, eval_conj, Block.predicates]
  | cons c bs ih =>
      rw [dnf, Condition.eval, Truth.or_eq_holds, ih, eval_conj]
      simp only [List.mem_cons, exists_eq_or_imp, Block.predicates]

end SpringDome.Lib.Sql
