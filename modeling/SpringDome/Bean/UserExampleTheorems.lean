/-
SpringDome.Bean.UserExampleTheorems — what the 26 `and*` methods append.

`AndCall.predicate` says what a call is for: a predicate on a row.
`call_accepted` connects it with the code: an accepted call appends one
criterion, whose condition and values are the tokens of that predicate.
Everything later about rendered criteria rests on this one lemma.
-/
import SpringDome.Bean.UserExample
import Mathlib.Data.List.Forall2

namespace SpringDome.Bean

open SpringDome.Lib.DynamicSql
open SpringDome.Lib.Sql

/-! ## 1. What a call is for -/

def NullaryMethod.predicate : NullaryMethod → Predicate Obj
  | .andIdIsNull => .isNull false (.column "id")
  | .andIdIsNotNull => .isNull true (.column "id")
  | .andNameIsNull => .isNull false (.column "name")
  | .andNameIsNotNull => .isNull true (.column "name")

def IntegerMethod.comparison : IntegerMethod → Comparison
  | .andIdEqualTo => .eq
  | .andIdNotEqualTo => .ne
  | .andIdGreaterThan => .gt
  | .andIdGreaterThanOrEqualTo => .ge
  | .andIdLessThan => .lt
  | .andIdLessThanOrEqualTo => .le

def IntegersMethod.negated : IntegersMethod → Bool
  | .andIdIn => false
  | .andIdNotIn => true

def IntegerPairMethod.negated : IntegerPairMethod → Bool
  | .andIdBetween => false
  | .andIdNotBetween => true

def StringMethod.predicate (m : StringMethod) (value : Operand Obj) : Predicate Obj :=
  match m with
  | .andNameEqualTo => .compare .eq (.column "name") value
  | .andNameNotEqualTo => .compare .ne (.column "name") value
  | .andNameGreaterThan => .compare .gt (.column "name") value
  | .andNameGreaterThanOrEqualTo => .compare .ge (.column "name") value
  | .andNameLessThan => .compare .lt (.column "name") value
  | .andNameLessThanOrEqualTo => .compare .le (.column "name") value
  | .andNameLike => .like false (.column "name") value
  | .andNameNotLike => .like true (.column "name") value

def StringsMethod.negated : StringsMethod → Bool
  | .andNameIn => false
  | .andNameNotIn => true

def StringPairMethod.negated : StringPairMethod → Bool
  | .andNameBetween => false
  | .andNameNotBetween => true

/-- The condition a call puts on a row. -/
def AndCall.predicate : AndCall → Predicate Obj
  | .nullary m => m.predicate
  | .integer m value => .compare m.comparison (.column "id") (.value (ofInteger value))
  | .integers m values =>
      .inList m.negated (.column "id") ((values.getD []).map fun v => .value (ofInteger v))
  | .integerPair m value1 value2 =>
      .between m.negated (.column "id") (.value (ofInteger value1)) (.value (ofInteger value2))
  | .string m value => m.predicate (.value (ofString value))
  | .strings m values =>
      .inList m.negated (.column "name") ((values.getD []).map fun v => .value (ofString v))
  | .stringPair m value1 value2 =>
      .between m.negated (.column "name") (.value (ofString value1)) (.value (ofString value2))

/-- The values of a call, in order. -/
def AndCall.values : AndCall → List Obj
  | .nullary _ => []
  | .integer _ value => [ofInteger value]
  | .integers _ values => (values.getD []).map ofInteger
  | .integerPair _ value1 value2 => [ofInteger value1, ofInteger value2]
  | .string _ value => [ofString value]
  | .strings _ values => (values.getD []).map ofString
  | .stringPair _ value1 value2 => [ofString value1, ofString value2]

/-! ## 2. What a criterion prints -/

/-- The four kinds of criterion the constructors make. -/
inductive Criterion.Kind : Criterion → Prop where
  | noValue (condition : String) : Kind (.ofCondition condition)
  | singleValue (condition : String) (v : Obj) (h : ∀ items, v ≠ .list items) :
      Kind ⟨condition, v, .null, false, true, false, false, none⟩
  | betweenValue (condition : String) (v w : Obj) : Kind (.ofBetween condition v w none)
  | listValue (condition : String) (items : List Obj) :
      Kind (.ofValue condition (.list items) none)

/-- The tokens of the values of a criterion. -/
def Criterion.valueTokens (k : Criterion) : List (Token Obj) :=
  if k.noValue then []
  else if k.singleValue then [.param k.value]
  else if k.betweenValue then [.param k.value, .keyword .and, .param k.secondValue]
  else match k.value with
    | .list items => listTokens (items.map .value)
    | _ => []

/-- A list criterion without values. -/
def Criterion.emptyList (k : Criterion) : Bool :=
  k.listValue && match k.value with
    | .list [] => true
    | _ => false

/-- The condition of the criterion, then its values, are the tokens of the
predicate. -/
structure Criterion.Prints (k : Criterion) (p : Predicate Obj) : Prop where
  kind : k.Kind
  complete : p.Complete ↔ k.emptyList = false
  tokens : ∃ ts : List (Token Obj), lex k.condition.toList = ts.map Token.erase ∧
    ts.filterMap Token.value? = [] ∧ p.tokens = ts ++ k.valueTokens

theorem Criteria.call_eq {c c' : Criteria} {call : AndCall} (h : call.apply c = .ok c') :
    c.call call = c' := by
  rw [Criteria.call, h]
  rfl

theorem Criteria.addCriterionValue_ok (c : Criteria) (condition : String) {value : Obj}
    (h : value.isNull = false) (property : String) :
    c.addCriterionValue condition value property = .ok (c.add (.ofValue condition value none)) := by
  rw [addCriterionValue, h]
  rfl

theorem Criteria.addCriterionBetween_ok (c : Criteria) (condition : String) {value1 value2 : Obj}
    (h1 : value1.isNull = false) (h2 : value2.isNull = false) (property : String) :
    c.addCriterionBetween condition value1 value2 property =
      .ok (c.add (.ofBetween condition value1 value2 none)) := by
  rw [addCriterionBetween, h1, h2]
  rfl

/-! One lemma for each kind of method. -/

theorem NullaryMethod.call_eq (m : NullaryMethod) : ∃ condition,
    lex condition.toList = m.predicate.tokens.map Token.erase ∧
    ∀ c : Criteria, c.call (.nullary m) = c.add (.ofCondition condition) := by
  cases m <;> exact ⟨_, by decide, fun c => Criteria.call_eq rfl⟩

theorem IntegerMethod.call_eq (m : IntegerMethod) : ∃ condition,
    lex condition.toList = [.ident "id", .comparison m.comparison] ∧
    ∀ (c : Criteria) (v : Int32),
      c.call (.integer m (some v)) = c.add (.ofValue condition (.int v.toInt) none) := by
  cases m <;> exact ⟨_, by decide, fun c v =>
    Criteria.call_eq (c.addCriterionValue_ok _ (rfl : (ofInteger (some v)).isNull = false) "id")⟩

theorem IntegersMethod.call_eq (m : IntegersMethod) : ∃ condition,
    lex condition.toList = .ident "id" :: notTokens m.negated ++ [.keyword .in] ∧
    ∀ (c : Criteria) (vs : List (Option Int32)),
      c.call (.integers m (some vs)) =
        c.add (.ofValue condition (.list (vs.map ofInteger)) none) := by
  cases m <;> exact ⟨_, by decide, fun c vs =>
    Criteria.call_eq (c.addCriterionValue_ok _ (rfl : (ofIntegers (some vs)).isNull = false) "id")⟩

theorem IntegerPairMethod.call_eq (m : IntegerPairMethod) : ∃ condition,
    lex condition.toList = .ident "id" :: notTokens m.negated ++ [.keyword .between] ∧
    ∀ (c : Criteria) (v w : Int32),
      c.call (.integerPair m (some v) (some w)) =
        c.add (.ofBetween condition (.int v.toInt) (.int w.toInt) none) := by
  cases m <;> exact ⟨_, by decide, fun c v w => Criteria.call_eq
    (c.addCriterionBetween_ok _ (rfl : (ofInteger (some v)).isNull = false)
      (rfl : (ofInteger (some w)).isNull = false) "id")⟩

/-- The tokens of the predicate before its text. -/
def StringMethod.front (m : StringMethod) : List (Token Obj) :=
  (m.predicate (.column "")).tokens.dropLast

theorem StringMethod.tokens_eq (m : StringMethod) (v : Obj) :
    (m.predicate (.value v)).tokens = m.front ++ [.param v] ∧
      m.front.filterMap Token.value? = [] := by
  cases m <;> exact ⟨rfl, rfl⟩

theorem StringMethod.call_eq (m : StringMethod) : ∃ condition,
    lex condition.toList = m.front.map Token.erase ∧
    ∀ (c : Criteria) (v : String),
      c.call (.string m (some v)) = c.add (.ofValue condition (.str v) none) := by
  cases m <;> exact ⟨_, by decide, fun c v =>
    Criteria.call_eq (c.addCriterionValue_ok _ (rfl : (ofString (some v)).isNull = false) "name")⟩

theorem StringsMethod.call_eq (m : StringsMethod) : ∃ condition,
    lex condition.toList = .ident "name" :: notTokens m.negated ++ [.keyword .in] ∧
    ∀ (c : Criteria) (vs : List (Option String)),
      c.call (.strings m (some vs)) =
        c.add (.ofValue condition (.list (vs.map ofString)) none) := by
  cases m <;> exact ⟨_, by decide, fun c vs =>
    Criteria.call_eq (c.addCriterionValue_ok _ (rfl : (ofStrings (some vs)).isNull = false) "name")⟩

theorem StringPairMethod.call_eq (m : StringPairMethod) : ∃ condition,
    lex condition.toList = .ident "name" :: notTokens m.negated ++ [.keyword .between] ∧
    ∀ (c : Criteria) (v w : String),
      c.call (.stringPair m (some v) (some w)) =
        c.add (.ofBetween condition (.str v) (.str w) none) := by
  cases m <;> exact ⟨_, by decide, fun c v w => Criteria.call_eq
    (c.addCriterionBetween_ok _ (rfl : (ofString (some v)).isNull = false)
      (rfl : (ofString (some w)).isNull = false) "name")⟩

/-- The tokens of a condition before a list or a range. -/
theorem front_tokens (column : String) (negated : Bool) (k : Keyword) :
    (.ident column :: notTokens negated ++ [.keyword k] : List (Token Obj)).map Token.erase =
        .ident column :: notTokens negated ++ [.keyword k] ∧
      (.ident column :: notTokens negated ++ [.keyword k] : List (Token Obj)).filterMap
        Token.value? = [] := by
  cases negated <;> exact ⟨rfl, rfl⟩

/-- `in` with a list of values. -/
theorem Criterion.prints_inList {condition column : String} {negated : Bool}
    (hlex : lex condition.toList = .ident column :: notTokens negated ++ [.keyword .in])
    (items : List Obj) :
    (Criterion.ofValue condition (.list items) none).Prints
      (.inList negated (.column column) (items.map .value)) where
  kind := .listValue condition items
  complete := by cases items <;> simp [Predicate.Complete, Criterion.emptyList, Criterion.ofValue]
  tokens := by
    obtain ⟨herase, hvalues⟩ := front_tokens column negated .in
    refine ⟨_, hlex.trans herase.symm, hvalues, ?_⟩
    show Token.ident column :: (notTokens negated ++ .keyword .in :: listTokens _) =
      .ident column :: notTokens negated ++ [.keyword .in] ++ listTokens _
    simp

/-- `between` with two values. -/
theorem Criterion.prints_between {condition column : String} {negated : Bool}
    (hlex : lex condition.toList = .ident column :: notTokens negated ++ [.keyword .between])
    (v w : Obj) :
    (Criterion.ofBetween condition v w none).Prints
      (.between negated (.column column) (.value v) (.value w)) where
  kind := .betweenValue condition v w
  complete := ⟨fun _ => rfl, fun _ => trivial⟩
  tokens := by
    obtain ⟨herase, hvalues⟩ := front_tokens column negated .between
    refine ⟨_, hlex.trans herase.symm, hvalues, ?_⟩
    show Token.ident column :: (notTokens negated ++
        [.keyword .between, .param v, .keyword .and, .param w]) =
      .ident column :: notTokens negated ++ [.keyword .between] ++
        [.param v, .keyword .and, .param w]
    simp

/-- **What a call appends.** An accepted call appends one criterion, which
prints the predicate of the call. -/
theorem call_accepted {call : AndCall} (h : call.accepted = true) :
    ∃ k : Criterion, k.Prints call.predicate ∧ ∀ c : Criteria, c.call call = c.add k := by
  cases call with
  | nullary m =>
      obtain ⟨condition, hlex, hcall⟩ := m.call_eq
      have hvalues : m.predicate.tokens.filterMap Token.value? = [] := by cases m <;> rfl
      have hcomplete : m.predicate.Complete := by cases m <;> trivial
      exact ⟨_, ⟨.noValue condition, ⟨fun _ => rfl, fun _ => hcomplete⟩, _, hlex, hvalues,
        (List.append_nil _).symm⟩, hcall⟩
  | integer m value =>
      obtain ⟨v, rfl⟩ := Option.isSome_iff_exists.mp h
      obtain ⟨condition, hlex, hcall⟩ := m.call_eq
      exact ⟨_, ⟨.singleValue condition (.int v.toInt) (by simp),
        ⟨fun _ => rfl, fun _ => trivial⟩, [.ident "id", .comparison m.comparison], hlex, rfl, rfl⟩,
        fun c => hcall c v⟩
  | integers m values =>
      obtain ⟨vs, rfl⟩ := Option.isSome_iff_exists.mp h
      obtain ⟨condition, hlex, hcall⟩ := m.call_eq
      have hprints := Criterion.prints_inList hlex (vs.map ofInteger)
      rw [List.map_map] at hprints
      exact ⟨_, hprints, fun c => hcall c vs⟩
  | integerPair m value1 value2 =>
      obtain ⟨hv, hw⟩ := (Bool.and_eq_true _ _).mp h
      obtain ⟨v, rfl⟩ := Option.isSome_iff_exists.mp hv
      obtain ⟨w, rfl⟩ := Option.isSome_iff_exists.mp hw
      obtain ⟨condition, hlex, hcall⟩ := m.call_eq
      exact ⟨_, Criterion.prints_between hlex _ _, fun c => hcall c v w⟩
  | string m value =>
      obtain ⟨v, rfl⟩ := Option.isSome_iff_exists.mp h
      obtain ⟨condition, hlex, hcall⟩ := m.call_eq
      obtain ⟨htokens, hvalues⟩ := m.tokens_eq (.str v)
      have hcomplete : (m.predicate (.value (.str v))).Complete := by cases m <;> trivial
      exact ⟨_, ⟨.singleValue condition (.str v) (by simp),
        ⟨fun _ => rfl, fun _ => hcomplete⟩, m.front, hlex, hvalues, htokens⟩, fun c => hcall c v⟩
  | strings m values =>
      obtain ⟨vs, rfl⟩ := Option.isSome_iff_exists.mp h
      obtain ⟨condition, hlex, hcall⟩ := m.call_eq
      have hprints := Criterion.prints_inList hlex (vs.map ofString)
      rw [List.map_map] at hprints
      exact ⟨_, hprints, fun c => hcall c vs⟩
  | stringPair m value1 value2 =>
      obtain ⟨hv, hw⟩ := (Bool.and_eq_true _ _).mp h
      obtain ⟨v, rfl⟩ := Option.isSome_iff_exists.mp hv
      obtain ⟨w, rfl⟩ := Option.isSome_iff_exists.mp hw
      obtain ⟨condition, hlex, hcall⟩ := m.call_eq
      exact ⟨_, Criterion.prints_between hlex _ _, fun c => hcall c v w⟩

/-- A call with a null argument throws, and leaves the criteria. -/
theorem call_refused {call : AndCall} (h : call.accepted = false) (c : Criteria) :
    c.call call = c := by
  cases call with
  | nullary m => cases h
  | integer m value =>
      cases value with
      | none => cases m <;> rfl
      | some v => cases h
  | integers m values =>
      cases values with
      | none => cases m <;> rfl
      | some vs => cases h
  | integerPair m value1 value2 =>
      cases value1 with
      | none => cases m <;> rfl
      | some v =>
          cases value2 with
          | none => cases m <;> rfl
          | some w => cases h
  | string m value =>
      cases value with
      | none => cases m <;> rfl
      | some v => cases h
  | strings m values =>
      cases values with
      | none => cases m <;> rfl
      | some vs => cases h
  | stringPair m value1 value2 =>
      cases value1 with
      | none => cases m <;> rfl
      | some v =>
          cases value2 with
          | none => cases m <;> rfl
          | some w => cases h

/-! ## 3. Examples -/

/-- An element of the list of criteria, as a template sees it. -/
def criteriaObj (c : Option Criteria) : Obj := (c.map Criteria.toObj).getD .null

/-- A criteria has a criterion for each accepted call. -/
theorem Criteria.build_prints (calls : List AndCall) :
    List.Forall₂ Criterion.Prints (Criteria.build calls).criteria
      ((calls.filter AndCall.accepted).map AndCall.predicate) := by
  have hfold : ∀ (calls : List AndCall) (c : Criteria) (ps : List (Predicate Obj)),
      List.Forall₂ Criterion.Prints c.criteria ps →
      List.Forall₂ Criterion.Prints (calls.foldl Criteria.call c).criteria
        (ps ++ (calls.filter AndCall.accepted).map AndCall.predicate) := by
    intro calls
    induction calls with
    | nil => intro c ps h; simpa using h
    | cons call calls ih =>
        intro c ps h
        cases haccepted : call.accepted with
        | false =>
            rw [List.foldl_cons, call_refused haccepted,
              List.filter_cons_of_neg (by simp [haccepted])]
            exact ih c ps h
        | true =>
            obtain ⟨k, hk, hcall⟩ := call_accepted haccepted
            rw [List.foldl_cons, hcall, List.filter_cons_of_pos haccepted, List.map_cons,
              List.append_cons]
            exact ih _ _ (List.rel_append h (.cons hk .nil))
  exact hfold calls .new [] .nil

/-- The first criteria is added, the others are only handed out. -/
theorem Session.createCriteria_eq (s : Session) : s.createCriteria =
    { s with
      handedOut := s.handedOut ++ [.new]
      oredCriteria := if s.oredCriteria.length = 0 then s.oredCriteria ++ [some s.handedOut.length]
        else s.oredCriteria } := by
  by_cases hfirst : s.oredCriteria.length = 0
  · simp only [createCriteria, createCriteriaInternal, hfirst, if_true]
    rfl
  · simp only [createCriteria, createCriteriaInternal, hfirst, if_false]

/-- Every criteria handed out was built by its own calls. -/
def Session.AllBuilt (s : Session) : Prop :=
  ∀ c ∈ s.handedOut, ∃ calls, c = Criteria.build calls

theorem Session.AllBuilt.step {s : Session} (h : s.AllBuilt) (call : ExampleCall) :
    (s.step call).AllBuilt := by
  have hnew : ∀ c ∈ s.handedOut ++ [Criteria.new], ∃ calls, c = Criteria.build calls := by
    intro c hc
    rcases List.mem_append.mp hc with hc | hc
    · exact h c hc
    · exact ⟨[], List.mem_singleton.mp hc⟩
  cases call with
  | setOrderByClause orderByClause => exact h
  | setDistinct distinct => exact h
  | setLimit limit => exact h
  | setOffset offset => exact h
  | clear => exact h
  | or => exact hnew
  | createCriteria =>
      rw [Session.step, Session.createCriteria_eq]
      exact hnew
  | orAdd criteria =>
      simp only [Session.step]
      split
      · exact h
      · exact h
  | and criteria call =>
      intro c hc
      obtain ⟨i, hi, rfl⟩ := List.mem_iff_getElem.mp hc
      have hlength : i < s.handedOut.length := by simpa [Session.step, Session.andCall] using hi
      obtain ⟨calls, hcalls⟩ := h _ (List.getElem_mem hlength)
      simp only [Session.step, Session.andCall, List.getElem_modify, hcalls]
      split
      · exact ⟨calls ++ [call], by simp [Criteria.build]⟩
      · exact ⟨calls, rfl⟩

theorem Session.run_allBuilt (calls : List ExampleCall) : (Session.run calls).AllBuilt := by
  have hfold : ∀ (calls : List ExampleCall) (s : Session), s.AllBuilt →
      (calls.foldl Session.step s).AllBuilt := by
    intro calls
    induction calls with
    | nil => exact fun s h => h
    | cons call calls ih => exact fun s h => ih _ (h.step call)
  exact hfold calls .new fun c hc => by cases hc

/-- What an example lists was built by `and*` calls, unless it is null. -/
theorem Session.exists_build (calls : List ExampleCall) {c : Criteria}
    (h : some c ∈ (Session.run calls).toExample.oredCriteria) :
    ∃ andCalls, c = Criteria.build andCalls := by
  obtain ⟨ref, -, href⟩ := List.mem_map.mp h
  obtain ⟨i, -, hi⟩ := Option.bind_eq_some_iff.mp href
  exact Session.run_allBuilt calls c (List.mem_of_getElem? hi)

end SpringDome.Bean
