/-
SpringDome.Bean.UserExample — `User.java` and `UserExample.java`: the query
builder.

A `Criteria` collects criterions, each a piece of SQL (`condition`) with the
values that go with it. The 26 `and*` methods differ only in the piece, the
property named in the exception and the values they take; all of them end
in one of the three `addCriterion`s. `AndCall` names a method with its
arguments, null included.

A `UserExample` and the `Criteria` it hands out are references in Java: a
criteria may be extended after it was added to the example, be added twice,
or never be added. `Session` keeps the criteria handed out so far, and
`Session.run` plays a list of public calls. `Session.example` is what a
mapper statement finds when it reads the example.
-/
import SpringDome.Lib.DynamicSql

namespace SpringDome.Bean

open SpringDome.Lib.DynamicSql

/-! ## 1. Beans as objects -/

def ofInteger : Option Int32 → Obj
  | none => .null
  | some n => .int n.toInt

def ofString : Option String → Obj
  | none => .null
  | some s => .str s

def ofIntegers : Option (List (Option Int32)) → Obj
  | none => .null
  | some values => .list (values.map ofInteger)

def ofStrings : Option (List (Option String)) → Obj
  | none => .null
  | some values => .list (values.map ofString)

structure User where
  id : Option Int32
  name : Option String
  deriving DecidableEq, Repr

def User.toObj (u : User) : Obj := .bean [("id", ofInteger u.id), ("name", ofString u.name)]

/-! ## 2. Criterions -/

structure Criterion where
  condition : String
  value : Obj
  secondValue : Obj
  noValue : Bool
  singleValue : Bool
  betweenValue : Bool
  listValue : Bool
  typeHandler : Option String

namespace Criterion

/-- `Criterion(String)`. -/
def ofCondition (condition : String) : Criterion :=
  ⟨condition, .null, .null, true, false, false, false, none⟩

/-- `Criterion(String, Object, String)`: a list of values, or one. -/
def ofValue (condition : String) (value : Obj) (typeHandler : Option String) : Criterion :=
  match value with
  | .list items => ⟨condition, .list items, .null, false, false, false, true, typeHandler⟩
  | value => ⟨condition, value, .null, false, true, false, false, typeHandler⟩

/-- `Criterion(String, Object, Object, String)`. -/
def ofBetween (condition : String) (value secondValue : Obj) (typeHandler : Option String) :
    Criterion :=
  ⟨condition, value, secondValue, false, false, true, false, typeHandler⟩

def toObj (c : Criterion) : Obj :=
  .bean [("condition", .str c.condition), ("value", c.value), ("secondValue", c.secondValue),
    ("noValue", .bool c.noValue), ("singleValue", .bool c.singleValue),
    ("betweenValue", .bool c.betweenValue), ("listValue", .bool c.listValue),
    ("typeHandler", ofString c.typeHandler)]

end Criterion

structure Criteria where
  criteria : List Criterion

namespace Criteria

/-- `new Criteria()`. -/
def new : Criteria := ⟨[]⟩

def isValid (c : Criteria) : Bool := 0 < c.criteria.length

def toObj (c : Criteria) : Obj :=
  .bean [("valid", .bool c.isValid), ("allCriteria", .list (c.criteria.map Criterion.toObj)),
    ("criteria", .list (c.criteria.map Criterion.toObj))]

def add (c : Criteria) (criterion : Criterion) : Criteria := ⟨c.criteria ++ [criterion]⟩

/-- `addCriterion(String)`. -/
def addCriterion (c : Criteria) (condition : Option String) : Except String Criteria :=
  match condition with
  | none => .error "Value for condition cannot be null"
  | some condition => .ok (c.add (.ofCondition condition))

/-- `addCriterion(String, Object, String)`. -/
def addCriterionValue (c : Criteria) (condition : String) (value : Obj) (property : String) :
    Except String Criteria :=
  if value.isNull then .error ("Value for " ++ property ++ " cannot be null")
  else .ok (c.add (.ofValue condition value none))

/-- `addCriterion(String, Object, Object, String)`. -/
def addCriterionBetween (c : Criteria) (condition : String) (value1 value2 : Obj)
    (property : String) : Except String Criteria :=
  if value1.isNull || value2.isNull then
    .error ("Between values for " ++ property ++ " cannot be null")
  else .ok (c.add (.ofBetween condition value1 value2 none))

/-! The `and*` methods. -/

def andIdIsNull (c : Criteria) : Except String Criteria := c.addCriterion (some "id is null")

def andIdIsNotNull (c : Criteria) : Except String Criteria := c.addCriterion (some "id is not null")

def andIdEqualTo (c : Criteria) (value : Option Int32) : Except String Criteria :=
  c.addCriterionValue "id =" (ofInteger value) "id"

def andIdNotEqualTo (c : Criteria) (value : Option Int32) : Except String Criteria :=
  c.addCriterionValue "id <>" (ofInteger value) "id"

def andIdGreaterThan (c : Criteria) (value : Option Int32) : Except String Criteria :=
  c.addCriterionValue "id >" (ofInteger value) "id"

def andIdGreaterThanOrEqualTo (c : Criteria) (value : Option Int32) : Except String Criteria :=
  c.addCriterionValue "id >=" (ofInteger value) "id"

def andIdLessThan (c : Criteria) (value : Option Int32) : Except String Criteria :=
  c.addCriterionValue "id <" (ofInteger value) "id"

def andIdLessThanOrEqualTo (c : Criteria) (value : Option Int32) : Except String Criteria :=
  c.addCriterionValue "id <=" (ofInteger value) "id"

def andIdIn (c : Criteria) (values : Option (List (Option Int32))) : Except String Criteria :=
  c.addCriterionValue "id in" (ofIntegers values) "id"

def andIdNotIn (c : Criteria) (values : Option (List (Option Int32))) : Except String Criteria :=
  c.addCriterionValue "id not in" (ofIntegers values) "id"

def andIdBetween (c : Criteria) (value1 value2 : Option Int32) : Except String Criteria :=
  c.addCriterionBetween "id between" (ofInteger value1) (ofInteger value2) "id"

def andIdNotBetween (c : Criteria) (value1 value2 : Option Int32) : Except String Criteria :=
  c.addCriterionBetween "id not between" (ofInteger value1) (ofInteger value2) "id"

def andNameIsNull (c : Criteria) : Except String Criteria := c.addCriterion (some "name is null")

def andNameIsNotNull (c : Criteria) : Except String Criteria :=
  c.addCriterion (some "name is not null")

def andNameEqualTo (c : Criteria) (value : Option String) : Except String Criteria :=
  c.addCriterionValue "name =" (ofString value) "name"

def andNameNotEqualTo (c : Criteria) (value : Option String) : Except String Criteria :=
  c.addCriterionValue "name <>" (ofString value) "name"

def andNameGreaterThan (c : Criteria) (value : Option String) : Except String Criteria :=
  c.addCriterionValue "name >" (ofString value) "name"

def andNameGreaterThanOrEqualTo (c : Criteria) (value : Option String) : Except String Criteria :=
  c.addCriterionValue "name >=" (ofString value) "name"

def andNameLessThan (c : Criteria) (value : Option String) : Except String Criteria :=
  c.addCriterionValue "name <" (ofString value) "name"

def andNameLessThanOrEqualTo (c : Criteria) (value : Option String) : Except String Criteria :=
  c.addCriterionValue "name <=" (ofString value) "name"

def andNameLike (c : Criteria) (value : Option String) : Except String Criteria :=
  c.addCriterionValue "name like" (ofString value) "name"

def andNameNotLike (c : Criteria) (value : Option String) : Except String Criteria :=
  c.addCriterionValue "name not like" (ofString value) "name"

def andNameIn (c : Criteria) (values : Option (List (Option String))) : Except String Criteria :=
  c.addCriterionValue "name in" (ofStrings values) "name"

def andNameNotIn (c : Criteria) (values : Option (List (Option String))) : Except String Criteria :=
  c.addCriterionValue "name not in" (ofStrings values) "name"

def andNameBetween (c : Criteria) (value1 value2 : Option String) : Except String Criteria :=
  c.addCriterionBetween "name between" (ofString value1) (ofString value2) "name"

def andNameNotBetween (c : Criteria) (value1 value2 : Option String) : Except String Criteria :=
  c.addCriterionBetween "name not between" (ofString value1) (ofString value2) "name"

end Criteria

/-! ## 3. Calls on a criteria

The methods by what they take, and a call as a method with its arguments. -/

inductive NullaryMethod where
  | andIdIsNull | andIdIsNotNull | andNameIsNull | andNameIsNotNull
  deriving DecidableEq, Repr

inductive IntegerMethod where
  | andIdEqualTo | andIdNotEqualTo | andIdGreaterThan | andIdGreaterThanOrEqualTo
  | andIdLessThan | andIdLessThanOrEqualTo
  deriving DecidableEq, Repr

inductive IntegersMethod where
  | andIdIn | andIdNotIn
  deriving DecidableEq, Repr

inductive IntegerPairMethod where
  | andIdBetween | andIdNotBetween
  deriving DecidableEq, Repr

inductive StringMethod where
  | andNameEqualTo | andNameNotEqualTo | andNameGreaterThan | andNameGreaterThanOrEqualTo
  | andNameLessThan | andNameLessThanOrEqualTo | andNameLike | andNameNotLike
  deriving DecidableEq, Repr

inductive StringsMethod where
  | andNameIn | andNameNotIn
  deriving DecidableEq, Repr

inductive StringPairMethod where
  | andNameBetween | andNameNotBetween
  deriving DecidableEq, Repr

def NullaryMethod.run : NullaryMethod → Criteria → Except String Criteria
  | .andIdIsNull => Criteria.andIdIsNull
  | .andIdIsNotNull => Criteria.andIdIsNotNull
  | .andNameIsNull => Criteria.andNameIsNull
  | .andNameIsNotNull => Criteria.andNameIsNotNull

def IntegerMethod.run : IntegerMethod → Criteria → Option Int32 → Except String Criteria
  | .andIdEqualTo => Criteria.andIdEqualTo
  | .andIdNotEqualTo => Criteria.andIdNotEqualTo
  | .andIdGreaterThan => Criteria.andIdGreaterThan
  | .andIdGreaterThanOrEqualTo => Criteria.andIdGreaterThanOrEqualTo
  | .andIdLessThan => Criteria.andIdLessThan
  | .andIdLessThanOrEqualTo => Criteria.andIdLessThanOrEqualTo

def IntegersMethod.run : IntegersMethod →
    Criteria → Option (List (Option Int32)) → Except String Criteria
  | .andIdIn => Criteria.andIdIn
  | .andIdNotIn => Criteria.andIdNotIn

def IntegerPairMethod.run : IntegerPairMethod →
    Criteria → Option Int32 → Option Int32 → Except String Criteria
  | .andIdBetween => Criteria.andIdBetween
  | .andIdNotBetween => Criteria.andIdNotBetween

def StringMethod.run : StringMethod → Criteria → Option String → Except String Criteria
  | .andNameEqualTo => Criteria.andNameEqualTo
  | .andNameNotEqualTo => Criteria.andNameNotEqualTo
  | .andNameGreaterThan => Criteria.andNameGreaterThan
  | .andNameGreaterThanOrEqualTo => Criteria.andNameGreaterThanOrEqualTo
  | .andNameLessThan => Criteria.andNameLessThan
  | .andNameLessThanOrEqualTo => Criteria.andNameLessThanOrEqualTo
  | .andNameLike => Criteria.andNameLike
  | .andNameNotLike => Criteria.andNameNotLike

def StringsMethod.run : StringsMethod →
    Criteria → Option (List (Option String)) → Except String Criteria
  | .andNameIn => Criteria.andNameIn
  | .andNameNotIn => Criteria.andNameNotIn

def StringPairMethod.run : StringPairMethod →
    Criteria → Option String → Option String → Except String Criteria
  | .andNameBetween => Criteria.andNameBetween
  | .andNameNotBetween => Criteria.andNameNotBetween

inductive AndCall where
  | nullary (m : NullaryMethod)
  | integer (m : IntegerMethod) (value : Option Int32)
  | integers (m : IntegersMethod) (values : Option (List (Option Int32)))
  | integerPair (m : IntegerPairMethod) (value1 value2 : Option Int32)
  | string (m : StringMethod) (value : Option String)
  | strings (m : StringsMethod) (values : Option (List (Option String)))
  | stringPair (m : StringPairMethod) (value1 value2 : Option String)
  deriving DecidableEq, Repr

/-- The call on a criteria, which throws for a null argument. -/
def AndCall.apply (call : AndCall) (c : Criteria) : Except String Criteria :=
  match call with
  | .nullary m => m.run c
  | .integer m value => m.run c value
  | .integers m values => m.run c values
  | .integerPair m value1 value2 => m.run c value1 value2
  | .string m value => m.run c value
  | .strings m values => m.run c values
  | .stringPair m value1 value2 => m.run c value1 value2

/-- No argument is null. -/
def AndCall.accepted : AndCall → Bool
  | .nullary _ => true
  | .integer _ value => value.isSome
  | .integers _ values => values.isSome
  | .integerPair _ value1 value2 => value1.isSome && value2.isSome
  | .string _ value => value.isSome
  | .strings _ values => values.isSome
  | .stringPair _ value1 value2 => value1.isSome && value2.isSome

/-- The criteria after a call: one that throws leaves it as it was. -/
def Criteria.call (c : Criteria) (call : AndCall) : Criteria := (call.apply c).toOption.getD c

/-- A new criteria after a list of calls. -/
def Criteria.build (calls : List AndCall) : Criteria := calls.foldl Criteria.call Criteria.new

/-! ## 4. Examples -/

/-- The value of a `UserExample`. An element of `oredCriteria` may be null. -/
structure UserExample where
  orderByClause : Option String
  distinct : Bool
  oredCriteria : List (Option Criteria)
  limit : Option Int32
  offset : Option Int32

def UserExample.toObj (e : UserExample) : Obj :=
  .bean [("orderByClause", ofString e.orderByClause), ("distinct", .bool e.distinct),
    ("oredCriteria", .list (e.oredCriteria.map fun c => (c.map Criteria.toObj).getD .null)),
    ("limit", ofInteger e.limit), ("offset", ofInteger e.offset)]

/-- A `UserExample` object, with the criteria handed out so far; the example
refers to them by position. -/
structure Session where
  handedOut : List Criteria
  orderByClause : Option String
  distinct : Bool
  oredCriteria : List (Option Nat)
  limit : Option Int32
  offset : Option Int32

inductive ExampleCall where
  | setOrderByClause (orderByClause : Option String)
  | setDistinct (distinct : Bool)
  /-- `or(Criteria)`, with a criteria handed out before, or null. -/
  | orAdd (criteria : Option Nat)
  | or
  | createCriteria
  | clear
  | setLimit (limit : Option Int32)
  | setOffset (offset : Option Int32)
  /-- An `and*` method of a criteria handed out before. -/
  | and (criteria : Nat) (call : AndCall)
  deriving DecidableEq, Repr

namespace Session

/-- `new UserExample()`. -/
def new : Session := ⟨[], none, false, [], none, none⟩

def setOrderByClause (s : Session) (orderByClause : Option String) : Session :=
  { s with orderByClause := orderByClause }

def setDistinct (s : Session) (distinct : Bool) : Session := { s with distinct := distinct }

def setLimit (s : Session) (limit : Option Int32) : Session := { s with limit := limit }

def setOffset (s : Session) (offset : Option Int32) : Session := { s with offset := offset }

/-- `or(Criteria)`. -/
def orAdd (s : Session) (criteria : Option Nat) : Session :=
  { s with oredCriteria := s.oredCriteria ++ [criteria] }

/-- `createCriteriaInternal()`. -/
def createCriteriaInternal (s : Session) : Session × Nat :=
  ({ s with handedOut := s.handedOut ++ [.new] }, s.handedOut.length)

/-- `or()`. -/
def or (s : Session) : Session :=
  let (s, criteria) := s.createCriteriaInternal
  s.orAdd (some criteria)

/-- `createCriteria()`: only the first criteria is added. -/
def createCriteria (s : Session) : Session :=
  let (s, criteria) := s.createCriteriaInternal
  if s.oredCriteria.length = 0 then s.orAdd (some criteria) else s

def clear (s : Session) : Session :=
  { s with oredCriteria := [], orderByClause := none, distinct := false }

/-- An `and*` call on a criteria handed out before. -/
def andCall (s : Session) (criteria : Nat) (call : AndCall) : Session :=
  { s with handedOut := s.handedOut.modify criteria fun c => c.call call }

def step (s : Session) : ExampleCall → Session
  | .setOrderByClause orderByClause => s.setOrderByClause orderByClause
  | .setDistinct distinct => s.setDistinct distinct
  | .orAdd criteria =>
      -- the caller has no criteria that was not handed out
      if criteria.all (· < s.handedOut.length) then s.orAdd criteria else s
  | .or => s.or
  | .createCriteria => s.createCriteria
  | .clear => s.clear
  | .setLimit limit => s.setLimit limit
  | .setOffset offset => s.setOffset offset
  | .and criteria call => s.andCall criteria call

/-- A list of public calls on a new example. -/
def run (calls : List ExampleCall) : Session := calls.foldl step new

/-- The example as a statement reads it. -/
def toExample (s : Session) : UserExample where
  orderByClause := s.orderByClause
  distinct := s.distinct
  oredCriteria := s.oredCriteria.map fun c => c.bind fun ref => s.handedOut[ref]?
  limit := s.limit
  offset := s.offset

end Session

end SpringDome.Bean
