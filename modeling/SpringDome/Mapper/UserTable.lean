/-
SpringDome.Mapper.UserTable — `t_user` under the calls of the mapper.

`Performs` is the whole way of a call: its template is rendered, the text with
its values is read as a statement, the server executes that, and the result is
mapped. `Command.Step` is what the mapper is for: users in a table are counted,
selected, inserted, changed and removed by what an example says of them, and
there is no text in it. Every history of the one is a history of the other
(`history_iff`).

What is open about the server are the fields of `Mysql`: how it compares
strings, what it can order by, its defaults and its constraints. A cell is
stored as it is sent, so a column whose keys the server makes up is none of
these.
-/
import SpringDome.Lib.SqlTable
import SpringDome.Lib.Programs
import SpringDome.Mapper.SelectWindow

namespace SpringDome.Mapper

open SpringDome.Bean
open SpringDome.Lib
open SpringDome.Lib.DynamicSql
open SpringDome.Lib.Sql

/-! ## 1. The server -/

/-- An INTEGER and a VARCHAR column. -/
def userStore (column : String) (v : Obj) (u : User) : Option User :=
  if column = "id" then (toInteger v).map fun id => { u with id := id }
  else if column = "name" then (toText v).map fun name => { u with name := name }
  else none

structure Mysql where
  dialect : Dialect Obj
  isNull_eq : dialect.isNull = Obj.isNull
  compare_int : ∀ m n, dialect.compare (.int m) (.int n) = compare m n
  /-- The order that the text behind ORDER BY stands for. -/
  orderBy : List (Token Obj) → Option (User → User → Bool)
  blank : List User → User
  admits : List User → Bool

def Mysql.database (m : Mysql) : Database User Obj where
  dialect := m.dialect
  cell := userCell
  orderBy := m.orderBy
  table := "t_user"
  store := userStore
  blank := m.blank
  admits := m.admits

/-! ## 2. What a call does -/

inductive Answer where
  /-- An exception. -/
  | failed
  | rows (n : Nat)
  | users (users : List (Option User))
  | user (u : Option User)
  deriving DecidableEq, Repr

/-- A statement that answers a number. -/
def settle (table : List User) : Option (Nat × List User) → Answer × List User
  | none => (.failed, table)
  | some (n, rows) => (.rows n, rows)

/-- `selectList`. -/
def ofSelected : Option (List (Option User)) → Answer
  | none => .failed
  | some users => .users users

/-- `selectOne`: more than one row is an exception. -/
def oneOf : Option (List (Option User)) → Answer
  | some [] => .user none
  | some [u] => .user u
  | _ => .failed

/-- The users the server may answer; none for a text that it cannot read. -/
def Fetches (m : Mysql) (table : List User) (b : BoundSql Obj) :
    Option (List (Option User)) → Prop
  | some users => ∃ q answer, b.query = some q ∧ q.table = m.database.table ∧
      m.database.Answers table q answer ∧ answer.mapM baseResultMap = some users
  | none => ∀ q, b.query = some q → q.table ≠ m.database.table ∨ m.database.order q = none

/-- What a call may answer, and the table behind it. -/
def Performs (strict : Bool) (m : Mysql) (table : List User) (call : MapperCall)
    (answer : Answer) (table' : List User) : Prop :=
  match call.boundSql strict with
  | .error _ => (answer, table') = (.failed, table)
  | .ok b =>
      match call with
      | .selectByExample _ => ∃ r, Fetches m table b r ∧ (answer, table') = (ofSelected r, table)
      | .selectByPrimaryKey _ => ∃ r, Fetches m table b r ∧ (answer, table') = (oneOf r, table)
      | _ => (answer, table') = settle table (b.parse.bind (m.database.execute table))

/-! ## 3. What the mapper is for -/

/-- An example by the calls that built it. -/
structure Selection where
  ored : List (List AndCall)
  orderByClause : Option String
  distinct : Bool
  limit : Option Int32
  offset : Option Int32

namespace Selection

def toExample (s : Selection) : UserExample where
  orderByClause := s.orderByClause
  distinct := s.distinct
  oredCriteria := s.ored.map fun calls => some (Criteria.build calls)
  limit := s.limit
  offset := s.offset

/-- No `in` or `not in` has an empty list. -/
def filled (s : Selection) : Bool := s.ored.all fun calls => calls.all listFilled

/-- The text of the order is one, and the window is not negative. -/
structure Plain (s : Selection) : Prop where
  orderByClause : ∀ clause ∈ s.orderByClause, IsOrderText clause
  limit : ∀ n ∈ s.limit, 0 ≤ n
  offset : ∀ n ∈ s.offset, 0 ≤ n

def selects (m : Mysql) (s : Selection) (u : User) : Bool :=
  decide (Selects m.dialect (userCell u) s.ored)

end Selection

inductive Command where
  | countByExample (s : Option Selection)
  | deleteByExample (s : Option Selection)
  | deleteByPrimaryKey (id : Option Int32)
  | insert (record : User)
  | insertSelective (record : User)
  | selectByExample (s : Option Selection)
  | selectByPrimaryKey (id : Option Int32)
  | updateByExampleSelective (record : User) (s : Option Selection)
  | updateByExample (record : User) (s : Option Selection)
  | updateByPrimaryKeySelective (record : User)
  | updateByPrimaryKey (record : User)

/-- The users of an example, or all of them. -/
def chosen (m : Mysql) : Option Selection → User → Bool
  | none, _ => true
  | some s, u => s.selects m u

/-- Null is the key of no user. -/
def hasKey (id : Option Int32) (u : User) : Bool := id.isSome && u.id == id

/-- The fields that are set, over those of another. -/
def overlay (record u : User) : User := ⟨record.id.or u.id, record.name.or u.name⟩

namespace Command

def toCall : Command → MapperCall
  | .countByExample s => .countByExample (s.map Selection.toExample)
  | .deleteByExample s => .deleteByExample (s.map Selection.toExample)
  | .deleteByPrimaryKey id => .deleteByPrimaryKey id
  | .insert record => .insert record
  | .insertSelective record => .insertSelective record
  | .selectByExample s => .selectByExample (s.map Selection.toExample)
  | .selectByPrimaryKey id => .selectByPrimaryKey id
  | .updateByExampleSelective record s =>
      .updateByExampleSelective record (s.map Selection.toExample)
  | .updateByExample record s => .updateByExample record (s.map Selection.toExample)
  | .updateByPrimaryKeySelective record => .updateByPrimaryKeySelective record
  | .updateByPrimaryKey record => .updateByPrimaryKey record

def selection? : Command → Option Selection
  | .countByExample s | .deleteByExample s | .selectByExample s
  | .updateByExampleSelective _ s | .updateByExample _ s => s
  | _ => none

end Command

section Table

variable (m : Mysql) (table : List User)

/-- A table that the server takes. -/
def written (n : Nat) (rows : List User) : Option (Nat × List User) :=
  if m.admits rows then some (n, rows) else none

/-- Users of a kind are removed. -/
def removed (kind : User → Bool) : Option (Nat × List User) :=
  written m (table.countP kind) (table.filter fun u => !kind u)

/-- Users of a kind are changed. -/
def changed (kind : User → Bool) (f : User → User) : Option (Nat × List User) :=
  written m (table.countP kind) (table.map fun u => if kind u then f u else u)

/-- The order of a select: any, without a text for it. -/
def ordering (s : Selection) : Option (User → User → Bool) :=
  s.orderByClause.elim (some fun _ _ => true) fun clause => m.orderBy (fixedTokens clause)

/-- The users a select may answer. With an example that is not filled, or an
order that the server does not know, it fails. -/
def Selected (strict : Bool) : Option Selection → Option (List (Option User)) → Prop
  | none, r =>
      if strict then r = none
      else ∃ users : List User, users.Perm table ∧ r = some (users.map rowValue)
  | some s, r =>
      if s.filled then
        ordering m s = none ∧ r = none ∨
          ∃ le users, ordering m s = some le ∧
            (if s.distinct then Distinct (SameRow m.dialect) (table.filter (s.selects m)) users
              else users.Perm (table.filter (s.selects m))) ∧
            users.Pairwise (fun a b => le a b = true) ∧
            r = some ((windowed (windowOf s.limit s.offset) users).map rowValue)
      else r = none

/-- A command that answers a number: none if it fails. -/
def Command.apply : Command → Option (Nat × List User)
  | .countByExample s =>
      if s.all Selection.filled then some (table.countP (chosen m s), table) else none
  | .deleteByExample s => if s.all Selection.filled then removed m table (chosen m s) else none
  | .deleteByPrimaryKey id => removed m table (hasKey id)
  | .insert record => written m 1 (table ++ [record])
  | .insertSelective record =>
      if hasField record then written m 1 (table ++ [overlay record (m.blank table)]) else none
  | .updateByExampleSelective record s =>
      if hasField record && s.any Selection.filled then changed m table (chosen m s) (overlay record)
      else none
  | .updateByExample record s =>
      if s.any Selection.filled then changed m table (chosen m s) fun _ => record else none
  | .updateByPrimaryKeySelective record =>
      if record.name.isSome then
        changed m table (hasKey record.id) fun u => { u with name := record.name }
      else none
  | .updateByPrimaryKey record =>
      changed m table (hasKey record.id) fun u => { u with name := record.name }
  | .selectByExample _ | .selectByPrimaryKey _ => none

/-- What a command may answer, and the table behind it. -/
def Command.Step (strict : Bool) (c : Command) (answer : Answer) (table' : List User) : Prop :=
  match c with
  | .selectByExample s =>
      ∃ r, Selected m table strict s r ∧ (answer, table') = (ofSelected r, table)
  | .selectByPrimaryKey id =>
      (answer, table') = (oneOf (some ((table.filter (hasKey id)).map some)), table)
  | c => (answer, table') = settle table (c.apply m table)

end Table

end SpringDome.Mapper
