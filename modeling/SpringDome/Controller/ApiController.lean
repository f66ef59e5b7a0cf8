/-
SpringDome.Controller.ApiController — `ApiController.java`: three requests over
the mapper.

A request is one call of the mapper and what is made of its result. The
parameters have defaults, so they are never null. `Book` is what the three
requests are for: names by number, that are written once.
-/
import SpringDome.Mapper.UserTable
import SpringDome.Protobuf.UserProto

namespace SpringDome.Controller

open SpringDome.Bean
open SpringDome.Lib.Sql
open SpringDome.Mapper
open SpringDome.Protobuf (Runtime Thrown Builder Response copyFromUtf8)

variable {U : Type}

/-! ## 1. Requests -/

inductive Request where
  | list
  | selectIdwq (id : Int32)
  | save (id : Int32) (name : String)

inductive Reply where
  | users (users : List (Option User))
  | protobuf (bytes : List UInt8)
  | text (s : String)
  /-- An exception, of the mapper or of the method. -/
  | error

/-- The example of `list`. -/
def listExample : UserExample :=
  (Session.run [.setDistinct false, .setLimit (some 100000), .setOffset (some 0),
    .setOrderByClause (some "id")]).toExample

def replyList : Answer → Reply
  | .users users => .users users
  | _ => .error

/-- The bytes that `selectIdwq` writes. A user without a name or a number is a
`NullPointerException`. -/
def personBytes (rt : Runtime U) (u : User) (id : Int32) : Except Thrown (List UInt8) := do
  let personBuilder ← (Builder.create rt).setInfo u.name
  let personBuilder ← match u.id with
    | none => .error .nullPointer
    | some result => .ok (personBuilder.setResult result)
  let person ← (personBuilder.setId id).build
  (person.toByteArray rt).1

def replySelectIdwq (rt : Runtime U) (id : Int32) : Answer → Reply
  | .user (some u) =>
      match personBytes rt u id with
      | .ok bytes => .protobuf bytes
      | .error _ => .error
  | _ => .error

def replySave : Answer → Reply
  | .failed => .error
  | _ => .text "true"

/-- What a request may be replied, and the table behind it. -/
def Handles (strict : Bool) (m : Mysql) (rt : Runtime U) (table : List User) (request : Request)
    (reply : Reply) (table' : List User) : Prop :=
  match request with
  | .list => ∃ a, Performs strict m table (.selectByExample (some listExample)) a table' ∧
      reply = replyList a
  | .selectIdwq id => ∃ a, Performs strict m table (.selectByPrimaryKey (some id)) a table' ∧
      reply = replySelectIdwq rt id a
  | .save id name => ∃ a, Performs strict m table (.insert ⟨some id, some name⟩) a table' ∧
      reply = replySave a

/-! ## 2. Names by number -/

/-- Every user has a number of their own. -/
def PrimaryKey (table : List User) : Prop :=
  (table.map User.id).Nodup ∧ none ∉ table.map User.id

instance (table : List User) : Decidable (PrimaryKey table) :=
  inferInstanceAs (Decidable ((table.map User.id).Nodup ∧ none ∉ table.map User.id))

/-- The table has `id` as its key, users fit into its rows, and it is ordered by
`id` when that is asked for. A name that fits is no longer than a VARCHAR. -/
structure Keyed (m : Mysql) (fits : User → Bool) : Prop where
  admits : ∀ rows, m.admits rows = true ↔ PrimaryKey rows ∧ ∀ u ∈ rows, fits u = true
  orderBy : m.orderBy (fixedTokens "id") = columnOrder m.dialect userCell (fixedTokens "id")
  short : ∀ u, fits u = true → ∀ name ∈ u.name, (copyFromUtf8 name).length < 2 ^ 16

/-- The name of each number, if it has one. -/
def Book : Type := Int32 → Option (Option String)

namespace Book

def write (b : Book) (id : Int32) (name : String) : Book := fun key =>
  if key = id then some (some name) else b key

@[simp] theorem write_self (b : Book) (id : Int32) (name : String) :
    b.write id name id = some (some name) :=
  if_pos rfl

theorem write_of_ne (b : Book) {id key : Int32} (h : key ≠ id) (name : String) :
    b.write id name key = b key :=
  if_neg h

end Book

def book (table : List User) : Book := fun id => (table.find? (hasKey (some id))).map User.name

/-- What the bytes say, to one that reads them. -/
def Says (rt : Runtime U) (bytes : List UInt8) (id : Int32) (name : String) : Prop :=
  ∃ person, Response.parseFrom rt bytes = .ok person ∧ person.hasId = true ∧ person.getId = id ∧
    person.hasResult = true ∧ person.getResult = id ∧ person.hasInfo = true ∧
      (person.getInfo rt).1 = name

/-- Smaller numbers first. -/
def Before (u v : User) : Prop := ∀ id ∈ u.id, ∀ id' ∈ v.id, id < id'

/-- All names by number, or the first hundred thousand. -/
structure Lists (b : Book) (users : List User) : Prop where
  known : ∀ u ∈ users, ∃ id, u.id = some id ∧ b id = some u.name
  sorted : users.Pairwise Before
  length_le : users.length ≤ 100000
  rest : ∀ id name, b id = some name → ⟨some id, name⟩ ∈ users ∨
    users.length = 100000 ∧ ∀ u ∈ users, Before u ⟨some id, name⟩

/-- What a request may be replied by a book. -/
def Book.Step (rt : Runtime U) (fits : User → Bool) (b : Book) (request : Request) (reply : Reply)
    (b' : Book) : Prop :=
  match request with
  | .list => b' = b ∧ ∃ users, reply = .users (users.map some) ∧ Lists b users
  | .selectIdwq id =>
      b' = b ∧ ((∃ name bytes, b id = some (some name) ∧ reply = .protobuf bytes ∧
        Says rt bytes id name) ∨ (∀ name, b id ≠ some (some name)) ∧ reply = .error)
  | .save id name =>
      if b id = none ∧ fits ⟨some id, some name⟩ = true then
        reply = .text "true" ∧ b' = b.write id name
      else reply = .error ∧ b' = b

/-! ## 3. What is known -/

/-- A save of a number and a name that was replied `true`. -/
def Saved (history : List (Request × Reply)) (id : Int32) (name : String) : Prop :=
  (.save id name, .text "true") ∈ history

/-- A user is in the table, or was saved since. -/
def Known (table : List User) (history : List (Request × Reply)) (u : User) : Prop :=
  u ∈ table ∨ ∃ id name, u = ⟨some id, some name⟩ ∧ Saved history id name

/-- What a request is replied when these users are known. -/
def Replies (rt : Runtime U) (fits : User → Bool) (known : User → Prop) (reply : Reply) :
    Request → Prop
  | .list => ∃ users : List User, reply = .users (users.map some) ∧ users.Pairwise Before ∧
      users.length ≤ 100000 ∧ (∀ u ∈ users, known u) ∧
      ∀ u, known u → u ∈ users ∨ users.length = 100000 ∧ ∀ v ∈ users, Before v u
  | .selectIdwq id =>
      (∃ name bytes, known ⟨some id, some name⟩ ∧ reply = .protobuf bytes ∧
        Says rt bytes id name) ∨ (∀ name, ¬ known ⟨some id, some name⟩) ∧ reply = .error
  | .save id name =>
      if fits ⟨some id, some name⟩ = true then
        (∃ name', known ⟨some id, name'⟩) ∧ reply = .error ∨
          (∀ name', ¬ known ⟨some id, name'⟩) ∧ reply = .text "true"
      else reply = .error

end SpringDome.Controller
