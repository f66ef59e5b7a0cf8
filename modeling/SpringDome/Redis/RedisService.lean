/-
SpringDome.Redis.RedisService — `RedisService.java` as programs over
`RedisUtil` operations.

A method of the service is a `RedisM` program: it sends `RedisUtil`
operations one after the other, and the next step may depend on the answers
so far; or it hands an operation to the single-threaded executor
(`submit`) and goes on. The same program text is read in several ways: run
alone under given network fates (`runWith` on the store, `execWith` with the
connection pool), or one operation at a time among other clients and the
worker thread (`Redis.TokenClients`, `Redis.WorkerQueue`).

`execWith_of_clean` connects the two readings of a program that runs alone:
while no operation leaks its connection the pool never blocks it, and store
and answer are those of `runWith`.
-/
import SpringDome.Redis.RedisUtil

namespace SpringDome.Redis

open SpringDome.Lib.RedisStore

/-! ## Programs -/

inductive RedisM (S α : Type) where
  | ret (a : α)
  | call (op : Operation S) (k : op.Result → RedisM S α)
  | submit (task : Operation S) (rest : RedisM S α)

namespace RedisM

variable {S α β : Type}

def bind : RedisM S α → (α → RedisM S β) → RedisM S β
  | .ret a, f => f a
  | .call op k, f => .call op fun r => (k r).bind f
  | .submit task rest, f => .submit task (rest.bind f)

instance : Monad (RedisM S) where
  pure := .ret
  bind := bind

/-- One operation and its answer. -/
def send (op : Operation S) : RedisM S op.Result := .call op .ret

/-- `EXECUTORS.execute` of a task that runs one operation. -/
def execute (task : Operation S) : RedisM S Unit := .submit task (.ret ())

@[simp] theorem pure_eq (a : α) : (pure a : RedisM S α) = .ret a := rfl
@[simp] theorem bind_eq (p : RedisM S α) (f : α → RedisM S β) : p >>= f = p.bind f := rfl
@[simp] theorem ret_bind (a : α) (f : α → RedisM S β) : (ret a).bind f = f a := rfl
@[simp] theorem call_bind (op : Operation S) (k : op.Result → RedisM S α)
    (f : α → RedisM S β) : (call op k).bind f = .call op fun r => (k r).bind f := rfl
@[simp] theorem submit_bind (task : Operation S) (rest : RedisM S α)
    (f : α → RedisM S β) : (submit task rest).bind f = .submit task (rest.bind f) := rfl

variable [Add S] [LE S] [DecidableLE S]

/-! ## A program that runs alone

The n-th operation of the run meets the n-th fate. A submitted task runs at
once: nothing else keeps the worker busy. -/

def runWith : RedisM S α → (Nat → Fate) → Store S → Store S × α
  | .ret a, _, s => (s, a)
  | .call op k, fates, s =>
      let (s', r) := op.util.onStore (fates 0) s
      (k r).runWith (fun n => fates (n + 1)) s'
  | .submit task rest, fates, s =>
      rest.runWith (fun n => fates (n + 1)) (task.util.onStore (fates 0) s).1

/-- The run in which every command succeeds at the network level. -/
def run (p : RedisM S α) (s : Store S) : Store S × α := p.runWith (fun _ => .served) s

/-- The same run with the connection pool; `none` when an operation waits
for a connection for ever. -/
def execWith : RedisM S α → (Nat → Fate) → World S → Option (World S × α)
  | .ret a, _, w => some (w, a)
  | .call op k, fates, w =>
      (op.util.exec (fates 0) w).bind fun (w', r) => (k r).execWith (fun n => fates (n + 1)) w'
  | .submit task rest, fates, w =>
      (task.util.exec (fates 0) w).bind fun (w', _) => rest.execWith (fun n => fates (n + 1)) w'

/-- While no operation leaks and a connection is free at the start, a program
comes back with the pool as it was, and with the store and the answer of
`runWith`. -/
theorem execWith_of_clean : ∀ (p : RedisM S α) {fates : Nat → Fate} {w : World S},
    (∀ n, (fates n).leaks = false) → w.pool.lent < w.pool.config.maxTotal →
    p.execWith fates w = some (⟨w.pool, (p.runWith fates w.redis).1⟩, (p.runWith fates w.redis).2)
  | .ret a, _, _, _, _ => rfl
  | .call op k, fates, w, hleak, hfree => by
      rw [execWith, UtilOp.exec_of_free _ _ hfree, Option.bind_some, hleak 0]
      exact execWith_of_clean (k _) (fun n => hleak (n + 1)) hfree
  | .submit task rest, fates, w, hleak, hfree => by
      rw [execWith, UtilOp.exec_of_free _ _ hfree, Option.bind_some, hleak 0]
      exact execWith_of_clean rest (fun n => hleak (n + 1)) hfree

end RedisM

/-! ## The service -/

namespace RedisService

variable {S : Type}

section Scores

variable [IntCast S]

def setSortSetItem (key : String) (value : Int32) (member : String) : RedisM S Unit :=
  .execute (.incrSortSetItem key (value.toInt : S) member)

def updateSortSetItem (key : String) (value : Int32) (member : String) : RedisM S Unit :=
  .execute (.updateSortSetItem key (value.toInt : S) member)

def incrSortSetItem (key : String) (increment : Int32) (member : String) : RedisM S Unit :=
  if increment = 0 then pure ()
  else .execute (.incrSortSetItem key (increment.toInt : S) member)

end Scores

def rangeWithScores (key : String) (start stop : Int32) :
    RedisM S (Option (List (String × S))) :=
  .send (.rangeWithScores key start stop)

def rank (key member : String) : RedisM S (Option Int) := .send (.rank key member)

def queryScore (key member : String) : RedisM S (Option S) := .send (.queryScore key member)

/-- `hmSet(Object, Map)`. -/
def hmSet (key : String) (map : List (String × String)) : RedisM S Unit := .send (.hmSet key map)

def expire (key : String) (seconds : Int32) : RedisM S Int := .send (.expire key seconds)

/-- `hmSet(Object, Map, int)`. -/
def hmSetFor (key : String) (map : List (String × String)) (seconds : Int32) :
    RedisM S Unit := do
  hmSet key map
  let _ ← expire key seconds

def hSet (key field value : String) : RedisM S Unit := .send (.hSet key field value)

def hget (key field : String) : RedisM S (Option String) := .send (.hget key field)

def hincrby (key field : String) (value : Int64) : RedisM S (Option Int) :=
  .send (.hincrby key field value)

def keys (glob : String → String → Bool) (pattern : String) :
    RedisM S (Option (String → Bool)) :=
  .send (.keys glob pattern)

def hgetAll (key : String) : RedisM S (Option (List (String × String))) := .send (.hgetAll key)

def deleteKey (key : String) : RedisM S Int := .send (.delete key)

/-- The key a token is stored under: `game_key + String.valueOf(player_id)`. -/
def tokenKey (player_id : Int32) (game_key : String) : String :=
  game_key ++ toString player_id.toInt

/-- `String.valueOf(player_token)`, also written `player_token + ""`. -/
def tokenText (player_token : Int64) : String := toString player_token.toInt

def setKsToken (player_id : Int32) (player_token : Int64) (seconds : Int32)
    (game_key : String) : RedisM S Bool := do
  let key := tokenKey player_id game_key
  if ← .send (.exists_ key) then
    let _ ← .send (.delete key)
  .send (.setexLong key player_token seconds)

/-- `value.equals(player_token)`: a string never equals a boxed long. -/
def stringEqualsLong (_value : String) (_player_token : Int64) : Bool := false

def getKsToken (playerId : Int32) (player_token : Int64) (game_key : String) :
    RedisM S Bool := do
  let key := tokenKey playerId game_key
  let mut b := false
  let mut value : Option String := none
  if ← .send (.exists_ key) then
    value ← .send (.getValue key)
    if let some v := value then
      b := stringEqualsLong v player_token
  match value with
  | none => return b  -- value.equals throws a NullPointerException, which is caught
  | some v => return v == tokenText player_token

end RedisService

end SpringDome.Redis
