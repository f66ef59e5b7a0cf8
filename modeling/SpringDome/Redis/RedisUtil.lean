/-
SpringDome.Redis.RedisUtil — `RedisUtil.java`: nineteen operations with one
shape.

Every operation borrows a connection, sends one command, gives the
connection back in a `finally` block, and answers a fixed value when
anything in between throws. The shape is `UtilOp` (the command with the
conversion of its reply, and the fallback value); `UtilOp.exec` runs it on
the pool and the store. What the network does to one operation is its
`Fate`.

`Operation` lists the nineteen, for programs over any mix of them.

`UtilOp.onStore` is the part of an operation that concerns the store and the
answer; `exec_of_free` says that this is all a caller sees while a connection
is free, and what the pool is left with.
-/
import SpringDome.Redis.ConnectionManager

namespace SpringDome.Redis

open SpringDome.Lib.RedisStore

/-! ## What can happen to one operation -/

inductive Fate where
  /-- `getResource` throws: the server cannot be reached. -/
  | noConnection
  /-- The server runs the command and its reply arrives. -/
  | served
  /-- The server refuses the command with an error reply. -/
  | refused
  /-- The connection drops, before or after the server ran the command, and
  `isConnected` answers `connected` from then on. -/
  | dropped (executed connected : Bool)
  deriving DecidableEq, Repr

def Fate.reachable : Fate → Bool
  | .noConnection => false
  | _ => true

/-- The borrowed connection after the command. -/
def Fate.afterCommand (fate : Fate) (jedis : Jedis) : Jedis :=
  match fate with
  | .dropped _ connected => { jedis with isConnected := connected }
  | _ => jedis

/-- The connection is borrowed and no longer connected when it is closed. -/
def Fate.leaks : Fate → Bool
  | .dropped _ connected => !connected
  | _ => false

/-- A command the caller is told failed had no effect: the connection did not
drop behind the server's back. -/
def Fate.clean : Fate → Bool
  | .dropped executed _ => !executed
  | _ => true

/-! ## The common shape -/

/-- One operation: the command it sends, with the conversion of the reply,
which may throw after the command took effect; and the value it answers
after an exception. -/
structure UtilOp (S ρ : Type) where
  command : Command S (Except Failure ρ)
  fallback : ρ

structure World (S : Type) where
  pool : JedisPool
  redis : Store S

namespace UtilOp

variable {S ρ : Type}

/-- What the operation does to the store, and its answer. -/
def onStore (op : UtilOp S ρ) (fate : Fate) (s : Store S) : Store S × ρ :=
  match fate with
  | .noConnection => (s, op.fallback)
  | .refused => (s, op.fallback)
  | .served =>
      match op.command s with
      | .ok (s', .ok r) => (s', r)
      | .ok (s', .error _) => (s', op.fallback)
      | .error _ => (s, op.fallback)
  | .dropped executed _ =>
      match op.command s with
      | .ok (s', _) => (if executed then s' else s, op.fallback)
      | .error _ => (s, op.fallback)

/-- The whole operation; `none` when it waits in `getResource` for ever. -/
def exec (op : UtilOp S ρ) (fate : Fate) (w : World S) : Option (World S × ρ) :=
  match getConnection w.pool fate.reachable with
  | none => none
  | some (pool, none) =>
      -- getConnection threw, so the `finally` block sees a null connection
      some (⟨closeConnection pool none, w.redis⟩, op.fallback)
  | some (pool, some jedis) =>
      let (redis, answer) := op.onStore fate w.redis
      some (⟨closeConnection pool (some (fate.afterCommand jedis)), redis⟩, answer)

/-- With a connection free the operation comes back: the store and the
answer are those of `onStore`, and the pool keeps what a leaking operation
borrowed. -/
theorem exec_of_free (op : UtilOp S ρ) (fate : Fate) {w : World S}
    (h : w.pool.lent < w.pool.config.maxTotal) :
    op.exec fate w = some (⟨{ w.pool with lent := w.pool.lent + if fate.leaks then 1 else 0 },
      (op.onStore fate w.redis).1⟩, (op.onStore fate w.redis).2) := by
  cases fate with
  | noConnection => simp [exec, getConnection, JedisPool.getResource, Fate.reachable, h,
      closeConnection, onStore, Fate.leaks]
  | served => simp [exec, getConnection, JedisPool.getResource, Fate.reachable, h,
      closeConnection, Fate.afterCommand, JedisPool.giveBack, Fate.leaks]
  | refused => simp [exec, getConnection, JedisPool.getResource, Fate.reachable, h,
      closeConnection, Fate.afterCommand, JedisPool.giveBack, Fate.leaks]
  | dropped executed connected =>
      cases connected <;> simp [exec, getConnection, JedisPool.getResource, Fate.reachable, h,
        closeConnection, Fate.afterCommand, JedisPool.giveBack, Fate.leaks]

/-- With every connection lent out it waits for ever. -/
theorem exec_of_exhausted (op : UtilOp S ρ) (fate : Fate) {w : World S}
    (h : w.pool.config.maxTotal ≤ w.pool.lent) : op.exec fate w = none := by
  rw [exec, getConnection_eq_none_iff.mpr h]

/-- What an operation that came back did. -/
theorem exec_eq_some {op : UtilOp S ρ} {fate : Fate} {w w' : World S} {r : ρ}
    (h : op.exec fate w = some (w', r)) :
    w.pool.lent < w.pool.config.maxTotal ∧
      w'.pool = { w.pool with lent := w.pool.lent + if fate.leaks then 1 else 0 } ∧
      (w'.redis, r) = op.onStore fate w.redis := by
  by_cases hfree : w.pool.lent < w.pool.config.maxTotal
  · rw [exec_of_free op fate hfree] at h
    cases h
    exact ⟨hfree, rfl, rfl⟩
  · rw [exec_of_exhausted op fate (by omega)] at h
    cases h

/-- A clean failure leaves the store alone and answers the fallback. -/
theorem onStore_of_clean {op : UtilOp S ρ} {fate : Fate} (hclean : fate.clean = true)
    (hne : fate ≠ .served) (s : Store S) : op.onStore fate s = (s, op.fallback) := by
  cases fate with
  | noConnection => rfl
  | served => exact absurd rfl hne
  | refused => rfl
  | dropped executed connected =>
      cases executed with
      | true => simp [Fate.clean] at hclean
      | false => cases h : op.command s <;> simp [onStore, h]

/-- Served, the operation touches one key, and there only according to the
clock and the entry it finds. -/
structure ActsAt (op : UtilOp S ρ) (key : String) : Prop where
  congr : ∀ {s t : Store S}, Store.AgreeAt key s t →
    Store.AgreeAt key (op.onStore .served s).1 (op.onStore .served t).1
  frame : ∀ {k : String}, k ≠ key → ∀ s : Store S,
    Store.AgreeAt k (op.onStore .served s).1 s

end UtilOp

/-! ## The nineteen operations -/

namespace RedisUtil

variable {S : Type}

/-- `return convert(jedis.command(..))` with a fallback after the block. -/
def sending {ρ τ : Type} (command : Command S ρ) (convert : ρ → Except Failure τ)
    (fallback : τ) : UtilOp S τ :=
  ⟨fun s => (command s).map fun out => (out.1, convert out.2), fallback⟩

/-- `return jedis.command(..)` with a fallback after the block. -/
def answering {ρ : Type} (command : Command S ρ) (fallback : ρ) : UtilOp S ρ :=
  sending command .ok fallback

/-- `jedis.command(..);` in a method that returns nothing. -/
def ignoringReply {ρ : Type} (command : Command S ρ) : UtilOp S Unit :=
  sending command (fun _ => .ok ()) ()

/-- A served operation runs its command and converts the reply. -/
theorem sending_served {ρ τ : Type} (command : Command S ρ) (convert : ρ → Except Failure τ)
    (fallback : τ) (s : Store S) :
    (sending command convert fallback).onStore .served s =
      match command s with
      | .ok (s', r) => (s', (convert r).toOption.getD fallback)
      | .error _ => (s, fallback) := by
  simp only [UtilOp.onStore, sending]
  cases command s with
  | error err => rfl
  | ok out =>
      obtain ⟨s', r⟩ := out
      simp only [Except.map]
      cases convert r with
      | error err => rfl
      | ok t => rfl

/-- A command on one key stays one when it is sent through the helper. -/
theorem sending_actsAt {ρ τ : Type} (key : String) (f : KeyEffect S ρ)
    (convert : ρ → Except Failure τ) (fallback : τ) :
    (sending (onKey key f) convert fallback).ActsAt key where
  congr := by
    intro s t h
    rw [sending_served, sending_served]
    obtain ⟨s', t', r, hs, ht, h'⟩ | ⟨err, hs, ht⟩ := onKey_congr f h
    · rw [hs, ht]; exact h'
    · rw [hs, ht]; exact h
  frame := by
    intro k hk s
    rw [sending_served]
    cases hs : onKey key f s with
    | error err => exact .refl k s
    | ok out => exact ⟨onKey_now hs, onKey_find_ne hs hk⟩

theorem ignoringReply_actsAt {ρ : Type} (key : String) (f : KeyEffect S ρ) :
    (ignoringReply (onKey key f)).ActsAt key := sending_actsAt key f _ _

/-- `Integer.parseInt(reply.toString())`. -/
def parseInt (n : Int) : Except Failure Int :=
  if -2 ^ 31 ≤ n ∧ n < 2 ^ 31 then .ok n else .error .numberFormat

def incrSortSetItem [Add S] (key : String) (increment : S) (member : String) : UtilOp S Unit :=
  ignoringReply (zincrby key increment member)

def updateSortSetItem (key : String) (increment : S) (member : String) : UtilOp S Unit :=
  ignoringReply (zadd key increment member)

def rangeWithScores [LE S] [DecidableLE S] (key : String) (start stop : Int32) :
    UtilOp S (Option (List (String × S))) :=
  sending (zrevrangeWithScores key start.toInt stop.toInt) (fun r => .ok (some r)) none

def rank [LE S] [DecidableLE S] (key member : String) : UtilOp S (Option Int) :=
  answering (zrevrank key member) (some (-1))

def queryScore (key member : String) : UtilOp S (Option S) := answering (zscore key member) none

def hmSet (key : String) (map : List (String × String)) : UtilOp S Unit :=
  ignoringReply (hmset key map)

def hSet (key field value : String) : UtilOp S Unit := ignoringReply (hset key field value)

def hget (key field : String) : UtilOp S (Option String) :=
  answering (Lib.RedisStore.hget key field) none

def hgetAll (key : String) : UtilOp S (Option (List (String × String))) :=
  sending (Lib.RedisStore.hgetAll key) (fun r => .ok (some r)) none

def hincrby (key field : String) (value : Int64) : UtilOp S (Option Int) :=
  sending (hincrBy key field value.toInt) (fun r => .ok (some r)) none

def keys (glob : String → String → Bool) (pattern : String) : UtilOp S (Option (String → Bool)) :=
  sending (Lib.RedisStore.keys glob pattern) (fun r => .ok (some r)) none

def delete (key : String) : UtilOp S Int := answering (del key) 0

/-- `setex(String, String, int)`. -/
def setexText (key value : String) (seconds : Int32) : UtilOp S Bool :=
  sending (setex key seconds.toInt value) (fun reply => .ok (reply == "OK")) false

/-- `setex(String, long, int)`. -/
def setexLong (key : String) (value : Int64) (seconds : Int32) : UtilOp S Bool :=
  sending (setex key seconds.toInt (toString value.toInt)) (fun reply => .ok (reply == "OK")) false

def getValue (key : String) : UtilOp S (Option String) :=
  answering (Lib.RedisStore.get key) none

def exists_ (key : String) : UtilOp S Bool :=
  answering (Lib.RedisStore.exists_ key) false

def getTtl (key : String) : UtilOp S Int := sending (ttl key) parseInt (-1)

def persist (key : String) : UtilOp S Int := sending (Lib.RedisStore.persist key) parseInt (-1)

def expire (key : String) (seconds : Int32) : UtilOp S Int :=
  answering (Lib.RedisStore.expire key seconds.toInt) 0

end RedisUtil

/-- One call of a `RedisUtil` operation. -/
inductive Operation (S : Type) where
  | incrSortSetItem (key : String) (increment : S) (member : String)
  | updateSortSetItem (key : String) (increment : S) (member : String)
  | rangeWithScores (key : String) (start stop : Int32)
  | rank (key member : String)
  | queryScore (key member : String)
  | hmSet (key : String) (map : List (String × String))
  | hSet (key field value : String)
  | hget (key field : String)
  | hgetAll (key : String)
  | hincrby (key field : String) (value : Int64)
  | keys (glob : String → String → Bool) (pattern : String)
  | delete (key : String)
  | setexText (key value : String) (seconds : Int32)
  | setexLong (key : String) (value : Int64) (seconds : Int32)
  | getValue (key : String)
  | exists_ (key : String)
  | getTtl (key : String)
  | persist (key : String)
  | expire (key : String) (seconds : Int32)

namespace Operation

variable {S : Type}

/-- The Java return type. -/
@[reducible] def Result : Operation S → Type
  | .incrSortSetItem .. | .updateSortSetItem .. | .hmSet .. | .hSet .. => Unit
  | .rangeWithScores .. => Option (List (String × S))
  | .rank .. | .hincrby .. => Option Int
  | .queryScore .. => Option S
  | .hget .. | .getValue .. => Option String
  | .hgetAll .. => Option (List (String × String))
  | .keys .. => Option (String → Bool)
  | .delete .. | .expire .. | .getTtl .. | .persist .. => Int
  | .setexText .. | .setexLong .. | .exists_ .. => Bool

variable [Add S] [LE S] [DecidableLE S]

/-- The operation a call runs. -/
@[reducible] def util : (op : Operation S) → UtilOp S op.Result
  | .incrSortSetItem key increment member => RedisUtil.incrSortSetItem key increment member
  | .updateSortSetItem key increment member => RedisUtil.updateSortSetItem key increment member
  | .rangeWithScores key start stop => RedisUtil.rangeWithScores key start stop
  | .rank key member => RedisUtil.rank key member
  | .queryScore key member => RedisUtil.queryScore key member
  | .hmSet key map => RedisUtil.hmSet key map
  | .hSet key field value => RedisUtil.hSet key field value
  | .hget key field => RedisUtil.hget key field
  | .hgetAll key => RedisUtil.hgetAll key
  | .hincrby key field value => RedisUtil.hincrby key field value
  | .keys glob pattern => RedisUtil.keys glob pattern
  | .delete key => RedisUtil.delete key
  | .setexText key value seconds => RedisUtil.setexText key value seconds
  | .setexLong key value seconds => RedisUtil.setexLong key value seconds
  | .getValue key => RedisUtil.getValue key
  | .exists_ key => RedisUtil.exists_ key
  | .getTtl key => RedisUtil.getTtl key
  | .persist key => RedisUtil.persist key
  | .expire key seconds => RedisUtil.expire key seconds

/-- The one key an operation works on; KEYS looks at them all. -/
def key? : Operation S → Option String
  | .keys .. => none
  | .incrSortSetItem key .. | .updateSortSetItem key .. | .rangeWithScores key ..
  | .rank key .. | .queryScore key .. | .hmSet key .. | .hSet key .. | .hget key ..
  | .hgetAll key | .hincrby key .. | .delete key | .setexText key .. | .setexLong key ..
  | .getValue key | .exists_ key | .getTtl key | .persist key | .expire key .. => some key

/-! ## What a served operation touches -/

/-- The store after the operation, served. -/
def serve (op : Operation S) (s : Store S) : Store S := (op.util.onStore .served s).1

theorem actsAt_util {op : Operation S} {key : String} (h : op.key? = some key) :
    op.util.ActsAt key := by
  cases op with
  | keys glob pattern => simp [key?] at h
  | incrSortSetItem | updateSortSetItem | hmSet | hSet =>
      cases h; exact RedisUtil.ignoringReply_actsAt _ _
  | _ => cases h; exact RedisUtil.sending_actsAt _ _ _ _

/-- What an operation leaves under a key depends on what it finds there, and
on the clock. -/
theorem serve_congr (op : Operation S) {k : String} {s t : Store S} (h : Store.AgreeAt k s t) :
    Store.AgreeAt k (op.serve s) (op.serve t) := by
  cases hkey : op.key? with
  | none =>
      cases op with
      | keys glob pattern => exact h
      | _ => simp [key?] at hkey
  | some key =>
      by_cases hk : k = key
      · subst hk; exact (actsAt_util hkey).congr h
      · exact ((actsAt_util hkey).frame hk s).trans (h.trans ((actsAt_util hkey).frame hk t).symm)

/-- An operation on another key leaves this one alone. -/
theorem serve_frame {op : Operation S} {k : String} (h : op.key? ≠ some k) (s : Store S) :
    Store.AgreeAt k (op.serve s) s := by
  cases hkey : op.key? with
  | none =>
      cases op with
      | keys glob pattern => exact .refl k s
      | _ => simp [key?] at hkey
  | some key => exact (actsAt_util hkey).frame (fun hk => h (by rw [hkey, hk])) s

end Operation

end SpringDome.Redis
