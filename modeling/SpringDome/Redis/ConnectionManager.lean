/-
SpringDome.Redis.ConnectionManager — `ConnectionManager.java`: the static
connection pool and its two synchronized methods.

The pool is a counting resource. `Pool.getResource` and `Jedis.close` are
the library's; `getConnection` and `closeConnection` are this class's. The
class lock the two methods hold is not visible in a call that runs alone,
so it is not part of this module: `Redis.ConnectionThreads` adds it.
-/
import SpringDome.Lib.RedisStore

namespace SpringDome.Redis

/-! ## The pool -/

/-- The part of `JedisPoolConfig` the pool's behaviour here depends on; its
other defaults make `getResource` wait without a time limit. -/
structure JedisPoolConfig where
  maxTotal : Nat
  maxTotal_pos : 0 < maxTotal

/-- `new JedisPoolConfig()`. -/
def JedisPoolConfig.default : JedisPoolConfig := ⟨8, by decide⟩

/-- A connection handed out by the pool, with the answer its `isConnected`
gives. -/
structure Jedis where
  isConnected : Bool
  deriving DecidableEq, Repr

/-- The pool counts what it has lent out. -/
structure JedisPool where
  config : JedisPoolConfig
  lent : Nat

/-- The pool of the static initializer. -/
def JedisPool.new (config : JedisPoolConfig) : JedisPool := ⟨config, 0⟩

/-- `pool.getResource()`: blocks (`none`) while every connection is lent out,
and otherwise lends one, or throws and lends none when the server cannot be
reached. -/
def JedisPool.getResource (pool : JedisPool) (reachable : Bool) :
    Option (JedisPool × Option Jedis) :=
  if pool.lent < pool.config.maxTotal then
    if reachable then some ({ pool with lent := pool.lent + 1 }, some ⟨true⟩)
    else some (pool, none)
  else none

/-- `connection.close()` gives the connection back, healthy or broken. -/
def JedisPool.giveBack (pool : JedisPool) : JedisPool := { pool with lent := pool.lent - 1 }

/-! ## The two methods -/

/-- `getConnection` hands on what `getResource` does; the `none` connection is
the exception it rethrows. -/
def getConnection (pool : JedisPool) (reachable : Bool) : Option (JedisPool × Option Jedis) :=
  pool.getResource reachable

/-- `closeConnection` closes a connection that is not null and connected. -/
def closeConnection (pool : JedisPool) (connection : Option Jedis) : JedisPool :=
  match connection with
  | none => pool
  | some jedis => if jedis.isConnected then pool.giveBack else pool

theorem getConnection_eq_none_iff {pool : JedisPool} {reachable : Bool} :
    getConnection pool reachable = none ↔ pool.config.maxTotal ≤ pool.lent := by
  unfold getConnection JedisPool.getResource
  cases reachable <;> simp

@[simp] theorem closeConnection_config (pool : JedisPool) (connection : Option Jedis) :
    (closeConnection pool connection).config = pool.config := by
  cases connection with
  | none => rfl
  | some jedis => simp only [closeConnection]; split <;> rfl

end SpringDome.Redis
