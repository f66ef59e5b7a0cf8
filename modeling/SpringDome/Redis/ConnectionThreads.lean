/-
SpringDome.Redis.ConnectionThreads — many threads of `RedisUtil` operations
over one pool, one step at a time.

`getConnection` and `closeConnection` are static synchronized: a thread
enters either of them only while nobody is inside one, and stays inside
until it returns. In between it waits for `getResource` with the class lock
in its hand. Everything a thread does between two such points is one step
of `connectionThreads`; which thread moves, and what the server answers, is
in the label.

`deadlockFree_iff` is exact: with `k` threads that have something to run and
`c` connections in the pool, some interleaving gets stuck if and only if
`k > c`. The invariant behind one direction is `PoolInv` (who holds the lock,
and that the pool has lent out as many connections as threads hold); the
other direction builds the stuck state.
-/
import SpringDome.Lib.Machine
import SpringDome.Redis.RedisUtil
import Mathlib.Algebra.BigOperators.Group.Finset.Piecewise
import Mathlib.Data.Fintype.Card

namespace SpringDome.Redis

open SpringDome.Lib
open SpringDome.Lib.RedisStore

/-! ## Threads -/

/-- Where a thread is in the operation at the head of its list. -/
inductive Pc where
  /-- Before the operation, or done. -/
  | outside
  /-- Inside `getConnection`, with the class lock, in `getResource`. -/
  | inGetConnection
  /-- `getConnection` returned; the command is next. -/
  | commanding (jedis : Jedis)
  /-- In the `finally` block, before `closeConnection`. -/
  | inFinally (jedis : Option Jedis)
  /-- Inside `closeConnection`, with the class lock. -/
  | inCloseConnection (jedis : Option Jedis)
  deriving DecidableEq, Repr

/-- The thread is inside a synchronized method. -/
def Pc.inMonitor : Pc → Bool
  | .inGetConnection | .inCloseConnection _ => true
  | _ => false

/-- The connection the thread has borrowed. -/
def Pc.jedis? : Pc → Option Jedis
  | .commanding jedis => some jedis
  | .inFinally jedis | .inCloseConnection jedis => jedis
  | _ => none

structure Thread (S : Type) where
  pc : Pc
  todo : List (Operation S)

structure Threads (S : Type) (N : Nat) where
  lock : Option (Fin N)
  pool : JedisPool
  redis : Store S
  thread : Fin N → Thread S

inductive Act where
  | enterGetConnection
  | getResource (reachable : Bool)
  | command (fate : Fate)
  | enterCloseConnection
  | close
  deriving DecidableEq, Repr

/-- The connection in use stays connected. -/
def Act.staysConnected : Act → Bool
  | .command fate => !fate.leaks
  | _ => true

variable {S : Type} {N : Nat}

/-- Move thread `i` to a new program counter. -/
def Threads.goto (s : Threads S N) (i : Fin N) (pc : Pc) : Threads S N :=
  { s with thread := Function.update s.thread i { s.thread i with pc := pc } }

@[simp] theorem Threads.goto_pool (s : Threads S N) (i : Fin N) (pc : Pc) :
    (s.goto i pc).pool = s.pool := rfl

section Machine

variable [Add S] [LE S] [DecidableLE S]

def Threads.step (s : Threads S N) : Fin N × Act → Option (Threads S N)
  | (i, .enterGetConnection) =>
      match (s.thread i).pc, (s.thread i).todo, s.lock with
      | .outside, _ :: _, none => some { s.goto i .inGetConnection with lock := some i }
      | _, _, _ => none
  | (i, .getResource reachable) =>
      match (s.thread i).pc with
      | .inGetConnection =>
          (getConnection s.pool reachable).map fun (pool, jedis) =>
            { s.goto i (match jedis with
                | some jedis => .commanding jedis
                | none => .inFinally none) with lock := none, pool := pool }
      | _ => none
  | (i, .command fate) =>
      match (s.thread i).pc, (s.thread i).todo with
      | .commanding jedis, op :: _ =>
          some { s.goto i (.inFinally (some (fate.afterCommand jedis))) with
            redis := (op.util.onStore fate s.redis).1 }
      | _, _ => none
  | (i, .enterCloseConnection) =>
      match (s.thread i).pc, s.lock with
      | .inFinally jedis, none => some { s.goto i (.inCloseConnection jedis) with lock := some i }
      | _, _ => none
  | (i, .close) =>
      match (s.thread i).pc with
      | .inCloseConnection jedis =>
          some { s with
            lock := none
            pool := closeConnection s.pool jedis
            thread := Function.update s.thread i ⟨.outside, (s.thread i).todo.tail⟩ }
      | _ => none

/-- `N` threads, each with a list of operations to run, over a fresh pool. -/
def connectionThreads (config : JedisPoolConfig) (redis : Store S)
    (prog : Fin N → List (Operation S)) : Lib.Machine (Threads S N) (Fin N × Act) where
  init := ⟨none, JedisPool.new config, redis, fun i => ⟨.outside, prog i⟩⟩
  step := Threads.step

/-- A thread still has work and no thread can move. -/
def Stuck (M : Lib.Machine (Threads S N) (Fin N × Act)) (s : Threads S N) : Prop :=
  (∃ i, (s.thread i).todo ≠ []) ∧ ¬ M.CanStep s

/-- No interleaving in which the connections stay connected gets stuck. -/
def DeadlockFree (config : JedisPoolConfig) (redis : Store S)
    (prog : Fin N → List (Operation S)) : Prop :=
  ∀ run s, (∀ x ∈ run, x.2.staysConnected = true) →
    (connectionThreads config redis prog).exec (connectionThreads config redis prog).init run
      = some s → ¬ Stuck (connectionThreads config redis prog) s

end Machine

/-- The threads that have an operation to run. -/
def busy (prog : Fin N → List (Operation S)) : Finset (Fin N) :=
  Finset.univ.filter fun i => (prog i).isEmpty = false

/-! ## What one step does -/

section Steps

variable [Add S] [LE S] [DecidableLE S]

/-- Everything a thread can do in one step. -/
theorem step_cases {s s' : Threads S N} {i : Fin N} {act : Act}
    (h : s.step (i, act) = some s') :
    (act = .enterGetConnection ∧ (s.thread i).pc = .outside ∧ (s.thread i).todo ≠ [] ∧
      s.lock = none ∧ s' = { s.goto i .inGetConnection with lock := some i }) ∨
    ((s.thread i).pc = .inGetConnection ∧ act = .getResource true ∧
      s' = { s.goto i (.commanding ⟨true⟩) with
        lock := none, pool := { s.pool with lent := s.pool.lent + 1 } }) ∨
    ((s.thread i).pc = .inGetConnection ∧ act = .getResource false ∧
      s' = { s.goto i (.inFinally none) with lock := none }) ∨
    (∃ jedis fate redis, (s.thread i).pc = .commanding jedis ∧ (s.thread i).todo ≠ [] ∧
      act = .command fate ∧
      s' = { s.goto i (.inFinally (some (fate.afterCommand jedis))) with redis := redis }) ∨
    (∃ jedis, (s.thread i).pc = .inFinally jedis ∧ act = .enterCloseConnection ∧ s.lock = none ∧
      s' = { s.goto i (.inCloseConnection jedis) with lock := some i }) ∨
    (∃ jedis, (s.thread i).pc = .inCloseConnection jedis ∧ act = .close ∧
      s' = { s with
        lock := none
        pool := closeConnection s.pool jedis
        thread := Function.update s.thread i ⟨.outside, (s.thread i).todo.tail⟩ }) := by
  cases act with
  | enterGetConnection =>
      simp only [Threads.step] at h
      split at h
      · rename_i hpc htodo hlock
        cases h
        exact .inl ⟨rfl, hpc, by simp [htodo], hlock, rfl⟩
      · cases h
  | getResource reachable =>
      simp only [Threads.step] at h
      split at h
      · rename_i hpc
        simp only [getConnection, JedisPool.getResource] at h
        split at h
        · cases reachable with
          | true => cases h; exact .inr (.inl ⟨hpc, rfl, rfl⟩)
          | false => cases h; exact .inr (.inr (.inl ⟨hpc, rfl, rfl⟩))
        · cases h
      · cases h
  | command fate =>
      simp only [Threads.step] at h
      split at h
      · rename_i jedis op rest hpc htodo
        cases h
        exact .inr (.inr (.inr (.inl ⟨jedis, fate, _, hpc, by simp [htodo], rfl, rfl⟩)))
      · cases h
  | enterCloseConnection =>
      simp only [Threads.step] at h
      split at h
      · rename_i jedis hpc hlock
        cases h
        exact .inr (.inr (.inr (.inr (.inl ⟨jedis, hpc, rfl, hlock, rfl⟩))))
      · cases h
  | close =>
      simp only [Threads.step] at h
      split at h
      · rename_i jedis hpc
        cases h
        exact .inr (.inr (.inr (.inr (.inr ⟨jedis, hpc, rfl, rfl⟩))))
      · cases h

end Steps

/-! ## The invariant -/

/-- The threads that hold a connection. -/
def holders (s : Threads S N) : Finset (Fin N) :=
  Finset.univ.filter fun i => (s.thread i).pc.jedis?.isSome = true

theorem mem_holders {s : Threads S N} {i : Fin N} {pc : Pc} (hpc : (s.thread i).pc = pc) :
    i ∈ holders s ↔ pc.jedis?.isSome = true := by
  simp [holders, hpc]

/-- One for a thread that holds a connection, zero for one that does not. -/
def Pc.held (pc : Pc) : Nat := if pc.jedis?.isSome = true then 1 else 0

theorem card_holders (s : Threads S N) : (holders s).card = ∑ i, (s.thread i).pc.held :=
  Finset.card_filter _ _

/-- Moving one thread changes the number of connections held by what that
thread gained or gave up. -/
theorem card_holders_update (s : Threads S N) (i : Fin N) (t : Thread S) (lock : Option (Fin N))
    (pool : JedisPool) (redis : Store S) :
    (holders ⟨lock, pool, redis, Function.update s.thread i t⟩).card + (s.thread i).pc.held =
      (holders s).card + t.pc.held := by
  have hheld : (fun j => ((Function.update s.thread i t) j).pc.held) =
      Function.update (fun j => (s.thread j).pc.held) i t.pc.held := by
    funext j
    by_cases hj : j = i
    · subst hj; simp
    · simp [hj]
  rw [card_holders, card_holders]
  simp only [hheld]
  rw [Finset.sum_update_of_mem (Finset.mem_univ i),
    Finset.sum_eq_add_sum_sdiff_singleton i (fun j => (s.thread j).pc.held)
      fun h => absurd (Finset.mem_univ i) h]
  omega

/-- Who holds the lock, what is lent out, and that only busy threads are
under way. -/
structure PoolInv (config : JedisPoolConfig) (prog : Fin N → List (Operation S))
    (s : Threads S N) : Prop where
  config_eq : s.pool.config = config
  lock_iff : ∀ i, s.lock = some i ↔ (s.thread i).pc.inMonitor = true
  lent_eq : s.pool.lent = (holders s).card
  connected : ∀ i jedis, (s.thread i).pc.jedis? = some jedis → jedis.isConnected = true
  working : ∀ i, (s.thread i).pc ≠ .outside → (s.thread i).todo ≠ []
  busy_of_todo : ∀ i, (s.thread i).todo ≠ [] → i ∈ busy prog

/-- The invariant after thread `i` moved to `t`, from what is true of `t`, of
the lock and of the number of connections lent out. -/
theorem PoolInv.update {config : JedisPoolConfig} {prog : Fin N → List (Operation S)}
    {s : Threads S N} (hinv : PoolInv config prog s) {i : Fin N} {t : Thread S}
    {lock : Option (Fin N)} {pool : JedisPool} {redis : Store S}
    (hconfig : pool.config = s.pool.config)
    (hlock : (s.lock = none ∨ s.lock = some i) ∧ lock = (if t.pc.inMonitor then some i else none) ∨
      lock = s.lock ∧ (s.thread i).pc.inMonitor = false ∧ t.pc.inMonitor = false)
    (hlent : pool.lent + (s.thread i).pc.held = s.pool.lent + t.pc.held)
    (hconnected : ∀ jedis, t.pc.jedis? = some jedis → jedis.isConnected = true)
    (hworking : t.pc ≠ .outside → t.todo ≠ [])
    (htodo : t.todo ≠ [] → (s.thread i).todo ≠ []) :
    PoolInv config prog ⟨lock, pool, redis, Function.update s.thread i t⟩ where
  config_eq := hconfig.trans hinv.config_eq
  lock_iff j := by
    rcases hlock with ⟨hfree, hlock⟩ | ⟨hlock, hout, hout'⟩
    · by_cases hj : j = i
      · subst hj
        simp [hlock]
      · have hother : (s.thread j).pc.inMonitor = false := by
          rw [Bool.eq_false_iff]
          intro hmon
          have hheld := (hinv.lock_iff j).mpr hmon
          rcases hfree with hnone | hi
          · rw [hnone] at hheld; cases hheld
          · rw [hi] at hheld; exact hj (Option.some.inj hheld).symm
        simp only [Function.update_of_ne hj, hother, hlock]
        by_cases hmon : t.pc.inMonitor = true
        · simp [hmon, Ne.symm hj]
        · simp [hmon]
    · have hbefore := hinv.lock_iff j
      by_cases hj : j = i
      · subst hj
        simpa [hlock, hout, hout'] using hbefore
      · simpa [hj, hlock] using hbefore
  lent_eq := by
    have hcard := card_holders_update s i t lock pool redis
    have hbefore := hinv.lent_eq
    simp only
    omega
  connected j jedis hj := by
    by_cases hji : j = i
    · subst hji
      exact hconnected jedis (by simpa using hj)
    · exact hinv.connected j jedis (by simpa [hji] using hj)
  working j hpc := by
    by_cases hji : j = i
    · subst hji
      simpa using hworking (by simpa using hpc)
    · simpa [hji] using hinv.working j (by simpa [hji] using hpc)
  busy_of_todo j hj := by
    by_cases hji : j = i
    · subst hji
      exact hinv.busy_of_todo j (htodo (by simpa using hj))
    · exact hinv.busy_of_todo j (by simpa [hji] using hj)

/-- A thread inside a synchronized method holds the lock. -/
theorem PoolInv.lock_of_inMonitor {config : JedisPoolConfig}
    {prog : Fin N → List (Operation S)} {s : Threads S N} (hinv : PoolInv config prog s)
    {i : Fin N} {pc : Pc} (hpc : (s.thread i).pc = pc) (hmon : pc.inMonitor = true) :
    s.lock = some i := (hinv.lock_iff i).mpr (hpc ▸ hmon)

section Invariant

variable [Add S] [LE S] [DecidableLE S]
variable {config : JedisPoolConfig} {redis : Store S} {prog : Fin N → List (Operation S)}

theorem poolInv_init : PoolInv config prog (connectionThreads config redis prog).init where
  config_eq := rfl
  lock_iff i := by simp [connectionThreads, Pc.inMonitor]
  lent_eq := by
    simp [connectionThreads, JedisPool.new, holders, Pc.jedis?]
  connected i jedis h := by simp [connectionThreads, Pc.jedis?] at h
  working i h := absurd rfl h
  busy_of_todo i h := by
    simp only [busy, Finset.mem_filter, Finset.mem_univ, true_and]
    cases hprog : prog i with
    | nil => exact absurd hprog h
    | cons op rest => rfl

/-- Every step that leaves the connections connected keeps the invariant. -/
theorem PoolInv.step {s s' : Threads S N} {x : Fin N × Act} (hinv : PoolInv config prog s)
    (hstays : x.2.staysConnected = true) (h : s.step x = some s') : PoolInv config prog s' := by
  obtain ⟨i, act⟩ := x
  rcases step_cases h with ⟨rfl, hpc, htodo, hlock, rfl⟩ | ⟨hpc, rfl, rfl⟩ | ⟨hpc, rfl, rfl⟩ |
    ⟨jedis, fate, redis', hpc, htodo, rfl, rfl⟩ | ⟨jedis, hpc, rfl, hlock, rfl⟩ |
    ⟨jedis, hpc, rfl, rfl⟩
  · -- into getConnection
    exact hinv.update rfl (.inl ⟨.inl hlock, rfl⟩) (by simp [hpc, Pc.held, Pc.jedis?])
      (by simp [Pc.jedis?]) (fun _ => htodo) id
  · -- a connection is lent out
    have hheld := hinv.lock_of_inMonitor hpc rfl
    refine hinv.update rfl (.inl ⟨.inr hheld, rfl⟩) (by simp [hpc, Pc.held, Pc.jedis?]) ?_
      (fun _ => hinv.working i (by simp [hpc])) id
    intro jedis hjedis
    cases hjedis
    rfl
  · -- getResource throws
    have hheld := hinv.lock_of_inMonitor hpc rfl
    exact hinv.update rfl (.inl ⟨.inr hheld, rfl⟩) (by simp [hpc, Pc.held, Pc.jedis?])
      (by simp [Pc.jedis?]) (fun _ => hinv.working i (by simp [hpc])) id
  · -- the command
    refine hinv.update rfl (.inr ⟨rfl, by simp [hpc, Pc.inMonitor], rfl⟩)
      (by simp [hpc, Pc.held, Pc.jedis?]) ?_ (fun _ => htodo) id
    intro jedis' hjedis'
    cases hjedis'
    have hconn := hinv.connected i jedis (by simp [hpc, Pc.jedis?])
    cases fate with
    | dropped executed connected =>
        simpa [Fate.afterCommand, Act.staysConnected, Fate.leaks] using hstays
    | _ => exact hconn
  · -- into closeConnection
    exact hinv.update rfl (.inl ⟨.inl hlock, rfl⟩) (by rw [hpc]; rfl)
      (fun jedis' hjedis' => hinv.connected i jedis' (by simpa [hpc, Pc.jedis?] using hjedis'))
      (fun _ => hinv.working i (by simp [hpc])) id
  · -- the connection goes back
    have hheld := hinv.lock_of_inMonitor hpc rfl
    refine hinv.update (closeConnection_config _ _) (.inl ⟨.inr hheld, rfl⟩) ?_
      (by simp [Pc.jedis?]) (fun h => absurd rfl h) (fun hne hnil => hne (by rw [hnil]; rfl))
    cases jedis with
    | none => simp [closeConnection, hpc, Pc.held, Pc.jedis?]
    | some jedis =>
        have hconn := hinv.connected i jedis (by simp [hpc, Pc.jedis?])
        have hmem : i ∈ holders s := (mem_holders hpc).mpr rfl
        have hlent : 0 < s.pool.lent := hinv.lent_eq ▸ Finset.card_pos.mpr ⟨i, hmem⟩
        simp only [closeConnection, hconn, if_true, JedisPool.giveBack, hpc, Pc.held, Pc.jedis?,
          Option.isSome_some, Option.isSome_none, Bool.false_eq_true, if_false]
        omega

/-- The invariant along every interleaving in which the connections stay
connected. -/
theorem poolInv_of_exec {run : List (Fin N × Act)} {s : Threads S N}
    (hstays : ∀ x ∈ run, x.2.staysConnected = true)
    (h : (connectionThreads config redis prog).exec (connectionThreads config redis prog).init run
      = some s) : PoolInv config prog s := by
  induction run using List.reverseRecOn generalizing s with
  | nil => cases h; exact poolInv_init
  | append_singleton run x ih =>
      obtain ⟨m, hm, hstep⟩ := (connectionThreads config redis prog).exec_concat_eq_some.mp h
      have hrun := ih (fun y hy => hstays y (List.mem_append_left _ hy)) hm
      exact hrun.step (hstays x (List.mem_append_right _ (List.mem_singleton.mpr rfl))) hstep

/-- With no more busy threads than connections, a thread that has work left
means that some thread can move. -/
theorem PoolInv.canStep {s : Threads S N} (hinv : PoolInv config prog s)
    (hbusy : (busy prog).card ≤ config.maxTotal) {i : Fin N} (hwork : (s.thread i).todo ≠ []) :
    (connectionThreads config redis prog).CanStep s := by
  obtain ⟨op, rest, htodo⟩ := List.exists_cons_of_ne_nil hwork
  cases hlock : s.lock with
  | none =>
      -- nobody is inside a synchronized method, so thread `i` itself can move
      cases hpc : (s.thread i).pc with
      | outside =>
          exact Machine.canStep_of_isSome _ (i, .enterGetConnection)
            (by simp [connectionThreads, Threads.step, hpc, htodo, hlock])
      | inGetConnection =>
          have hheld := hinv.lock_of_inMonitor hpc rfl
          rw [hlock] at hheld
          cases hheld
      | commanding jedis =>
          exact Machine.canStep_of_isSome _ (i, .command .served)
            (by simp [connectionThreads, Threads.step, hpc, htodo])
      | inFinally jedis =>
          exact Machine.canStep_of_isSome _ (i, .enterCloseConnection)
            (by simp [connectionThreads, Threads.step, hpc, hlock])
      | inCloseConnection jedis =>
          exact Machine.canStep_of_isSome _ (i, .close)
            (by simp [connectionThreads, Threads.step, hpc])
  | some j =>
      -- the thread with the lock can move unless it waits for a connection
      have hmon := (hinv.lock_iff j).mp hlock
      cases hpc : (s.thread j).pc with
      | inCloseConnection jedis =>
          exact Machine.canStep_of_isSome _ (j, .close)
            (by simp [connectionThreads, Threads.step, hpc])
      | inGetConnection =>
          have hjout : j ∉ holders s := by simp [mem_holders hpc, Pc.jedis?]
          have hjbusy : j ∈ busy prog := hinv.busy_of_todo j (hinv.working j (by simp [hpc]))
          have hsub : insert j (holders s) ⊆ busy prog := by
            intro k hk
            rcases Finset.mem_insert.mp hk with rfl | hk
            · exact hjbusy
            · refine hinv.busy_of_todo k (hinv.working k ?_)
              intro hout
              simp [mem_holders hout, Pc.jedis?] at hk
          have hcard := Finset.card_le_card hsub
          rw [Finset.card_insert_of_notMem hjout, ← hinv.lent_eq] at hcard
          have hfree : s.pool.lent < s.pool.config.maxTotal := by
            rw [hinv.config_eq]
            omega
          exact Machine.canStep_of_isSome _ (j, .getResource true)
            (by simp [connectionThreads, Threads.step, hpc, getConnection, JedisPool.getResource,
              hfree])
      | _ => simp [hpc, Pc.inMonitor] at hmon

/-! ## The stuck state -/

/-- Every thread of `T` has run its first command and is about to give its
connection back; the others have not started. -/
def allBorrowed (config : JedisPoolConfig) (redis : Store S) (prog : Fin N → List (Operation S))
    (T : Finset (Fin N)) : Threads S N :=
  ⟨none, ⟨config, T.card⟩, redis,
    fun i => if i ∈ T then ⟨.inFinally (some ⟨true⟩), prog i⟩ else ⟨.outside, prog i⟩⟩

/-- The three steps of one more thread. -/
theorem exec_borrow {T : Finset (Fin N)} {i : Fin N} (hi : i ∉ T) (hprog : prog i ≠ [])
    (hfree : T.card < config.maxTotal) :
    (connectionThreads config redis prog).exec (allBorrowed config redis prog T)
        [(i, .enterGetConnection), (i, .getResource true), (i, .command .refused)]
      = some (allBorrowed config redis prog (insert i T)) := by
  obtain ⟨op, rest, hop⟩ := List.exists_cons_of_ne_nil hprog
  simp only [Machine.exec, connectionThreads, Threads.step, Threads.goto, allBorrowed, hi, if_false,
    Function.update_self, hop, Option.bind_some, getConnection, JedisPool.getResource, hfree,
    if_true, Option.map_some, Function.update_idem, Finset.card_insert_of_notMem hi]
  congr 2
  funext j
  by_cases hj : j = i
  · subst hj; simp [Fate.afterCommand, hop]
  · simp [hj]

/-- As many busy threads as there are connections can all borrow one. -/
theorem exists_exec_allBorrowed (config : JedisPoolConfig) (redis : Store S)
    {prog : Fin N → List (Operation S)} (T : Finset (Fin N)) (hT : T ⊆ busy prog)
    (hcard : T.card ≤ config.maxTotal) :
    ∃ run, (∀ x ∈ run, x.2.staysConnected = true) ∧
      (connectionThreads config redis prog).exec (connectionThreads config redis prog).init run
        = some (allBorrowed config redis prog T) := by
  induction T using Finset.induction_on with
  | empty => exact ⟨[], by simp, by simp [connectionThreads, allBorrowed, JedisPool.new]⟩
  | insert i T hi ih =>
      rw [Finset.card_insert_of_notMem hi] at hcard
      obtain ⟨run, hstays, hexec⟩ := ih (fun j hj => hT (Finset.mem_insert_of_mem hj)) (by omega)
      have hprog : prog i ≠ [] := by
        have hmem := hT (Finset.mem_insert_self i T)
        intro hnil
        simp [busy, hnil] at hmem
      refine ⟨run ++ [(i, .enterGetConnection), (i, .getResource true), (i, .command .refused)],
        ?_, ?_⟩
      · intro x hx
        rcases List.mem_append.mp hx with hx | hx
        · exact hstays x hx
        · simp only [List.mem_cons, List.not_mem_nil, or_false] at hx
          rcases hx with rfl | rfl | rfl <;> rfl
      · rw [Machine.exec_append_of_exec _ hexec, exec_borrow hi hprog (by omega)]

/-- The state in which one more thread waits for a connection with the class
lock in its hand, and every connection is with a thread that needs the lock. -/
def waitingWithLock (config : JedisPoolConfig) (redis : Store S)
    (prog : Fin N → List (Operation S)) (T : Finset (Fin N)) (j : Fin N) : Threads S N :=
  { (allBorrowed config redis prog T).goto j .inGetConnection with lock := some j }

theorem stuck_waitingWithLock {T : Finset (Fin N)} {j : Fin N} (hj : j ∉ T) (hprog : prog j ≠ [])
    (hfull : T.card = config.maxTotal) :
    Stuck (connectionThreads config redis prog) (waitingWithLock config redis prog T j) := by
  have hpc : ∀ k, ((waitingWithLock config redis prog T j).thread k).pc =
      if k = j then .inGetConnection
      else if k ∈ T then .inFinally (some ⟨true⟩) else .outside := by
    intro k
    by_cases hk : k = j
    · subst hk; simp [waitingWithLock, Threads.goto]
    · by_cases hkT : k ∈ T <;> simp [waitingWithLock, Threads.goto, allBorrowed, hk, hkT]
  have hlock : (waitingWithLock config redis prog T j).lock = some j := rfl
  have hexhausted : ∀ reachable,
      getConnection (waitingWithLock config redis prog T j).pool reachable = none := fun _ =>
    getConnection_eq_none_iff.mpr hfull.ge
  refine ⟨⟨j, by simpa [waitingWithLock, Threads.goto, allBorrowed, hj] using hprog⟩, ?_⟩
  rintro ⟨⟨k, act⟩, s', hstep⟩
  -- whatever thread moves, its step needs the lock or a connection
  rcases step_cases hstep with ⟨-, -, -, hfree, -⟩ | ⟨hk, rfl, -⟩ | ⟨hk, rfl, -⟩ |
    ⟨jedis, fate, redis', hk, -⟩ | ⟨jedis, -, -, hfree, -⟩ | ⟨jedis, hk, -⟩
  · rw [hlock] at hfree; cases hfree
  · simp [connectionThreads, Threads.step, hk, hexhausted] at hstep
  · simp [connectionThreads, Threads.step, hk, hexhausted] at hstep
  · rw [hpc] at hk; split_ifs at hk
  · rw [hlock] at hfree; cases hfree
  · rw [hpc] at hk; split_ifs at hk

/-- Lending every connection to busy threads and sending one more busy thread
into `getConnection` gets the system stuck. -/
theorem not_deadlockFree {T : Finset (Fin N)} {j : Fin N} (hT : T ⊆ busy prog)
    (hfull : T.card = config.maxTotal) (hj : j ∉ T) (hprog : prog j ≠ []) :
    ¬ DeadlockFree config redis prog := by
  intro hfree
  obtain ⟨run, hstays, hexec⟩ := exists_exec_allBorrowed config redis T hT hfull.le
  refine hfree (run ++ [(j, .enterGetConnection)]) _ ?_ ?_
    (stuck_waitingWithLock hj hprog hfull)
  · intro x hx
    rcases List.mem_append.mp hx with hx | hx
    · exact hstays x hx
    · rw [List.mem_singleton.mp hx]; rfl
  · obtain ⟨op, rest, hop⟩ := List.exists_cons_of_ne_nil hprog
    rw [Machine.exec_append_of_exec _ hexec]
    simp [Machine.exec, connectionThreads, Threads.step, allBorrowed, hj, hop, waitingWithLock]

/-! ## When the layer is free of deadlock -/

/-- **When the connection layer is free of deadlock.** Exactly when no more
threads have something to run than there are connections in the pool. -/
theorem deadlockFree_iff (config : JedisPoolConfig) (redis : Store S)
    (prog : Fin N → List (Operation S)) :
    DeadlockFree config redis prog ↔ (busy prog).card ≤ config.maxTotal := by
  constructor
  · intro hfree
    by_contra hmany
    obtain ⟨T, hT, hcard⟩ := Finset.exists_subset_card_eq (Nat.le_of_not_le hmany)
    obtain ⟨j, hjbusy, hj⟩ : ∃ j ∈ busy prog, j ∉ T := by
      by_contra hall
      have hsub : busy prog ⊆ T := fun k hk => by_contra fun hkT => hall ⟨k, hk, hkT⟩
      have hle := Finset.card_le_card hsub
      omega
    have hprog : prog j ≠ [] := by
      intro hnil
      simp [busy, hnil] at hjbusy
    exact not_deadlockFree hT hcard hj hprog hfree
  · rintro hbusy run s hstays hexec ⟨⟨i, hwork⟩, hstuck⟩
    exact hstuck ((poolInv_of_exec hstays hexec).canStep hbusy hwork)

/-- Two threads with one HGET each over a pool of one connection. -/
theorem two_threads_one_connection :
    ¬ DeadlockFree ⟨1, by decide⟩ (Store.empty : Store Int)
      (fun _ : Fin 2 => [.hget "k" "f"]) :=
  have hbusy : ({0} : Finset (Fin 2)) ⊆
      busy fun _ : Fin 2 => [(.hget "k" "f" : Operation Int)] := fun _ _ => by simp [busy]
  have hout : (1 : Fin 2) ∉ ({0} : Finset (Fin 2)) := by decide
  not_deadlockFree hbusy rfl hout (by simp)

end Invariant

end SpringDome.Redis
