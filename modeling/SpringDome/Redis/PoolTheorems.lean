/-
SpringDome.Redis.PoolTheorems — runs of `RedisUtil` operations on one
thread, and what they leave lent out.

`closeConnection` gives a connection back only while `isConnected` answers
true, so an operation whose connection dropped can keep it. `exec_lent`
counts: after any run the pool has lent out one connection for each such
operation. `noConnectionLost_iff` is the exact condition under which no
operation of a run costs a connection.
-/
import SpringDome.Lib.Machine
import SpringDome.Redis.RedisUtil

namespace SpringDome.Redis

open SpringDome.Lib
open SpringDome.Lib.RedisStore

variable {S : Type} [Add S] [LE S] [DecidableLE S]

/-- One thread that runs one operation after the other; the label is the
operation with its fate. -/
def soloThread (config : JedisPoolConfig) (redis : Store S) :
    Machine (World S) (Operation S × Fate) where
  init := ⟨JedisPool.new config, redis⟩
  step w x := (x.1.util.exec x.2 w).map fun out => out.1

variable {config : JedisPoolConfig} {redis : Store S}

/-- What one operation does to the pool. -/
theorem soloThread_step {w w' : World S} {x : Operation S × Fate}
    (h : (soloThread config redis).step w x = some w') :
    w.pool.lent < w.pool.config.maxTotal ∧
      w'.pool = { w.pool with lent := w.pool.lent + if x.2.leaks then 1 else 0 } := by
  obtain ⟨⟨w'', r⟩, hexec, rfl⟩ := Option.map_eq_some_iff.mp h
  obtain ⟨hfree, hpool, -⟩ := UtilOp.exec_eq_some hexec
  exact ⟨hfree, hpool⟩

/-- With a connection free every operation comes back. -/
theorem soloThread_step_of_free (config : JedisPoolConfig) (redis : Store S) {w : World S}
    (x : Operation S × Fate) (hfree : w.pool.lent < w.pool.config.maxTotal) :
    ∃ w', (soloThread config redis).step w x = some w' :=
  ⟨_, Option.map_eq_some_iff.mpr ⟨_, UtilOp.exec_of_free _ _ hfree, rfl⟩⟩

/-- A run has lent out one more connection for each operation that leaked. -/
theorem exec_lent (run : List (Operation S × Fate)) (w w' : World S)
    (h : (soloThread config redis).exec w run = some w') :
    w'.pool = { w.pool with lent := w.pool.lent + run.countP fun x => x.2.leaks } := by
  induction run generalizing w with
  | nil => cases h; rfl
  | cons x run ih =>
      rw [Machine.exec_cons] at h
      obtain ⟨w₁, hstep, hrest⟩ := Option.bind_eq_some_iff.mp h
      obtain ⟨-, hpool⟩ := soloThread_step hstep
      rw [ih w₁ hrest, hpool, List.countP_cons]
      simp only [JedisPool.mk.injEq, true_and]
      omega

/-- A run comes back if there is a connection for each leak, and one to work
with. -/
theorem exec_of_free (run : List (Operation S × Fate)) (w : World S)
    (hfree : w.pool.lent + (run.countP fun x => x.2.leaks) < w.pool.config.maxTotal) :
    ∃ w', (soloThread config redis).exec w run = some w' := by
  induction run generalizing w with
  | nil => exact ⟨w, rfl⟩
  | cons x run ih =>
      rw [List.countP_cons] at hfree
      have hlent : w.pool.lent < w.pool.config.maxTotal := by omega
      obtain ⟨w₁, hstep⟩ := soloThread_step_of_free config redis x hlent
      obtain ⟨-, hpool⟩ := soloThread_step hstep
      have hfree₁ : w₁.pool.lent + (run.countP fun x => x.2.leaks) < w₁.pool.config.maxTotal := by
        rw [hpool]
        dsimp only
        omega
      obtain ⟨w', hrun⟩ := ih w₁ hfree₁
      exact ⟨w', by rw [Machine.exec_cons_of_step _ hstep, hrun]⟩

/-- Every operation of the run comes back and leaves as many connections lent
out as there were before it. -/
def NoConnectionLost (config : JedisPoolConfig) (redis : Store S)
    (run : List (Operation S × Fate)) : Prop :=
  ∀ before x after, run = before ++ x :: after →
    ∃ w w', (soloThread config redis).exec (soloThread config redis).init before = some w ∧
      (soloThread config redis).step w x = some w' ∧ w'.pool.lent = w.pool.lent

/-- **When no connection is lost.** A run costs no connection exactly when no
operation's connection drops so that `isConnected` answers false when the
`finally` block asks. -/
theorem noConnectionLost_iff (config : JedisPoolConfig) (redis : Store S)
    (run : List (Operation S × Fate)) :
    NoConnectionLost config redis run ↔ ∀ x ∈ run, x.2.leaks = false := by
  constructor
  · intro hkept x hx
    obtain ⟨before, after, hrun⟩ := List.append_of_mem hx
    obtain ⟨w, w', -, hstep, hlent⟩ := hkept before x after hrun
    obtain ⟨-, hpool⟩ := soloThread_step hstep
    rw [hpool] at hlent
    cases hx' : x.2.leaks with
    | false => rfl
    | true => simp [hx'] at hlent
  · intro hleak before x after hrun
    have hbefore : (before.countP fun y => y.2.leaks) = 0 := by
      rw [List.countP_eq_zero]
      intro y hy
      rw [hleak y (hrun ▸ List.mem_append_left _ hy)]
      exact Bool.false_ne_true
    have hx : x.2.leaks = false := hleak x (hrun ▸ List.mem_append_right _ (List.mem_cons_self ..))
    have hstart : (soloThread config redis).init.pool.lent <
        (soloThread config redis).init.pool.config.maxTotal := config.maxTotal_pos
    obtain ⟨w, hexec⟩ := exec_of_free before (soloThread config redis).init
      (by rw [hbefore]; exact hstart)
    have hpool : w.pool = (soloThread config redis).init.pool := by
      rw [exec_lent before _ _ hexec, hbefore]
      rfl
    obtain ⟨w', hstep⟩ := soloThread_step_of_free config redis x (hpool ▸ hstart)
    obtain ⟨-, hpool'⟩ := soloThread_step hstep
    exact ⟨w, w', hexec, hstep, by rw [hpool', hx]; rfl⟩

/-- One HGET whose connection drops before the server sees it: the pool never
gets the connection back. -/
theorem dropped_hget_loses_connection :
    ¬ NoConnectionLost .default (Store.empty : Store Int)
      [(.hget "k" "f", .dropped false false)] := by
  intro h
  obtain ⟨w, w', hexec, hstep, hlent⟩ := h [] (.hget "k" "f", .dropped false false) [] rfl
  cases hexec
  cases hstep
  revert hlent
  decide

end SpringDome.Redis
