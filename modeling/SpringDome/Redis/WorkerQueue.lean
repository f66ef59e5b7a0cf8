/-
SpringDome.Redis.WorkerQueue — one caller of `RedisService` and the worker
thread of its executor.

The scores go through `EXECUTORS.execute`, a queue that one worker thread
empties in order; hashes, expiries and deletes are sent by the caller
itself. `serviceThreads` interleaves the two threads, one server command at a
time; the schedule is the list of turns.

The reference is the same program run alone (`RedisM.run`), where a submitted
task runs on the spot. A direct operation that overtakes a queued one on the
same key tells the two apart (`overtaking_delete`). Nothing else does:
`programOrder` follows one key through a schedule in which no direct
operation on that key is sent while a queued one on it is pending. Its
invariant is that settling the state (run what is pending, then the rest of
the caller) always leaves the entry of the reference run.
-/
import SpringDome.Lib.Machine
import SpringDome.Redis.RedisService

namespace SpringDome.Redis

open SpringDome.Lib
open SpringDome.Lib.RedisStore

variable {S : Type}

/-! ## 1. The caller's program -/

/-- One call of the service whose answer the caller drops. -/
inductive ServiceCall where
  | setSortSetItem (key : String) (value : Int32) (member : String)
  | updateSortSetItem (key : String) (value : Int32) (member : String)
  | incrSortSetItem (key : String) (increment : Int32) (member : String)
  | hSet (key field value : String)
  | hmSet (key : String) (map : List (String × String))
  | hmSetFor (key : String) (map : List (String × String)) (seconds : Int32)
  | hincrby (key field : String) (value : Int64)
  | expire (key : String) (seconds : Int32)
  | deleteKey (key : String)
  deriving DecidableEq, Repr

def ServiceCall.program [IntCast S] : ServiceCall → RedisM S Unit
  | .setSortSetItem key value member => RedisService.setSortSetItem key value member
  | .updateSortSetItem key value member => RedisService.updateSortSetItem key value member
  | .incrSortSetItem key increment member => RedisService.incrSortSetItem key increment member
  | .hSet key field value => RedisService.hSet key field value
  | .hmSet key map => RedisService.hmSet key map
  | .hmSetFor key map seconds => RedisService.hmSetFor key map seconds
  | .hincrby key field value => do let _ ← RedisService.hincrby key field value
  | .expire key seconds => do let _ ← RedisService.expire key seconds
  | .deleteKey key => do let _ ← RedisService.deleteKey key

/-- The calls of one thread, in program order. -/
def callsOf [IntCast S] : List ServiceCall → RedisM S Unit
  | [] => pure ()
  | c :: cs => do c.program; callsOf cs

/-- A program whose next step never depends on an answer. -/
def RedisM.Blind {α : Type} : RedisM S α → Prop
  | .ret _ => True
  | .call _ k => (∀ r r', k r = k r') ∧ ∀ r, (k r).Blind
  | .submit _ rest => rest.Blind

theorem RedisM.Blind.bind {α β : Type} {p : RedisM S α} {f : α → RedisM S β} (hp : p.Blind)
    (hf : ∀ a, (f a).Blind) : (p.bind f).Blind := by
  induction p with
  | ret a => exact hf a
  | call op k ih => exact ⟨fun r r' => by simp only [hp.1 r r'], fun r => ih r (hp.2 r)⟩
  | submit task rest ih => exact ih hp

/-- One operation whose answer is dropped. -/
theorem blind_call (op : Operation S) : (RedisM.call op fun _ => .ret ()).Blind :=
  ⟨fun _ _ => rfl, fun _ => trivial⟩

theorem ServiceCall.blind_program [IntCast S] (c : ServiceCall) :
    (c.program : RedisM S Unit).Blind := by
  cases c with
  | setSortSetItem key value member => exact trivial
  | updateSortSetItem key value member => exact trivial
  | incrSortSetItem key increment member =>
      simp only [program, RedisService.incrSortSetItem]
      split
      · exact trivial
      · exact trivial
  | hSet key field value => exact blind_call _
  | hmSet key map => exact blind_call _
  | hmSetFor key map seconds => exact (blind_call _).bind fun _ => blind_call _
  | hincrby key field value => exact blind_call _
  | expire key seconds => exact blind_call _
  | deleteKey key => exact blind_call _

theorem blind_callsOf [IntCast S] (cs : List ServiceCall) : (callsOf cs : RedisM S Unit).Blind := by
  induction cs with
  | nil => exact trivial
  | cons c cs ih => exact c.blind_program.bind fun _ => ih

/-! ## 2. Caller and worker -/

/-- The caller, the executor's queue, the task the worker has taken, and
the server. -/
structure ServiceState (S : Type) where
  caller : RedisM S Unit
  queue : List (Operation S)
  running : Option (Operation S)
  redis : Store S

inductive Turn where
  /-- The caller sends its next command, or queues its next task. -/
  | caller
  /-- The worker takes a task off the queue. -/
  | take
  /-- The worker runs the task it took. -/
  | runTask
  deriving DecidableEq, Repr

namespace ServiceState

/-- What was submitted and has not run, oldest first. -/
def pending (s : ServiceState S) : List (Operation S) := s.running.toList ++ s.queue

/-- The caller is done and nothing is pending. -/
def Drained (s : ServiceState S) : Prop := s.caller = .ret () ∧ s.pending = []

/-- The turn is not a direct operation on `key` while a queued one on `key`
is pending. -/
def Keeps (key : String) (s : ServiceState S) : Turn → Prop
  | .caller =>
      match s.caller with
      | .call op _ => op.key? = some key → ∀ task ∈ s.pending, task.key? ≠ some key
      | _ => True
  | _ => True

variable [Add S] [LE S] [DecidableLE S]

def step (s : ServiceState S) : Turn → Option (ServiceState S)
  | .caller =>
      match s.caller with
      | .ret _ => none
      | .call op k =>
          let (redis, answer) := op.util.onStore .served s.redis
          some { s with caller := k answer, redis := redis }
      | .submit task rest => some { s with caller := rest, queue := s.queue ++ [task] }
  | .take =>
      match s.running, s.queue with
      | none, task :: queue => some { s with running := some task, queue := queue }
      | _, _ => none
  | .runTask =>
      match s.running with
      | none => none
      | some task => some { s with running := none, redis := task.serve s.redis }

/-- Everything a turn can do. -/
theorem step_cases {s s' : ServiceState S} {turn : Turn} (h : s.step turn = some s') :
    (∃ op k, turn = .caller ∧ s.caller = .call op k ∧
      s' = { s with caller := k (op.util.onStore .served s.redis).2, redis := op.serve s.redis }) ∨
    (∃ task rest, turn = .caller ∧ s.caller = .submit task rest ∧
      s' = { s with caller := rest, queue := s.queue ++ [task] }) ∨
    (∃ task queue, turn = .take ∧ s.running = none ∧ s.queue = task :: queue ∧
      s' = { s with running := some task, queue := queue }) ∨
    (∃ task, turn = .runTask ∧ s.running = some task ∧
      s' = { s with running := none, redis := task.serve s.redis }) := by
  obtain ⟨caller, queue, running, redis⟩ := s
  cases turn with
  | caller =>
      cases caller with
      | ret a => cases h
      | call op k => cases h; exact .inl ⟨op, k, rfl, rfl, rfl⟩
      | submit task rest => cases h; exact .inr (.inl ⟨task, rest, rfl, rfl, rfl⟩)
  | take =>
      cases running with
      | some task => cases h
      | none =>
          cases queue with
          | nil => cases h
          | cons task queue => cases h; exact .inr (.inr (.inl ⟨task, queue, rfl, rfl, rfl, rfl⟩))
  | runTask =>
      cases running with
      | none => cases h
      | some task => cases h; exact .inr (.inr (.inr ⟨task, rfl, rfl, rfl⟩))

end ServiceState

section Machine

variable [Add S] [LE S] [DecidableLE S]

/-- The two threads, with nothing queued at the start. -/
def serviceThreads (program : RedisM S Unit) (redis : Store S) :
    Lib.Machine (ServiceState S) Turn where
  init := ⟨program, [], none, redis⟩
  step := ServiceState.step

/-! ## 3. Settling a state -/

/-- Run a list of tasks, oldest first. -/
def drain (tasks : List (Operation S)) (s : Store S) : Store S :=
  tasks.foldl (fun s task => task.serve s) s

@[simp] theorem drain_cons (task : Operation S) (tasks : List (Operation S)) (s : Store S) :
    drain (task :: tasks) s = drain tasks (task.serve s) := rfl

theorem drain_concat (tasks : List (Operation S)) (task : Operation S) (s : Store S) :
    drain (tasks ++ [task]) s = task.serve (drain tasks s) := by
  simp [drain]

theorem drain_congr (tasks : List (Operation S)) {key : String} {s t : Store S}
    (h : Store.AgreeAt key s t) : Store.AgreeAt key (drain tasks s) (drain tasks t) := by
  induction tasks generalizing s t with
  | nil => exact h
  | cons task tasks ih => exact ih (task.serve_congr h)

theorem drain_frame {tasks : List (Operation S)} {key : String}
    (h : ∀ task ∈ tasks, task.key? ≠ some key) (s : Store S) :
    Store.AgreeAt key (drain tasks s) s := by
  induction tasks generalizing s with
  | nil => exact .refl key s
  | cons task tasks ih =>
      exact (ih (fun t ht => h t (List.mem_cons_of_mem _ ht)) (task.serve s)).trans
        (Operation.serve_frame (h task List.mem_cons_self) s)

/-- An operation may pass a list of tasks as far as one key can tell, unless
both it and one of the tasks work on that key. -/
theorem serve_drain {op : Operation S} {tasks : List (Operation S)} {key : String}
    (h : op.key? = some key → ∀ task ∈ tasks, task.key? ≠ some key) (s : Store S) :
    Store.AgreeAt key (drain tasks (op.serve s)) (op.serve (drain tasks s)) := by
  by_cases hop : op.key? = some key
  · exact (drain_frame (h hop) (op.serve s)).trans (op.serve_congr (drain_frame (h hop) s)).symm
  · exact (drain_congr tasks (Operation.serve_frame hop s)).trans
      (Operation.serve_frame hop (drain tasks s)).symm

/-- What a blind program leaves under a key depends on what it finds there. -/
theorem RedisM.Blind.run_congr {p : RedisM S Unit} (hp : p.Blind) {key : String} {s t : Store S}
    (h : Store.AgreeAt key s t) : Store.AgreeAt key (p.run s).1 (p.run t).1 := by
  induction p generalizing s t with
  | ret a => exact h
  | call op k ih =>
      simp only [RedisM.run, RedisM.runWith]
      rw [hp.1 (op.util.onStore .served s).2 (op.util.onStore .served t).2]
      exact ih _ (hp.2 _) (op.serve_congr h)
  | submit task rest ih => exact ih hp (task.serve_congr h)

/-- Everything that is still to come, run at once in program order. -/
def ServiceState.settle (s : ServiceState S) : Store S := (s.caller.run (drain s.pending s.redis)).1

/-- One turn that keeps the order on `key` keeps the settled entry of `key`,
and a blind caller blind. -/
theorem settle_step {key : String} {s s' : ServiceState S} {turn : Turn}
    (hblind : s.caller.Blind) (hkeeps : s.Keeps key turn) (hstep : s.step turn = some s') :
    s'.caller.Blind ∧ Store.AgreeAt key s'.settle s.settle := by
  rcases ServiceState.step_cases hstep with ⟨op, k, rfl, hcaller, rfl⟩ |
    ⟨task, rest, rfl, hcaller, rfl⟩ | ⟨task, queue, rfl, hrunning, hqueue, rfl⟩ |
    ⟨task, rfl, hrunning, rfl⟩
  · rw [hcaller] at hblind
    simp only [ServiceState.Keeps, hcaller] at hkeeps
    refine ⟨hblind.2 _, ?_⟩
    simp only [ServiceState.settle, ServiceState.pending, hcaller, RedisM.run, RedisM.runWith]
    -- the settled run sends the same operation after the pending tasks
    rw [hblind.1 (op.util.onStore .served s.redis).2
      (op.util.onStore .served (drain (s.running.toList ++ s.queue) s.redis)).2]
    exact (hblind.2 _).run_congr (serve_drain hkeeps s.redis)
  · rw [hcaller] at hblind
    refine ⟨hblind, ?_⟩
    simp only [ServiceState.settle, ServiceState.pending, hcaller, RedisM.run, RedisM.runWith,
      ← List.append_assoc, drain_concat]
    exact .refl key _
  · refine ⟨hblind, ?_⟩
    simp only [ServiceState.settle, ServiceState.pending, hrunning, hqueue]
    exact .refl key _
  · refine ⟨hblind, ?_⟩
    simp only [ServiceState.settle, ServiceState.pending, hrunning]
    exact .refl key _

/-- The settled entry of `key` along a run is that of the program run alone. -/
theorem settle_exec {program : RedisM S Unit} (hblind : program.Blind) (redis : Store S)
    {key : String} : ∀ (run : List Turn) (s : ServiceState S),
    (serviceThreads program redis).Along (ServiceState.Keeps key)
      (serviceThreads program redis).init run →
    (serviceThreads program redis).exec (serviceThreads program redis).init run = some s →
    s.caller.Blind ∧ Store.AgreeAt key s.settle (program.run redis).1 := by
  refine Machine.along_induction _ ⟨hblind, .refl key _⟩ ?_
  intro run s turn s' _ hinv hkeeps hstep
  obtain ⟨hblind', hagree⟩ := settle_step hinv.1 hkeeps hstep
  exact ⟨hblind', hagree.trans hinv.2⟩

theorem ServiceState.Drained.settle_eq {s : ServiceState S} (h : s.Drained) :
    s.settle = s.redis := by
  simp only [ServiceState.settle, h.1, h.2]
  rfl

/-! ## 4. Program order -/

variable [IntCast S]

/-- **Program order, key by key.** Take any calls, any schedule and any key on
which the schedule sends no direct operation while a queued one is pending.
Once everything is drained, the key holds what it holds when every call sends
its own commands at once. -/
theorem programOrder (cs : List ServiceCall) (redis : Store S) (run : List Turn)
    (s : ServiceState S) (key : String)
    (hexec : (serviceThreads (callsOf cs) redis).exec (serviceThreads (callsOf cs) redis).init run
      = some s)
    (hkeeps : (serviceThreads (callsOf cs) redis).Along (ServiceState.Keeps key)
      (serviceThreads (callsOf cs) redis).init run)
    (hdrained : s.Drained) :
    Store.AgreeAt key s.redis ((callsOf cs).run redis).1 := by
  have hsettled := (settle_exec (blind_callsOf cs) redis run s hkeeps hexec).2
  rwa [hdrained.settle_eq] at hsettled

/-- A score is queued while a field of another key is set directly. -/
theorem programOrder_two_keys :
    ∃ s, (serviceThreads (callsOf [.setSortSetItem "board" 5 "ann", .hSet "ann" "level" "2"])
        (Store.empty : Store Int)).exec
          (serviceThreads (callsOf [.setSortSetItem "board" 5 "ann", .hSet "ann" "level" "2"])
            Store.empty).init [.caller, .caller, .take, .runTask] = some s ∧
      Store.AgreeAt "board" s.redis
        ((callsOf [.setSortSetItem "board" 5 "ann", .hSet "ann" "level" "2"]).run Store.empty).1 :=
  ⟨_, rfl, programOrder [.setSortSetItem "board" 5 "ann", .hSet "ann" "level" "2"] Store.empty
    [.caller, .caller, .take, .runTask] _ "board" rfl
    (by simp [Machine.Along, serviceThreads, ServiceState.step, ServiceState.Keeps, callsOf,
      ServiceCall.program, RedisService.setSortSetItem, RedisM.execute, RedisService.hSet,
      RedisM.send, Operation.key?]) ⟨rfl, rfl⟩⟩

/-- Program order on the whole store, whatever the schedule. -/
def InProgramOrder (cs : List ServiceCall) (redis : Store S) : Prop :=
  ∀ run s, (serviceThreads (callsOf cs) redis).exec (serviceThreads (callsOf cs) redis).init run
    = some s → s.Drained → s.redis.Indistinct ((callsOf cs).run redis).1

/-- A delete sent while a score of the same key is queued: the worker brings
the deleted key back. -/
theorem overtaking_delete :
    ¬ InProgramOrder [.setSortSetItem "board" 5 "ann", .deleteKey "board"]
      (Store.empty : Store Int) := by
  intro h
  have hsame := (h [.caller, .caller, .take, .runTask] _ rfl ⟨rfl, rfl⟩).2 "board"
  revert hsame
  decide

end Machine

/-! ## 5. Keys kept apart

When no key is used both through the queue and directly, no schedule lets an
operation overtake one on its own key. -/

/-- The program queues tasks on keys of `queued` only and sends operations on
keys of `direct` only. -/
def RedisM.Uses (queued direct : String → Prop) : RedisM S Unit → Prop
  | .ret _ => True
  | .call op k => (∀ key, op.key? = some key → direct key) ∧ ∀ r, (k r).Uses queued direct
  | .submit task rest => (∀ key, task.key? = some key → queued key) ∧ rest.Uses queued direct

theorem RedisM.Uses.bind {queued direct : String → Prop} {p : RedisM S Unit}
    {f : Unit → RedisM S Unit} (hp : p.Uses queued direct) (hf : ∀ a, (f a).Uses queued direct) :
    (p.bind f).Uses queued direct := by
  induction p with
  | ret a => exact hf a
  | call op k ih => exact ⟨hp.1, fun r => ih r (hp.2 r)⟩
  | submit task rest ih => exact ⟨hp.1, ih hp.2⟩

/-- The call goes through the queue. -/
def ServiceCall.queued : ServiceCall → Bool
  | .setSortSetItem .. | .updateSortSetItem .. | .incrSortSetItem .. => true
  | _ => false

def ServiceCall.key : ServiceCall → String
  | .setSortSetItem key .. | .updateSortSetItem key .. | .incrSortSetItem key ..
  | .hSet key .. | .hmSet key .. | .hmSetFor key .. | .hincrby key .. | .expire key ..
  | .deleteKey key => key

theorem ServiceCall.uses_program [IntCast S] {queued direct : String → Prop} (c : ServiceCall)
    (hq : c.queued = true → queued c.key) (hd : c.queued = false → direct c.key) :
    (c.program : RedisM S Unit).Uses queued direct := by
  cases c with
  | setSortSetItem key value member =>
      exact ⟨fun k hk => Option.some.inj hk ▸ hq rfl, trivial⟩
  | updateSortSetItem key value member =>
      exact ⟨fun k hk => Option.some.inj hk ▸ hq rfl, trivial⟩
  | incrSortSetItem key increment member =>
      simp only [program, RedisService.incrSortSetItem]
      split
      · exact trivial
      · exact ⟨fun k hk => Option.some.inj hk ▸ hq rfl, trivial⟩
  | hmSetFor key map seconds =>
      have hmSet : (RedisM.call (.hmSet key map) .ret : RedisM S Unit).Uses queued direct :=
        ⟨fun k hk => Option.some.inj hk ▸ hd rfl, fun _ => trivial⟩
      exact hmSet.bind fun _ => ⟨fun k hk => Option.some.inj hk ▸ hd rfl, fun _ => trivial⟩
  | _ => exact ⟨fun k hk => Option.some.inj hk ▸ hd rfl, fun _ => trivial⟩

theorem uses_callsOf [IntCast S] {queued direct : String → Prop} {cs : List ServiceCall}
    (hq : ∀ c ∈ cs, c.queued = true → queued c.key)
    (hd : ∀ c ∈ cs, c.queued = false → direct c.key) :
    (callsOf cs : RedisM S Unit).Uses queued direct := by
  induction cs with
  | nil => exact trivial
  | cons c cs ih =>
      exact (c.uses_program (hq c List.mem_cons_self) (hd c List.mem_cons_self)).bind fun _ =>
        ih (fun d hm => hq d (List.mem_cons_of_mem _ hm))
          (fun d hm => hd d (List.mem_cons_of_mem _ hm))

/-- What is pending works on keys of `queued`, and the caller keeps to its
keys. -/
structure ServiceState.KeepsApart (queued direct : String → Prop) (s : ServiceState S) : Prop where
  caller : s.caller.Uses queued direct
  pending : ∀ task ∈ s.pending, ∀ key, task.key? = some key → queued key

/-- Apart, no turn overtakes anything. -/
theorem ServiceState.KeepsApart.keeps {queued direct : String → Prop} {s : ServiceState S}
    (h : s.KeepsApart queued direct) (hapart : ∀ key, queued key → ¬ direct key) (key : String)
    (turn : Turn) : s.Keeps key turn := by
  obtain ⟨caller, queue, running, redis⟩ := s
  cases turn with
  | take => exact trivial
  | runTask => exact trivial
  | caller =>
      cases caller with
      | ret a => exact trivial
      | submit task rest => exact trivial
      | call op k =>
          intro hop task htask hkey
          exact hapart key (h.pending task htask key hkey) (h.caller.1 key hop)

variable [Add S] [LE S] [DecidableLE S]

theorem ServiceState.KeepsApart.step {queued direct : String → Prop} {s s' : ServiceState S}
    {turn : Turn} (h : s.KeepsApart queued direct) (hstep : s.step turn = some s') :
    s'.KeepsApart queued direct := by
  obtain ⟨huses, hpending⟩ := h
  rcases step_cases hstep with ⟨op, k, rfl, hcaller, rfl⟩ | ⟨task, rest, rfl, hcaller, rfl⟩ |
    ⟨task, queue, rfl, hrunning, hqueue, rfl⟩ | ⟨task, rfl, hrunning, rfl⟩
  · rw [hcaller] at huses
    exact ⟨huses.2 _, hpending⟩
  · rw [hcaller] at huses
    refine ⟨huses.2, ?_⟩
    intro t ht
    simp only [ServiceState.pending, ← List.append_assoc, List.mem_append,
      List.mem_singleton] at ht
    obtain ht | rfl := ht
    · exact hpending t (List.mem_append.mpr ht)
    · exact huses.1
  · refine ⟨huses, ?_⟩
    intro t ht
    exact hpending t (by simpa [ServiceState.pending, hrunning, hqueue] using ht)
  · refine ⟨huses, ?_⟩
    intro t ht
    exact hpending t (by simpa [ServiceState.pending, hrunning] using Or.inr ht)

/-- **Program order, whatever the schedule**, for calls that use no key both
through the queue and directly. -/
theorem inProgramOrder_of_apart [IntCast S] {cs : List ServiceCall}
    (hapart : ∀ c ∈ cs, ∀ d ∈ cs, c.queued = true → d.queued = false → c.key ≠ d.key)
    (redis : Store S) : InProgramOrder cs redis := by
  intro run s hexec hdrained
  have hmachine : ∀ (run : List Turn) (t : ServiceState S),
      t.KeepsApart (fun k => ∃ c ∈ cs, c.queued = true ∧ c.key = k)
        (fun k => ∃ d ∈ cs, d.queued = false ∧ d.key = k) →
      ∀ key, (serviceThreads (callsOf cs) redis).Along (ServiceState.Keeps key) t run := by
    intro run
    induction run with
    | nil => exact fun _ _ _ => trivial
    | cons turn run ih =>
        refine fun t ht key => ⟨ht.keeps ?_ key turn, fun t' hstep => ih t' (ht.step hstep) key⟩
        rintro k ⟨c, hc, hcq, rfl⟩ ⟨d, hd, hdq, hk⟩
        exact hapart c hc d hd hcq hdq hk.symm
  have hinit : ServiceState.KeepsApart (fun k => ∃ c ∈ cs, c.queued = true ∧ c.key = k)
      (fun k => ∃ d ∈ cs, d.queued = false ∧ d.key = k)
      (serviceThreads (callsOf cs) redis).init :=
    ⟨uses_callsOf (fun c hc hq => ⟨c, hc, hq, rfl⟩) fun d hd hq => ⟨d, hd, hq, rfl⟩,
      by simp [serviceThreads, ServiceState.pending]⟩
  have hkey : ∀ key, Store.AgreeAt key s.redis ((callsOf cs).run redis).1 := fun key => by
    have hsettled := (settle_exec (blind_callsOf cs) redis run s (hmachine run _ hinit key) hexec).2
    rwa [hdrained.settle_eq] at hsettled
  exact ⟨(hkey "").1, fun key => (hkey key).2⟩

end SpringDome.Redis
