/-
SpringDome.Redis.Scores — the leaderboard: what the three score calls of
`RedisService` leave, against what they are for.

A board is a partial map of integer scores. `intended` is what a call is for
and `stored` what it does: `setSortSetItem` sends ZINCRBY, so it adds where it
should assign, and an increment by zero sends nothing, so it does not enter
an absent member. `shows_after` is the simulation: after any calls the sorted
sets show the board that `stored` folds to, as long as its scores are integers
that Redis keeps exactly (`ExactIntegers`).

`queryScore_reference_iff` then compares the two folds member by member. They
differ where a set finds a score other than zero and no update repairs it, and
where a member has been incremented by zero only.
-/
import SpringDome.Redis.WorkerQueue
import Mathlib.Algebra.Ring.Nat

namespace SpringDome.Redis

open SpringDome.Lib
open SpringDome.Lib.RedisStore

/-! ## 1. Calls and boards -/

inductive ScoreCall where
  | setSortSetItem (key : String) (value : Int32) (member : String)
  | updateSortSetItem (key : String) (value : Int32) (member : String)
  | incrSortSetItem (key : String) (increment : Int32) (member : String)
  deriving DecidableEq, Repr

namespace ScoreCall

def toServiceCall : ScoreCall → ServiceCall
  | .setSortSetItem key value member => .setSortSetItem key value member
  | .updateSortSetItem key value member => .updateSortSetItem key value member
  | .incrSortSetItem key increment member => .incrSortSetItem key increment member

/-- The key and the member a call is about. -/
def slot : ScoreCall → String × String
  | .setSortSetItem key _ member | .updateSortSetItem key _ member
  | .incrSortSetItem key _ member => (key, member)

/-- What a call is for: a set and an update assign, an increment adds, and an
absent member counts as 0. -/
def intended : ScoreCall → Option Int → Option Int
  | .setSortSetItem _ value _, _ => some value.toInt
  | .updateSortSetItem _ value _, _ => some value.toInt
  | .incrSortSetItem _ increment _, score => some (score.getD 0 + increment.toInt)

/-- What a call does. -/
def stored : ScoreCall → Option Int → Option Int
  | .setSortSetItem _ value _, score => some (score.getD 0 + value.toInt)
  | .updateSortSetItem _ value _, _ => some value.toInt
  | .incrSortSetItem _ increment _, score =>
      if increment = 0 then score else some (score.getD 0 + increment.toInt)

end ScoreCall

/-- The integer scores of the members of the keys. -/
abbrev Board := String × String → Option Int

/-- The fold of the calls, in order. -/
def boardAfter (effect : ScoreCall → Option Int → Option Int) (cs : List ScoreCall) : Board :=
  cs.foldl (fun board c => Function.update board c.slot (effect c (board c.slot))) fun _ => none

/-- The reference. -/
def reference (cs : List ScoreCall) : Board := boardAfter ScoreCall.intended cs

theorem boardAfter_concat (effect : ScoreCall → Option Int → Option Int) (cs : List ScoreCall)
    (c : ScoreCall) : boardAfter effect (cs ++ [c]) =
      Function.update (boardAfter effect cs) c.slot (effect c (boardAfter effect cs c.slot)) := by
  simp [boardAfter]

/-- The calls about one slot, latest first. -/
def callsAt (slot : String × String) (cs : List ScoreCall) : List ScoreCall :=
  (cs.filter fun c => c.slot = slot).reverse

/-- The score of a slot is the fold of the calls about it. -/
theorem boardAfter_eq_foldr (effect : ScoreCall → Option Int → Option Int) (cs : List ScoreCall)
    (slot : String × String) :
    boardAfter effect cs slot = (callsAt slot cs).foldr effect none := by
  induction cs using List.reverseRecOn with
  | nil => rfl
  | append_singleton cs c ih =>
      rw [boardAfter_concat]
      by_cases h : c.slot = slot
      · subst h
        simp [callsAt, ih]
      · simp [callsAt, h, Ne.symm h, ih]

/-! ## 2. Exact scores -/

/-- An integer below 2^53 in magnitude. -/
def IsExact (n : Int) : Prop := n.natAbs < 2 ^ 53

/-- The scores keep such integers exactly: they add without rounding, and
different ones stay different. -/
structure ExactIntegers (S : Type) [Add S] [IntCast S] : Prop where
  add : ∀ a b : Int, IsExact a → IsExact b → IsExact (a + b) → (a : S) + (b : S) = ((a + b : Int) : S)
  injective : ∀ a b : Int, IsExact a → IsExact b → (a : S) = (b : S) → a = b

theorem exactIntegers_int : ExactIntegers Int where
  add := fun _ _ _ _ _ => rfl
  injective := fun _ _ _ _ h => h

/-- Every score on the way is exact, in the store and in the reference. -/
def PartialSumsExact (cs : List ScoreCall) : Prop :=
  ∀ pre, pre <+: cs → ∀ slot n,
    n ∈ boardAfter ScoreCall.stored pre slot ∨ n ∈ reference pre slot → IsExact n

theorem isExact_toInt (n : Int32) : IsExact n.toInt := by
  have hlow := n.le_toInt
  have hhigh := n.toInt_lt
  unfold IsExact
  omega

/-- The magnitude of the value of a call. -/
def ScoreCall.size : ScoreCall → Nat
  | .setSortSetItem _ value _ | .updateSortSetItem _ value _ | .incrSortSetItem _ value _ =>
      value.toInt.natAbs

theorem ScoreCall.intended_le (c : ScoreCall) (score : Option Int) :
    ∀ n ∈ c.intended score, n.natAbs ≤ (score.getD 0).natAbs + c.size := by
  intro n hn
  cases c <;> cases hn <;> simp only [size] <;> omega

theorem ScoreCall.stored_le (c : ScoreCall) (score : Option Int) :
    ∀ n ∈ c.stored score, n.natAbs ≤ (score.getD 0).natAbs + c.size := by
  intro n hn
  cases c with
  | setSortSetItem key value member => cases hn; simp only [size]; omega
  | updateSortSetItem key value member => cases hn; simp only [size]; omega
  | incrSortSetItem key increment member =>
      by_cases hzero : increment = 0
      · obtain rfl : score = some n := by simpa [stored, hzero] using hn
        simp
      · obtain rfl : score.getD 0 + increment.toInt = n := by simpa [stored, hzero] using hn
        simp only [size]
        omega

/-- No score is larger than all values together. -/
theorem boardAfter_le {effect : ScoreCall → Option Int → Option Int}
    (heffect : ∀ c score, ∀ n ∈ effect c score, n.natAbs ≤ (score.getD 0).natAbs + c.size)
    (cs : List ScoreCall) (slot : String × String) :
    ((boardAfter effect cs slot).getD 0).natAbs ≤ (cs.map ScoreCall.size).sum := by
  induction cs using List.reverseRecOn with
  | nil => simp [boardAfter]
  | append_singleton cs c ih =>
      rw [boardAfter_concat, List.map_append, List.sum_append]
      by_cases h : slot = c.slot
      · subst h
        rw [Function.update_self]
        cases hnew : effect c (boardAfter effect cs c.slot) with
        | none => simp
        | some n =>
            have hn := heffect c _ n hnew
            simp only [Option.getD_some, List.map_cons, List.map_nil, List.sum_cons, List.sum_nil]
            omega
      · rw [Function.update_of_ne h]
        omega

/-- Values that are small all together. -/
theorem partialSumsExact_of_small {cs : List ScoreCall}
    (h : (cs.map ScoreCall.size).sum < 2 ^ 53) : PartialSumsExact cs := by
  intro pre hpre slot n hn
  have hsum : (pre.map ScoreCall.size).sum ≤ (cs.map ScoreCall.size).sum := by
    obtain ⟨rest, rfl⟩ := hpre
    simp
  unfold IsExact
  rcases hn with hn | hn
  · have hle := boardAfter_le ScoreCall.stored_le pre slot
    rw [Option.mem_def.mp hn, Option.getD_some] at hle
    omega
  · have hle := boardAfter_le ScoreCall.intended_le pre slot
    unfold reference at hn
    rw [Option.mem_def.mp hn, Option.getD_some] at hle
    omega

/-! ## 3. The simulation -/

section Boards

variable {S : Type} [IntCast S]

/-- The sorted sets of the store show the board. -/
def Shows (board : Board) (s : Store S) : Prop :=
  ∀ key, ∃ scores, zsetOf (s.find key) = .ok (scores, none) ∧
    ∀ member, scores.lookup member = (board (key, member)).map Int.cast

theorem shows_empty : Shows (S := S) (fun _ => none) Store.empty :=
  fun _ => ⟨[], rfl, fun _ => rfl⟩

/-- One score is written. -/
theorem Shows.put {board : Board} {s : Store S} (h : Shows board s) {key : String}
    {scores : List (String × S)} (hkey : zsetOf (s.find key) = .ok (scores, none))
    (member : String) (n : Int) :
    Shows (Function.update board (key, member) (some n))
      (s.put key (some ⟨.zset (setField member (n : S) scores), none⟩)) := by
  intro k
  by_cases hk : k = key
  · subst hk
    obtain ⟨scores', hkey', hscores⟩ := h k
    obtain rfl : scores = scores' := by
      rw [hkey] at hkey'
      simpa using hkey'
    refine ⟨setField member (n : S) scores, by simp [zsetOf, Option.filter, Entry.live], ?_⟩
    intro m
    rw [lookup_setField]
    by_cases hm : m = member
    · simp [hm]
    · simp [hm, hscores]
  · obtain ⟨scores', hkey', hscores⟩ := h k
    refine ⟨scores', by rw [s.find_put_ne hk, hkey'], ?_⟩
    intro m
    simp [hk, hscores]

end Boards

/-! The two commands on a key that holds a sorted set, or nothing. -/

theorem updateSortSetItem_put {S : Type} {s : Store S} {key : String} {scores : List (String × S)}
    (hkey : zsetOf (s.find key) = .ok (scores, none)) (score : S) (member : String) :
    ((RedisUtil.updateSortSetItem key score member).onStore .served s).1 =
      s.put key (some ⟨.zset (setField member score scores), none⟩) := by
  unfold RedisUtil.updateSortSetItem RedisUtil.ignoringReply
  rw [RedisUtil.sending_served]
  simp only [zadd, onKey, hkey]
  rfl

theorem incrSortSetItem_put {S : Type} [Add S] {s : Store S} {key : String}
    {scores : List (String × S)} (hkey : zsetOf (s.find key) = .ok (scores, none)) (increment : S)
    (member : String) :
    ((RedisUtil.incrSortSetItem key increment member).onStore .served s).1 =
      s.put key (some ⟨.zset (setField member
        (match scores.lookup member with
          | none => increment
          | some old => old + increment) scores), none⟩) := by
  unfold RedisUtil.incrSortSetItem RedisUtil.ignoringReply
  rw [RedisUtil.sending_served]
  simp only [zincrby, onKey, hkey]
  rfl

theorem queryScore_answer {S : Type} [Add S] [LE S] [DecidableLE S] {s : Store S} {key : String}
    {scores : List (String × S)} (hkey : zsetOf (s.find key) = .ok (scores, none))
    (member : String) :
    ((RedisService.queryScore key member).run s).2 = scores.lookup member := by
  show ((RedisUtil.queryScore key member).onStore .served s).2 = scores.lookup member
  unfold RedisUtil.queryScore RedisUtil.answering
  rw [RedisUtil.sending_served]
  simp only [zscore, onKey, hkey]
  rfl

/-- An increment by zero returns early. -/
theorem program_incr {S : Type} [IntCast S] (key : String) (increment : Int32) (member : String) :
    ((ScoreCall.incrSortSetItem key increment member).toServiceCall.program : RedisM S Unit) =
      if increment = 0 then .ret ()
      else .submit (.incrSortSetItem key (increment.toInt : S) member) (.ret ()) := rfl

section Calls

variable {S : Type} [IntCast S] [Add S]

/-- An increment, with a sum that is exact. -/
theorem Shows.incr (hexact : ExactIntegers S) {board : Board} {s : Store S} (h : Shows board s)
    (key : String) (value : Int32) (member : String)
    (hold : ∀ n ∈ board (key, member), IsExact n)
    (hnew : IsExact ((board (key, member)).getD 0 + value.toInt)) :
    Shows (Function.update board (key, member)
        (some ((board (key, member)).getD 0 + value.toInt)))
      ((RedisUtil.incrSortSetItem key (value.toInt : S) member).onStore .served s).1 := by
  obtain ⟨scores, hkey, hscores⟩ := h key
  rw [incrSortSetItem_put hkey, hscores member]
  cases hboard : board (key, member) with
  | none =>
      have hput := h.put hkey member value.toInt
      simpa [hboard] using hput
  | some old =>
      have hput := h.put hkey member (old + value.toInt)
      rw [hboard] at hold hnew
      have hsum : (old : S) + (value.toInt : S) = ((old + value.toInt : Int) : S) :=
        hexact.add old value.toInt (hold old rfl) (isExact_toInt value) hnew
      simpa [hboard, hsum] using hput

variable [LE S] [DecidableLE S]

/-- The store after a call, its task run on the spot. -/
def ScoreCall.serve (c : ScoreCall) (s : Store S) : Store S :=
  (c.toServiceCall.program.run s).1

/-- **One call.** The sorted sets go on showing the board. -/
theorem Shows.step (hexact : ExactIntegers S) {board : Board} {s : Store S} (h : Shows board s)
    (c : ScoreCall) (hold : ∀ n ∈ board c.slot, IsExact n)
    (hnew : ∀ n ∈ c.stored (board c.slot), IsExact n) :
    Shows (Function.update board c.slot (c.stored (board c.slot))) (c.serve s) := by
  cases c with
  | setSortSetItem key value member => exact h.incr hexact key value member hold (hnew _ rfl)
  | updateSortSetItem key value member =>
      obtain ⟨scores, hkey, -⟩ := h key
      have hput := h.put hkey member value.toInt
      rw [← updateSortSetItem_put hkey] at hput
      exact hput
  | incrSortSetItem key increment member =>
      unfold ScoreCall.serve
      rw [program_incr]
      by_cases hzero : increment = 0
      · have hstored : (ScoreCall.incrSortSetItem key increment member).stored
            (board (key, member)) = board (key, member) := if_pos hzero
        rw [if_pos hzero]
        show Shows (Function.update board (key, member) (ScoreCall.stored _ (board (key, member)))) s
        rwa [hstored, Function.update_eq_self]
      · have hstored : (ScoreCall.incrSortSetItem key increment member).stored
            (board (key, member)) = some ((board (key, member)).getD 0 + increment.toInt) :=
          if_neg hzero
        rw [if_neg hzero]
        show Shows (Function.update board (key, member) (ScoreCall.stored _ (board (key, member))))
          ((RedisUtil.incrSortSetItem key (increment.toInt : S) member).onStore .served s).1
        rw [hstored]
        exact h.incr hexact key increment member hold (hnew _ hstored)

theorem callsOf_run_cons (c : ScoreCall) (cs : List ServiceCall) (s : Store S) :
    (callsOf (c.toServiceCall :: cs)).run s = (callsOf cs).run (c.serve s) := by
  cases c with
  | setSortSetItem key value member => rfl
  | updateSortSetItem key value member => rfl
  | incrSortSetItem key increment member =>
      have hcalls : (callsOf ((ScoreCall.incrSortSetItem key increment member).toServiceCall :: cs) :
          RedisM S Unit) = (ScoreCall.incrSortSetItem key increment member).toServiceCall.program.bind
            fun _ => callsOf cs := rfl
      unfold ScoreCall.serve
      rw [hcalls, program_incr]
      by_cases hzero : increment = 0
      · rw [if_pos hzero]
        rfl
      · rw [if_neg hzero]
        rfl

/-- **All calls.** After any calls the sorted sets show the board. -/
theorem shows_after (hexact : ExactIntegers S) {cs : List ScoreCall} (h : PartialSumsExact cs) :
    Shows (boardAfter ScoreCall.stored cs)
      ((callsOf (cs.map ScoreCall.toServiceCall)).run (Store.empty : Store S)).1 := by
  have hrest : ∀ (rest pre : List ScoreCall) (s : Store S), pre ++ rest = cs →
      Shows (boardAfter ScoreCall.stored pre) s →
      Shows (boardAfter ScoreCall.stored cs)
        ((callsOf (rest.map ScoreCall.toServiceCall)).run s).1 := by
    intro rest
    induction rest with
    | nil =>
        intro pre s heq hs
        rw [← heq, List.append_nil]
        exact hs
    | cons c rest ih =>
        intro pre s heq hs
        rw [List.map_cons, callsOf_run_cons]
        have hpre : pre <+: cs := ⟨c :: rest, heq⟩
        have hnext : pre ++ [c] <+: cs := ⟨rest, by simpa using heq⟩
        refine ih (pre ++ [c]) _ (by simpa using heq) ?_
        rw [boardAfter_concat]
        refine hs.step hexact c (fun n hn => h pre hpre c.slot n (.inl hn)) ?_
        intro n hn
        refine h (pre ++ [c]) hnext c.slot n (.inl ?_)
        rw [boardAfter_concat, Function.update_self]
        exact hn
  exact hrest cs [] Store.empty rfl shows_empty

end Calls

/-! ## 4. The two folds -/

/-- The sum of the values of the calls, latest first, back to the last update. -/
def total : List ScoreCall → Int
  | [] => 0
  | .updateSortSetItem _ value _ :: _ => value.toInt
  | .setSortSetItem _ value _ :: earlier => value.toInt + total earlier
  | .incrSortSetItem _ increment _ :: earlier => increment.toInt + total earlier

/-- The latest set, unless an update follows it, comes after calls that cancel
out. -/
def LastSetCancels : List ScoreCall → Prop
  | [] => True
  | .updateSortSetItem .. :: _ => True
  | .setSortSetItem .. :: earlier => total earlier = 0
  | .incrSortSetItem .. :: earlier => LastSetCancels earlier

/-- An increment by zero. -/
def ScoreCall.idle : ScoreCall → Bool
  | .incrSortSetItem _ increment _ => increment = 0
  | _ => false

/-- The calls leave the slot with the score they are meant to. -/
def FaithfulAt (cs : List ScoreCall) (slot : String × String) : Prop :=
  LastSetCancels (callsAt slot cs) ∧
    (callsAt slot cs = [] ∨ ∃ c ∈ callsAt slot cs, c.idle = false)

theorem stored_getD (cs : List ScoreCall) :
    (cs.foldr ScoreCall.stored none).getD 0 = total cs := by
  induction cs with
  | nil => rfl
  | cons c cs ih =>
      cases c with
      | setSortSetItem key value member => simp [ScoreCall.stored, total, ih, Int.add_comm]
      | updateSortSetItem key value member => rfl
      | incrSortSetItem key increment member =>
          by_cases hzero : increment = 0
          · simp [ScoreCall.stored, total, hzero, ih]
          · simp [ScoreCall.stored, total, hzero, ih, Int.add_comm]

theorem stored_isSome (cs : List ScoreCall) :
    (cs.foldr ScoreCall.stored none).isSome = true ↔ ∃ c ∈ cs, c.idle = false := by
  induction cs with
  | nil => simp
  | cons c cs ih =>
      cases c with
      | setSortSetItem key value member => simp [ScoreCall.stored, ScoreCall.idle]
      | updateSortSetItem key value member => simp [ScoreCall.stored, ScoreCall.idle]
      | incrSortSetItem key increment member =>
          by_cases hzero : increment = 0
          · simpa [ScoreCall.stored, ScoreCall.idle, hzero] using ih
          · simp [ScoreCall.stored, ScoreCall.idle, hzero]

theorem intended_isSome (cs : List ScoreCall) :
    (cs.foldr ScoreCall.intended none).isSome = true ↔ cs ≠ [] := by
  cases cs with
  | nil => simp
  | cons c cs => cases c <;> simp [ScoreCall.intended]

/-- As numbers, an absent score being 0, the folds differ by the latest set. -/
theorem getD_eq_iff (cs : List ScoreCall) :
    (cs.foldr ScoreCall.stored none).getD 0 = (cs.foldr ScoreCall.intended none).getD 0 ↔
      LastSetCancels cs := by
  induction cs with
  | nil => simp [LastSetCancels]
  | cons c cs ih =>
      cases c with
      | setSortSetItem key value member =>
          simp only [List.foldr_cons, ScoreCall.stored, ScoreCall.intended, LastSetCancels,
            Option.getD_some, stored_getD]
          omega
      | updateSortSetItem key value member =>
          simp [ScoreCall.stored, ScoreCall.intended, LastSetCancels]
      | incrSortSetItem key increment member =>
          by_cases hzero : increment = 0
          · simp [ScoreCall.stored, ScoreCall.intended, LastSetCancels, hzero, ih]
          · simp [ScoreCall.stored, ScoreCall.intended, LastSetCancels, hzero, ih]

/-- Where the store's board is the reference. -/
theorem stored_eq_reference_iff (cs : List ScoreCall) (slot : String × String) :
    boardAfter ScoreCall.stored cs slot = reference cs slot ↔ FaithfulAt cs slot := by
  have hoption : ∀ a b : Option Int,
      a = b ↔ a.getD 0 = b.getD 0 ∧ (a.isSome = true ↔ b.isSome = true) := by
    intro a b
    cases a <;> cases b <;> simp
  unfold reference FaithfulAt
  rw [boardAfter_eq_foldr, boardAfter_eq_foldr, hoption, getD_eq_iff, stored_isSome,
    intended_isSome]
  generalize callsAt slot cs = calls
  cases calls with
  | nil => simp
  | cons c calls => simp

/-! ## 5. The leaderboard -/

/-- **The leaderboard against its reference.** One thread makes any score
calls, and the worker has run them all. Then `queryScore` answers the
reference for every key and member exactly when the calls are faithful at
each of them. -/
theorem queryScore_reference_iff {S : Type} [IntCast S] [Add S] [LE S] [DecidableLE S]
    (hexact : ExactIntegers S) (cs : List ScoreCall) (hsums : PartialSumsExact cs)
    (run : List Turn) (s : ServiceState S)
    (hexec : (serviceThreads (callsOf (cs.map ScoreCall.toServiceCall)) Store.empty).exec
      (serviceThreads (callsOf (cs.map ScoreCall.toServiceCall)) Store.empty).init run = some s)
    (hdrained : s.Drained) :
    (∀ key member, ((RedisService.queryScore key member).run s.redis).2 =
        (reference cs (key, member)).map Int.cast) ↔
      ∀ key member, FaithfulAt cs (key, member) := by
  have hapart : ∀ c ∈ cs.map ScoreCall.toServiceCall, ∀ d ∈ cs.map ScoreCall.toServiceCall,
      c.queued = true → d.queued = false → c.key ≠ d.key := by
    intro c _ d hd _ hdirect
    obtain ⟨d, -, rfl⟩ := List.mem_map.mp hd
    cases d <;> cases hdirect
  have hsame := inProgramOrder_of_apart hapart Store.empty run s hexec hdrained
  refine forall₂_congr ?_
  intro key member
  obtain ⟨scores, hkey, hscores⟩ := shows_after hexact hsums key
  rw [← hsame.2 key] at hkey
  rw [queryScore_answer hkey, hscores, ← stored_eq_reference_iff]
  constructor
  · intro h
    have hboth := fun slot n => hsums cs (List.prefix_refl cs) slot n
    cases hstored : boardAfter ScoreCall.stored cs (key, member) with
    | none =>
        rw [hstored] at h
        cases href : reference cs (key, member) with
        | none => rfl
        | some n => simp [href] at h
    | some m =>
        rw [hstored] at h
        cases href : reference cs (key, member) with
        | none => simp [href] at h
        | some n =>
            have hcast : (m : S) = (n : S) := by simpa [href] using h
            rw [hexact.injective m n (hboth _ m (.inl hstored)) (hboth _ n (.inr href)) hcast]
  · intro h
    rw [h]

/-- A first set and an increment. -/
def firstScores : List ScoreCall :=
  [.setSortSetItem "board" 5 "ann", .incrSortSetItem "board" 2 "ann"]

theorem firstScores_reference : ∃ s,
    (serviceThreads (callsOf (firstScores.map ScoreCall.toServiceCall))
      (Store.empty : Store Int)).exec (serviceThreads (callsOf
        (firstScores.map ScoreCall.toServiceCall)) Store.empty).init
        [.caller, .caller, .take, .runTask, .take, .runTask] = some s ∧
      ∀ key member, ((RedisService.queryScore key member).run s.redis).2 =
        (reference firstScores (key, member)).map Int.cast := by
  have hsums : PartialSumsExact firstScores := partialSumsExact_of_small (by decide)
  refine ⟨_, rfl, (queryScore_reference_iff exactIntegers_int firstScores hsums
    [.caller, .caller, .take, .runTask, .take, .runTask] _ rfl ⟨rfl, rfl⟩).mpr ?_⟩
  intro key member
  unfold FaithfulAt callsAt
  by_cases h : ("board", "ann") = (key, member)
  · simp [firstScores, ScoreCall.slot, ← h, LastSetCancels, total, ScoreCall.idle]
  · simp [firstScores, ScoreCall.slot, h, LastSetCancels]

/-- The score of "ann" after the calls, against the reference. -/
def Differs (cs : List ScoreCall) (run : List Turn) : Prop :=
  ∃ s, (serviceThreads (callsOf (cs.map ScoreCall.toServiceCall)) (Store.empty : Store Int)).exec
      (serviceThreads (callsOf (cs.map ScoreCall.toServiceCall)) Store.empty).init run = some s ∧
    s.Drained ∧ ((RedisService.queryScore "board" "ann").run s.redis).2 ≠
      reference cs ("board", "ann")

/-- The second set adds, and an increment by zero enters nobody. -/
theorem scores_differ :
    Differs [.setSortSetItem "board" 5 "ann", .setSortSetItem "board" 7 "ann"]
        [.caller, .caller, .take, .runTask, .take, .runTask] ∧
      Differs [.incrSortSetItem "board" 0 "ann"] [] := by
  refine ⟨⟨_, rfl, ⟨rfl, rfl⟩, ?_⟩, ⟨_, rfl, ⟨rfl, rfl⟩, ?_⟩⟩
  · decide
  · decide

end SpringDome.Redis
