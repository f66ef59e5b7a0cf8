/-
SpringDome.Redis.Ranks — the leaderboard as it is shown: ranks, ranges and
pages.

§1 is an invariant of the store under all operations: a hash and a sorted set
have every name once. §2 orders a board by score, §3 finds that order in the
sorted set behind it. `leaderboard_ranking` then says what `rank`,
`rangeWithScores` and pages of it answer once the worker has run every call.

How the proofs go. The server sorts its entries by score and then by name, from
the back. A board is a function, and its ranking the list of its entries in the
order `Ahead`. Both are the same list: they have the same entries, since the
store shows the board and has every name once (`Shows.entries`), and both are
sorted by an order that leaves no choice among different names
(`pairwise_byRank`, `Ranking.unique`). So the answers of the server are places
in the ranking, and pages are ranges of them (`between_page`).

Why `ExactOrder` is there. A score is a floating-point number, and the order of
the board is that of integers. Integers up to 2^53 are kept as they are, beyond
that some fall together; `ExactOrder` says of the former that they are ordered
as scores in the way they are ordered as integers.
-/
import SpringDome.Redis.Scores
import SpringDome.Lib.SqlSelect
import Mathlib.Data.String.Basic

namespace SpringDome.Redis

open SpringDome.Lib
open SpringDome.Lib.RedisStore

/-! ## 1. Names -/

section Names

variable {S : Type}

theorem bind_eq_ok {α β : Type} {x : Except Failure α} {f : α → Except Failure β} {b : β}
    (h : x >>= f = .ok b) : ∃ a, x = .ok a ∧ f a = .ok b := by
  cases x with
  | error err => cases h
  | ok a => exact ⟨a, rfl, h⟩

theorem hashOf_named {e : Option (Entry S)} {fields : List (String × String)} {d : Option Nat}
    (he : Named e) (h : hashOf e = .ok (fields, d)) : (fields.map Prod.fst).Nodup := by
  cases e with
  | none =>
      cases h
      exact List.nodup_nil
  | some x =>
      obtain ⟨value, deadline⟩ := x
      cases value with
      | hash fields' =>
          cases h
          exact he _ rfl
      | str _ | list _ | set _ | zset _ => cases h

theorem zsetOf_named {e : Option (Entry S)} {scores : List (String × S)} {d : Option Nat}
    (he : Named e) (h : zsetOf e = .ok (scores, d)) : (scores.map Prod.fst).Nodup := by
  cases e with
  | none =>
      cases h
      exact List.nodup_nil
  | some x =>
      obtain ⟨value, deadline⟩ := x
      cases value with
      | zset scores' =>
          cases h
          exact he _ rfl
      | str _ | hash _ | list _ | set _ => cases h

theorem named_some {value : Value S} {d : Option Nat} (h : value.names.Nodup) :
    Named (some ⟨value, d⟩) := by
  intro x hx
  cases hx
  exact h

theorem lookup_of_mem {β : Type} {fields : List (String × β)} (h : (fields.map Prod.fst).Nodup)
    {p : String × β} (hp : p ∈ fields) : fields.lookup p.1 = some p.2 := by
  induction fields with
  | nil => cases hp
  | cons q fields ih =>
      obtain ⟨hq, hrest⟩ := List.nodup_cons.mp h
      rw [lookup_pair]
      rcases List.mem_cons.mp hp with rfl | hp
      · rw [if_pos rfl]
      · have hne : p.1 ≠ q.1 := fun heq => hq (heq ▸ List.mem_map_of_mem hp)
        rw [if_neg hne]
        exact ih hrest hp

/-- An operation on one key, whatever becomes of it. -/
theorem sending_named {ρ τ : Type} {key : String} {f : KeyEffect S ρ} (hf : f.KeepsNames)
    (convert : ρ → Except Failure τ) (fallback : τ) (fate : Fate) {s : Store S} (hs : s.Named) :
    ((RedisUtil.sending (onKey key f) convert fallback).onStore fate s).1.Named := by
  cases hcommand : onKey key f s with
  | error err =>
      cases fate <;> simpa [UtilOp.onStore, RedisUtil.sending, hcommand, Except.map] using hs
  | ok out =>
      obtain ⟨s', r⟩ := out
      have hs' := onKey_named hf hs hcommand
      cases fate with
      | noConnection => exact hs
      | refused => exact hs
      | served =>
          rw [RedisUtil.sending_served, hcommand]
          exact hs'
      | dropped executed connected =>
          cases executed <;>
            simpa [UtilOp.onStore, RedisUtil.sending, hcommand, Except.map]

variable [Add S] [LE S] [DecidableLE S]

/-- **Every operation keeps names apart**, served or not. -/
theorem Operation.onStore_named (op : Operation S) (fate : Fate) {s : Store S} (hs : s.Named) :
    (op.util.onStore fate s).1.Named := by
  cases op with
  | incrSortSetItem | updateSortSetItem =>
      refine sending_named ?_ _ _ fate hs
      intro now e e' r he h
      obtain ⟨out, hzset, hok⟩ := bind_eq_ok h
      cases hok
      exact named_some (nodup_setField _ _ (zsetOf_named he hzset))
  | rangeWithScores | rank | queryScore | hget | hgetAll =>
      refine sending_named ?_ _ _ fate hs
      intro now e e' r he h
      obtain ⟨out, -, hok⟩ := bind_eq_ok h
      cases hok
      exact he
  | hmSet key map =>
      refine sending_named ?_ _ _ fate hs
      intro now e e' r he h
      obtain ⟨out, hhash, hok⟩ := bind_eq_ok h
      dsimp only at hok
      split at hok
      · cases hok
      · cases hok
        exact named_some (nodup_overwrite map (hashOf_named he hhash))
  | hSet key field value =>
      refine sending_named ?_ _ _ fate hs
      intro now e e' r he h
      obtain ⟨out, hhash, hok⟩ := bind_eq_ok h
      cases hok
      exact named_some (nodup_setField _ _ (hashOf_named he hhash))
  | hincrby key field value =>
      refine sending_named ?_ _ _ fate hs
      intro now e e' r he h
      obtain ⟨out, hhash, hok⟩ := bind_eq_ok h
      dsimp only at hok
      split at hok
      · cases hok
      · split at hok
        · cases hok
          exact named_some (nodup_setField _ _ (hashOf_named he hhash))
        · cases hok
  | keys glob pattern =>
      -- no command on one key, but it leaves the store alone
      cases fate with
      | dropped executed connected => cases executed <;> exact hs
      | noConnection | served | refused => exact hs
  | delete key =>
      refine sending_named ?_ _ _ fate hs
      intro now e e' r he h
      cases h
      exact fun x hx => nomatch hx
  | setexText | setexLong =>
      refine sending_named ?_ _ _ fate hs
      intro now e e' r he h
      dsimp only at h
      split at h
      · cases h
        exact named_some List.nodup_nil
      · cases h
  | getValue key =>
      refine sending_named ?_ _ _ fate hs
      intro now e e' r he h
      dsimp only at h
      split at h <;> cases h <;> exact he
  | exists_ key =>
      refine sending_named ?_ _ _ fate hs
      intro now e e' r he h
      cases h
      exact he
  | getTtl key =>
      refine sending_named ?_ _ _ fate hs
      intro now e e' r he h
      dsimp only at h
      split at h
      · cases h
        exact he
      · split at h <;> cases h <;> exact he
  | persist key =>
      refine sending_named ?_ _ _ fate hs
      intro now e e' r he h
      dsimp only at h
      split at h
      · cases h
        exact he
      · cases h
        exact named_some (he _ rfl)
  | expire key seconds =>
      refine sending_named ?_ _ _ fate hs
      intro now e e' r he h
      dsimp only at h
      split at h
      · cases h
        exact he
      · split at h
        · cases h
          exact named_some (he _ rfl)
        · cases h
          exact fun x hx => nomatch hx

/-- So does every program, under any fates. -/
theorem RedisM.runWith_named {α : Type} (p : RedisM S α) {fates : Nat → Fate} {s : Store S}
    (hs : s.Named) : (p.runWith fates s).1.Named := by
  induction p generalizing fates s with
  | ret a => exact hs
  | call op k ih => exact ih _ (op.onStore_named (fates 0) hs)
  | submit task rest ih => exact ih (task.onStore_named (fates 0) hs)

end Names

/-! ## 2. A board in order -/

/-- A higher score, or the same and a later name. -/
def Ahead (a b : String × Int) : Prop := b.2 < a.2 ∨ a.2 = b.2 ∧ b.1 < a.1

/-- Everybody on the board of a key, the best first. -/
structure Ranking (board : Board) (key : String) (ranking : List (String × Int)) : Prop where
  listed : ∀ member score, (member, score) ∈ ranking ↔ board (key, member) = some score
  ordered : ranking.Pairwise Ahead

theorem Ahead.asymm {a b : String × Int} (h : Ahead a b) : ¬ Ahead b a := by
  rintro (hscore | ⟨hscore, hname⟩)
  · rcases h with h | ⟨h, -⟩ <;> omega
  · rcases h with h | ⟨-, h⟩
    · omega
    · exact lt_asymm h hname

/-- A board has one ranking for a key. -/
theorem Ranking.unique {board : Board} {key : String} {ranking ranking' : List (String × Int)}
    (h : Ranking board key ranking) (h' : Ranking board key ranking') : ranking = ranking' := by
  have hnodup : ∀ {l : List (String × Int)}, l.Pairwise Ahead → l.Nodup := by
    intro l hl
    refine hl.imp ?_
    rintro a b hab rfl
    exact hab.asymm hab
  refine List.Perm.eq_of_pairwise ?_ h.ordered h'.ordered ?_
  · exact fun a b _ _ hab hba => absurd hba hab.asymm
  rw [List.perm_ext_iff_of_nodup (hnodup h.ordered) (hnodup h'.ordered)]
  intro p
  rw [h.listed, h'.listed]

/-! ## 3. The order of a sorted set -/

section Order

variable {S : Type} [LE S] [DecidableLE S]

/-- The comparison behind `byRank`. -/
def rankLe (a b : String × S) : Bool :=
  if a.2 ≤ b.2 ∧ b.2 ≤ a.2 then b.1 ≤ a.1 else b.2 ≤ a.2

theorem byRank_eq (scores : List (String × S)) : byRank scores = scores.mergeSort rankLe := rfl

theorem rankLe_iff {a b : String × Int} :
    rankLe a b = true ↔ b.2 < a.2 ∨ a.2 = b.2 ∧ b.1 ≤ a.1 := by
  unfold rankLe
  by_cases hsame : a.2 ≤ b.2 ∧ b.2 ≤ a.2
  · rw [if_pos hsame, decide_eq_true_iff]
    constructor
    · intro hname
      exact .inr ⟨le_antisymm hsame.1 hsame.2, hname⟩
    · rintro (hless | ⟨-, hname⟩)
      · omega
      · exact hname
  · rw [if_neg hsame, decide_eq_true_iff]
    constructor
    · intro hle
      exact .inl (by omega)
    · rintro (hless | ⟨heq, -⟩) <;> omega

/-- Members with different names are ranked by `Ahead`. -/
theorem pairwise_byRank {entries : List (String × Int)} (h : (entries.map Prod.fst).Nodup) :
    (byRank entries).Pairwise Ahead := by
  have hsorted : (byRank entries).Pairwise fun a b => rankLe a b = true := by
    refine List.pairwise_mergeSort ?_ ?_ entries
    · intro a b c hab hbc
      rw [rankLe_iff] at hab hbc ⊢
      rcases hab with hab | ⟨hab, hname⟩
      · rcases hbc with hbc | ⟨hbc, -⟩ <;> exact .inl (by omega)
      · rcases hbc with hbc | ⟨hbc, hname'⟩
        · exact .inl (by omega)
        · exact .inr ⟨hab.trans hbc, hname'.trans hname⟩
    · intro a b
      rw [Bool.or_eq_true, rankLe_iff, rankLe_iff]
      rcases lt_trichotomy a.2 b.2 with hless | heq | hless
      · exact .inr (.inl hless)
      · rcases le_total a.1 b.1 with hname | hname
        · exact .inr (.inr ⟨heq.symm, hname⟩)
        · exact .inl (.inr ⟨heq, hname⟩)
      · exact .inl (.inl hless)
  have hnames : (byRank entries).Pairwise fun a b => a.1 ≠ b.1 := by
    have hperm := (List.mergeSort_perm entries rankLe).map Prod.fst
    exact List.pairwise_map.mp (hperm.nodup_iff.mpr h)
  refine (hsorted.and hnames).imp ?_
  rintro a b ⟨hle, hne⟩
  exact (rankLe_iff.mp hle).imp_right fun hsame => ⟨hsame.1, lt_of_le_of_ne hsame.2 hne.symm⟩

/-- The scores keep the order of integers that they keep exactly. -/
def ExactOrder (S : Type) [IntCast S] [LE S] : Prop :=
  ∀ a b : Int, IsExact a → IsExact b → ((a : S) ≤ (b : S) ↔ a ≤ b)

variable [IntCast S]

/-- An entry as the server keeps it. -/
def keptEntry (p : String × Int) : String × S := (p.1, (p.2 : S))

theorem byRank_keptEntry (horder : ExactOrder S) {entries : List (String × Int)}
    (hexact : ∀ p ∈ entries, IsExact p.2) :
    byRank (entries.map (keptEntry (S := S))) = (byRank entries).map keptEntry := by
  rw [byRank_eq, byRank_eq]
  refine (List.map_mergeSort ?_).symm
  intro a ha b hb
  have hab := horder a.2 b.2 (hexact a ha) (hexact b hb)
  have hba := horder b.2 a.2 (hexact b hb) (hexact a ha)
  exact if_congr (and_congr hab.symm hba.symm) rfl (decide_eq_decide.mpr hba.symm)

omit [LE S] [DecidableLE S] in
/-- The sorted set behind a board that it shows. -/
theorem Shows.entries {board : Board} {s : Store S} (h : Shows board s) (hnamed : s.Named)
    (key : String) : ∃ entries : List (String × Int),
      zsetOf (s.find key) = .ok (entries.map keptEntry, none) ∧
      (entries.map Prod.fst).Nodup ∧
      ∀ member score, (member, score) ∈ entries ↔ board (key, member) = some score := by
  obtain ⟨scores, hkey, hlookup⟩ := h key
  have hnames := zsetOf_named (hnamed key) hkey
  have hboard : ∀ p ∈ scores, (board (key, p.1)).map Int.cast = some p.2 := fun p hp =>
    (hlookup p.1).symm.trans (lookup_of_mem hnames hp)
  have hkept : (scores.map fun p => (p.1, (board (key, p.1)).getD 0)).map keptEntry = scores := by
    rw [List.map_map]
    refine (List.map_congr_left fun p hp => ?_).trans (List.map_id scores)
    obtain ⟨n, hn, hscore⟩ := Option.map_eq_some_iff.mp (hboard p hp)
    show (p.1, (((board (key, p.1)).getD 0 : Int) : S)) = p
    rw [hn, Option.getD_some, hscore]
  refine ⟨scores.map fun p => (p.1, (board (key, p.1)).getD 0), ?_, ?_, ?_⟩
  · rw [hkept, hkey]
  · rw [List.map_map]
    exact hnames
  · intro member score
    rw [List.mem_map]
    constructor
    · rintro ⟨p, hp, heq⟩
      obtain ⟨n, hn, -⟩ := Option.map_eq_some_iff.mp (hboard p hp)
      rw [hn] at heq
      cases heq
      exact hn
    · intro hscore
      have hmember := hlookup member
      rw [hscore, Option.map_some] at hmember
      obtain ⟨front, back, hscores, -⟩ := List.lookup_eq_some_iff.mp hmember
      refine ⟨(member, (score : S)), ?_, ?_⟩
      · rw [hscores]
        exact List.mem_append_right _ List.mem_cons_self
      · rw [hscore, Option.getD_some]

end Order

/-! ## 4. What is shown -/

/-- From one place to another, both included; a negative place counts from the
end. -/
def between (ranking : List (String × Int)) (start stop : Int) : List (String × Int) :=
  (ranking.take (rangeIndex ranking.length stop + 1).toNat).drop
    (rangeIndex ranking.length start).toNat

section Answers

variable {S : Type} [Add S] [LE S] [DecidableLE S] {s : Store S} {key : String}
  {scores : List (String × S)}

theorem rank_answer (hkey : zsetOf (s.find key) = .ok (scores, none)) (member : String) :
    ((RedisService.rank key member).run s).2 =
      ((byRank scores).findIdx? fun p => p.1 = member).map Int.ofNat := by
  show ((RedisUtil.rank key member).onStore .served s).2 = _
  unfold RedisUtil.rank RedisUtil.answering
  rw [RedisUtil.sending_served]
  simp only [zrevrank, onKey, hkey]
  rfl

theorem rangeWithScores_answer (hkey : zsetOf (s.find key) = .ok (scores, none))
    (start stop : Int32) :
    ((RedisService.rangeWithScores key start stop).run s).2 =
      some (((byRank scores).take (rangeIndex scores.length stop.toInt + 1).toNat).drop
        (rangeIndex scores.length start.toInt).toNat) := by
  show ((RedisUtil.rangeWithScores key start stop).onStore .served s).2 = _
  unfold RedisUtil.rangeWithScores
  rw [RedisUtil.sending_served]
  simp only [zrevrangeWithScores, onKey, hkey]
  rfl

/-- A store that shows a board of exact scores answers from its ranking. -/
theorem Shows.ranking [IntCast S] (horder : ExactOrder S) {board : Board} (h : Shows board s)
    (hnamed : s.Named) (hexact : ∀ slot, ∀ n ∈ board slot, IsExact n) (key : String) :
    ∃ ranking, Ranking board key ranking ∧
      (∀ start stop, ((RedisService.rangeWithScores key start stop).run s).2 =
        some ((between ranking start.toInt stop.toInt).map keptEntry)) ∧
      ∀ member, ((RedisService.rank key member).run s).2 =
        (ranking.findIdx? fun p => p.1 = member).map Int.ofNat := by
  obtain ⟨entries, hkey, hnames, hentries⟩ := h.entries hnamed key
  have hperm : (byRank entries).Perm entries := List.mergeSort_perm entries rankLe
  have hbyRank := byRank_keptEntry horder fun p hp =>
    hexact (key, p.1) p.2 ((hentries p.1 p.2).mp hp)
  refine ⟨byRank entries, ⟨?_, pairwise_byRank hnames⟩, ?_, ?_⟩
  · intro member score
    rw [hperm.mem_iff, hentries]
  · intro start stop
    rw [rangeWithScores_answer hkey, hbyRank, between, hperm.length_eq, List.length_map,
      List.map_drop, List.map_take]
  · intro member
    rw [rank_answer hkey, hbyRank, List.findIdx?_map]
    rfl

end Answers

section Pages

variable {S : Type} {ranking : List (String × Int)}

theorem between_page {n k : Nat} (hn : 0 < n) (hk : k * n + n ≤ 2 ^ 31) :
    between ranking (Int32.ofInt (k * n)).toInt (Int32.ofInt (k * n + n - 1)).toInt =
      (ranking.drop (k * n)).take n := by
  have hstart : (Int32.ofInt (k * n)).toInt = (k * n : Nat) := by
    rw [Int32.toInt_ofInt_of_le] <;> push_cast <;> omega
  have hstop : (Int32.ofInt (k * n + n - 1)).toInt = (k * n + n - 1 : Nat) := by
    rw [Int32.toInt_ofInt_of_le] <;> push_cast <;> omega
  have hlast : (((k * n + n - 1 : Nat) : Int) + 1).toNat = k * n + n := by omega
  rw [hstart, hstop, between, rangeIndex, rangeIndex, if_neg (by omega), if_neg (by omega), hlast,
    Int.toNat_natCast, List.drop_take, Nat.add_sub_cancel_left]

/-- The `k`-th page of `n` places. -/
def pageOf (key : String) (n k : Nat) : RedisM S (Option (List (String × S))) :=
  RedisService.rangeWithScores key (.ofInt (k * n)) (.ofInt (k * n + n - 1))

end Pages

/-- **What the leaderboard shows.** One thread makes any score calls, and the
worker has run them all. Then everybody with a score is ranked, by score and
then by name, in one way only; `rangeWithScores` answers any part of that ranking and `rank` the
place of a member in it; and pages put together miss nobody and show nobody
twice. -/
theorem leaderboard_ranking {S : Type} [IntCast S] [Add S] [LE S] [DecidableLE S]
    (hexact : ExactIntegers S) (horder : ExactOrder S) {cs : List ScoreCall}
    (hsums : PartialSumsExact cs) (run : List Turn) {s : ServiceState S}
    (hexec : (serviceThreads (callsOf (cs.map ScoreCall.toServiceCall)) Store.empty).exec
      (serviceThreads (callsOf (cs.map ScoreCall.toServiceCall)) Store.empty).init run = some s)
    (hdrained : s.Drained) (key : String) :
    ∃ ranking, Ranking (boardAfter ScoreCall.stored cs) key ranking ∧
      (∀ other, Ranking (boardAfter ScoreCall.stored cs) key other → other = ranking) ∧
      (∀ start stop, ((RedisService.rangeWithScores key start stop).run s.redis).2 =
        some ((between ranking start.toInt stop.toInt).map keptEntry)) ∧
      (∀ member, ((RedisService.rank key member).run s.redis).2 =
        (ranking.findIdx? fun p => p.1 = member).map Int.ofNat) ∧
      ∀ n m, 0 < n → m * n ≤ 2 ^ 31 →
        ((List.range m).flatMap fun k => ((pageOf key n k).run s.redis).2.getD []) =
          (ranking.take (m * n)).map keptEntry := by
  have hapart : ∀ c ∈ cs.map ScoreCall.toServiceCall, ∀ d ∈ cs.map ScoreCall.toServiceCall,
      c.queued = true → d.queued = false → c.key ≠ d.key := by
    intro c _ d hd _ hdirect
    obtain ⟨d, -, rfl⟩ := List.mem_map.mp hd
    cases d <;> cases hdirect
  have hsame := (inProgramOrder_of_apart hapart Store.empty run s hexec hdrained).2
  have hshows : Shows (boardAfter ScoreCall.stored cs) s.redis := by
    intro k
    rw [hsame k]
    exact shows_after hexact hsums k
  have hnamed : s.redis.Named := by
    intro k
    rw [hsame k]
    exact RedisM.runWith_named _ named_empty k
  obtain ⟨ranking, hranking, hrange, hrank⟩ := hshows.ranking horder hnamed
    (fun slot n hn => hsums cs (List.prefix_refl cs) slot n (.inl hn)) key
  refine ⟨ranking, hranking, fun _ hother => hother.unique hranking, hrange, hrank, ?_⟩
  intro n m hn hm
  have hpage : ∀ k ∈ List.range m, ((pageOf key n k).run s.redis).2.getD [] =
      (((ranking.map keptEntry).drop (k * n)).take n) := by
    intro k hk
    have hlt := List.mem_range.mp hk
    have hplace : k * n + n ≤ 2 ^ 31 := by
      have hle := Nat.mul_le_mul_right n hlt
      rw [Nat.succ_mul] at hle
      exact hle.trans hm
    rw [pageOf, hrange, Option.getD_some, between_page hn hplace, List.map_take, List.map_drop]
  rw [List.flatMap_congr hpage, Sql.flatten_pages, List.map_take]

theorem exactOrder_int : ExactOrder Int := fun _ _ _ _ => Iff.rfl

/-- Two of the same score, and one behind them. -/
def threeScores : List ScoreCall :=
  [.updateSortSetItem "board" 5 "ann", .setSortSetItem "board" 3 "bob",
    .incrSortSetItem "board" 5 "eve"]

def threeTurns : List Turn :=
  [.caller, .take, .runTask, .caller, .caller, .take, .runTask, .take, .runTask]

theorem leaderboard_ranking_three : ∃ s, (serviceThreads
      (callsOf (threeScores.map ScoreCall.toServiceCall)) (Store.empty : Store Int)).exec
        (serviceThreads (callsOf (threeScores.map ScoreCall.toServiceCall)) Store.empty).init
        threeTurns = some s ∧
      ∃ ranking, Ranking (boardAfter ScoreCall.stored threeScores) "board" ranking ∧
        (∀ other, Ranking (boardAfter ScoreCall.stored threeScores) "board" other →
          other = ranking) ∧
        (∀ start stop, ((RedisService.rangeWithScores "board" start stop).run s.redis).2 =
          some ((between ranking start.toInt stop.toInt).map keptEntry)) ∧
        (∀ member, ((RedisService.rank "board" member).run s.redis).2 =
          (ranking.findIdx? fun p => p.1 = member).map Int.ofNat) ∧
        ∀ n m, 0 < n → m * n ≤ 2 ^ 31 →
          ((List.range m).flatMap fun k => ((pageOf "board" n k).run s.redis).2.getD []) =
            (ranking.take (m * n)).map keptEntry :=
  ⟨_, rfl, leaderboard_ranking exactIntegers_int exactOrder_int
    (partialSumsExact_of_small (by decide)) threeTurns rfl ⟨rfl, rfl⟩ "board"⟩

end SpringDome.Redis
