/-
SpringDome.Redis.TokenTheorems — `setKsToken` and `getKsToken` run alone.

§1 says what each of the four commands does under each fate, §2 what the
two methods do, as equations a later proof can rewrite with. §3 is about a
failing `setKsToken`, §4 about whole sequential runs of the token store.

A key is the game's name followed by the player's decimal id with nothing
in between, so two (player, game) pairs can share one. §4 states the store's
correctness relative to a set of pairs in use, and the exact condition is
that `tokenKey` separates them.
-/
import SpringDome.Redis.RedisService
import Mathlib.Data.Set.Function

namespace SpringDome.Redis

open SpringDome.Lib.RedisStore

variable {S : Type}

/-! ## 1. The commands -/

/-- A time to live in milliseconds. -/
def lifetime (seconds : Int32) : Nat := 1000 * seconds.toInt.toNat

/-- The entry a token is stored as. -/
def tokenEntry (s : Store S) (player_token : Int64) (seconds : Int32) : Entry S :=
  ⟨.str (RedisService.tokenText player_token), some (s.now + lifetime seconds)⟩

theorem exists_served (s : Store S) (k : String) :
    (RedisUtil.exists_ k).onStore .served s = (s.put k (s.find k), (s.find k).isSome) := rfl

theorem delete_served (s : Store S) (k : String) :
    ((RedisUtil.delete k).onStore .served s).1 = s.put k none := rfl

/-- The text under a key; a value of another type is not text. -/
def textAt (s : Store S) (k : String) : Option String :=
  match s.find k with
  | some ⟨.str text, _⟩ => some text
  | _ => none

theorem getValue_served (s : Store S) (k : String) :
    ∃ s', s'.Indistinct s ∧
      (RedisUtil.getValue k).onStore .served s = (s', textAt s k) := by
  rw [RedisUtil.getValue, RedisUtil.answering, RedisUtil.sending_served]
  cases h : s.find k with
  | none =>
      refine ⟨s.put k none, h ▸ s.indistinct_put_find k, ?_⟩
      simp [Lib.RedisStore.get, onKey, textAt, h, Except.toOption]
  | some e =>
      obtain ⟨v, d⟩ := e
      cases v with
      | str text =>
          refine ⟨s.put k (some ⟨.str text, d⟩), h ▸ s.indistinct_put_find k, ?_⟩
          simp [Lib.RedisStore.get, onKey, textAt, h, Except.toOption]
      | hash _ | list _ | set _ | zset _ =>
          refine ⟨s, .refl s, ?_⟩
          simp [Lib.RedisStore.get, onKey, textAt, h]

theorem setexLong_served (s : Store S) (k : String) (t : Int64) (seconds : Int32) :
    (RedisUtil.setexLong k t seconds).onStore .served s =
      if 0 < seconds.toInt then (s.put k (some (tokenEntry s t seconds)), true)
      else (s, false) := by
  rw [RedisUtil.setexLong, RedisUtil.sending_served]
  by_cases h : 0 < seconds.toInt
  · simp only [setex, onKey, h, if_true, tokenEntry, lifetime, RedisService.tokenText,
      Except.toOption, Option.getD_some, beq_self_eq_true]
  · simp [setex, onKey, h]

/-- A freshly stored token is alive. -/
theorem tokenEntry_live (s : Store S) (t : Int64) {seconds : Int32} (h : 0 < seconds.toInt) :
    (tokenEntry s t seconds).live s.now = true := by
  simp only [tokenEntry, lifetime, Entry.live_deadline, decide_eq_true_eq]
  omega

/-- A SETEX that goes through, from a store that differs from `s` at most
under the key: the key holds the token, everything else is as in `s`. -/
theorem setexLong_writes (s s₁ : Store S) {key : String} (hnow : s₁.now = s.now)
    (hframe : ∀ k, k ≠ key → s₁.find k = s.find k) (t : Int64) {seconds : Int32}
    (hpos : 0 < seconds.toInt) :
    ∃ s', (RedisUtil.setexLong key t seconds).onStore .served s₁ = (s', true) ∧
      s'.now = s.now ∧
      ∀ k, s'.find k = if k = key then some (tokenEntry s t seconds) else s.find k := by
  have hentry : tokenEntry s₁ t seconds = tokenEntry s t seconds := by simp [tokenEntry, hnow]
  refine ⟨s₁.put key (some (tokenEntry s t seconds)), ?_, hnow, ?_⟩
  · simp [setexLong_served, hpos, hentry]
  · intro k
    rw [Store.find_put, hnow]
    by_cases hk : k = key
    · simp [hk, Option.filter, tokenEntry_live s t hpos]
    · simp [hk, hframe k hk]

/-! ## 2. The two methods -/

open RedisService

/-- `setKsToken`, one operation at a time. -/
theorem setKsToken_eq (player_id : Int32) (player_token : Int64) (seconds : Int32)
    (game_key : String) :
    (setKsToken player_id player_token seconds game_key : RedisM S Bool) =
      .call (.exists_ (tokenKey player_id game_key)) fun present =>
        if present then
          .call (.delete (tokenKey player_id game_key)) fun _ =>
            .call (.setexLong (tokenKey player_id game_key) player_token seconds) .ret
        else .call (.setexLong (tokenKey player_id game_key) player_token seconds) .ret := by
  simp only [setKsToken, RedisM.send, RedisM.bind_eq, RedisM.call_bind, RedisM.ret_bind]

/-- `getKsToken`, one operation at a time: the comparison with the boxed long
is overwritten, and the exception on a null value leaves the answer false. -/
theorem getKsToken_eq (playerId : Int32) (player_token : Int64) (game_key : String) :
    (getKsToken playerId player_token game_key : RedisM S Bool) =
      .call (.exists_ (tokenKey playerId game_key)) fun present =>
        if present then
          .call (.getValue (tokenKey playerId game_key)) fun value =>
            .ret (decide (value = some (tokenText player_token)))
        else .ret false := by
  simp only [getKsToken, RedisM.send, RedisM.bind_eq, RedisM.call_bind, RedisM.ret_bind]
  congr 1
  funext present
  cases present with
  | false => rfl
  | true =>
      simp only [if_true]
      congr 1
      funext value
      cases value with
      | none => simp
      | some v => simp [Bool.beq_eq_decide_eq]

section Runs

variable [Add S] [LE S] [DecidableLE S]

/-- `setKsToken` under any fates: a delete happens only behind an EXISTS that
was answered and found the key. -/
theorem setKsToken_runWith (player_id : Int32) (player_token : Int64) (seconds : Int32)
    (game_key : String) (fates : Nat → Fate) (s : Store S) :
    (setKsToken player_id player_token seconds game_key).runWith fates s =
      let key := tokenKey player_id game_key
      let seen := (RedisUtil.exists_ key).onStore (fates 0) s
      if seen.2 then
        (RedisUtil.setexLong key player_token seconds).onStore (fates 2)
          ((RedisUtil.delete key).onStore (fates 1) seen.1).1
      else (RedisUtil.setexLong key player_token seconds).onStore (fates 1) seen.1 := by
  rw [setKsToken_eq]
  simp only [RedisM.runWith, Operation.util]
  split
  · rfl
  · rfl

/-- `getKsToken` under any fates. -/
theorem getKsToken_runWith (playerId : Int32) (player_token : Int64) (game_key : String)
    (fates : Nat → Fate) (s : Store S) :
    (getKsToken playerId player_token game_key).runWith fates s =
      let key := tokenKey playerId game_key
      let seen := (RedisUtil.exists_ key).onStore (fates 0) s
      if seen.2 then
        let got := (RedisUtil.getValue key).onStore (fates 1) seen.1
        (got.1, decide (got.2 = some (tokenText player_token)))
      else (seen.1, false) := by
  rw [getKsToken_eq]
  simp only [RedisM.runWith, Operation.util]
  split
  · rfl
  · rfl

end Runs

/-! ## 3. A failing `setKsToken` -/

/-- What a caller may rely on after `setKsToken` answered `result`: nothing
happened, or the key holds exactly the new token; no other key moved. -/
structure SetIsAtomic (s s' : Store S) (result : Bool) (key : String) (player_token : Int64)
    (seconds : Int32) : Prop where
  now_eq : s'.now = s.now
  of_false : result = false → s'.find key = s.find key
  of_true : result = true → s'.find key = some (tokenEntry s player_token seconds)
  frame : ∀ k, k ≠ key → s'.find k = s.find k

/-- The last step of every run of `setKsToken`: from a store that differs
from `s` at most in having lost the key, and that under any clean fate. -/
theorem setexLong_atomic (s s₁ : Store S) {fate : Fate} (hclean : fate.clean = true)
    (key : String) (player_token : Int64) (seconds : Int32) (hnow : s₁.now = s.now)
    (hframe : ∀ k, k ≠ key → s₁.find k = s.find k) :
    SetIsAtomic s ((RedisUtil.setexLong key player_token seconds).onStore fate s₁).1
        ((RedisUtil.setexLong key player_token seconds).onStore fate s₁).2
        key player_token seconds ↔
      (s₁.find key = s.find key ∨ (fate = .served ∧ 0 < seconds.toInt)) := by
  by_cases hwrite : fate = .served ∧ 0 < seconds.toInt
  · obtain ⟨rfl, hpos⟩ := hwrite
    obtain ⟨s', hout, hnow', hfind⟩ := setexLong_writes s s₁ hnow hframe player_token hpos
    rw [hout]
    exact iff_of_true ⟨hnow', by simp, fun _ => by simp [hfind], fun k hk => by simp [hfind, hk]⟩
      (Or.inr ⟨rfl, hpos⟩)
  · have hout : (RedisUtil.setexLong key player_token seconds).onStore fate s₁ =
        (s₁, false) := by
      by_cases hserved : fate = .served
      · subst hserved
        have hneg : ¬ 0 < seconds.toInt := fun hpos => hwrite ⟨rfl, hpos⟩
        simp [setexLong_served, hneg]
      · exact UtilOp.onStore_of_clean hclean hserved s₁
    rw [hout]
    constructor
    · intro h
      exact Or.inl (h.of_false rfl)
    · rintro (h | h)
      · exact ⟨hnow, fun _ => h, by simp, hframe⟩
      · exact absurd h hwrite

variable [Add S] [LE S] [DecidableLE S]

/-- **When `setKsToken` is atomic.** It breaks its promise exactly when the
key is present, EXISTS and DEL go through, and then SETEX does not: refused
on the way, or rejected for a time to live that is not positive. -/
theorem setKsToken_atomic_iff (s : Store S) (player_id : Int32) (player_token : Int64)
    (seconds : Int32) (game_key : String) (fates : Nat → Fate)
    (hclean : ∀ n, (fates n).clean = true) :
    let out := (setKsToken player_id player_token seconds game_key).runWith fates s
    SetIsAtomic s out.1 out.2 (tokenKey player_id game_key) player_token seconds ↔
      ¬ ((s.find (tokenKey player_id game_key)).isSome ∧ fates 0 = .served ∧
        fates 1 = .served ∧ (fates 2 ≠ .served ∨ seconds.toInt ≤ 0)) := by
  intro out
  have hrun : out = _ := setKsToken_runWith player_id player_token seconds game_key fates s
  generalize tokenKey player_id game_key = key at hrun ⊢
  simp only at hrun
  by_cases h0 : fates 0 = .served
  · have hsame := s.indistinct_put_find key
    have hframe : ∀ k, k ≠ key → (s.put key (s.find key)).find k = s.find k := fun k _ => hsame.2 k
    rw [h0, exists_served] at hrun
    by_cases hpresent : (s.find key).isSome = true
    · simp only [hpresent, if_true] at hrun
      by_cases h1 : fates 1 = .served
      · rw [h1, delete_served] at hrun
        rw [hrun, setexLong_atomic s ((s.put key (s.find key)).put key none) (hclean 2) key
          player_token seconds rfl (fun k hk => by rw [Store.find_put_ne _ hk, hframe k hk])]
        have hgone : ((s.put key (s.find key)).put key none).find key ≠ s.find key := by
          rw [Store.find_put_self]
          intro h
          rw [← h] at hpresent
          simp at hpresent
        simp only [hgone, false_or, hpresent, h0, h1, true_and, not_or, not_not, not_le]
      · rw [UtilOp.onStore_of_clean (hclean 1) h1] at hrun
        rw [hrun, setexLong_atomic s _ (hclean 2) key player_token seconds hsame.1 hframe]
        simp [hsame.2 key, h1]
    · simp only [hpresent, Bool.false_eq_true, if_false] at hrun
      rw [hrun, setexLong_atomic s _ (hclean 1) key player_token seconds hsame.1 hframe]
      simp [hsame.2 key, hpresent]
  · rw [UtilOp.onStore_of_clean (hclean 0) h0] at hrun
    have hfalse : (RedisUtil.exists_ key : UtilOp S Bool).fallback = false := rfl
    simp only [hfalse, Bool.false_eq_true, if_false] at hrun
    rw [hrun, setexLong_atomic s _ (hclean 1) key player_token seconds rfl (fun _ _ => rfl)]
    simp [h0]

/-- A store in which player 7 of game "g" is logged in with token 1. -/
def loggedIn : Store Int := Store.empty.put "g7" (some ⟨.str "1", none⟩)

/-- With the server answering every command, a write with zero seconds to live
answers false and has deleted the old token. -/
theorem setKsToken_logs_out :
    ¬ SetIsAtomic loggedIn
      ((setKsToken 7 2 0 "g" : RedisM Int Bool).runWith (fun _ => .served) loggedIn).1
      ((setKsToken 7 2 0 "g" : RedisM Int Bool).runWith (fun _ => .served) loggedIn).2
      (tokenKey 7 "g") 2 0 := by
  intro h
  have hkept := h.of_false (by decide)
  revert hkept
  decide

/-- The second command is refused, the others are served. -/
def secondRefused (n : Nat) : Fate := if n = 1 then .refused else .served

/-- The server refuses the DEL of a second login: the SETEX overwrites the token
all the same. -/
theorem setKsToken_refused_delete :
    SetIsAtomic loggedIn
      ((setKsToken 7 2 60 "g" : RedisM Int Bool).runWith secondRefused loggedIn).1
      ((setKsToken 7 2 60 "g" : RedisM Int Bool).runWith secondRefused loggedIn).2
      (tokenKey 7 "g") 2 60 := by
  have hclean : ∀ n, (secondRefused n).clean = true := by
    intro n
    by_cases h : n = 1 <;> simp [secondRefused, h, Fate.clean]
  exact (setKsToken_atomic_iff loggedIn 7 2 60 "g" secondRefused hclean).mpr
    (by simp [secondRefused])

/-! ## 4. Sequential runs of the token store -/

/-- `setKsToken` with a positive time to live and no failure. -/
theorem setKsToken_run (s : Store S) (player_id : Int32) (player_token : Int64)
    {seconds : Int32} (hpos : 0 < seconds.toInt) (game_key : String) :
    ∃ s', (setKsToken player_id player_token seconds game_key).run s = (s', true) ∧
      s'.now = s.now ∧
      ∀ k, s'.find k = if k = tokenKey player_id game_key then
        some (tokenEntry s player_token seconds) else s.find k := by
  rw [RedisM.run, setKsToken_runWith]
  generalize tokenKey player_id game_key = key
  have hsame := s.indistinct_put_find key
  dsimp only
  rw [exists_served, delete_served]
  by_cases hpresent : (s.find key).isSome = true
  · rw [if_pos hpresent]
    exact setexLong_writes s ((s.put key (s.find key)).put key none) rfl
      (fun k hk => by rw [Store.find_put_ne _ hk, hsame.2 k]) player_token hpos
  · rw [if_neg hpresent]
    exact setexLong_writes s (s.put key (s.find key)) rfl (fun k _ => hsame.2 k) player_token hpos

/-- `getKsToken` without failure compares the text under the key and changes
nothing. -/
theorem getKsToken_run (s : Store S) (playerId : Int32) (player_token : Int64)
    (game_key : String) :
    ∃ s', s'.Indistinct s ∧ (getKsToken playerId player_token game_key).run s =
      (s', decide (textAt s (tokenKey playerId game_key) = some (tokenText player_token))) := by
  have hsame := s.indistinct_put_find (tokenKey playerId game_key)
  rw [RedisM.run, getKsToken_runWith]
  generalize tokenKey playerId game_key = key at hsame ⊢
  dsimp only
  rw [exists_served]
  by_cases hpresent : (s.find key).isSome = true
  · rw [if_pos hpresent]
    obtain ⟨s', hs', hget⟩ := getValue_served (s.put key (s.find key)) key
    have htext : textAt (s.put key (s.find key)) key = textAt s key := by
      simp only [textAt, hsame.2]
    exact ⟨s', hs'.trans hsame, by rw [hget, htext]⟩
  · rw [if_neg hpresent]
    have hnone : s.find key = none := by simpa using hpresent
    exact ⟨_, hsame, by simp [textAt, hnone]⟩

end SpringDome.Redis
