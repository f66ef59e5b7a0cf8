/-
SpringDome.Redis.TokenRuns — sequential runs of the token store.

A run is a list of `setKsToken` calls with a positive time to live,
`getKsToken` calls and clock advances, from an empty store, with every
command answered. `lastSet` reads off a run, without any store, what the
last `setKsToken` of one (player, game) pair wrote and how long ago.

The invariant is `Remembers`: under the key of a pair in use the store holds
what `lastSet` says, for as long as it lives. One step keeps it
(`remembers_play`) as soon as no other pair in use has the same key, and
`tokenStore_correct_iff` is the exact statement: the store answers every
`getKsToken` over a set of pairs as the run says if and only if `tokenKey`
separates the pairs of the set.
-/
import SpringDome.Redis.TokenTheorems
import Mathlib

namespace SpringDome.Redis

open SpringDome.Lib.RedisStore
open RedisService

/-! ## Runs -/

inductive TokenEvent where
  | set (player_id : Int32) (player_token : Int64) (seconds : {s : Int32 // 0 < s.toInt})
      (game_key : String)
  | get (playerId : Int32) (player_token : Int64) (game_key : String)
  | advance (ms : Nat)

/-- The (player, game) pair a call is about. -/
def TokenEvent.pair? : TokenEvent → Option (Int32 × String)
  | .set player_id _ _ game_key => some (player_id, game_key)
  | .get playerId _ game_key => some (playerId, game_key)
  | .advance _ => none

section Play

variable {S : Type} [Add S] [LE S] [DecidableLE S]

def TokenEvent.play (s : Store S) : TokenEvent → Store S
  | .set player_id player_token seconds game_key =>
      ((setKsToken player_id player_token seconds.1 game_key).run s).1
  | .get playerId player_token game_key =>
      ((getKsToken playerId player_token game_key).run s).1
  | .advance ms => s.advance ms

/-- The store after a run. -/
def replay (events : List TokenEvent) : Store S := events.foldl TokenEvent.play Store.empty

/-- What `getKsToken` answers after a run. -/
def answerAfter (S : Type) [Add S] [LE S] [DecidableLE S] (events : List TokenEvent)
    (playerId : Int32) (player_token : Int64) (game_key : String) : Bool :=
  ((getKsToken playerId player_token game_key).run (replay events : Store S)).2

end Play

/-! ## What a run says -/

/-- A `setKsToken` call seen from later on. -/
structure LastSet where
  player_token : Int64
  seconds : Int32
  elapsed : Nat

def LastSet.after (pair : Int32 × String) (last : Option LastSet) : TokenEvent → Option LastSet
  | .set player_id player_token seconds game_key =>
      if (player_id, game_key) = pair then some ⟨player_token, seconds.1, 0⟩ else last
  | .get .. => last
  | .advance ms => last.map fun l => { l with elapsed := l.elapsed + ms }

/-- The last `setKsToken` call of a run for a pair, with the milliseconds
elapsed since. -/
def lastSet (events : List TokenEvent) (pair : Int32 × String) : Option LastSet :=
  events.foldl (LastSet.after pair) none

/-- The token is the one stored last for the pair, and fewer than its seconds
have elapsed. -/
def IsCurrent (events : List TokenEvent) (playerId : Int32) (player_token : Int64)
    (game_key : String) : Prop :=
  ∃ l, lastSet events (playerId, game_key) = some l ∧ l.player_token = player_token ∧
    l.elapsed < lifetime l.seconds

/-- Every call of the run is about a pair of `P`. -/
def UsesOnly (P : Set (Int32 × String)) (events : List TokenEvent) : Prop :=
  ∀ e ∈ events, ∀ pair ∈ e.pair?, pair ∈ P

/-- The key of a pair. -/
def pairKey (pair : Int32 × String) : String := tokenKey pair.1 pair.2

/-! ## Games that keep their players apart -/

/-- The characters of a decimal player id. -/
def isIdChar (c : Char) : Bool := c.isDigit || c == '-'

theorem isIdChar_of_mem_id (n : Int) {c : Char} (h : c ∈ (toString n).toList) :
    isIdChar c = true := by
  have hnat : ∀ m : Nat, c ∈ (Nat.repr m).toList → isIdChar c = true := by
    intro m hm
    rw [Nat.toList_repr] at hm
    simp [isIdChar, Nat.isDigit_of_mem_toDigits (by decide) (by decide) hm]
  cases n with
  | ofNat m => exact hnat m h
  | negSucc m =>
      have hcs : c ∈ "-".toList ++ (Nat.repr (m + 1)).toList := by
        rw [← String.toList_append]
        exact h
      rcases List.mem_append.mp hcs with hc | hc
      · have hminus : c = '-' := by simpa using hc
        subst hminus
        decide
      · exact hnat _ hc

/-- A prefix whose last character fails `p` cannot swallow characters that
all meet it. -/
theorem eq_of_append_eq {p : Char → Bool} {g g' a b : List Char} (happ : g ++ a = g' ++ b)
    (ha : ∀ c ∈ a, p c = true) (hg' : ∀ c ∈ g'.getLast?, p c = false) (hle : g.length ≤ g'.length) :
    g = g' ∧ a = b := by
  obtain ⟨c, hc, hac⟩ | ⟨c, hc, hbc⟩ := List.append_eq_append_iff.mp happ
  · cases hlast : c.getLast? with
    | none =>
        rw [List.getLast?_eq_none_iff.mp hlast] at hc hac
        simp only [List.append_nil, List.nil_append] at hc hac
        exact ⟨hc.symm, hac⟩
    | some d =>
        have hd : d ∈ a := hac ▸ List.mem_append_left _ (List.mem_of_getLast? hlast)
        have hbad := hg' d (by rw [hc, List.getLast?_append, hlast]; rfl)
        rw [ha d hd] at hbad
        cases hbad
  · have hnil : c = [] := by
      have hlen := congrArg List.length hc
      rw [List.length_append] at hlen
      exact List.eq_nil_of_length_eq_zero (by omega)
    subst hnil
    simp only [List.append_nil, List.nil_append] at hc hbc
    exact ⟨hc, hbc.symm⟩

/-- No game of the set ends in a digit or a minus sign. -/
def PlainGames (P : Set (Int32 × String)) : Prop :=
  ∀ pair ∈ P, ∀ c ∈ pair.2.toList.getLast?, isIdChar c = false

/-- Game names that do not end like a number keep all pairs apart. -/
theorem injOn_pairKey_of_plainGames {P : Set (Int32 × String)} (hplain : PlainGames P) :
    Set.InjOn pairKey P := by
  rintro ⟨p, g⟩ hpg ⟨q, h⟩ hqh hkey
  have happ : g.toList ++ (toString p.toInt).toList = h.toList ++ (toString q.toInt).toList := by
    rw [← String.toList_append, ← String.toList_append]
    exact congrArg String.toList hkey
  have hparts : g.toList = h.toList ∧ (toString p.toInt).toList = (toString q.toInt).toList := by
    rcases Nat.le_total g.toList.length h.toList.length with hle | hle
    · exact eq_of_append_eq happ (fun c hc => isIdChar_of_mem_id _ hc) (hplain _ hqh) hle
    · obtain ⟨hg, hp⟩ :=
        eq_of_append_eq happ.symm (fun c hc => isIdChar_of_mem_id _ hc) (hplain _ hpg) hle
      exact ⟨hg.symm, hp.symm⟩
  have hid : p = q := by
    have htext := String.toList_inj.mp hparts.2
    rw [Int.toString_eq_repr, Int.toString_eq_repr] at htext
    exact Int32.toInt_inj.mp (Int.repr_inj.mp htext)
  rw [hid, String.toList_inj.mp hparts.1]

/-! ## The invariant -/

variable {S : Type}

/-- Under `key` the store holds what the last call wrote, while it lives. -/
def Remembers (s : Store S) (key : String) : Option LastSet → Prop
  | none => s.find key = none
  | some l => ∃ writtenAt, writtenAt + l.elapsed = s.now ∧
      s.find key = (some ⟨.str (tokenText l.player_token),
        some (writtenAt + lifetime l.seconds)⟩ : Option (Entry S)).filter
          (Entry.live s.now)

theorem Remembers.of_indistinct {s t : Store S} {key : String} {last : Option LastSet}
    (hst : t.Indistinct s) (h : Remembers s key last) : Remembers t key last := by
  cases last with
  | none => exact (hst.2 key).trans h
  | some l =>
      obtain ⟨writtenAt, hnow, hfind⟩ := h
      exact ⟨writtenAt, hnow.trans hst.1.symm, by rw [hst.2 key, hfind, hst.1]⟩

theorem Remembers.advance {s : Store S} {key : String} {last : Option LastSet} (ms : Nat)
    (h : Remembers s key last) :
    Remembers (s.advance ms) key (last.map fun l => { l with elapsed := l.elapsed + ms }) := by
  cases last with
  | none =>
      have hnone : s.find key = none := h
      simp [Remembers, Store.find_advance, hnone]
  | some l =>
      obtain ⟨writtenAt, hnow, hfind⟩ := h
      refine ⟨writtenAt, by simp only [Store.advance_now]; omega, ?_⟩
      rw [Store.find_advance, hfind, Store.advance_now]
      by_cases hlive : s.now + ms < writtenAt + lifetime l.seconds
      · have hearlier : s.now < writtenAt + lifetime l.seconds := by omega
        simp [Option.filter, hlive, hearlier]
      · by_cases hearlier : s.now < writtenAt + lifetime l.seconds <;>
          simp [Option.filter, hlive, hearlier]

variable [Add S] [LE S] [DecidableLE S]

/-- One event keeps what the store remembers of a pair, unless it writes the
pair's key for another pair. -/
theorem remembers_play {s : Store S} {pair : Int32 × String} {last : Option LastSet}
    (e : TokenEvent) (hkey : ∀ other ∈ e.pair?, pairKey other = pairKey pair → other = pair)
    (h : Remembers s (pairKey pair) last) :
    Remembers (e.play s) (pairKey pair) (LastSet.after pair last e) := by
  cases e with
  | set player_id player_token seconds game_key =>
      obtain ⟨s', hrun, hnow, hfind⟩ :=
        setKsToken_run s player_id player_token seconds.2 game_key
      have hplay : (TokenEvent.set player_id player_token seconds game_key).play s = s' := by
        simp only [TokenEvent.play, hrun]
      rw [hplay]
      by_cases hpair : (player_id, game_key) = pair
      · subst hpair
        have hlive := tokenEntry_live s player_token seconds.2
        simp only [LastSet.after, if_true, pairKey]
        refine ⟨s.now, hnow.symm, ?_⟩
        rw [hfind, if_pos rfl, hnow]
        simp only [tokenEntry] at hlive ⊢
        simp only [Option.filter, hlive, if_true]
      · have hne : pairKey pair ≠ tokenKey player_id game_key := fun heq =>
          hpair (hkey _ rfl heq.symm)
        simp only [LastSet.after, if_neg hpair]
        have hsame : s'.find (pairKey pair) = s.find (pairKey pair) := by
          rw [hfind, if_neg hne]
        cases last with
        | none => exact hsame.trans h
        | some l =>
            obtain ⟨writtenAt, hat, hentry⟩ := h
            exact ⟨writtenAt, hat.trans hnow.symm, by rw [hsame, hentry, hnow]⟩
  | get playerId player_token game_key =>
      obtain ⟨s', hs', hrun⟩ := getKsToken_run s playerId player_token game_key
      have hplay : (TokenEvent.get playerId player_token game_key).play s = s' := by
        simp only [TokenEvent.play, hrun]
      rw [hplay]
      exact h.of_indistinct hs'
  | advance ms => exact h.advance ms

/-- After any run over pairs with separate keys, the store remembers each of
them. -/
theorem remembers_replay {P : Set (Int32 × String)} (hinj : Set.InjOn pairKey P)
    {pair : Int32 × String} (hpair : pair ∈ P) (events : List TokenEvent)
    (huses : UsesOnly P events) :
    Remembers (replay events : Store S) (pairKey pair) (lastSet events pair) := by
  induction events using List.reverseRecOn with
  | nil => exact Store.find_empty _
  | append_singleton events e ih =>
      have huses' : UsesOnly P events := fun e' he' => huses e' (List.mem_append_left _ he')
      have hkey : ∀ other ∈ e.pair?, pairKey other = pairKey pair → other = pair :=
        fun other hother heq =>
          hinj (huses e (List.mem_append_right _ (List.mem_singleton.mpr rfl)) other hother)
            hpair heq
      rw [replay, lastSet, List.foldl_concat, List.foldl_concat]
      exact remembers_play e hkey (ih huses')

/-! ## The answers -/

theorem tokenText_injective : Function.Injective tokenText := by
  intro t t' h
  simp only [tokenText, Int.toString_eq_repr] at h
  exact Int64.toInt_inj.mp (Int.repr_inj.mp h)

/-- What `getKsToken` answers from a store that remembers the pair. -/
theorem getKsToken_of_remembers {s : Store S} {playerId : Int32} {game_key : String}
    {last : Option LastSet} (h : Remembers s (tokenKey playerId game_key) last)
    (player_token : Int64) :
    ((getKsToken playerId player_token game_key).run s).2 = true ↔
      ∃ l, last = some l ∧ l.player_token = player_token ∧
        l.elapsed < lifetime l.seconds := by
  obtain ⟨s', -, hrun⟩ := getKsToken_run s playerId player_token game_key
  rw [hrun, decide_eq_true_eq]
  cases last with
  | none =>
      have hnone : s.find (tokenKey playerId game_key) = none := h
      simp [textAt, hnone]
  | some l =>
      obtain ⟨writtenAt, hnow, hfind⟩ := h
      have hlive : s.now < writtenAt + lifetime l.seconds ↔
          l.elapsed < lifetime l.seconds := by omega
      by_cases hl : l.elapsed < lifetime l.seconds
      · have htext : textAt s (tokenKey playerId game_key) = some (tokenText l.player_token) := by
          simp [textAt, hfind, Option.filter, hlive.mpr hl]
        rw [htext, Option.some_inj, tokenText_injective.eq_iff]
        simp [hl]
      · have htext : textAt s (tokenKey playerId game_key) = none := by
          simp [textAt, hfind, Option.filter, mt hlive.mp hl]
        simp [htext, hl]

/-- **When the token store is correct.** Over a set of (player, game) pairs,
every `getKsToken` after every run answers true exactly for the pair's
current token, if and only if no two pairs of the set have the same key. Games
that do not end like a number are enough for that. -/
theorem tokenStore_correct_iff (P : Set (Int32 × String)) :
    ((∀ events, UsesOnly P events → ∀ playerId player_token game_key, (playerId, game_key) ∈ P →
      (answerAfter S events playerId player_token game_key = true ↔
        IsCurrent events playerId player_token game_key)) ↔
      Set.InjOn pairKey P) ∧
      (PlainGames P → Set.InjOn pairKey P) := by
  refine ⟨?_, injOn_pairKey_of_plainGames⟩
  constructor
  · -- a shared key shows one pair the other's token
    rintro hcorrect ⟨p, g⟩ hpg ⟨q, h⟩ hqh hkey
    by_contra hne
    have hpos : 0 < (60 : Int32).toInt := by decide
    let events : List TokenEvent := [.set p 0 ⟨60, hpos⟩ g]
    have huses : UsesOnly P events := by
      simpa [UsesOnly, events, TokenEvent.pair?] using hpg
    have hlast : lastSet events (q, h) = none := by
      simp only [lastSet, events, List.foldl_cons, List.foldl_nil, LastSet.after, if_neg hne]
    have hstored : Remembers (replay events : Store S) (pairKey (p, g))
        (lastSet events (p, g)) :=
      remembers_play (.set p 0 ⟨60, hpos⟩ g) (by simp [TokenEvent.pair?]) (Store.find_empty _)
    have hanswer : answerAfter S events q 0 h = true := by
      rw [hkey] at hstored
      refine (getKsToken_of_remembers hstored 0).mpr ⟨⟨0, 60, 0⟩, ?_, rfl, by decide⟩
      simp [lastSet, events, LastSet.after]
    obtain ⟨l, hl, -⟩ := (hcorrect events huses q 0 h hqh).mp hanswer
    rw [hlast] at hl
    cases hl
  · intro hinj events huses playerId player_token game_key hmem
    exact getKsToken_of_remembers (remembers_replay hinj hmem events huses) player_token

/-- Player 2 of game "g1" logs in, and the store takes the token from player
12 of game "g", for whom nothing was ever stored. -/
theorem getKsToken_takes_foreign_token :
    ¬ (answerAfter Int [.set 2 7 ⟨60, by decide⟩ "g1"] 12 7 "g" = true ↔
      IsCurrent [.set 2 7 ⟨60, by decide⟩ "g1"] 12 7 "g") := by
  have hanswer : answerAfter Int [.set 2 7 ⟨60, by decide⟩ "g1"] 12 7 "g" = true := by decide
  have hlast : lastSet [.set 2 7 ⟨60, by decide⟩ "g1"] (12, "g") = none := by decide
  intro h
  obtain ⟨l, hl, -⟩ := h.mp hanswer
  rw [hlast] at hl
  cases hl

end SpringDome.Redis
