/-
SpringDome.Redis.HashTheorems — `hmSet` with a time to live, run alone.

The method sends HMSET and then EXPIRE, whatever became of the first. Both
work on one key, so the run is a function of the entry under that key:
`hmsetEntry` and `expireEntry` are the two commands under a fate, and
`hmSetFor_find` reads the store after the call off them.

§3 says when the call is all or nothing. A command that fails alone leaves a
hash that never expires, or puts a deadline on an entry the call has not
written; the other ways to fail are harmless.
-/
import SpringDome.Redis.TokenTheorems

namespace SpringDome.Redis

open SpringDome.Lib.RedisStore
open RedisService

variable {S : Type}

/-! ## 1. The two commands, on the entry of the key -/

/-- The entry after HMSET. -/
def hmsetEntry (map : List (String × String)) (fate : Fate) (e : Option (Entry S)) :
    Option (Entry S) :=
  if fate = .served then
    match hashOf e with
    | .ok (fields, d) => some ⟨.hash (overwrite fields map), d⟩
    | .error _ => e
  else e

/-- The entry after EXPIRE with a deadline to come. -/
def expireEntry (due : Nat) (fate : Fate) (e : Option (Entry S)) : Option (Entry S) :=
  if fate = .served then e.map fun entry => { entry with deadline := some due } else e

/-- A new value with the deadline of an entry that is alive is alive. -/
theorem filter_live_of_find {s : Store S} {key : String} {v : Value S} {d : Option Nat}
    (h : s.find key = some ⟨v, d⟩) (w : Value S) :
    (some ⟨w, d⟩ : Option (Entry S)).filter (Entry.live s.now) = some ⟨w, d⟩ := by
  have hlive : (⟨v, d⟩ : Entry S).live s.now = true := Store.live_of_find h
  have hsame : (⟨w, d⟩ : Entry S).live s.now = true := hlive
  simp [Option.filter, hsame]

/-- A store after a command that left this entry under the key. -/
structure Leaves (s : Store S) (key : String) (e : Option (Entry S)) (s' : Store S) : Prop where
  now : s'.now = s.now
  found : s'.find key = e
  others : ∀ k, k ≠ key → s'.find k = s.find k

theorem leaves_put {s : Store S} {key : String} {e : Option (Entry S)}
    (h : e.filter (Entry.live s.now) = e) : Leaves s key e (s.put key e) where
  now := rfl
  found := by simp [h]
  others := fun k hk => s.find_put_ne hk e

theorem leaves_self (s : Store S) (key : String) : Leaves s key (s.find key) s :=
  ⟨rfl, rfl, fun _ _ => rfl⟩

theorem hmSet_leaves (s : Store S) (key : String) {map : List (String × String)} (hne : map ≠ [])
    {fate : Fate} (hclean : fate.clean = true) :
    Leaves s key (hmsetEntry map fate (s.find key))
      ((RedisUtil.hmSet key map).onStore fate s).1 := by
  by_cases hserved : fate = .served
  · subst hserved
    have hnonempty : map.isEmpty = false := by simpa using hne
    unfold RedisUtil.hmSet RedisUtil.ignoringReply
    rw [RedisUtil.sending_served]
    cases hfind : s.find key with
    | none =>
        simp only [hmset, onKey, hfind, hashOf, hmsetEntry, hnonempty, if_true]
        exact leaves_put rfl
    | some e =>
        obtain ⟨v, d⟩ := e
        cases v with
        | hash fields =>
            simp only [hmset, onKey, hfind, hashOf, hmsetEntry, hnonempty, if_true]
            exact leaves_put (filter_live_of_find hfind (.hash (overwrite fields map)))
        | str _ | list _ | set _ | zset _ =>
            simp only [hmset, onKey, hfind, hashOf, hmsetEntry, if_true]
            exact hfind ▸ leaves_self s key
  · rw [UtilOp.onStore_of_clean hclean hserved]
    simp only [hmsetEntry, hserved, if_false]
    exact leaves_self s key

theorem expire_leaves (s : Store S) (key : String) {seconds : Int32} (hpos : 0 < seconds.toInt)
    {fate : Fate} (hclean : fate.clean = true) :
    Leaves s key (expireEntry (s.now + lifetime seconds) fate (s.find key))
      ((RedisUtil.expire key seconds).onStore fate s).1 := by
  by_cases hserved : fate = .served
  · subst hserved
    unfold RedisUtil.expire RedisUtil.answering
    rw [RedisUtil.sending_served]
    cases hfind : s.find key with
    | none =>
        simp only [Lib.RedisStore.expire, onKey, hfind, expireEntry, if_true]
        exact leaves_put rfl
    | some e =>
        simp only [Lib.RedisStore.expire, onKey, hfind, expireEntry, hpos, if_true]
        refine leaves_put ?_
        have hlive : (⟨e.value, some (s.now + lifetime seconds)⟩ : Entry S).live s.now = true := by
          simp only [Entry.live_deadline, lifetime, decide_eq_true_eq]
          omega
        simp [Option.filter, hlive]
  · rw [UtilOp.onStore_of_clean hclean hserved]
    simp only [expireEntry, hserved, if_false]
    exact leaves_self s key

/-! ## 2. The method -/

/-- `hmSetFor`, one operation at a time. -/
theorem hmSetFor_eq (key : String) (map : List (String × String)) (seconds : Int32) :
    (hmSetFor key map seconds : RedisM S Unit) =
      .call (.hmSet key map) fun _ => .call (.expire key seconds) fun _ => .ret () := by
  simp only [hmSetFor, hmSet, RedisService.expire, RedisM.send, RedisM.bind_eq, RedisM.call_bind,
    RedisM.ret_bind, RedisM.pure_eq]

/-- The store after the call, under any two fates. -/
theorem hmSetFor_leaves [Add S] [LE S] [DecidableLE S] (s : Store S) (key : String)
    {map : List (String × String)} (hne : map ≠ []) {seconds : Int32} (hpos : 0 < seconds.toInt)
    {fates : Nat → Fate} (hclean : ∀ n, (fates n).clean = true) :
    Leaves s key (expireEntry (s.now + lifetime seconds) (fates 1)
        (hmsetEntry map (fates 0) (s.find key)))
      ((hmSetFor key map seconds).runWith fates s).1 := by
  have hfirst := hmSet_leaves s key hne (hclean 0)
  have hsecond := expire_leaves ((RedisUtil.hmSet key map).onStore (fates 0) s).1 key hpos
    (hclean 1)
  rw [hfirst.now, hfirst.found] at hsecond
  rw [hmSetFor_eq]
  exact ⟨hsecond.now.trans hfirst.now, hsecond.found,
    fun k hk => (hsecond.others k hk).trans (hfirst.others k hk)⟩

/-! ## 3. All or nothing -/

/-- The key holds the old hash, overwritten by the map, and is due in
`seconds`. An absent key is an empty hash. -/
def HoldsMap (key : String) (map : List (String × String)) (seconds : Int32)
    (s s' : Store S) : Prop :=
  ∃ fields d, hashOf (s.find key) = .ok (fields, d) ∧
    s'.find key = some ⟨.hash (overwrite fields map), some (s.now + lifetime seconds)⟩

/-- The call took effect, or the whole store is as it was. -/
def AllOrNothing (key : String) (map : List (String × String)) (seconds : Int32)
    (s s' : Store S) : Prop :=
  HoldsMap key map seconds s s' ∨ s'.Indistinct s

/-- HMSET takes effect: it is served, and the key is absent or holds a hash. -/
def HmsetTakes (fate : Fate) (e : Option (Entry S)) : Prop :=
  fate = .served ∧ ∃ h, hashOf e = .ok h

/-- The key holds a hash that has every field of the map already. -/
def HasFields (map : List (String × String)) (e : Option (Entry S)) : Prop :=
  ∃ fields d, e = some ⟨.hash fields, d⟩ ∧ ∀ p ∈ map, fields.lookup p.1 = some p.2

/-- The key is due at that time already. -/
def DueAt (due : Nat) (e : Option (Entry S)) : Prop := ∃ v, e = some ⟨v, some due⟩

/-- Both commands take effect, or neither, or one of them would change
nothing. -/
def Harmless (map : List (String × String)) (due : Nat) (fates : Nat → Fate)
    (e : Option (Entry S)) : Prop :=
  (HmsetTakes (fates 0) e ∧ fates 1 = .served) ∨
    (¬ HmsetTakes (fates 0) e ∧ (fates 1 ≠ .served ∨ e = none)) ∨
    HasFields map e ∨ DueAt due e

/-- All or nothing, for the entry of the key. -/
def EntryKept (map : List (String × String)) (due : Nat) (e e' : Option (Entry S)) : Prop :=
  (∃ fields d, hashOf e = .ok (fields, d) ∧
    e' = some ⟨.hash (overwrite fields map), some due⟩) ∨ e' = e

theorem allOrNothing_iff_kept {key : String} {map : List (String × String)} {seconds : Int32}
    {s s' : Store S} {e : Option (Entry S)} (h : Leaves s key e s') :
    AllOrNothing key map seconds s s' ↔
      EntryKept map (s.now + lifetime seconds) (s.find key) e := by
  have hsame : s'.Indistinct s ↔ e = s.find key := by
    constructor
    · rintro ⟨-, hfind⟩
      rw [← h.found, hfind]
    · intro heq
      refine ⟨h.now, ?_⟩
      intro k
      by_cases hk : k = key
      · rw [hk, h.found, heq]
      · exact h.others k hk
  unfold AllOrNothing HoldsMap EntryKept
  rw [h.found, hsame]

section Entries

variable (map : List (String × String)) (due : Nat) (fates : Nat → Fate)

theorem kept_absent :
    EntryKept map due (none : Option (Entry S)) (expireEntry due (fates 1)
        (hmsetEntry map (fates 0) none)) ↔ Harmless map due fates (none : Option (Entry S)) := by
  by_cases h0 : fates 0 = .served <;> by_cases h1 : fates 1 = .served <;>
    simp [EntryKept, Harmless, HmsetTakes, HasFields, DueAt, hmsetEntry, expireEntry, hashOf, h0,
      h1]

variable {map} in
theorem kept_hash (hmap : (map.map Prod.fst).Nodup) (fields : List (String × String))
    (d : Option Nat) :
    EntryKept map due (some (⟨.hash fields, d⟩ : Entry S)) (expireEntry due (fates 1)
        (hmsetEntry map (fates 0) (some ⟨.hash fields, d⟩))) ↔
      Harmless map due fates (some (⟨.hash fields, d⟩ : Entry S)) := by
  have hsame : fields = overwrite fields map ↔
      ∀ a b, (a, b) ∈ map → fields.lookup a = some b := by
    rw [eq_comm, overwrite_eq_self_iff hmap, Prod.forall]
  -- a command that fails alone is harmless if the other changes nothing
  by_cases h0 : fates 0 = .served <;> by_cases h1 : fates 1 = .served <;>
    simp [EntryKept, Harmless, HmsetTakes, HasFields, DueAt, hmsetEntry, expireEntry, hashOf, h0,
      h1, eq_comm (a := overwrite fields map), eq_comm (a := some due), hsame, or_comm]

/-- A key of another type: HMSET fails. -/
theorem kept_other {v : Value S} {d : Option Nat}
    (hv : hashOf (some ⟨v, d⟩) = .error .wrongType) :
    EntryKept map due (some ⟨v, d⟩) (expireEntry due (fates 1)
        (hmsetEntry map (fates 0) (some ⟨v, d⟩))) ↔
      Harmless map due fates (some ⟨v, d⟩) := by
  have hno : ∀ fields, v ≠ .hash fields := by
    rintro fields rfl
    cases hv
  by_cases h0 : fates 0 = .served <;> by_cases h1 : fates 1 = .served <;>
    simp [EntryKept, Harmless, HmsetTakes, HasFields, DueAt, hmsetEntry, expireEntry, hv, h0, h1,
      hno, eq_comm (a := some due)]

end Entries

/-- **All or nothing, exactly.** Whatever the store, the map and the failures,
the law holds of the call if and only if the call is harmless: both commands
take effect, or neither, or the map or the deadline was there before. -/
theorem hmSetFor_allOrNothing_iff [Add S] [LE S] [DecidableLE S] (s : Store S) (key : String)
    {map : List (String × String)} (hne : map ≠ []) (hmap : (map.map Prod.fst).Nodup)
    {seconds : Int32} (hpos : 0 < seconds.toInt) {fates : Nat → Fate}
    (hclean : ∀ n, (fates n).clean = true) :
    AllOrNothing key map seconds s ((hmSetFor key map seconds).runWith fates s).1 ↔
      Harmless map (s.now + lifetime seconds) fates (s.find key) := by
  rw [allOrNothing_iff_kept (hmSetFor_leaves s key hne hpos hclean)]
  cases s.find key with
  | none => exact kept_absent map _ fates
  | some e =>
      obtain ⟨v, d⟩ := e
      cases v with
      | hash fields => exact kept_hash _ fates hmap fields d
      | str _ | list _ | set _ | zset _ => exact kept_other map _ fates rfl

/-- A store with a session hash that is due in five seconds. -/
def storedSession : Store Int :=
  ⟨0, fun k => if k = "session" then
    some ⟨.hash [("level", "1"), ("name", "ann")], some 5000⟩ else none⟩

/-- Its level is set, with every command served. -/
theorem hmSetFor_stored_session :
    AllOrNothing "session" [("level", "2")] 60 storedSession
      ((hmSetFor "session" [("level", "2")] 60).run storedSession).1 :=
  (hmSetFor_allOrNothing_iff storedSession "session" (by decide) (by decide) (by decide)
    (fun _ => rfl)).mpr (.inl ⟨⟨rfl, _, rfl⟩, rfl⟩)

/-- A store with a text that never expires. -/
def storedText : Store Int := ⟨0, fun k => if k = "session" then some ⟨.str "ann", none⟩ else none⟩

/-- HMSET on a text fails and EXPIRE then puts a deadline on the text; a new
hash whose EXPIRE fails never expires. -/
theorem hmSetFor_half_done :
    ¬ AllOrNothing "session" [("level", "1")] 60 storedText
        ((hmSetFor "session" [("level", "1")] 60).run storedText).1 ∧
      ¬ AllOrNothing "session" [("level", "1")] 60 (Store.empty : Store Int)
        ((hmSetFor "session" [("level", "1")] 60).runWith
          secondRefused Store.empty).1 := by
  constructor
  · have hleaves : Leaves storedText "session" _
        ((hmSetFor "session" [("level", "1")] 60).run storedText).1 :=
      hmSetFor_leaves storedText "session" (by decide) (by decide) fun _ => rfl
    rw [allOrNothing_iff_kept hleaves]
    rintro (⟨fields, d, hhash, -⟩ | hsame)
    · cases hhash
    · cases hsame
  · have hclean : ∀ n, (secondRefused n).clean = true := by
      intro n
      unfold secondRefused
      split <;> rfl
    have hleaves : Leaves (Store.empty : Store Int) "session" _
        ((hmSetFor "session" [("level", "1")] 60).runWith secondRefused Store.empty).1 :=
      hmSetFor_leaves Store.empty "session" (by decide) (by decide) hclean
    rw [allOrNothing_iff_kept hleaves]
    rintro (⟨fields, d, -, hentry⟩ | hsame)
    · have hdeadline := congrArg (Option.map Entry.deadline) hentry
      cases hdeadline
    · cases hsame

end SpringDome.Redis
