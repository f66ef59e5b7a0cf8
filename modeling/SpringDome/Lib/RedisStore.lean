/-
SpringDome.Lib.RedisStore — the Redis data types and commands, with their
documented effect.

A `Store` is a clock and a partial map from keys to entries; an entry is a
value (string, hash, list, set or sorted set) with an optional deadline. An
entry whose deadline has been reached is absent for every command
(`Store.find`).

Every command but KEYS works on one key. Such a command is an effect on
that key's entry (`KeyEffect`: it reads the clock and the live entry, and
answers the new entry and a reply, or fails), and `onKey` is the one place
where it touches the store. The two laws of `onKey` are all a caller needs
to know about where a command acts:

* `onKey_find_ne` — every other key keeps its entry;
* `onKey_congr` — the effect at the key depends on the clock and on the
  entry of that key only.

The score type is a parameter: Redis keeps scores as doubles, and no
result below needs more of them than addition and an order.
-/
import Mathlib.Logic.Function.Basic
import Mathlib.Data.List.Basic
import Mathlib.Algebra.Group.Int.Defs

namespace SpringDome.Lib.RedisStore

/-! ## Values, entries, stores -/

inductive Value (S : Type) where
  | str (text : String)
  | hash (fields : List (String × String))
  | list (items : List String)
  | set (members : List String)
  | zset (scores : List (String × S))
  deriving DecidableEq, Repr

structure Entry (S : Type) where
  value : Value S
  deadline : Option Nat
  deriving DecidableEq, Repr

/-- Deadlines and the clock count milliseconds. -/
structure Store (S : Type) where
  now : Nat
  data : String → Option (Entry S)

/-- What makes a command answer an error instead of a reply. The last two
are raised on the client's side, by the conversion of a reply. -/
inductive Failure where
  | wrongType
  | invalidExpireTime
  | notAnInteger
  | overflow
  | wrongArity
  | numberFormat
  deriving DecidableEq, Repr

variable {S ρ : Type}

def Entry.live (now : Nat) (e : Entry S) : Bool :=
  match e.deadline with
  | none => true
  | some d => now < d

@[simp] theorem Entry.live_deadline (now d : Nat) (v : Value S) :
    (⟨v, some d⟩ : Entry S).live now = decide (now < d) := rfl

/-- The entry a command sees under a key. -/
def Store.find (s : Store S) (k : String) : Option (Entry S) :=
  (s.data k).filter (Entry.live s.now)

/-- The empty store at time zero. -/
def Store.empty : Store S := ⟨0, fun _ => none⟩

/-- The clock moves on; nothing else changes. -/
def Store.advance (s : Store S) (ms : Nat) : Store S := { s with now := s.now + ms }

@[simp] theorem Store.find_empty (k : String) : (Store.empty : Store S).find k = none := rfl

@[simp] theorem Store.advance_now (s : Store S) (ms : Nat) : (s.advance ms).now = s.now + ms := rfl

theorem Store.live_of_find {s : Store S} {k : String} {e : Entry S} (h : s.find k = some e) :
    e.live s.now = true := (Option.filter_eq_some_iff.mp h).2

@[simp] theorem Store.find_filter_live (s : Store S) (k : String) :
    (s.find k).filter (Entry.live s.now) = s.find k := by
  cases h : s.find k with
  | none => rfl
  | some e => simp [Option.filter, Store.live_of_find h]

/-- Advancing the clock keeps the entries that are still alive. -/
theorem Store.find_advance (s : Store S) (ms : Nat) (k : String) :
    (s.advance ms).find k = (s.find k).filter (Entry.live (s.now + ms)) := by
  have hmono : ∀ e : Entry S, e.live (s.now + ms) = true → e.live s.now = true := by
    intro e he
    cases hd : e.deadline with
    | none => simp [Entry.live, hd]
    | some d =>
        simp only [Entry.live, hd, decide_eq_true_eq] at he ⊢
        omega
  simp only [Store.find, Store.advance]
  cases hk : s.data k with
  | none => rfl
  | some e =>
      by_cases h1 : e.live (s.now + ms) = true
      · simp [Option.filter, h1, hmono e h1]
      · by_cases h2 : e.live s.now = true <;> simp [Option.filter, h1, h2]

/-! ## Commands on one key -/

abbrev Command (S ρ : Type) := Store S → Except Failure (Store S × ρ)

/-- What a command does to the entry of its key: from the clock and the
live entry to the entry it leaves and the reply. -/
abbrev KeyEffect (S ρ : Type) :=
  Nat → Option (Entry S) → Except Failure (Option (Entry S) × ρ)

/-- Put an entry under a key, or remove the key. -/
def Store.put (s : Store S) (k : String) (e : Option (Entry S)) : Store S :=
  { s with data := Function.update s.data k e }

@[simp] theorem Store.put_now (s : Store S) (k : String) (e : Option (Entry S)) :
    (s.put k e).now = s.now := rfl

theorem Store.find_put (s : Store S) (k k' : String) (e : Option (Entry S)) :
    (s.put k e).find k' = if k' = k then e.filter (Entry.live s.now) else s.find k' := by
  by_cases h : k' = k
  · subst h; simp [Store.find, Store.put]
  · simp [Store.find, Store.put, h]

@[simp] theorem Store.find_put_self (s : Store S) (k : String) (e : Option (Entry S)) :
    (s.put k e).find k = e.filter (Entry.live s.now) := by simp [Store.find_put]

theorem Store.find_put_ne (s : Store S) {k k' : String} (h : k' ≠ k) (e : Option (Entry S)) :
    (s.put k e).find k' = s.find k' := by simp [Store.find_put, h]

/-- Two stores no command can tell apart. -/
def Store.Indistinct (s t : Store S) : Prop := s.now = t.now ∧ ∀ k, s.find k = t.find k

theorem Store.Indistinct.refl (s : Store S) : s.Indistinct s := ⟨rfl, fun _ => rfl⟩

theorem Store.Indistinct.trans {s t u : Store S} (h : s.Indistinct t) (h' : t.Indistinct u) :
    s.Indistinct u := ⟨h.1.trans h'.1, fun k => (h.2 k).trans (h'.2 k)⟩

/-- Reading a key drops at most an expired entry. -/
theorem Store.indistinct_put_find (s : Store S) (k : String) :
    (s.put k (s.find k)).Indistinct s := by
  refine ⟨rfl, ?_⟩
  intro k'
  by_cases h : k' = k
  · subst h; rw [s.find_put_self, s.find_filter_live]
  · exact s.find_put_ne h _

/-- Two stores with the same clock and the same entry under `k`. -/
def Store.AgreeAt (k : String) (s t : Store S) : Prop := s.now = t.now ∧ s.find k = t.find k

theorem Store.AgreeAt.refl (k : String) (s : Store S) : Store.AgreeAt k s s := ⟨rfl, rfl⟩

theorem Store.AgreeAt.symm {k : String} {s t : Store S} (h : Store.AgreeAt k s t) :
    Store.AgreeAt k t s := ⟨h.1.symm, h.2.symm⟩

theorem Store.AgreeAt.trans {k : String} {s t u : Store S} (h : Store.AgreeAt k s t)
    (h' : Store.AgreeAt k t u) : Store.AgreeAt k s u := ⟨h.1.trans h'.1, h.2.trans h'.2⟩

/-- Run a key effect at a key of the store. An expired entry is dropped on
access, as the server does. -/
def onKey (k : String) (f : KeyEffect S ρ) : Command S ρ := fun s =>
  match f s.now (s.find k) with
  | .ok (e, r) => .ok (s.put k e, r)
  | .error err => .error err

theorem onKey_now {k : String} {f : KeyEffect S ρ} {s s' : Store S} {r : ρ}
    (h : onKey k f s = .ok (s', r)) : s'.now = s.now := by
  unfold onKey at h
  split at h
  · cases h; rfl
  · cases h

/-- A command on `k` leaves every other key as it is. -/
theorem onKey_find_ne {k k' : String} {f : KeyEffect S ρ} {s s' : Store S} {r : ρ}
    (h : onKey k f s = .ok (s', r)) (hne : k' ≠ k) : s'.find k' = s.find k' := by
  unfold onKey at h
  split at h
  · cases h; exact s.find_put_ne hne _
  · cases h

/-- What a command on `k` does at `k` depends on nothing but the clock and
the entry there. -/
theorem onKey_congr {k : String} (f : KeyEffect S ρ) {s t : Store S} (h : Store.AgreeAt k s t) :
    (∃ s' t' r, onKey k f s = .ok (s', r) ∧ onKey k f t = .ok (t', r) ∧ Store.AgreeAt k s' t') ∨
      ∃ err, onKey k f s = .error err ∧ onKey k f t = .error err := by
  obtain ⟨hnow, hk⟩ := h
  unfold onKey
  rw [hnow, hk]
  cases f t.now (t.find k) with
  | error err => exact Or.inr ⟨err, rfl, rfl⟩
  | ok x => exact Or.inl ⟨_, _, _, rfl, rfl, hnow, by simp [hnow]⟩

/-! ## Strings and keys -/

/-- GET. -/
def get (k : String) : Command S (Option String) := onKey k fun _ e =>
  match e with
  | none => .ok (none, none)
  | some ⟨.str text, d⟩ => .ok (some ⟨.str text, d⟩, some text)
  | some _ => .error .wrongType

/-- SETEX: any old value goes, whatever its type; the time to live must be
positive. -/
def setex (k : String) (seconds : Int) (text : String) : Command S String := onKey k fun now _ =>
  if 0 < seconds then .ok (some ⟨.str text, some (now + 1000 * seconds.toNat)⟩, "OK")
  else .error .invalidExpireTime

/-- EXISTS. -/
def exists_ (k : String) : Command S Bool := onKey k fun _ e => .ok (e, e.isSome)

/-- DEL, with the number of keys removed. -/
def del (k : String) : Command S Int := onKey k fun _ e => .ok (none, if e.isSome then 1 else 0)

/-- EXPIRE: a time to live that is not positive removes the key. -/
def expire (k : String) (seconds : Int) : Command S Int := onKey k fun now e =>
  match e with
  | none => .ok (none, 0)
  | some e =>
      if 0 < seconds then .ok (some { e with deadline := some (now + 1000 * seconds.toNat) }, 1)
      else .ok (none, 1)

/-- TTL in seconds, rounded: -2 for an absent key, -1 for a key without deadline. -/
def ttl (k : String) : Command S Int := onKey k fun now e =>
  match e with
  | none => .ok (none, -2)
  | some e =>
      match e.deadline with
      | none => .ok (some e, -1)
      | some d => .ok (some e, ((d - now + 500) / 1000 : Nat))

/-- PERSIST. -/
def persist (k : String) : Command S Int := onKey k fun _ e =>
  match e with
  | none => .ok (none, 0)
  | some e => .ok (some { e with deadline := none }, if e.deadline.isSome then 1 else 0)

/-- KEYS: the live keys that match a pattern. How a pattern matches is the
parameter `glob`. -/
def keys (glob : String → String → Bool) (pattern : String) : Command S (String → Bool) := fun s =>
  .ok (s, fun k => (s.find k).isSome && glob pattern k)

/-! ## Hashes -/

/-- Set a field of an association list, in place or at the end. -/
def setField {β : Type} (field : String) (v : β) : List (String × β) → List (String × β)
  | [] => [(field, v)]
  | (f, w) :: rest => if f = field then (field, v) :: rest else (f, w) :: setField field v rest

/-- Overwrite an association list with the fields of a map. -/
def overwrite {β : Type} (fields map : List (String × β)) : List (String × β) :=
  map.foldl (fun h p => setField p.1 p.2 h) fields

theorem lookup_pair {β : Type} (name : String) (p : String × β) (fields : List (String × β)) :
    (p :: fields).lookup name = if name = p.1 then some p.2 else fields.lookup name := by
  rw [List.lookup_cons]
  by_cases h : name = p.1
  · simp [h]
  · simp [h, beq_false_of_ne h]

theorem lookup_setField {β : Type} (field : String) (v : β) (fields : List (String × β))
    (name : String) :
    (setField field v fields).lookup name =
      if name = field then some v else fields.lookup name := by
  induction fields with
  | nil => simp [setField, lookup_pair]
  | cons p fields ih =>
      unfold setField
      by_cases hp : p.1 = field
      · by_cases h : name = field <;> simp [hp, lookup_pair, h]
      · by_cases hname : name = p.1
        · simp [hp, hname, lookup_pair]
        · simp [hp, hname, lookup_pair, ih]

/-- Setting a field changes nothing exactly when it has that value. -/
theorem setField_eq_self_iff {β : Type} {field : String} {v : β} {fields : List (String × β)} :
    setField field v fields = fields ↔ fields.lookup field = some v := by
  constructor
  · intro h
    have hlookup := lookup_setField field v fields field
    rw [h] at hlookup
    simpa using hlookup
  · intro h
    induction fields with
    | nil => cases h
    | cons p fields ih =>
        unfold setField
        rw [lookup_pair] at h
        by_cases hp : p.1 = field
        · obtain rfl : p.2 = v := by simpa [hp] using h
          simp [← hp]
        · simp only [hp, if_false, List.cons.injEq, true_and]
          exact ih (by simpa [Ne.symm hp] using h)

@[simp] theorem overwrite_nil {β : Type} (fields : List (String × β)) :
    overwrite fields [] = fields := rfl

theorem overwrite_cons {β : Type} (fields : List (String × β)) (p : String × β)
    (map : List (String × β)) :
    overwrite fields (p :: map) = overwrite (setField p.1 p.2 fields) map := rfl

/-- A name the map does not have keeps its value. -/
theorem lookup_overwrite_of_notMem {β : Type} {fields map : List (String × β)} {name : String}
    (h : name ∉ map.map Prod.fst) : (overwrite fields map).lookup name = fields.lookup name := by
  induction map generalizing fields with
  | nil => rfl
  | cons p map ih =>
      simp only [List.map_cons, List.mem_cons, not_or] at h
      rw [overwrite_cons, ih h.2, lookup_setField, if_neg h.1]

/-- A map has each name once, so each of its fields is there afterwards. -/
theorem lookup_overwrite_of_mem {β : Type} {fields map : List (String × β)}
    (hmap : (map.map Prod.fst).Nodup) {p : String × β} (hp : p ∈ map) :
    (overwrite fields map).lookup p.1 = some p.2 := by
  induction map generalizing fields with
  | nil => cases hp
  | cons q map ih =>
      have hnodup : q.1 ∉ map.map Prod.fst ∧ (map.map Prod.fst).Nodup := by simpa using hmap
      rw [overwrite_cons]
      rcases List.mem_cons.mp hp with rfl | hp
      · rw [lookup_overwrite_of_notMem hnodup.1, lookup_setField, if_pos rfl]
      · exact ih hnodup.2 hp

/-- Overwriting changes nothing exactly when every field of the map is there
already. -/
theorem overwrite_eq_self_iff {β : Type} {fields map : List (String × β)}
    (hmap : (map.map Prod.fst).Nodup) :
    overwrite fields map = fields ↔ ∀ p ∈ map, fields.lookup p.1 = some p.2 := by
  constructor
  · intro h p hp
    have hlookup : (overwrite fields map).lookup p.1 = some p.2 := lookup_overwrite_of_mem hmap hp
    rwa [h] at hlookup
  · intro h
    clear hmap
    induction map with
    | nil => rfl
    | cons p map ih =>
        rw [overwrite_cons, setField_eq_self_iff.mpr (h p List.mem_cons_self)]
        exact ih fun q hq => h q (List.mem_cons_of_mem _ hq)

/-- The hash under a key with its deadline: an absent key is an empty hash. -/
def hashOf : Option (Entry S) → Except Failure (List (String × String) × Option Nat)
  | none => .ok ([], none)
  | some ⟨.hash fields, d⟩ => .ok (fields, d)
  | some _ => .error .wrongType

/-- HSET, with the number of fields added. -/
def hset (k field v : String) : Command S Int := onKey k fun _ e => do
  let (fields, d) ← hashOf e
  .ok (some ⟨.hash (setField field v fields), d⟩, if (fields.lookup field).isSome then 0 else 1)

/-- HMSET: an empty map is an argument error. -/
def hmset (k : String) (map : List (String × String)) : Command S String := onKey k fun _ e => do
  let (fields, d) ← hashOf e
  if map.isEmpty then .error .wrongArity
  else .ok (some ⟨.hash (map.foldl (fun h p => setField p.1 p.2 h) fields), d⟩, "OK")

/-- HGET. -/
def hget (k field : String) : Command S (Option String) := onKey k fun _ e => do
  let (fields, _) ← hashOf e
  .ok (e, fields.lookup field)

/-- HGETALL. -/
def hgetAll (k : String) : Command S (List (String × String)) := onKey k fun _ e => do
  let (fields, _) ← hashOf e
  .ok (e, fields)

/-- The server's reading of a 64-bit integer: the canonical decimal text and
nothing else. -/
def parseInt64 (text : String) : Option Int :=
  match text.toInt? with
  | some n => if toString n = text ∧ -2 ^ 63 ≤ n ∧ n < 2 ^ 63 then some n else none
  | none => none

/-- HINCRBY: an absent field counts as 0. -/
def hincrBy (k field : String) (increment : Int) : Command S Int := onKey k fun _ e => do
  let (fields, d) ← hashOf e
  match parseInt64 ((fields.lookup field).getD "0") with
  | none => .error .notAnInteger
  | some n =>
      if -2 ^ 63 ≤ n + increment ∧ n + increment < 2 ^ 63 then
        .ok (some ⟨.hash (setField field (toString (n + increment)) fields), d⟩, n + increment)
      else .error .overflow

/-! ## Sorted sets -/

/-- The sorted set under a key with its deadline: an absent key is an empty
sorted set. -/
def zsetOf : Option (Entry S) → Except Failure (List (String × S) × Option Nat)
  | none => .ok ([], none)
  | some ⟨.zset scores, d⟩ => .ok (scores, d)
  | some _ => .error .wrongType

/-- ZADD of one member, with the number of members added. -/
def zadd (k : String) (score : S) (member : String) : Command S Int := onKey k fun _ e => do
  let (scores, d) ← zsetOf e
  .ok (some ⟨.zset (setField member score scores), d⟩,
    if (scores.lookup member).isSome then 0 else 1)

/-- ZINCRBY, with the new score: for an absent member it is the increment. -/
def zincrby [Add S] (k : String) (increment : S) (member : String) : Command S S :=
  onKey k fun _ e => do
    let (scores, d) ← zsetOf e
    let score := match scores.lookup member with
      | none => increment
      | some old => old + increment
    .ok (some ⟨.zset (setField member score scores), d⟩, score)

/-- ZSCORE. -/
def zscore (k member : String) : Command S (Option S) := onKey k fun _ e => do
  let (scores, _) ← zsetOf e
  .ok (e, scores.lookup member)

/-- Members by descending score; equal scores in descending order of the
members. -/
def byRank [LE S] [DecidableLE S] (scores : List (String × S)) : List (String × S) :=
  scores.mergeSort fun a b => if a.2 ≤ b.2 ∧ b.2 ≤ a.2 then b.1 ≤ a.1 else b.2 ≤ a.2

/-- ZREVRANK. -/
def zrevrank [LE S] [DecidableLE S] (k member : String) : Command S (Option Int) :=
  onKey k fun _ e => do
    let (scores, _) ← zsetOf e
    .ok (e, ((byRank scores).findIdx? (fun p => p.1 = member)).map Int.ofNat)

/-- An index of a range: a negative one counts from the end. -/
def rangeIndex (length : Nat) (i : Int) : Int := if i < 0 then length + i else i

/-- ZREVRANGE WITHSCORES, both ends included. -/
def zrevrangeWithScores [LE S] [DecidableLE S] (k : String) (start stop : Int) :
    Command S (List (String × S)) :=
  onKey k fun _ e => do
    let (scores, _) ← zsetOf e
    let lo := (rangeIndex scores.length start).toNat
    let hi := rangeIndex scores.length stop
    .ok (e, ((byRank scores).take (hi + 1).toNat).drop lo)

/-! ## Names

A hash has every field once, and a set, sorted or not, every member. -/

def Value.names : Value S → List String
  | .str _ => []
  | .hash fields => fields.map Prod.fst
  | .list _ => []
  | .set members => members
  | .zset scores => scores.map Prod.fst

def Named (e : Option (Entry S)) : Prop := ∀ x ∈ e, x.value.names.Nodup

def Store.Named (s : Store S) : Prop := ∀ k, RedisStore.Named (s.find k)

theorem named_empty : (Store.empty : Store S).Named := fun _ _ hx => nomatch hx

theorem mem_setField_names {β : Type} {field : String} {v : β} {fields : List (String × β)}
    {name : String} (h : name ∈ (setField field v fields).map Prod.fst) :
    name = field ∨ name ∈ fields.map Prod.fst := by
  induction fields with
  | nil => exact .inl (List.mem_singleton.mp h)
  | cons p fields ih =>
      unfold setField at h
      by_cases hp : p.1 = field
      · rw [if_pos hp, List.map_cons, List.mem_cons] at h
        exact h.imp_right (List.mem_cons_of_mem _)
      · rw [if_neg hp, List.map_cons, List.mem_cons] at h
        rcases h with rfl | h
        · exact .inr List.mem_cons_self
        · exact (ih h).imp_right (List.mem_cons_of_mem _)

theorem nodup_setField {β : Type} (field : String) (v : β) {fields : List (String × β)}
    (h : (fields.map Prod.fst).Nodup) : ((setField field v fields).map Prod.fst).Nodup := by
  induction fields with
  | nil => exact List.pairwise_singleton _ _
  | cons p fields ih =>
      obtain ⟨hp, hrest⟩ := List.nodup_cons.mp h
      unfold setField
      by_cases hfield : p.1 = field
      · rw [if_pos hfield]
        exact List.nodup_cons.mpr ⟨hfield ▸ hp, hrest⟩
      · rw [if_neg hfield]
        refine List.nodup_cons.mpr ⟨fun hmem => ?_, ih hrest⟩
        exact (mem_setField_names hmem).elim hfield hp

theorem nodup_overwrite {β : Type} (map : List (String × β)) {fields : List (String × β)}
    (h : (fields.map Prod.fst).Nodup) : ((overwrite fields map).map Prod.fst).Nodup := by
  induction map generalizing fields with
  | nil => exact h
  | cons p map ih => exact ih (nodup_setField p.1 p.2 h)

/-- A command that leaves names alone, or each once. -/
def KeyEffect.KeepsNames (f : KeyEffect S ρ) : Prop :=
  ∀ now e e' r, RedisStore.Named e → f now e = .ok (e', r) → RedisStore.Named e'

theorem onKey_named {k : String} {f : KeyEffect S ρ} (hf : f.KeepsNames) {s s' : Store S} {r : ρ}
    (hs : s.Named) (h : onKey k f s = .ok (s', r)) : s'.Named := by
  unfold onKey at h
  cases hstep : f s.now (s.find k) with
  | error err =>
      rw [hstep] at h
      cases h
  | ok out =>
      rw [hstep] at h
      cases h
      intro k' x hx
      rw [s.find_put k k'] at hx
      by_cases hk : k' = k
      · rw [if_pos hk] at hx
        exact hf _ _ _ _ (hs k) hstep x (Option.filter_eq_some_iff.mp hx).1
      · rw [if_neg hk] at hx
        exact hs k' x hx

end SpringDome.Lib.RedisStore
