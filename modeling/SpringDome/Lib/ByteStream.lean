/-
SpringDome.Lib.ByteStream — bytes that are read in buffers, a place in them, and
what a reader may ask.

A reader fetches the next buffer, gives the end of that buffer back, skips, or
asks how far it is. `Place.Step` says what it is answered. Where the buffers end
is left open, so a step is a relation; everything else follows from the bytes.
-/
import Mathlib.Data.List.Basic

namespace SpringDome.Lib.ByteStream

/-! ## 1. Places -/

/-- A place in bytes, and the size of the buffer that may be given back. -/
@[ext]
structure Place where
  bytes : List UInt8
  position : Nat
  lastSize : Nat
  position_le : position ≤ bytes.length
  lastSize_le : lastSize ≤ position

namespace Place

def start (bytes : List UInt8) : Place := ⟨bytes, 0, 0, Nat.zero_le _, Nat.le_refl _⟩

def ahead (p : Place) : List UInt8 := p.bytes.drop p.position

theorem length_ahead (p : Place) : p.ahead.length = p.bytes.length - p.position :=
  List.length_drop

theorem ahead_eq_nil {p : Place} : p.ahead = [] ↔ p.bytes.length ≤ p.position :=
  List.drop_eq_nil_iff

/-- Somewhere else, with nothing to give back. -/
def moveTo (p : Place) (position : Nat) (h : position ≤ p.bytes.length) : Place :=
  ⟨p.bytes, position, 0, h, Nat.zero_le _⟩

def skip (p : Place) (count : Nat) : Place :=
  p.moveTo (min (p.position + count) p.bytes.length) (Nat.min_le_right _ _)

def backUp (p : Place) (count : Nat) : Place :=
  p.moveTo (p.position - count) (Nat.le_trans (Nat.sub_le _ _) p.position_le)

/-- The next `size` bytes are fetched. -/
def fetch (p : Place) (size : Nat) (h : p.position + size ≤ p.bytes.length) : Place :=
  ⟨p.bytes, p.position + size, size, h, Nat.le_add_left _ _⟩

theorem skip_position (p : Place) {count : Nat} (h : count ≤ p.ahead.length) :
    (p.skip count).position = p.position + count := by
  have hle := p.position_le
  rw [length_ahead] at h
  exact Nat.min_eq_left (by omega)

theorem skip_all (p : Place) {count : Nat} (h : p.ahead.length ≤ count) :
    (p.skip count).position = p.bytes.length := by
  rw [length_ahead] at h
  exact Nat.min_eq_right (by omega)

/-! ## 2. Calls -/

/-- A buffer was fetched, of so many bytes at least, or there is nothing ahead. -/
def Fetches (p : Place) (least : Nat) : Option (List UInt8) → Place → Prop
  | some data, p' => ∃ size h, least ≤ size ∧ data = p.ahead.take size ∧ p' = p.fetch size h
  | none, p' => p.ahead = [] ∧ p' = p.backUp 0

/-- A skip succeeds if the bytes are there. At the end, a skip of nothing may
be refused. -/
def Skips (p : Place) (count : Nat) (all : Bool) : Prop :=
  if all then count ≤ p.ahead.length else p.ahead.length < count ∨ count = 0 ∧ p.ahead = []

theorem skip_ahead {p : Place} {count : Nat} (h : p.ahead.length ≤ count) :
    (p.skip count).ahead = [] :=
  ahead_eq_nil.mpr (Nat.le_of_eq (p.skip_all h).symm)

/-- At the end a skip stays there, and may say so. -/
theorem skips_end {p : Place} (h : p.ahead = []) (count : Nat) :
    p.Skips count false ∧ (p.skip count).position = p.position := by
  constructor
  · rcases Nat.eq_zero_or_pos count with hzero | hcount
    · exact .inr ⟨hzero, h⟩
    · exact .inl (h ▸ hcount)
  · rw [p.skip_all (by simp [h])]
    exact Nat.le_antisymm (ahead_eq_nil.mp h) p.position_le

/-- A skip goes on where another ended. -/
theorem skip_skip {p : Place} {k : Nat} (hk : k ≤ p.ahead.length) (count : Nat) :
    (p.skip k).skip count = p.skip (k + count) := by
  have hposition := p.skip_position hk
  ext1
  · rfl
  · show min ((p.skip k).position + count) p.bytes.length = min (p.position + (k + count)) p.bytes.length
    rw [hposition, Nat.add_assoc]
  · rfl

theorem Skips.after {p : Place} {k count : Nat} {all : Bool} (h : (p.skip k).Skips count all)
    (hk : k ≤ p.ahead.length) (hcount : 0 < count ∨ k = 0) : p.Skips (k + count) all := by
  have hposition := p.skip_position hk
  have hlength := p.length_ahead
  have hlength' := (p.skip k).length_ahead
  rw [hposition, show (p.skip k).bytes = p.bytes from rfl] at hlength'
  cases all with
  | true =>
      have hin : count ≤ (p.skip k).ahead.length := h
      show k + count ≤ p.ahead.length
      omega
  | false =>
      have hshort : (p.skip k).ahead.length < count ∨ count = 0 ∧ (p.skip k).ahead = [] := h
      rcases hshort with hlt | ⟨hzero, hnil⟩
      · exact .inl (by omega)
      · rw [hnil, List.length_nil] at hlength'
        exact .inr ⟨by omega, List.eq_nil_of_length_eq_zero (by omega)⟩

end Place

inductive StreamCall where
  | next
  | backUp (count : Nat)
  | skip (count : Nat)
  | byteCount
  deriving DecidableEq, Repr

inductive StreamAnswer where
  | next (data : Option (List UInt8))
  | backUp
  | skip (all : Bool)
  | byteCount (n : Int)
  deriving DecidableEq, Repr

/-- Only the end of the last buffer may be given back, and once. -/
def Place.Allows (p : Place) : StreamCall → Prop
  | .backUp count => 0 < p.lastSize ∧ count ≤ p.lastSize
  | _ => True

inductive Place.Step (least : Nat) (p : Place) : StreamCall → StreamAnswer → Place → Prop where
  | next {data : Option (List UInt8)} {p' : Place} (h : p.Fetches least data p') :
      Step least p .next (.next data) p'
  | backUp {count : Nat} (h : p.Allows (.backUp count)) :
      Step least p (.backUp count) .backUp (p.backUp count)
  | skip {count : Nat} {all : Bool} (h : p.Skips count all) :
      Step least p (.skip count) (.skip all) (p.skip count)
  | byteCount : Step least p .byteCount (.byteCount p.position) p

/-- The calls are allowed, as far as a reader can tell from the buffers: the
last had this size. -/
def Respects : Nat → List (StreamCall × StreamAnswer) → Prop
  | _, [] => True
  | _, (.next, .next data) :: more => Respects (data.getD []).length more
  | size, (.backUp count, _) :: more => 0 < size ∧ count ≤ size ∧ Respects 0 more
  | size, (.byteCount, _) :: more => Respects size more
  | _, _ :: more => Respects 0 more

end SpringDome.Lib.ByteStream
