/-
SpringDome.Protobuf.CodedInputRuns — programs that read a coded stream.

A program makes any calls it likes, each chosen by the answers so far, until
one fails. Limits are pushed and popped as on a stack. What such a program
computes depends on the bytes alone (`runOn_ofStream`): not on the buffers they
come in, nor on which fast path is taken.

Two things that the buffers do show are kept from the program. A tag of 0 where
no message ends stops it (`requireTag`): the readers of the library stop there
as well, and how much was consumed by then depends on the cut. And with a tag of
0 the second answer of `ReadTagWithCutoff` is not passed on (`requireCutoffTag`):
it says whether 0 is below the cutoff on the fast path, and is false on the slow
one.

How the proof goes: a stream is tracked by a cursor in its bytes (`Tracks`), one
lemma for each call that changes more than the place (§3), and a program run on
both answers the same (`Simulation.run_eq`). The stack of limits is sorted, the
one in force first, since `PopLimit` may be given only what `PushLimit` returned;
with any other limit the place could be behind it.
-/
import SpringDome.Protobuf.CodedInputTags
import SpringDome.Lib.Programs

namespace SpringDome.Protobuf

open SpringDome.Lib SpringDome.Lib.WireFormat

/-! ## 1. Calls -/

inductive Op where
  | readVarint32
  | readVarint64
  | readVarintSizeAsInt
  | readLittleEndian32
  | readLittleEndian64
  | readRaw (size : Nat)
  | readString (size : Int)
  | skip (count : Int)
  | readTag
  | readTagWithCutoff (cutoff : UInt32)
  | lastTagWas (expected : UInt32)
  | consumedEntireMessage
  | pushLimit (byteLimit : Int)
  | popLimit
  | bytesUntilLimit
  | currentPosition
  | setTotalBytesLimit (totalBytesLimit : Nat)
  | incrementRecursionDepth
  | decrementRecursionDepth

@[reducible] def Op.Answer : Op → Type
  | .readVarint32 => UInt32
  | .readVarint64 => UInt64
  | .readVarintSizeAsInt => Nat
  | .readLittleEndian32 => UInt32
  | .readLittleEndian64 => UInt64
  | .readRaw _ => List UInt8
  | .readString _ => List UInt8
  | .skip _ => Unit
  | .readTag => UInt32
  | .readTagWithCutoff _ => UInt32 × Bool
  | .lastTagWas _ => Bool
  | .consumedEntireMessage => Bool
  | .pushLimit _ => Unit
  | .popLimit => Unit
  | .bytesUntilLimit => Int
  | .currentPosition => Nat
  | .setTotalBytesLimit _ => Unit
  | .incrementRecursionDepth => Bool
  | .decrementRecursionDepth => Unit

/-- How a program stops before its end. -/
inductive Stop where
  | failed
  | overrun
  deriving DecidableEq, Repr

def toExcept {α σ : Type} (limits : List Nat) : Outcome α × σ → Except Stop (α × σ × List Nat)
  | (.done a, s) => .ok (a, s, limits)
  | (.failed, _) => .error .failed
  | (.overrun, _) => .error .overrun

/-- A tag of 0 has to be an end: behind any other the stream is left somewhere
in its bytes. -/
def requireTag (result : Outcome UInt32 × CodedInputStream) : Outcome UInt32 × CodedInputStream :=
  andThen result fun tag s =>
    if tag = 0 ∧ s.legitimateMessageEnd = false then (.failed, s) else (.done tag, s)

/-- The same. With a tag of 0 the second answer is false: the fast path compares
that tag with the cutoff, and the slow one does not. -/
def requireCutoffTag (result : Outcome (UInt32 × Bool) × CodedInputStream) :
    Outcome (UInt32 × Bool) × CodedInputStream :=
  andThen result fun (tag, below) s =>
    if tag = 0 ∧ s.legitimateMessageEnd = false then (.failed, s)
    else (.done (tag, decide (tag ≠ 0) && below), s)

/-- The calls, with the limits that have been pushed. -/
def streamHandler : Handler Op.Answer Stop (CodedInputStream × List Nat)
  | .readVarint32, (s, limits) => toExcept limits s.readVarint32
  | .readVarint64, (s, limits) => toExcept limits s.readVarint64
  | .readVarintSizeAsInt, (s, limits) => toExcept limits s.readVarintSizeAsInt
  | .readLittleEndian32, (s, limits) => toExcept limits s.readLittleEndian32
  | .readLittleEndian64, (s, limits) => toExcept limits s.readLittleEndian64
  | .readRaw size, (s, limits) => toExcept limits (s.readRaw size)
  | .readString size, (s, limits) => toExcept limits (s.readString size)
  | .skip count, (s, limits) => toExcept limits (s.skip count)
  | .readTag, (s, limits) => toExcept limits (requireTag s.readTag)
  | .readTagWithCutoff cutoff, (s, limits) =>
      toExcept limits (requireCutoffTag (s.readTagWithCutoff cutoff))
  | .lastTagWas expected, (s, limits) => .ok (s.lastTagWas expected, s, limits)
  | .consumedEntireMessage, (s, limits) => .ok (s.consumedEntireMessage, s, limits)
  | .pushLimit byteLimit, (s, limits) =>
      .ok ((), (s.pushLimit byteLimit).2, (s.pushLimit byteLimit).1 :: limits)
  | .popLimit, (_, []) => .error .failed
  | .popLimit, (s, limit :: limits) => .ok ((), s.popLimit limit, limits)
  | .bytesUntilLimit, (s, limits) => .ok (s.bytesUntilLimit, s, limits)
  | .currentPosition, (s, limits) => .ok (s.currentPosition, s, limits)
  | .setTotalBytesLimit n, (s, limits) => .ok ((), s.setTotalBytesLimit n, limits)
  | .incrementRecursionDepth, (s, limits) =>
      .ok (s.incrementRecursionDepth.1, s.incrementRecursionDepth.2, limits)
  | .decrementRecursionDepth, (s, limits) => .ok ((), s.decrementRecursionDepth, limits)

/-! ## 2. The same on a cursor -/

def ofOption {α : Type} (limits : List Nat) :
    Option (α × Cursor) → Except Stop (α × Cursor × List Nat)
  | some (a, c) => .ok (a, c, limits)
  | none => .error .failed

namespace Cursor

def skip (count : Int) (c : Cursor) : Option (Unit × Cursor) :=
  if count < 0 then none
  else if count.toNat ≤ c.readable.length then some ((), c.advance count.toNat)
  else none

def readString (size : Int) (c : Cursor) : Option (List UInt8 × Cursor) :=
  if size < 0 then none else c.readWith (readBytes size.toNat)

def requireTag (c : Cursor) : Option (UInt32 × Cursor) :=
  c.readTag.bind fun (tag, c) =>
    if tag = 0 ∧ c.legitimateMessageEnd = false then none else some (tag, c)

end Cursor

def cursorHandler : Handler Op.Answer Stop (Cursor × List Nat)
  | .readVarint32, (c, limits) =>
      ofOption limits (c.readWith (readVarintAs kMaxVarintBytes UInt32.ofNat))
  | .readVarint64, (c, limits) =>
      ofOption limits (c.readWith (readVarintAs kMaxVarintBytes UInt64.ofNat))
  | .readVarintSizeAsInt, (c, limits) => ofOption limits (c.readWith CodedInputStream.readSizeAsInt)
  | .readLittleEndian32, (c, limits) =>
      ofOption limits (c.readWith (CodedInputStream.readFixedNumber UInt32.ofNat 4))
  | .readLittleEndian64, (c, limits) =>
      ofOption limits (c.readWith (CodedInputStream.readFixedNumber UInt64.ofNat 8))
  | .readRaw size, (c, limits) => ofOption limits (c.readWith (readBytes size))
  | .readString size, (c, limits) => ofOption limits (c.readString size)
  | .skip count, (c, limits) => ofOption limits (c.skip count)
  | .readTag, (c, limits) => ofOption limits c.requireTag
  | .readTagWithCutoff cutoff, (c, limits) =>
      ofOption limits (c.requireTag.map fun (tag, c) =>
        ((tag, decide (tag ≠ 0) && decide (tag ≤ cutoff)), c))
  | .lastTagWas expected, (c, limits) => .ok (c.lastTag == expected, c, limits)
  | .consumedEntireMessage, (c, limits) => .ok (c.legitimateMessageEnd, c, limits)
  | .pushLimit byteLimit, (c, limits) =>
      .ok ((), (c.pushLimit byteLimit).2, (c.pushLimit byteLimit).1 :: limits)
  | .popLimit, (_, []) => .error .failed
  | .popLimit, (c, limit :: limits) => .ok ((), c.popLimit limit, limits)
  | .bytesUntilLimit, (c, limits) => .ok (c.bytesUntilLimit, c, limits)
  | .currentPosition, (c, limits) => .ok (c.position, c, limits)
  | .setTotalBytesLimit n, (c, limits) => .ok ((), c.setTotalBytesLimit n, limits)
  | .incrementRecursionDepth, (c, limits) =>
      .ok (decide (0 ≤ c.recursionBudget - 1), { c with recursionBudget := c.recursionBudget - 1 },
        limits)
  | .decrementRecursionDepth, (c, limits) => .ok ((), c.decrementRecursionDepth, limits)

/-! ## 3. One call -/

/-- The stream is the cursor, and a limit that was pushed is not before the one
in force. -/
structure Tracks (x : CodedInputStream × List Nat) (y : Cursor × List Nat) : Prop where
  wellFormed : x.1.WellFormed
  abs : x.1.abs = y.1
  limits : x.2 = y.2
  ended : y.1.Ended
  sorted : (y.1.currentLimit :: y.2).Pairwise (· ≤ ·)
  bounded : ∀ limit ∈ y.2, limit ≤ intMax

theorem Tracks.refl {s : CodedInputStream} {limits : List Nat} (h : s.WellFormed)
    (hended : s.abs.Ended) (hsorted : (s.currentLimit :: limits).Pairwise (· ≤ ·))
    (hbounded : ∀ limit ∈ limits, limit ≤ intMax) : Tracks (s, limits) (s.abs, limits) :=
  ⟨h, rfl, rfl, hended, hsorted, hbounded⟩

namespace Cursor

/-- A call that takes readable bytes, or finds that there are none. -/
def Keeps (c c' : Cursor) : Prop := c.Ended → c'.Ended ∧ c'.currentLimit = c.currentLimit

theorem keeps_advance (c : Cursor) {n : Nat} (h : n ≤ c.readable.length) : c.Keeps (c.advance n) := by
  intro hended
  refine ⟨?_, rfl⟩
  intro hend
  have hnil := hended.readable hend
  rw [hnil] at h
  obtain rfl : n = 0 := Nat.le_zero.mp h
  exact hended hend

theorem keeps_readWith {α : Type} {reader : List UInt8 → Except Failure (α × List UInt8)}
    {c c' : Cursor} {a : α} (h : c.readWith reader = some (a, c')) : c.Keeps c' := by
  unfold readWith at h
  split at h
  · cases h
    exact c.keeps_advance (Nat.sub_le _ _)
  · cases h

theorem keeps_readString {c c' : Cursor} {size : Int} {a : List UInt8}
    (h : c.readString size = some (a, c')) : c.Keeps c' := by
  unfold readString at h
  split at h
  · cases h
  · exact keeps_readWith h

theorem keeps_skip {c c' : Cursor} {count : Int} {a : Unit} (h : c.skip count = some (a, c')) :
    c.Keeps c' := by
  unfold skip at h
  split at h
  · cases h
  · split at h
    · rename_i hle
      cases h
      exact c.keeps_advance hle
    · cases h

/-- At the end of what may be read, the message's limit is met, or the end of
the bytes, or the total limit. -/
theorem ended_endsMessage {c : Cursor} (hclosest : c.position ≤ c.closestLimit)
    (hnone : c.readable = []) : ({ c with legitimateMessageEnd := c.endsMessage } : Cursor).Ended := by
  intro hend
  by_cases hahead : c.ahead = []
  · exact .inr hahead
  · refine .inl ?_
    have hle : c.closestLimit ≤ c.position := by
      refine Classical.byContradiction fun hlt => hahead ?_
      have htake := List.take_eq_nil_iff.mp hnone
      rcases htake with hzero | hnil
      · omega
      · exact hnil
    have hends : (decide (c.position < c.totalBytesLimit) ||
        decide (c.currentLimit = c.totalBytesLimit)) = true := hend
    rw [Bool.or_eq_true, decide_eq_true_eq, decide_eq_true_eq] at hends
    unfold closestLimit at hclosest hle
    show c.currentLimit = c.position
    omega

theorem keeps_nextTag {c c' : Cursor} {tag : UInt32} (hclosest : c.position ≤ c.closestLimit)
    (h : c.nextTag = some (tag, c')) : c.Keeps c' := by
  unfold nextTag at h
  split at h
  · cases h
    exact c.keeps_advance (Nat.sub_le _ _)
  · split at h
    · rename_i hnone
      cases h
      exact fun _ => ⟨ended_endsMessage hclosest hnone, rfl⟩
    · cases h

theorem keeps_requireTag {c c' : Cursor} {tag : UInt32} (hclosest : c.position ≤ c.closestLimit)
    (h : c.requireTag = some (tag, c')) : c.Keeps c' := by
  unfold requireTag readTag at h
  obtain ⟨⟨tag', c₁⟩, hread, hrest⟩ := Option.bind_eq_some_iff.mp h
  obtain ⟨⟨tag'', c₂⟩, hnext, heq⟩ := Option.map_eq_some_iff.mp hread
  cases heq
  dsimp only at hrest
  split at hrest
  · cases hrest
  · cases hrest
    intro hended
    obtain ⟨hended', hlimit⟩ := keeps_nextTag hclosest hnext hended
    exact ⟨hended', hlimit⟩

end Cursor

/-- Calls that read: what `Answers` says, with the limits as they were. -/
theorem agree_of_answers {α : Type} {result : Outcome α × CodedInputStream}
    {spec : Option (α × Cursor)} {s : CodedInputStream} {c : Cursor} {limits : List Nat}
    (h : Tracks (s, limits) (c, limits)) (hanswers : Answers result spec)
    (hkeeps : ∀ a c', spec = some (a, c') → c.Keeps c') :
    Agree Tracks (toExcept limits result) (ofOption limits spec) := by
  cases spec with
  | none =>
      obtain ⟨outcome, s'⟩ := result
      obtain rfl : outcome = .failed := hanswers
      exact rfl
  | some x =>
      obtain ⟨a, c'⟩ := x
      obtain ⟨s', rfl, hwell, rfl⟩ := hanswers
      obtain ⟨hended, hlimit⟩ := hkeeps a _ rfl h.ended
      refine ⟨rfl, hwell, rfl, rfl, hended, ?_, h.bounded⟩
      have hsorted := h.sorted
      dsimp only at hsorted ⊢
      rw [hlimit]
      exact hsorted

theorem requireTag_answers {s : CodedInputStream} (h : s.WellFormed) (hended : s.abs.Ended) :
    Answers (requireTag s.readTag) s.abs.requireTag := by
  have htag := CodedInputStream.readTag_answers h hended
  unfold requireTag Cursor.requireTag
  cases hread : s.abs.readTag with
  | none =>
      rw [hread] at htag
      obtain ⟨s', hs', hend⟩ := htag
      rw [hs', andThen, if_pos ⟨rfl, hend⟩]
      rfl
  | some x =>
      obtain ⟨tag, c⟩ := x
      rw [hread] at htag
      obtain ⟨s', hs', hwell, rfl⟩ := htag
      rw [hs', andThen, Option.bind_some]
      dsimp only
      by_cases hzero : tag = 0 ∧ s'.legitimateMessageEnd = false
      · rw [if_pos hzero, if_pos (show tag = 0 ∧ s'.abs.legitimateMessageEnd = false from hzero)]
      · rw [if_neg hzero,
          if_neg (show ¬(tag = 0 ∧ s'.abs.legitimateMessageEnd = false) from hzero)]
        exact ⟨s', rfl, hwell, rfl⟩

theorem requireCutoffTag_answers {s : CodedInputStream} (h : s.WellFormed)
    (hended : s.abs.Ended) (cutoff : UInt32) :
    Answers (requireCutoffTag (s.readTagWithCutoff cutoff))
      (s.abs.requireTag.map fun (tag, c) =>
        ((tag, decide (tag ≠ 0) && decide (tag ≤ cutoff)), c)) := by
  have htag := CodedInputStream.readTagWithCutoff_answers h hended cutoff
  unfold requireCutoffTag Cursor.requireTag
  cases hread : s.abs.readTag with
  | none =>
      rw [hread] at htag
      obtain ⟨below, s', hs', hend⟩ := htag
      rw [hs', andThen]
      dsimp only
      rw [if_pos ⟨rfl, hend⟩]
      rfl
  | some x =>
      obtain ⟨tag, c⟩ := x
      rw [hread] at htag
      obtain ⟨below, s', hs', hwell, rfl, hbelow⟩ := htag
      rw [hs', andThen, Option.bind_some]
      dsimp only
      by_cases hzero : tag = 0 ∧ s'.legitimateMessageEnd = false
      · rw [if_pos hzero, if_pos (show tag = 0 ∧ s'.abs.legitimateMessageEnd = false from hzero)]
        rfl
      · rw [if_neg hzero,
          if_neg (show ¬(tag = 0 ∧ s'.abs.legitimateMessageEnd = false) from hzero), Option.map_some]
        refine ⟨s', ?_, hwell, rfl⟩
        by_cases hne : tag = 0
        · rw [hne]
          rfl
        · rw [hbelow hne]

namespace Cursor

theorem ended_pushLimit {c : Cursor} (h : c.Ended) (byteLimit : Int) :
    (c.pushLimit byteLimit).2.Ended := by
  unfold pushLimit
  split
  · intro hend
    rcases h hend with heq | hahead
    · omega
    · exact .inr hahead
  · exact h

theorem pushLimit_old (c : Cursor) (byteLimit : Int) :
    (c.pushLimit byteLimit).1 = c.currentLimit := by
  unfold pushLimit
  split <;> rfl

/-- A limit that is pushed is not behind the one in force. -/
theorem pushLimit_le (c : Cursor) (byteLimit : Int) :
    (c.pushLimit byteLimit).2.currentLimit ≤ c.currentLimit := by
  unfold pushLimit
  split
  · dsimp only
    omega
  · exact Nat.le_refl _

theorem ended_decrementRecursionDepth {c : Cursor} (h : c.Ended) :
    c.decrementRecursionDepth.Ended := by
  unfold decrementRecursionDepth
  split <;> exact h

theorem decrementRecursionDepth_currentLimit (c : Cursor) :
    c.decrementRecursionDepth.currentLimit = c.currentLimit := by
  unfold decrementRecursionDepth
  split <;> rfl

end Cursor

namespace Tracks

variable {s : CodedInputStream} {limit : Nat} {limits : List Nat}

theorem pushLimit (h : Tracks (s, limits) (s.abs, limits)) (byteLimit : Int) :
    Tracks ((s.pushLimit byteLimit).2, (s.pushLimit byteLimit).1 :: limits)
      ((s.abs.pushLimit byteLimit).2, (s.abs.pushLimit byteLimit).1 :: limits) := by
  have hwell : s.WellFormed := h.wellFormed
  have hsorted : (s.abs.currentLimit :: limits).Pairwise (· ≤ ·) := h.sorted
  have hbounded : ∀ l ∈ limits, l ≤ intMax := h.bounded
  obtain ⟨hold, hwell', habs⟩ := CodedInputStream.pushLimit_spec hwell byteLimit
  have hle := s.abs.pushLimit_le byteLimit
  have hfirst := s.abs.pushLimit_old byteLimit
  refine ⟨hwell', habs, ?_, Cursor.ended_pushLimit h.ended byteLimit, ?_, ?_⟩
  · show _ :: limits = _ :: limits
    rw [hold]
  · show ((s.abs.pushLimit byteLimit).2.currentLimit :: (s.abs.pushLimit byteLimit).1 ::
      limits).Pairwise (· ≤ ·)
    rw [hfirst]
    refine List.pairwise_cons.mpr ⟨?_, hsorted⟩
    intro l hmem
    rcases List.mem_cons.mp hmem with rfl | hmem
    · exact hle
    · exact Nat.le_trans hle (List.rel_of_pairwise_cons hsorted hmem)
  · intro l hmem
    rcases List.mem_cons.mp hmem with rfl | hmem
    · rw [hfirst]
      exact hwell.limit
    · exact hbounded l hmem

/-- What was pushed is not before the place. -/
theorem popLimit (h : Tracks (s, limit :: limits) (s.abs, limit :: limits)) :
    Tracks (s.popLimit limit, limits) (s.abs.popLimit limit, limits) := by
  have hwell : s.WellFormed := h.wellFormed
  have hsorted : (s.currentLimit :: limit :: limits).Pairwise (· ≤ ·) := h.sorted
  have hbounded : ∀ l ∈ limit :: limits, l ≤ intMax := h.bounded
  have hle := List.rel_of_pairwise_cons hsorted List.mem_cons_self
  have hposition : s.currentPosition ≤ limit := by
    have hmin := s.closestLimit_le
    have hclosest := hwell.closest
    omega
  obtain ⟨hwell', habs⟩ := CodedInputStream.popLimit_spec hwell
    (hbounded limit List.mem_cons_self) hposition
  refine ⟨hwell', habs, rfl, ?_, (List.pairwise_cons.mp hsorted).2, ?_⟩
  · exact fun hend => nomatch hend
  · exact fun l hmem => hbounded l (List.mem_cons_of_mem _ hmem)

theorem setTotalBytesLimit (h : Tracks (s, limits) (s.abs, limits)) (n : Nat) :
    Tracks (s.setTotalBytesLimit n, limits) (s.abs.setTotalBytesLimit n, limits) := by
  obtain ⟨hwell, habs⟩ := CodedInputStream.setTotalBytesLimit_spec h.wellFormed n
  exact ⟨hwell, habs, rfl, h.ended, h.sorted, h.bounded⟩

theorem incrementRecursionDepth (h : Tracks (s, limits) (s.abs, limits)) :
    Tracks (s.incrementRecursionDepth.2, limits)
      ({ s.abs with recursionBudget := s.abs.recursionBudget - 1 }, limits) := by
  have hwell : s.WellFormed := h.wellFormed
  exact ⟨⟨hwell.position, hwell.total, hwell.limit, hwell.afterLimit, hwell.closest,
    hwell.overflow, hwell.input⟩, rfl, rfl, h.ended, h.sorted, h.bounded⟩

theorem decrementRecursionDepth (h : Tracks (s, limits) (s.abs, limits)) :
    Tracks (s.decrementRecursionDepth, limits) (s.abs.decrementRecursionDepth, limits) := by
  obtain ⟨hwell, habs⟩ := CodedInputStream.decrementRecursionDepth_spec h.wellFormed
  refine ⟨hwell, habs, rfl, Cursor.ended_decrementRecursionDepth h.ended, ?_, h.bounded⟩
  show (s.abs.decrementRecursionDepth.currentLimit :: limits).Pairwise (· ≤ ·)
  rw [Cursor.decrementRecursionDepth_currentLimit]
  exact h.sorted

end Tracks

/-- What a stream does, its cursor does. -/
theorem streamHandler_simulation : Simulation streamHandler cursorHandler Tracks := by
  intro op x y h
  obtain ⟨s, limits⟩ := x
  obtain ⟨c, limits'⟩ := y
  obtain rfl : limits = limits' := h.limits
  obtain rfl : s.abs = c := h.abs
  have hwell : s.WellFormed := h.wellFormed
  have hended : s.abs.Ended := h.ended
  have hclosest : s.abs.position ≤ s.abs.closestLimit := hwell.closest
  cases op with
  | readVarint32 =>
      exact agree_of_answers h (CodedInputStream.readVarint32_simulates s hwell)
        fun _ _ => Cursor.keeps_readWith
  | readVarint64 =>
      exact agree_of_answers h (CodedInputStream.readVarint64_simulates s hwell)
        fun _ _ => Cursor.keeps_readWith
  | readVarintSizeAsInt =>
      exact agree_of_answers h (CodedInputStream.readVarintSizeAsInt_simulates s hwell)
        fun _ _ => Cursor.keeps_readWith
  | readLittleEndian32 =>
      exact agree_of_answers h
        (CodedInputStream.readFixed_simulates CodedInputStream.readsFixed32 s hwell)
        fun _ _ => Cursor.keeps_readWith
  | readLittleEndian64 =>
      exact agree_of_answers h
        (CodedInputStream.readFixed_simulates CodedInputStream.readsFixed64 s hwell)
        fun _ _ => Cursor.keeps_readWith
  | readRaw size =>
      exact agree_of_answers h (CodedInputStream.readRaw_simulates size s hwell)
        fun _ _ => Cursor.keeps_readWith
  | readString size =>
      exact agree_of_answers h (CodedInputStream.readString_simulates size s hwell)
        fun _ _ => Cursor.keeps_readString
  | skip count =>
      exact agree_of_answers h (CodedInputStream.skip_simulates count s hwell)
        fun _ _ => Cursor.keeps_skip
  | readTag =>
      exact agree_of_answers h (requireTag_answers hwell hended)
        fun _ _ => Cursor.keeps_requireTag hclosest
  | readTagWithCutoff cutoff =>
      refine agree_of_answers h (requireCutoffTag_answers hwell hended cutoff) ?_
      intro a c' hspec
      obtain ⟨⟨tag, c₁⟩, hread, heq⟩ := Option.map_eq_some_iff.mp hspec
      cases heq
      exact Cursor.keeps_requireTag hclosest hread
  | lastTagWas expected => exact ⟨rfl, h⟩
  | consumedEntireMessage => exact ⟨rfl, h⟩
  | bytesUntilLimit => exact ⟨rfl, h⟩
  | currentPosition => exact ⟨rfl, h⟩
  | pushLimit byteLimit => exact ⟨rfl, h.pushLimit byteLimit⟩
  | popLimit =>
      cases limits with
      | nil => exact rfl
      | cons limit limits => exact ⟨rfl, h.popLimit⟩
  | setTotalBytesLimit n => exact ⟨rfl, h.setTotalBytesLimit n⟩
  | incrementRecursionDepth => exact ⟨rfl, h.incrementRecursionDepth⟩
  | decrementRecursionDepth => exact ⟨rfl, h.decrementRecursionDepth⟩

/-! ## 4. Runs -/

/-- A program on a new stream. -/
def runOn {ρ : Type} (p : Program Op.Answer ρ) (s : CodedInputStream) : Except Stop ρ :=
  p.run streamHandler (s, [])

theorem cursorHandler_ne_overrun (op : Op) (y : Cursor × List Nat) :
    cursorHandler op y ≠ .error .overrun := by
  obtain ⟨c, limits⟩ := y
  have hoption : ∀ {α : Type} (spec : Option (α × Cursor)),
      ofOption limits spec ≠ .error .overrun := by
    intro α spec heq
    cases spec <;> cases heq
  cases op with
  | popLimit => cases limits <;> exact fun heq => nomatch heq
  | readVarint32 => exact hoption _
  | readVarint64 => exact hoption _
  | readVarintSizeAsInt => exact hoption _
  | readLittleEndian32 => exact hoption _
  | readLittleEndian64 => exact hoption _
  | readRaw size => exact hoption _
  | readString size => exact hoption _
  | skip count => exact hoption _
  | readTag => exact hoption _
  | readTagWithCutoff cutoff => exact hoption _
  | lastTagWas _ | consumedEntireMessage | pushLimit _ | bytesUntilLimit | currentPosition
  | setTotalBytesLimit _ | incrementRecursionDepth | decrementRecursionDepth =>
      exact fun heq => nomatch heq

theorem runOn_eq {s : CodedInputStream} (h : s.WellFormed) (hended : s.abs.Ended) {ρ : Type}
    (p : Program Op.Answer ρ) : runOn p s = p.run cursorHandler (s.abs, []) :=
  streamHandler_simulation.run_eq p
    (Tracks.refl h hended (List.pairwise_singleton _ _) fun _ hmem => nomatch hmem)

/-- An array is read as any stream of its bytes on which a limit at their end
was pushed. -/
theorem runOn_ofArray {input : List (List UInt8)} (h : ∀ data ∈ input, data.length ≤ intMax)
    (hsize : input.flatten.length ≤ intMax) {ρ : Type} (p : Program Op.Answer ρ) :
    runOn p (.ofArray input.flatten) =
      runOn p ((CodedInputStream.ofStream input).pushLimit input.flatten.length).2 := by
  obtain ⟨hwell, habs⟩ := CodedInputStream.ofArray_spec hsize
  obtain ⟨hwell', habs'⟩ := CodedInputStream.ofStream_spec h
  obtain ⟨-, hpushed, hplace⟩ := CodedInputStream.pushLimit_spec hwell' input.flatten.length
  have hsame : ((CodedInputStream.ofStream input).pushLimit input.flatten.length).2.abs =
      (CodedInputStream.ofArray input.flatten).abs := by
    rw [hplace, habs', habs]
    unfold Cursor.pushLimit
    split
    · show Cursor.mk input.flatten 0 (0 + (input.flatten.length : Int).toNat) intMax 0 false 100
        100 = _
      rw [Int.toNat_natCast, Nat.zero_add]
    · rename_i hlimit
      have hfull : input.flatten.length = intMax := by
        dsimp only at hlimit
        omega
      rw [hfull]
  rw [runOn_eq hwell (by rw [habs]; exact fun hend => nomatch hend) p,
    runOn_eq hpushed (by rw [hsame, habs]; exact fun hend => nomatch hend) p, hsame]

/-- Whatever a program does with a stream, it does the same on any other cut of
the same bytes into buffers, and nothing is read outside of these. An array of
the bytes is the stream with a limit at their end. -/
theorem runOn_ofStream {input input' : List (List UInt8)}
    (h : ∀ data ∈ input, data.length ≤ intMax) (h' : ∀ data ∈ input', data.length ≤ intMax)
    (hbytes : input.flatten = input'.flatten) {ρ : Type} (p : Program Op.Answer ρ) :
    runOn p (.ofStream input) = runOn p (.ofStream input') ∧
      runOn p (.ofStream input) ≠ .error .overrun ∧
        (input.flatten.length ≤ intMax →
          runOn p (.ofArray input.flatten) =
            runOn p ((CodedInputStream.ofStream input).pushLimit input.flatten.length).2 ∧
          runOn p (.ofArray input.flatten) ≠ .error .overrun) := by
  obtain ⟨hwell, habs⟩ := CodedInputStream.ofStream_spec h
  obtain ⟨hwell', habs'⟩ := CodedInputStream.ofStream_spec h'
  have hrun := runOn_eq hwell (by rw [habs]; exact fun hend => nomatch hend) p
  have hrun' := runOn_eq hwell' (by rw [habs']; exact fun hend => nomatch hend) p
  refine ⟨?_, ?_, fun hsize => ⟨runOn_ofArray h hsize p, ?_⟩⟩
  · rw [hrun, hrun', habs, habs', hbytes]
  · rw [hrun]
    exact p.run_ne_error cursorHandler_ne_overrun _
  · obtain ⟨hwell'', habs''⟩ := CodedInputStream.ofArray_spec hsize
    rw [runOn_eq hwell'' (by rw [habs'']; exact fun hend => nomatch hend) p]
    exact p.run_ne_error cursorHandler_ne_overrun _

theorem runOn_ofStream_varint :
    runOn (.call .readVarint32 fun value => .ret value) (.ofStream [[172], [2]]) =
        runOn (.call .readVarint32 fun value => .ret value) (.ofStream [[172, 2]]) ∧
      runOn (.call .readVarint32 fun value => .ret value) (.ofStream [[172], [2]]) ≠
        .error .overrun ∧
      (([[172], [2]] : List (List UInt8)).flatten.length ≤ intMax →
        runOn (.call .readVarint32 fun value => .ret value) (.ofArray [[172], [2]].flatten) =
            runOn (.call .readVarint32 fun value => .ret value)
              ((CodedInputStream.ofStream [[172], [2]]).pushLimit
                ([[172], [2]] : List (List UInt8)).flatten.length).2 ∧
          runOn (.call .readVarint32 fun value => .ret value) (.ofArray [[172], [2]].flatten) ≠
            .error .overrun) :=
  runOn_ofStream (by decide) (by decide) rfl _

end SpringDome.Protobuf
