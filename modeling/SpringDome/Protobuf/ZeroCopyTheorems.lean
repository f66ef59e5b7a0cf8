/-
SpringDome.Protobuf.ZeroCopyTheorems — every stream is a place in its bytes.

`Obeys` is what a stream promises: there is a place for each of its states, and
the four calls move it there. §2 draws from this, once, what a reader sees of a
stream. §3 and §4 are the streams that hold bytes of their own; those that read
other streams are in ZeroCopyNesting.

A source that copies is taken at the word of its interface (`Copies`): `Read`
and `Skip` stop short only at the end. The default `Skip` keeps that if `Read`
does (`defaultSkip_rest`). The one override there is, by a seek, does not
(`CopyingFileInputStream.not_copies`): a file that can seek is skipped behind its
end. So §4 ends with a pipe.

How the proofs go. A stream that holds its bytes is at the place its fields say,
and each call is arithmetic on them. The adaptor has read a front of the bytes
and its source has the back (`Stands`); the place is between, by the bytes that
were given back. A call is then one of four moves, each a lemma about `Stands`:
the buffer is shown again, a new one is read, the end is found, or bytes are
skipped. The lemmas say what the invariant is after the move, and `obeys` only
has to find which move a call makes.

`least` is how many bytes a buffer has at least: 1 for the streams here, 0 for a
source that is free to hand out empty ones. A reader who must make progress asks
for 1, and a limited stream cannot promise more.
-/
import SpringDome.Lib.Programs
import SpringDome.Protobuf.ZeroCopyInputStream

namespace SpringDome.Protobuf

open SpringDome.Lib
open SpringDome.Lib.ByteStream
open ZeroCopyInputStream

/-! ## 1. The promise -/

section Reader

variable {σ : Type} [ZeroCopyInputStream σ]

/-- With each call a stream goes where its bytes say. A buffer may be empty if
`least` is 0. -/
structure Obeys (least : Nat) (At : σ → Place → Prop) : Prop where
  next_at : ∀ {s p}, At s p → ∃ p', p.Fetches least (next s).1 p' ∧ At (next s).2 p'
  backUp_at : ∀ {s p} {count : Nat}, At s p → p.Allows (.backUp count) →
    ∃ s', backUp s count = some s' ∧ At s' (p.backUp count)
  skip_at : ∀ {s p} (count : Nat), At s p →
    ∃ all s', skip s count = some (all, s') ∧ p.Skips count all ∧ At s' (p.skip count)
  byteCount_at : ∀ {s p}, At s p → byteCount s = p.position

/-! ## 2. What a reader sees -/

/-- A call; none if a check fails. -/
def perform (s : σ) : StreamCall → Option (StreamAnswer × σ)
  | .next => some (.next (next s).1, (next s).2)
  | .backUp count => (backUp s count).map fun s => (.backUp, s)
  | .skip count => (skip s count).map fun out => (.skip out.1, out.2)
  | .byteCount => some (.byteCount (byteCount s), s)

def Performs (s : σ) (call : StreamCall) (answer : StreamAnswer) (s' : σ) : Prop :=
  perform s call = some (answer, s')

/-- The reader knows what it may give back. -/
theorem respects_iff {least : Nat} {p p' : Place} {call : StreamCall} {answer : StreamAnswer}
    (hstep : p.Step least call answer p')
    {more : List (StreamCall × StreamAnswer)} :
    Respects p.lastSize ((call, answer) :: more) ↔ p.Allows call ∧ Respects p'.lastSize more := by
  cases hstep with
  | next hfetches =>
      rename_i data
      refine Iff.trans ?_ (and_iff_right trivial).symm
      cases data with
      | none =>
          obtain ⟨-, rfl⟩ := hfetches
          exact Iff.rfl
      | some data =>
          obtain ⟨size, h, -, rfl, rfl⟩ := hfetches
          have hlength : (p.ahead.take size).length = size := by
            rw [List.length_take, Place.length_ahead]
            omega
          show Respects (p.ahead.take size).length more ↔ Respects size more
          rw [hlength]
  | backUp hallows =>
      constructor
      · exact fun h => ⟨⟨h.1, h.2.1⟩, h.2.2⟩
      · exact fun h => ⟨h.1.1, h.1.2, h.2⟩
  | skip hskips => exact (and_iff_right trivial).symm
  | byteCount => exact (and_iff_right trivial).symm

namespace Obeys

variable {least : Nat} {At : σ → Place → Prop} {s s' : σ} {p : Place}

/-- An allowed call is answered, and moves the stream to the place it should. -/
theorem exists_perform (hobeys : Obeys least At) (h : At s p) {call : StreamCall}
    (hallows : p.Allows call) :
    ∃ answer s' p', Performs s call answer s' ∧ p.Step least call answer p' ∧ At s' p' := by
  cases call with
  | next =>
      obtain ⟨p', hfetches, hat⟩ := hobeys.next_at h
      exact ⟨_, _, p', rfl, .next hfetches, hat⟩
  | backUp count =>
      obtain ⟨s', hs', hat⟩ := hobeys.backUp_at h hallows
      refine ⟨.backUp, s', _, ?_, .backUp hallows, hat⟩
      rw [Performs, perform, hs', Option.map_some]
  | skip count =>
      obtain ⟨all, s', hs', hskips, hat⟩ := hobeys.skip_at count h
      refine ⟨.skip all, s', _, ?_, .skip hskips, hat⟩
      rw [Performs, perform, hs', Option.map_some]
  | byteCount =>
      refine ⟨.byteCount p.position, s, p, ?_, .byteCount, h⟩
      rw [Performs, perform, hobeys.byteCount_at h]

theorem step (hobeys : Obeys least At) (h : At s p) {call : StreamCall} {answer : StreamAnswer}
    (hallows : p.Allows call) (hperforms : Performs s call answer s') :
    ∃ p', p.Step least call answer p' ∧ At s' p' := by
  obtain ⟨answer', t, p', hperforms', hstep, hat⟩ := hobeys.exists_perform h hallows
  cases hperforms.symm.trans hperforms'
  exact ⟨p', hstep, hat⟩

theorem answers (hobeys : Obeys least At) (h : At s p) :
    ∀ call, p.Allows call → ∃ answer s', Performs s call answer s' := by
  intro call hallows
  obtain ⟨answer, s', -, hperforms, -, -⟩ := hobeys.exists_perform h hallows
  exact ⟨answer, s', hperforms⟩

/-- A stream is its bytes. Whatever a reader asks, as long as it gives back
only the end of the last buffer, and once: it is answered as at a place in the
bytes, and the stream still keeps its promise. -/
theorem history (hobeys : Obeys least At) (h : At s p) {calls : List (StreamCall × StreamAnswer)}
    (hrun : History Performs s calls s') (hrespects : Respects p.lastSize calls) :
    ∃ p', History (Place.Step least) p calls p' ∧ At s' p' := by
  induction hrun generalizing p with
  | nil s => exact ⟨p, .nil p, h⟩
  | cons first rest ih =>
      rename_i t s' t' call answer more
      have hallows : p.Allows call := by
        cases call with
        | backUp count => exact ⟨hrespects.1, hrespects.2.1⟩
        | next => trivial
        | skip count => trivial
        | byteCount => trivial
      obtain ⟨p₁, hstep, hat⟩ := hobeys.step h hallows first
      obtain ⟨p', hhistory, hat'⟩ := ih hat ((respects_iff hstep).mp hrespects).2
      exact ⟨p', .cons hstep hhistory, hat'⟩

end Obeys

end Reader

/-! ## 3. Arrays -/

def ArrayInputStream.At (s : ArrayInputStream) (p : Place) : Prop :=
  p.bytes = s.data ∧ p.position = s.position ∧ p.lastSize = s.lastReturnedSize ∧
    (s.data ≠ [] → 0 < s.blockSize)

theorem ArrayInputStream.obeys : Obeys 1 ArrayInputStream.At where
  next_at := by
    rintro s p ⟨hbytes, hposition, hlast, hblock⟩
    have hle := p.position_le
    simp only [next]
    by_cases hmore : s.position < s.data.length
    · have hpos := hblock (List.ne_nil_of_length_pos (by omega))
      rw [if_pos hmore]
      refine ⟨p.fetch (min s.blockSize (s.data.length - s.position)) ?_, ⟨_, _, ?_, ?_, rfl⟩, ?_⟩
      · rw [hbytes, hposition]
        omega
      · omega
      · rw [Place.ahead, hbytes, hposition]
      · exact ⟨hbytes, congrArg (· + _) hposition, rfl, hblock⟩
    · rw [if_neg hmore]
      refine ⟨p.backUp 0, ⟨?_, rfl⟩, hbytes, hposition, rfl, hblock⟩
      rw [Place.ahead, hbytes, hposition, List.drop_eq_nil_iff]
      omega
  backUp_at := by
    rintro s p count ⟨hbytes, hposition, hlast, hblock⟩ ⟨hpos, hcount⟩
    rw [hlast] at hpos hcount
    have hcheck : 0 < s.lastReturnedSize ∧ (count : Int) ≤ s.lastReturnedSize ∧ (0 : Int) ≤ count :=
      ⟨hpos, by omega, by omega⟩
    refine ⟨_, if_pos hcheck, hbytes, ?_, rfl, hblock⟩
    show p.position - count = s.position - (count : Int).toNat
    rw [hposition, Int.toNat_natCast]
  skip_at := by
    rintro s p count ⟨hbytes, hposition, hlast, hblock⟩
    have hlength := p.length_ahead
    rw [hbytes, hposition] at hlength
    have hle := p.position_le
    rw [hbytes, hposition] at hle
    simp only [skip]
    rw [if_pos (by omega)]
    by_cases hfar : (count : Int) > s.data.length - s.position
    · rw [if_pos hfar]
      refine ⟨false, _, rfl, .inl (by omega), hbytes, ?_, rfl, hblock⟩
      rw [p.skip_all (by omega), hbytes]
    · rw [if_neg hfar]
      have hin : count ≤ p.ahead.length := by omega
      refine ⟨true, _, rfl, hin, hbytes, ?_, rfl, hblock⟩
      rw [p.skip_position hin, hposition, Int.toNat_natCast]
  byteCount_at := by
    rintro s p ⟨-, hposition, -, -⟩
    exact congrArg Nat.cast hposition.symm

theorem ArrayInputStream.at_new (data : List UInt8) (blockSize : Int) :
    (ArrayInputStream.new data blockSize).At (.start data) := by
  refine ⟨rfl, rfl, rfl, fun hne => ?_⟩
  have hlength : 0 < data.length := List.length_pos_iff.mpr hne
  show 0 < if 0 < blockSize then blockSize.toNat else data.length
  split <;> omega

/-! ## 4. Sources that copy -/

section Copying

variable {τ : Type} {Rest : τ → List UInt8 → Prop}

/-- The adaptor has read these bytes, and these are still to come. -/
structure CopyingInputStreamAdaptor.Stands (Rest : τ → List UInt8 → Prop)
    (s : CopyingInputStreamAdaptor τ) (p : Place) (front back : List UInt8) : Prop where
  source : Rest s.copyingStream back
  bytes : p.bytes = front ++ back
  read : s.position = front.length
  position : p.position + s.backupBytes = front.length
  bufferSize : 0 < s.bufferSize
  failed : s.failed = true → back = [] ∧ s.backupBytes = 0 ∧ s.buffer = none
  backup_le : s.backupBytes ≤ s.used.length
  /-- What was given back is the end of the buffer, which is what was read last. -/
  backup : 0 < s.backupBytes → s.used <:+ front
  last : 0 < p.lastSize →
    s.backupBytes = 0 ∧ s.buffer ≠ none ∧ s.used <:+ front ∧ p.lastSize ≤ s.used.length

/-- Two lists with one end. -/
theorem drop_of_suffix {a b : List UInt8} (h : a <:+ b) {k : Nat} (hk : k ≤ a.length) :
    a.drop (a.length - k) = b.drop (b.length - k) := by
  obtain ⟨front, rfl⟩ := h
  rw [List.length_append, Nat.add_sub_assoc hk, ← List.drop_drop, List.drop_left]

namespace CopyingInputStreamAdaptor.Stands

variable {s : CopyingInputStreamAdaptor τ} {p : Place} {front back : List UInt8}

/-- What was given back is fetched again. -/
theorem again (h : s.Stands Rest p front back) (hbackup : 0 < s.backupBytes)
    (hfailed : ¬ s.failed = true) (hfits : p.position + s.backupBytes ≤ p.bytes.length) :
    ({ s with buffer := some s.used, backupBytes := 0 } : CopyingInputStreamAdaptor τ).Stands Rest
      (p.fetch s.backupBytes hfits) front back where
  source := h.source
  bytes := h.bytes
  read := h.read
  position := h.position
  bufferSize := h.bufferSize
  failed := fun hfail => absurd hfail hfailed
  backup_le := Nat.zero_le _
  backup := fun hpos => absurd hpos (Nat.lt_irrefl 0)
  last := fun _ => ⟨rfl, Option.some_ne_none _, h.backup hbackup, h.backup_le⟩

/-- New bytes are read. -/
theorem fresh (h : s.Stands Rest p front back) (hbackup : s.backupBytes = 0)
    (hfailed : ¬ s.failed = true) {n : Nat} (hfits : p.position + n ≤ p.bytes.length) {t : τ}
    {data : List UInt8} (hdata : back.take n = data) (hlength : data.length = n)
    (hsource : Rest t (back.drop n)) :
    ({ s with copyingStream := t, buffer := some data
              position := s.position + data.length } : CopyingInputStreamAdaptor τ).Stands Rest
      (p.fetch n hfits) (front ++ data) (back.drop n) where
  source := hsource
  bytes := by
    rw [List.append_assoc, ← hdata, List.take_append_drop]
    exact h.bytes
  read := by
    rw [List.length_append, ← h.read]
  position := by
    have hposition := h.position
    rw [List.length_append, hlength]
    show p.position + n + s.backupBytes = front.length + n
    omega
  bufferSize := h.bufferSize
  failed := fun hfail => absurd hfail hfailed
  backup_le := hbackup ▸ Nat.zero_le _
  backup := fun hpos => absurd hpos (hbackup ▸ Nat.lt_irrefl 0)
  last := fun _ => ⟨hbackup, Option.some_ne_none _, List.suffix_append _ _, Nat.le_of_eq hlength.symm⟩

/-- There are none. -/
theorem ended (h : s.Stands Rest p front []) (hbackup : s.backupBytes = 0) {t : τ} (failed : Bool)
    (hsource : Rest t []) :
    ({ s with copyingStream := t, failed := failed
              buffer := none } : CopyingInputStreamAdaptor τ).Stands Rest (p.backUp 0) front [] where
  source := hsource
  bytes := h.bytes
  read := h.read
  position := h.position
  bufferSize := h.bufferSize
  failed := fun _ => ⟨rfl, hbackup, rfl⟩
  backup_le := hbackup ▸ Nat.zero_le _
  backup := fun hpos => absurd hpos (hbackup ▸ Nat.lt_irrefl 0)
  last := fun hlast => absurd hlast (Nat.lt_irrefl 0)

/-- Skipped bytes are as good as read. -/
theorem skipped (h : s.Stands Rest p front back) (hfailed : ¬ s.failed = true) {count : Nat}
    (hfar : s.backupBytes < count) {t : τ} (hsource : Rest t (back.drop (count - s.backupBytes))) :
    ({ s with copyingStream := t, backupBytes := 0
              position := s.position + min (count - s.backupBytes) back.length } :
      CopyingInputStreamAdaptor τ).Stands Rest (p.skip count)
      (front ++ back.take (count - s.backupBytes)) (back.drop (count - s.backupBytes)) where
  source := hsource
  bytes := by
    rw [List.append_assoc, List.take_append_drop]
    exact h.bytes
  read := by
    rw [List.length_append, List.length_take, ← h.read]
  position := by
    have hposition := h.position
    have hlength := congrArg List.length h.bytes
    rw [List.length_append] at hlength ⊢
    rw [List.length_take]
    show min (p.position + count) p.bytes.length + 0 = _
    omega
  bufferSize := h.bufferSize
  failed := fun hfail => absurd hfail hfailed
  backup_le := Nat.zero_le _
  backup := fun hpos => absurd hpos (Nat.lt_irrefl 0)
  last := fun hlast => absurd hlast (Nat.lt_irrefl 0)

theorem ahead (h : s.Stands Rest p front back) (hbackup : s.backupBytes = 0) : p.ahead = back := by
  have hposition := h.position
  rw [Place.ahead, h.bytes, show p.position = front.length by omega, List.drop_left]

end CopyingInputStreamAdaptor.Stands

namespace CopyingInputStreamAdaptor

def At (Rest : τ → List UInt8 → Prop) (s : CopyingInputStreamAdaptor τ) (p : Place) : Prop :=
  ∃ front back, s.Stands Rest p front back

theorem at_new {t : τ} {rest : List UInt8} (h : Rest t rest) (blockSize : Int) :
    (new t blockSize).At Rest (.start rest) := by
  refine ⟨[], rest, ?_⟩
  exact {
    source := h, bytes := rfl, read := rfl, position := rfl
    bufferSize := by
      show 0 < if 0 < blockSize then blockSize.toNat else kDefaultBlockSize
      split
      · omega
      · decide
    failed := fun hfailed => absurd hfailed Bool.false_ne_true
    backup_le := Nat.le_refl 0
    backup := fun hpos => absurd hpos (Nat.lt_irrefl 0)
    last := fun hlast => absurd hlast (Nat.lt_irrefl 0) }

end CopyingInputStreamAdaptor

variable [CopyingInputStream τ]

/-- A source has bytes still to come, and a read copies some of them, if there
are any. An error is found at their end only. -/
def ReadsRest (Rest : τ → List UInt8 → Prop) (read : τ → Nat → Option (List UInt8) × τ) : Prop :=
  ∀ {t rest} {size : Nat}, Rest t rest → 0 < size →
    (∃ n, 0 < n ∧ n ≤ size ∧ n ≤ rest.length ∧ (read t size).1 = some (rest.take n) ∧
        Rest (read t size).2 (rest.drop n)) ∨
      rest = [] ∧ (∀ data ∈ (read t size).1, data = []) ∧ Rest (read t size).2 []

/-- A skip goes as far as it is told, or to the end. -/
def SkipsRest (Rest : τ → List UInt8 → Prop) (skip : τ → Nat → Nat × τ) : Prop :=
  ∀ {t rest} (count : Nat), Rest t rest →
    (skip t count).1 = min count rest.length ∧ Rest (skip t count).2 (rest.drop count)

/-- What the comments of `CopyingInputStream` ask of a source. -/
structure Copies (Rest : τ → List UInt8 → Prop) : Prop where
  reads : ReadsRest Rest CopyingInputStream.read
  skips : SkipsRest Rest CopyingInputStream.skip

omit [CopyingInputStream τ] in
/-- One more read of the loop: what it copies is skipped. -/
theorem skipLoop_rest {read : τ → Nat → Option (List UInt8) × τ} (hreads : ReadsRest Rest read)
    {rounds count : Nat} {t : τ} {rest : List UInt8} (h : Rest t rest) (hrounds : count ≤ rounds) :
    (CopyingInputStream.skipLoop read rounds t count).1 = min count rest.length ∧
      Rest (CopyingInputStream.skipLoop read rounds t count).2 (rest.drop count) := by
  induction rounds generalizing count t rest with
  | zero =>
      obtain rfl : count = 0 := Nat.le_zero.mp hrounds
      exact ⟨(Nat.zero_min _).symm, h⟩
  | succ rounds ih =>
      rw [CopyingInputStream.skipLoop]
      by_cases hcount : 0 < count
      · rw [if_pos hcount]
        have hcases := hreads h (show 0 < min count 4096 by omega)
        generalize read t (min count 4096) = out at hcases
        obtain ⟨result, t'⟩ := out
        rcases hcases with ⟨n, hn, hsize, hlength, hdata, hrest⟩ | ⟨rfl, hend, hrest⟩
        · have htake : (rest.take n).length = n := by
            rw [List.length_take]
            omega
          cases hdata
          cases hbytes : rest.take n with
          | nil =>
              rw [hbytes] at htake
              exact absurd htake.symm (Nat.ne_of_gt hn)
          | cons b bytes =>
              rw [hbytes] at htake
              obtain ⟨hskipped, hlast⟩ := ih hrest (show count - n ≤ rounds by omega)
              dsimp only
              rw [htake, hskipped, List.length_drop]
              rw [List.drop_drop, Nat.add_sub_cancel' (by omega)] at hlast
              exact ⟨by omega, hlast⟩
        · have hnone : Rest t' (([] : List UInt8).drop count) := by
            rw [List.drop_nil]
            exact hrest
          cases result with
          | none => exact ⟨(Nat.min_zero _).symm, hnone⟩
          | some data =>
              cases hend data rfl
              exact ⟨(Nat.min_zero _).symm, hnone⟩
      · obtain rfl : count = 0 := by omega
        exact ⟨(Nat.zero_min _).symm, h⟩

omit [CopyingInputStream τ] in
/-- The skip that every source has from the start keeps what is asked of it. -/
theorem defaultSkip_rest {read : τ → Nat → Option (List UInt8) × τ} (hreads : ReadsRest Rest read) :
    SkipsRest Rest (CopyingInputStream.defaultSkip read) :=
  fun count h => skipLoop_rest hreads h (Nat.le_refl count)

namespace CopyingInputStreamAdaptor

variable {s : CopyingInputStreamAdaptor τ} {p : Place} {front back : List UInt8}

/-- The source is read: there is a buffer again, or it has come to its end. -/
theorem next_read (hcopies : Copies Rest) (h : s.Stands Rest p front back)
    (hfailed : ¬ s.failed = true) (hbackup : s.backupBytes = 0) :
    ∃ p', p.Fetches 1 (next s).1 p' ∧ (next s).2.At Rest p' := by
  have hposition := h.position
  have hahead := h.ahead hbackup
  have hcases := hcopies.reads h.source h.bufferSize
  simp only [next]
  rw [if_neg hfailed, if_neg (by omega)]
  generalize CopyingInputStream.read s.copyingStream s.bufferSize = out at hcases
  obtain ⟨result, t⟩ := out
  rcases hcases with ⟨n, hn, -, hlength, hdata, hsource⟩ | ⟨rfl, hend, hsource⟩
  · have htake : (back.take n).length = n := List.length_take_of_le hlength
    have hfits : p.position + n ≤ p.bytes.length := by
      rw [h.bytes, List.length_append]
      omega
    cases hdata
    cases hbytes : back.take n with
    | nil =>
        rw [hbytes] at htake
        exact absurd htake.symm (Nat.ne_of_gt hn)
    | cons b bytes =>
        rw [hbytes] at htake
        refine ⟨_, ⟨n, hfits, hn, ?_, rfl⟩, front ++ b :: bytes, back.drop n, ?_⟩
        · rw [hahead, hbytes]
        · exact h.fresh hbackup hfailed hfits hbytes htake hsource
  · cases result with
    | none => exact ⟨_, ⟨hahead, rfl⟩, front, [], h.ended hbackup true hsource⟩
    | some data =>
        cases hend data rfl
        exact ⟨_, ⟨hahead, rfl⟩, front, [], h.ended hbackup s.failed hsource⟩

theorem next_at (hcopies : Copies Rest) (h : s.Stands Rest p front back) :
    ∃ p', p.Fetches 1 (next s).1 p' ∧ (next s).2.At Rest p' := by
  have hposition := h.position
  by_cases hfailed : s.failed = true
  · obtain ⟨rfl, hbackup, hbuffer⟩ := h.failed hfailed
    simp only [next]
    rw [if_pos hfailed]
    refine ⟨p.backUp 0, ⟨h.ahead hbackup, rfl⟩, front, [], ?_⟩
    exact { h with last := fun hlast => absurd hlast (Nat.lt_irrefl 0) }
  by_cases hbackup : 0 < s.backupBytes
  · simp only [next]
    rw [if_neg hfailed, if_pos hbackup]
    have hend := drop_of_suffix (h.backup hbackup) h.backup_le
    have hfits : p.position + s.backupBytes ≤ p.bytes.length := by
      rw [h.bytes, List.length_append]
      omega
    refine ⟨_, ⟨_, hfits, hbackup, ?_, rfl⟩, front, back, h.again hbackup hfailed hfits⟩
    rw [hend, Place.ahead, h.bytes, show p.position = front.length - s.backupBytes by omega,
      List.drop_append_of_le_length (Nat.sub_le _ _), List.take_left']
    rw [List.length_drop]
    omega
  · exact next_read hcopies h hfailed (Nat.eq_zero_of_not_pos hbackup)

theorem backUp_at (h : s.Stands Rest p front back) {count : Nat}
    (hallows : p.Allows (.backUp count)) :
    ∃ s', backUp s count = some s' ∧ s'.At Rest (p.backUp count) := by
  obtain ⟨hpos, hcount⟩ := hallows
  obtain ⟨hbackup, hbuffer, hsuffix, hlast⟩ := h.last hpos
  have hcheck : s.backupBytes = 0 ∧ s.buffer ≠ none ∧ (count : Int) ≤ s.used.length ∧
      (0 : Int) ≤ count := ⟨hbackup, hbuffer, by omega, by omega⟩
  have hposition := h.position
  have hle := p.lastSize_le
  refine ⟨_, if_pos hcheck, front, back, ?_⟩
  exact {
    source := h.source, bytes := h.bytes, read := h.read
    position := by
      show p.position - count + (count : Int).toNat = front.length
      omega
    bufferSize := h.bufferSize
    failed := fun hfailed => absurd (h.failed hfailed).2.2 hbuffer
    backup_le := by
      show (count : Int).toNat ≤ s.used.length
      omega
    backup := fun _ => hsuffix
    last := fun hlast => absurd hlast (Nat.lt_irrefl 0) }

/-- What was given back is skipped, and some of the source. -/
theorem skip_far (hcopies : Copies Rest) (h : s.Stands Rest p front back)
    (hfailed : ¬ s.failed = true) {count : Nat} (hfar : s.backupBytes < count) :
    ∃ all s', skip s count = some (all, s') ∧ p.Skips count all ∧ s'.At Rest (p.skip count) := by
  have hposition := h.position
  have hlength := congrArg List.length h.bytes
  rw [List.length_append] at hlength
  have hahead := p.length_ahead
  obtain ⟨hskipped, hsource⟩ := hcopies.skips (count - s.backupBytes) h.source
  simp only [skip]
  rw [if_pos (by omega), if_neg hfailed, if_neg (by omega), Int.toNat_natCast]
  generalize CopyingInputStream.skip s.copyingStream (count - s.backupBytes) = out
    at hskipped hsource ⊢
  obtain ⟨n, t⟩ := out
  obtain rfl : n = min (count - s.backupBytes) back.length := hskipped
  refine ⟨_, _, rfl, ?_, _, _, h.skipped hfailed hfar hsource⟩
  unfold Place.Skips
  split
  · rename_i hall
    have heq := beq_iff_eq.mp hall
    omega
  · rename_i hall
    have hne := mt beq_iff_eq.mpr hall
    omega

theorem skip_at (hcopies : Copies Rest) (h : s.Stands Rest p front back) (count : Nat) :
    ∃ all s', skip s count = some (all, s') ∧ p.Skips count all ∧ s'.At Rest (p.skip count) := by
  have hposition := h.position
  by_cases hfailed : s.failed = true
  · obtain ⟨rfl, hbackup, -⟩ := h.failed hfailed
    obtain ⟨hskips, hstay⟩ := Place.skips_end (h.ahead hbackup) count
    simp only [skip]
    rw [if_pos (by omega), if_pos hfailed]
    refine ⟨false, s, rfl, hskips, front, [], ?_⟩
    refine { h with position := ?_, last := fun hlast => absurd hlast (Nat.lt_irrefl 0) }
    rw [hstay]
    exact hposition
  by_cases hnear : count ≤ s.backupBytes
  · have hlength := congrArg List.length h.bytes
    rw [List.length_append] at hlength
    have hahead := p.length_ahead
    have hin : count ≤ p.ahead.length := by omega
    simp only [skip]
    rw [if_pos (by omega), if_neg hfailed, if_pos (by omega)]
    refine ⟨true, _, rfl, hin, front, back, ?_⟩
    refine { h with
      position := ?_
      failed := fun hfail => absurd hfail hfailed
      backup_le := Nat.le_trans (Nat.sub_le _ _) h.backup_le
      backup := fun hpos => h.backup (by dsimp only at hpos; omega)
      last := fun hlast => absurd hlast (Nat.lt_irrefl 0) }
    rw [p.skip_position hin]
    show p.position + count + (s.backupBytes - (count : Int).toNat) = front.length
    omega
  · exact skip_far hcopies h hfailed (by omega)

theorem obeys (hcopies : Copies Rest) : Obeys 1 (CopyingInputStreamAdaptor.At Rest) where
  next_at := by
    rintro s p ⟨front, back, h⟩
    exact next_at hcopies h
  backUp_at := by
    rintro s p count ⟨front, back, h⟩ hallows
    exact backUp_at h hallows
  skip_at := by
    rintro s p count ⟨front, back, h⟩
    exact skip_at hcopies h count
  byteCount_at := by
    rintro s p ⟨front, back, h⟩
    have hposition := h.position
    have hread := h.read
    show (s.position : Int) - s.backupBytes = p.position
    omega

end CopyingInputStreamAdaptor

/-- **A source that copies, buffered.** Whatever the reader asks, and whatever
sizes the source answers its reads with: the adaptor answers as a place in the
bytes that the source has, though it reads each of them once, and no check fails
in what may be asked next. -/
theorem CopyingInputStreamAdaptor.copied_history (hcopies : Copies Rest) {t : τ}
    {rest : List UInt8} (hrest : Rest t rest) (blockSize : Int)
    {calls : List (StreamCall × StreamAnswer)} {s : CopyingInputStreamAdaptor τ}
    (hrun : History Performs (new t blockSize) calls s) (hrespects : Respects 0 calls) :
    ∃ p, History (Place.Step 1) (.start rest) calls p ∧
      ∀ call, p.Allows call → ∃ answer s', Performs s call answer s' := by
  obtain ⟨p, hhistory, h⟩ := (obeys hcopies).history (at_new hrest blockSize) hrun hrespects
  exact ⟨p, hhistory, (obeys hcopies).answers h⟩

end Copying

namespace CopyingFileInputStream

/-- What is left to read of a pipe. -/
def Rest (t : CopyingFileInputStream) (rest : List UInt8) : Prop :=
  t.seekable = false ∧ t.content.drop t.offset = rest

theorem reads : ReadsRest Rest read := by
  rintro t rest size ⟨hseek, rfl⟩ hsize
  have htake : ((t.content.drop t.offset).take size).length =
      min size (t.content.drop t.offset).length := List.length_take
  have hdrop : t.content.drop (t.offset + ((t.content.drop t.offset).take size).length) =
      (t.content.drop t.offset).drop (min size (t.content.drop t.offset).length) := by
    rw [htake, List.drop_drop]
  cases hleft : t.content.drop t.offset with
  | nil =>
      refine .inr ⟨rfl, ?_, hseek, ?_⟩
      · simp [read, hleft]
      · rw [read, hdrop, hleft, List.drop_nil]
  | cons b bytes =>
      refine .inl ⟨min size (b :: bytes).length, ?_, Nat.min_le_left _ _, Nat.min_le_right _ _, ?_,
        hseek, ?_⟩
      · exact Nat.lt_min.mpr ⟨hsize, Nat.succ_pos _⟩
      · rw [read, hleft, List.take_eq_take_min]
      · rw [read, hdrop, hleft]

/-- A pipe does what is asked of a source: it is skipped by reading. -/
theorem copies : Copies Rest where
  reads := reads
  skips := by
    rintro t rest count ⟨hseek, hrest⟩
    simp only [CopyingInputStream.skip]
    rw [hseek, Bool.and_false, if_neg Bool.false_ne_true]
    exact defaultSkip_rest reads count ⟨rfl, hrest⟩

/-- A file that can seek does not, whatever is said to be left of it: a seek
goes behind the end, and is answered as a skip of that many bytes. -/
theorem not_copies {t : CopyingFileInputStream} (hseek : t.seekable = true)
    (hprevious : t.previousSeekFailed = false) {Rest : CopyingFileInputStream → List UInt8 → Prop}
    {rest : List UInt8} (hrest : Rest t rest) : ¬Copies Rest := by
  intro hcopies
  have hskip := (hcopies.skips (rest.length + 1) hrest).1
  simp only [CopyingInputStream.skip] at hskip
  rw [hseek, hprevious, Bool.not_false, Bool.and_true, if_pos rfl] at hskip
  dsimp only at hskip
  omega

/-- Nine bytes of a file of five. -/
example :
    (skip (CopyingInputStreamAdaptor.new (mk [1, 2, 3, 4, 5] 0 true false) 3) 9).map
      (fun out => (out.1, byteCount out.2)) = some (true, 9) := rfl

end CopyingFileInputStream

def fileCalls : List (StreamCall × StreamAnswer) :=
  [(.next, .next (some [1, 2, 3])), (.backUp 1, .backUp), (.next, .next (some [3])),
    (.skip 1, .skip true), (.byteCount, .byteCount 4)]

/-- A pipe of five bytes in blocks of three; one is given back and one is skipped. -/
theorem CopyingInputStreamAdaptor.copied_history_file :
    ∃ s, History Performs (new (CopyingFileInputStream.mk [1, 2, 3, 4, 5] 0 false false) 3)
        fileCalls s ∧
      ∃ p, History (Place.Step 1) (.start [1, 2, 3, 4, 5]) fileCalls p ∧
        ∀ call, p.Allows call → ∃ answer s', Performs s call answer s' := by
  have hrun : History Performs (new (CopyingFileInputStream.mk [1, 2, 3, 4, 5] 0 false false) 3)
      fileCalls ⟨⟨[1, 2, 3, 4, 5], 4, false, true⟩, false, 4, 3, some [1, 2, 3], 0⟩ :=
    .cons rfl (.cons rfl (.cons rfl (.cons rfl (.cons rfl (.nil _)))))
  exact ⟨_, hrun, copied_history CopyingFileInputStream.copies ⟨rfl, rfl⟩ 3 hrun
    (by simp [fileCalls, Respects])⟩

end SpringDome.Protobuf
