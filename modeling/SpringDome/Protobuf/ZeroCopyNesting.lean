/-
SpringDome.Protobuf.ZeroCopyNesting — streams that read other streams.

`Limited` and `Concatenated` say where such a stream stands when those behind it
stand somewhere. Each keeps the promise of a stream if those behind it do
(`LimitingInputStream.obeys`, `ConcatenatingInputStream.obeys`), so they nest to
any depth. §1 ends with what a limited stream leaves behind, §2 with bytes that
are spread over several streams.

How the proofs go. A stream keeps the promise (`Obeys`) if each of its four
calls leads from a place to one that the call allows. There is one lemma for a
call and a case, `obeys` puts them together, and what holds of whole histories
comes from `Obeys.history` and `Obeys.answers`.

For a limited stream the cases are two. As long as the last buffer ended within
the limit, the stream behind stands where the reader does (`Limited.inside`).
When it reached farther, the stream behind is ahead by bytes that the reader was
not shown, and `limit_` is negative by their number (`Limited.beyond`). It comes
back with the next `BackUp`, or at the end with the destructor (`close_at`).
`hlast` ties the two last buffers together: a reader that may give back bytes of
its own can have them given back behind.

For streams one after another the calls are loops that retire a stream which has
ended. `next_first` and `skip_first` are one round each, with the loop over the
streams behind as their hypothesis `ih`. They serve twice: in the induction over
these streams, which were not begun (`nextLoop_at`, `skipLoop_at`), and at the
first stream, which may have been.

Where a call gives the reader nothing, the place after it is `p.backUp 0`: the
same place, with no last buffer to give bytes back of.
-/
import SpringDome.Protobuf.ZeroCopyTheorems

namespace SpringDome.Protobuf

open SpringDome.Lib
open SpringDome.Lib.ByteStream
open ZeroCopyInputStream

variable {σ : Type} [ZeroCopyInputStream σ] {least : Nat} {At : σ → Place → Prop}

/-! ## 1. The front of a stream -/

namespace LimitingInputStream

/-- A stream of `bytes`, limited to `n` of them from `start` on. Behind the end
of the stream the limit may be left as it is, which `hleft` allows. -/
inductive Limited (At : σ → Place → Prop) (bytes : List UInt8) (start n : Nat) :
    LimitingInputStream σ → Place → Prop where
  /-- There are `k` left, if the stream has that many. -/
  | inside {input : σ} {w p : Place} {k : Nat} (hat : At input w) (hw : w.bytes = bytes)
      (hp : p.bytes = (bytes.drop start).take n) (hposition : w.position = start + p.position)
      (hleft : k + p.position = n ∨ w.ahead = [] ∧ p.lastSize = 0)
      (hlast : 0 < p.lastSize → p.lastSize = w.lastSize) :
      Limited At bytes start n ⟨input, k, start⟩ p
  /-- The last buffer reached `k` too far, which the reader has not seen. -/
  | beyond {input : σ} {w p : Place} {k : Nat} (hat : At input w) (hw : w.bytes = bytes)
      (hp : p.bytes = (bytes.drop start).take n) (hposition : w.position = start + p.position + k)
      (hleft : p.position = n) (hk : 0 < k) (hhidden : k ≤ w.lastSize)
      (hlast : 0 < p.lastSize → p.lastSize + k = w.lastSize) :
      Limited At bytes start n ⟨input, -k, start⟩ p

section

variable {bytes : List UInt8} {start n k : Nat} {w p : Place}

theorem length_bytes (hp : p.bytes = (bytes.drop start).take n) :
    p.bytes.length = min n (bytes.length - start) := by
  simp [hp]

/-- The reader has ahead what the stream behind has, as far as the limit. -/
theorem inside_ahead (hw : w.bytes = bytes) (hp : p.bytes = (bytes.drop start).take n)
    (hposition : w.position = start + p.position)
    (hleft : k + p.position = n ∨ w.ahead = [] ∧ p.lastSize = 0) :
    p.ahead = w.ahead.take k := by
  rcases hleft with hleft | ⟨hnone, -⟩
  · rw [Place.ahead, Place.ahead, hw, hp, hposition, List.drop_take, List.drop_drop]
    congr 1
    omega
  · rw [hnone, List.take_nil, ← List.length_eq_zero_iff, Place.length_ahead, length_bytes hp]
    have hlength := congrArg List.length hnone
    rw [Place.length_ahead, hw] at hlength
    simp at hlength
    omega

/-- A buffer that reached too far was the last one. -/
theorem beyond_ahead (hp : p.bytes = (bytes.drop start).take n) (hleft : p.position = n) :
    p.ahead = [] := by
  rw [← List.length_eq_zero_iff, Place.length_ahead, length_bytes hp]
  omega

omit [ZeroCopyInputStream σ] in
/-- A buffer that reaches beyond the limit: its end is hidden. What is shown may
be a single byte, so that no stream behind it can promise more (`hleast`). -/
theorem fetch_over {input : σ} {size : Nat} {hfits : w.position + size ≤ w.bytes.length}
    (hat : At input (w.fetch size hfits)) (hw : w.bytes = bytes)
    (hp : p.bytes = (bytes.drop start).take n) (hposition : w.position = start + p.position)
    (hleft : k + p.position = n) (hk : 0 < k) (hleast : least ≤ 1) (hover : k < size) :
    ∃ p', p.Fetches least (some ((w.ahead.take size).take k)) p' ∧
      Limited At bytes start n ⟨input, -((size - k : Nat) : Int), start⟩ p' := by
  have hahead := inside_ahead hw hp hposition (.inl hleft)
  have hroom := congrArg List.length hahead
  have hle := p.position_le
  rw [List.length_take, Place.length_ahead, Place.length_ahead] at hroom
  refine ⟨p.fetch k (by omega), ⟨k, by omega, by omega, ?_, rfl⟩,
    .beyond hat hw hp ?_ ?_ (by omega) (Nat.sub_le _ _) ?_⟩
  · rw [hahead, List.take_take, List.take_take, Nat.min_self, Nat.min_eq_left (by omega)]
  · show w.position + size = start + (p.position + k) + (size - k)
    omega
  · show p.position + k = n
    omega
  · show 0 < k → k + (size - k) = size
    omega

omit [ZeroCopyInputStream σ] in
/-- A buffer within the limit: the reader sees all of it. -/
theorem fetch_within {input : σ} {size : Nat} {hfits : w.position + size ≤ w.bytes.length}
    (hat : At input (w.fetch size hfits)) (hw : w.bytes = bytes)
    (hp : p.bytes = (bytes.drop start).take n) (hposition : w.position = start + p.position)
    (hleft : k + p.position = n ∨ w.ahead = [] ∧ size = 0) (hsize : least ≤ size)
    (hwithin : size ≤ k) :
    ∃ p', p.Fetches least (some (w.ahead.take size)) p' ∧
      Limited At bytes start n ⟨input, (k - size : Nat), start⟩ p' := by
  have hahead : p.ahead.take size = w.ahead.take size := by
    rcases hleft with hmore | ⟨-, rfl⟩
    · rw [inside_ahead hw hp hposition (.inl hmore), List.take_take, Nat.min_eq_left hwithin]
    · rfl
  have hroom := congrArg List.length hahead
  have hle := p.position_le
  rw [List.length_take, List.length_take, Place.length_ahead, Place.length_ahead] at hroom
  refine ⟨p.fetch size (by omega), ⟨size, by omega, hsize, hahead.symm, rfl⟩,
    .inside hat hw hp ?_ ?_ fun _ => rfl⟩
  · show w.position + size = start + (p.position + size)
    omega
  · rcases hleft with hmore | ⟨hnil, hzero⟩
    · left
      show k - size + (p.position + size) = n
      omega
    · refine .inr ⟨?_, hzero⟩
      have hend := Place.ahead_eq_nil.mp hnil
      exact Place.ahead_eq_nil.mpr (Nat.le_trans hend (Nat.le_add_right _ _))

/-- At the limit there is nothing more, at the end of the stream behind neither;
else its buffer ends within the limit or beyond it. -/
theorem next_inside (hobeys : Obeys least At) (hleast : least ≤ 1) {input : σ} (hat : At input w)
    (hw : w.bytes = bytes) (hp : p.bytes = (bytes.drop start).take n)
    (hposition : w.position = start + p.position)
    (hleft : k + p.position = n ∨ w.ahead = [] ∧ p.lastSize = 0) :
    ∃ p', p.Fetches least (next (LimitingInputStream.mk input k start)).1 p' ∧
      Limited At bytes start n (next (LimitingInputStream.mk input k start)).2 p' := by
  have hahead := inside_ahead hw hp hposition hleft
  simp only [next]
  rcases Nat.eq_zero_or_pos k with rfl | hk
  · refine ⟨p.backUp 0, ⟨by simpa using hahead, rfl⟩, .inside hat hw hp hposition ?_ ?_⟩
    · exact hleft.imp_right fun h => ⟨h.1, rfl⟩
    · exact fun hpos => absurd hpos (Nat.lt_irrefl 0)
  obtain ⟨w', hfetches, hat'⟩ := hobeys.next_at hat
  rw [if_neg (by omega)]
  generalize ZeroCopyInputStream.next input = out at hfetches hat' ⊢
  obtain ⟨data, input'⟩ := out
  cases data with
  | none =>
      obtain ⟨hnone, rfl⟩ := hfetches
      rw [hnone, List.take_nil] at hahead
      refine ⟨p.backUp 0, ⟨hahead, rfl⟩, .inside hat' hw hp hposition ?_ ?_⟩
      · exact .inr ⟨hnone, rfl⟩
      · exact fun hpos => absurd hpos (Nat.lt_irrefl 0)
  | some data =>
      obtain ⟨size, hfits, hsize, rfl, rfl⟩ := hfetches
      have hlength : (w.ahead.take size).length = size := by
        rw [List.length_take, Place.length_ahead]
        omega
      -- behind the end of the stream a buffer is empty
      have hleft' : k + p.position = n ∨ w.ahead = [] ∧ size = 0 := by
        refine hleft.imp_right fun h => ⟨h.1, ?_⟩
        rw [← hlength, h.1, List.take_nil, List.length_nil]
      dsimp only
      rw [hlength]
      by_cases hover : k < size
      · rw [if_pos (by omega), show ((size : Int) + (k - size)).toNat = k by omega,
          show (k : Int) - size = -((size - k : Nat) : Int) by omega]
        exact fetch_over hat' hw hp hposition (hleft'.resolve_right fun h => by omega) hk hleast hover
      · rw [if_neg (by omega), show (k : Int) - size = ((k - size : Nat) : Int) by omega]
        exact fetch_within hat' hw hp hposition hleft' hsize (by omega)

/-- The bytes are given back behind as well, and the limit is as far again. -/
theorem backUp_inside (hobeys : Obeys least At) {input : σ} (hat : At input w)
    (hw : w.bytes = bytes) (hp : p.bytes = (bytes.drop start).take n)
    (hposition : w.position = start + p.position)
    (hleft : k + p.position = n ∨ w.ahead = [] ∧ p.lastSize = 0)
    (hlast : 0 < p.lastSize → p.lastSize = w.lastSize) {count : Nat}
    (hallows : p.Allows (.backUp count)) :
    ∃ s', backUp (LimitingInputStream.mk input k start) count = some s' ∧
      Limited At bytes start n s' (p.backUp count) := by
  obtain ⟨hpos, hcount⟩ := hallows
  have hfront := p.lastSize_le
  have hsame := hlast hpos
  have hmore : k + p.position = n := hleft.resolve_right fun h => by omega
  have hallows : w.Allows (.backUp count) := ⟨by omega, by omega⟩
  obtain ⟨input', hinput, hat'⟩ := hobeys.backUp_at hat hallows
  refine ⟨⟨input', (k + count : Nat), start⟩, ?_, .inside hat' hw hp ?_ (.inl ?_) ?_⟩
  · simp only [backUp]
    rw [if_neg (by omega), hinput]
    rfl
  · show w.position - count = start + (p.position - count)
    omega
  · show k + count + (p.position - count) = n
    omega
  · exact fun hpos => absurd hpos (Nat.lt_irrefl 0)

/-- The hidden end is given back as well. -/
theorem backUp_beyond (hobeys : Obeys least At) {input : σ} (hat : At input w)
    (hw : w.bytes = bytes) (hp : p.bytes = (bytes.drop start).take n)
    (hposition : w.position = start + p.position + k) (hleft : p.position = n) (hk : 0 < k)
    (hlast : 0 < p.lastSize → p.lastSize + k = w.lastSize) {count : Nat}
    (hallows : p.Allows (.backUp count)) :
    ∃ s', backUp (LimitingInputStream.mk input (-k) start) count = some s' ∧
      Limited At bytes start n s' (p.backUp count) := by
  obtain ⟨hpos, hcount⟩ := hallows
  have hfront := p.lastSize_le
  have hsame := hlast hpos
  have hallows : w.Allows (.backUp (count + k)) := ⟨by omega, by omega⟩
  obtain ⟨input', hinput, hat'⟩ := hobeys.backUp_at hat hallows
  refine ⟨⟨input', count, start⟩, ?_, .inside hat' hw hp ?_ (.inl ?_) ?_⟩
  · simp only [backUp]
    rw [if_pos (by omega), show (count : Int) - -k = ((count + k : Nat) : Int) by omega, hinput]
    rfl
  · show w.position - (count + k) = start + (p.position - count)
    omega
  · show count + (p.position - count) = n
    omega
  · exact fun hpos => absurd hpos (Nat.lt_irrefl 0)

/-- A skip beyond the limit goes to it, or to the end if that comes first. -/
theorem skip_over (hobeys : Obeys least At) {input : σ} (hat : At input w)
    (hw : w.bytes = bytes) (hp : p.bytes = (bytes.drop start).take n)
    (hposition : w.position = start + p.position)
    (hleft : k + p.position = n ∨ w.ahead = [] ∧ p.lastSize = 0) {count : Nat} (hfar : k < count) :
    ∃ all s', skip (LimitingInputStream.mk input k start) count = some (all, s') ∧
      p.Skips count all ∧ Limited At bytes start n s' (p.skip count) := by
  have hle := p.position_le
  have hrest := p.length_ahead
  have hlength := length_bytes hp
  have hroom := congrArg List.length (inside_ahead hw hp hposition hleft)
  rw [List.length_take] at hroom
  have hend := w.length_ahead
  have hwle := w.position_le
  rw [hw] at hend hwle
  have hleft' : k + p.position = n ∨ w.ahead.length = 0 := by
    refine hleft.imp_right fun h => ?_
    rw [h.1, List.length_nil]
  obtain ⟨all, input', hinput, -, hat'⟩ := hobeys.skip_at k hat
  simp only [skip]
  rw [if_pos (by omega), if_neg (by omega), hinput]
  refine ⟨false, ⟨input', (0 : Nat), start⟩, rfl, .inl (by omega),
    .inside hat' hw hp ?_ ?_ fun hpos => absurd hpos (Nat.lt_irrefl 0)⟩
  · show min (w.position + k) w.bytes.length = start + min (p.position + count) p.bytes.length
    rw [hw]
    omega
  · by_cases hshort : start + n ≤ bytes.length
    · left
      show 0 + min (p.position + count) p.bytes.length = n
      omega
    · exact .inr ⟨Place.skip_ahead (by omega), rfl⟩

/-- A skip within the limit is that of the stream behind. When that is short the
limit is not counted down, but there is nothing left to count. -/
theorem skip_within (hobeys : Obeys least At) {input : σ} (hat : At input w)
    (hw : w.bytes = bytes) (hp : p.bytes = (bytes.drop start).take n)
    (hposition : w.position = start + p.position)
    (hleft : k + p.position = n ∨ w.ahead = [] ∧ p.lastSize = 0) {count : Nat}
    (hwithin : count ≤ k) :
    ∃ all s', skip (LimitingInputStream.mk input k start) count = some (all, s') ∧
      p.Skips count all ∧ Limited At bytes start n s' (p.skip count) := by
  have hahead := inside_ahead hw hp hposition hleft
  have hle := p.position_le
  have hrest := p.length_ahead
  have hroom := congrArg List.length hahead
  rw [List.length_take] at hroom
  have hlength := length_bytes hp
  have hend := w.length_ahead
  have hwle := w.position_le
  rw [hw] at hend hwle
  obtain ⟨all, input', hinput, hskips, hat'⟩ := hobeys.skip_at count hat
  simp only [skip]
  rw [if_neg (by omega), hinput]
  cases all with
  | false =>
      have hshort : w.ahead.length < count ∨ count = 0 ∧ w.ahead = [] := hskips
      have hnone : w.ahead.length ≤ count := by
        rcases hshort with hlt | ⟨-, hnil⟩
        · exact Nat.le_of_lt hlt
        · rw [hnil]
          exact Nat.zero_le _
      refine ⟨false, ⟨input', k, start⟩, rfl, ?_,
        .inside hat' hw hp ?_ (.inr ⟨?_, rfl⟩) fun hpos => absurd hpos (Nat.lt_irrefl 0)⟩
      · rcases hshort with hlt | ⟨hzero, hnil⟩
        · exact .inl (by omega)
        · refine .inr ⟨hzero, ?_⟩
          rw [hahead, hnil, List.take_nil]
      · show (w.skip count).position = start + (p.skip count).position
        rw [w.skip_all hnone, p.skip_all (by omega), hw]
        omega
      · exact Place.skip_ahead hnone
  | true =>
      have hin : count ≤ w.ahead.length := hskips
      have hinp : count ≤ p.ahead.length := by omega
      refine ⟨true, ⟨input', (k - count : Nat), start⟩, ?_, hinp,
        .inside hat' hw hp ?_ ?_ fun hpos => absurd hpos (Nat.lt_irrefl 0)⟩
      · show some (true, _) = _
        rw [show (k : Int) - count = ((k - count : Nat) : Int) by omega]
      · rw [w.skip_position hin, p.skip_position hinp]
        omega
      · rw [p.skip_position hinp]
        exact hleft.imp (fun h => by omega) fun h => ⟨Place.skip_ahead (by simp [h.1]), rfl⟩

end

/-- A limited stream keeps the promise if the stream behind it does. -/
theorem obeys (hobeys : Obeys least At) (hleast : least ≤ 1) (bytes : List UInt8)
    (start n : Nat) : Obeys least (Limited At bytes start n) where
  next_at := by
    intro s p h
    cases h with
    | inside hat hw hp hposition hleft hlast =>
        exact next_inside hobeys hleast hat hw hp hposition hleft
    | beyond hat hw hp hposition hleft hk hhidden hlast =>
        simp only [next]
        rw [if_pos (by omega)]
        refine ⟨p.backUp 0, ⟨beyond_ahead hp hleft, rfl⟩,
          .beyond hat hw hp hposition hleft hk hhidden ?_⟩
        exact fun hpos => absurd hpos (Nat.lt_irrefl 0)
  backUp_at := by
    intro s p count h hallows
    cases h with
    | inside hat hw hp hposition hleft hlast =>
        exact backUp_inside hobeys hat hw hp hposition hleft hlast hallows
    | beyond hat hw hp hposition hleft hk hhidden hlast =>
        exact backUp_beyond hobeys hat hw hp hposition hleft hk hlast hallows
  skip_at := by
    intro s p count h
    cases h with
    | @inside input w _ k hat hw hp hposition hleft hlast =>
        by_cases hfar : k < count
        · exact skip_over hobeys hat hw hp hposition hleft hfar
        · exact skip_within hobeys hat hw hp hposition hleft (by omega)
    | beyond hat hw hp hposition hleft hk hhidden hlast =>
        obtain ⟨hskips, hstay⟩ := Place.skips_end (beyond_ahead hp hleft) count
        simp only [skip]
        rw [if_pos (by omega), if_pos (by omega)]
        exact ⟨false, _, rfl, hskips, .beyond hat hw hp (hstay ▸ hposition) (hstay ▸ hleft) hk hhidden
          fun hpos => absurd hpos (Nat.lt_irrefl 0)⟩
  byteCount_at := by
    intro s p h
    cases h with
    | inside hat hw hp hposition hleft hlast =>
        simp only [byteCount]
        rw [if_neg (by omega), hobeys.byteCount_at hat]
        omega
    | beyond hat hw hp hposition hleft hk hhidden hlast =>
        simp only [byteCount]
        rw [if_pos (by omega), hobeys.byteCount_at hat]
        omega

/-- The constructor asks where the stream is, and counts from there. -/
theorem at_new (hobeys : Obeys least At) {input : σ} {w : Place} (hat : At input w) (n : Nat) :
    Limited At w.bytes w.position n (new input n) (.start (w.ahead.take n)) := by
  rw [new, hobeys.byteCount_at hat]
  exact .inside hat rfl rfl rfl (.inl rfl) fun hpos => absurd hpos (Nat.lt_irrefl 0)

/-- The hidden end is given back at last. -/
theorem close_at (hobeys : Obeys least At) {bytes : List UInt8} {start n : Nat}
    {s : LimitingInputStream σ} {p : Place} (h : Limited At bytes start n s p) :
    ∃ input w, s.close = some input ∧ At input w ∧ w.bytes = bytes ∧
      w.position = start + p.position := by
  cases h with
  | @inside input w _ k hat hw hp hposition hleft hlast =>
      exact ⟨input, w, if_neg (Int.not_lt.mpr (Int.natCast_nonneg k)), hat, hw, hposition⟩
  | @beyond input w _ k hat hw hp hposition hleft hk hhidden hlast =>
      have hallows : w.Allows (.backUp k) := ⟨by omega, hhidden⟩
      obtain ⟨input', hinput, hat'⟩ := hobeys.backUp_at hat hallows
      have hover : -(k : Int) < 0 := by omega
      refine ⟨input', w.backUp k, ?_, hat', hw, ?_⟩
      · rw [close, if_pos hover, Int.neg_neg, hinput]
      · show w.position - k = start + p.position
        omega

/-- **The front of a stream, and what is left of it.** Limited to `n` bytes, a
stream answers as one that holds these only, whatever is asked; no check fails
then or in what may be asked next; and when it is closed, the stream behind it
stands where the reader has come to, not where the buffers have. -/
theorem limited_history (hobeys : Obeys least At) (hleast : least ≤ 1) {input : σ} {w : Place}
    (hat : At input w) (n : Nat) {calls : List (StreamCall × StreamAnswer)} {s : LimitingInputStream σ}
    (hrun : History Performs (new input n) calls s) (hrespects : Respects 0 calls) :
    ∃ p, History (Place.Step least) (.start (w.ahead.take n)) calls p ∧
      (∀ call, p.Allows call → ∃ answer s', Performs s call answer s') ∧
      ∃ rest w', s.close = some rest ∧ At rest w' ∧ w'.bytes = w.bytes ∧
        w'.position = w.position + p.position := by
  have hlimited := obeys hobeys hleast w.bytes w.position n
  obtain ⟨p, hhistory, h⟩ := hlimited.history (at_new hobeys hat n) hrun hrespects
  exact ⟨p, hhistory, hlimited.answers h, close_at hobeys h⟩

def blockCalls : List (StreamCall × StreamAnswer) :=
  [(.next, .next (some [1, 2])), (.next, .next (some [3])), (.backUp 1, .backUp)]

/-- Three bytes of five, read in blocks of two; the last is given back. -/
theorem limited_history_array :
    ∃ s, History Performs (new (ArrayInputStream.new [1, 2, 3, 4, 5] 2) 3) blockCalls s ∧
      ∃ p, History (Place.Step 1) (.start [1, 2, 3]) blockCalls p ∧
        (∀ call, p.Allows call → ∃ answer s', Performs s call answer s') ∧
        ∃ rest w', s.close = some rest ∧ ArrayInputStream.At rest w' ∧
          w'.bytes = [1, 2, 3, 4, 5] ∧ w'.position = 0 + p.position := by
  have hrun : History Performs (new (ArrayInputStream.new [1, 2, 3, 4, 5] 2) 3) blockCalls
      ⟨⟨[1, 2, 3, 4, 5], 2, 2, 0⟩, 1, 0⟩ := .cons rfl (.cons rfl (.cons rfl (.nil _)))
  exact ⟨_, hrun, limited_history ArrayInputStream.obeys (Nat.le_refl 1)
    (ArrayInputStream.at_new _ 2) 3 hrun (by simp [blockCalls, Respects])⟩

end LimitingInputStream

/-! ## 2. One stream after another -/

namespace ConcatenatingInputStream

/-- The streams that were not begun, with the bytes of each. -/
abbrev Fresh (At : σ → Place → Prop) : List σ → List (List UInt8) → Prop :=
  List.Forall₂ fun s part => At s (.start part)

/-- The first of the streams is somewhere, those behind it were not begun, and
`front` are the bytes of those retired; or all are retired. -/
inductive Concatenated (At : σ → Place → Prop) : ConcatenatingInputStream σ → Place → Prop where
  | reading {first : σ} {streams : List σ} {w p : Place} {front : List UInt8}
      {parts : List (List UInt8)} (hat : At first w) (hrest : Fresh At streams parts)
      (hp : p.bytes = front ++ (w.bytes ++ parts.flatten))
      (hposition : p.position = front.length + w.position)
      (hlast : 0 < p.lastSize → p.lastSize = w.lastSize) :
      Concatenated At ⟨first :: streams, front.length⟩ p
  | ended {p : Place} {retired : Int} (hend : p.ahead = []) (hretired : retired = p.position)
      (hlast : p.lastSize = 0) : Concatenated At ⟨[], retired⟩ p

section

variable {streams : List σ} {parts : List (List UInt8)} {first : σ} {w p : Place}
  {front : List UInt8}

theorem length_ahead (hp : p.bytes = front ++ (w.bytes ++ parts.flatten))
    (hposition : p.position = front.length + w.position) :
    p.ahead.length = w.ahead.length + parts.flatten.length := by
  have hle := w.position_le
  rw [Place.length_ahead, Place.length_ahead, hp, List.length_append, List.length_append]
  omega

/-- The first stream has ended, and the next takes its place. -/
theorem retire (hw : w.ahead = []) (hp : p.bytes = front ++ (w.bytes ++ parts.flatten))
    (hposition : p.position = front.length + w.position) :
    p.bytes = (front ++ w.bytes) ++ parts.flatten ∧ p.position = (front ++ w.bytes).length := by
  have hle := w.position_le
  have hend := Place.ahead_eq_nil.mp hw
  refine ⟨by rw [hp, List.append_assoc], ?_⟩
  rw [List.length_append]
  omega

/-- A buffer of the first stream, or its end and the loop behind it. -/
theorem next_first (hobeys : Obeys least At) (hat : At first w) (hrest : Fresh At streams parts)
    (hp : p.bytes = front ++ (w.bytes ++ parts.flatten))
    (hposition : p.position = front.length + w.position)
    (ih : ∀ front : List UInt8, p.bytes = front ++ parts.flatten → p.position = front.length →
      ∃ p', p.Fetches least (nextLoop streams front.length).1 p' ∧
        Concatenated At (nextLoop streams front.length).2 p') :
    ∃ p', p.Fetches least (nextLoop (first :: streams) front.length).1 p' ∧
      Concatenated At (nextLoop (first :: streams) front.length).2 p' := by
  obtain ⟨w', hfetches, hat'⟩ := hobeys.next_at hat
  rw [nextLoop]
  generalize next first = out at hfetches hat' ⊢
  obtain ⟨data, first'⟩ := out
  cases data with
  | none =>
      obtain ⟨hnone, rfl⟩ := hfetches
      obtain ⟨hbytes, hend⟩ := retire hnone hp hposition
      have hretired : (front.length : Int) + byteCount first' = ((front ++ w.bytes).length : Nat) := by
        rw [hobeys.byteCount_at hat', ← hend, hposition]
        rfl
      dsimp only
      rw [hretired]
      exact ih _ hbytes hend
  | some data =>
      obtain ⟨size, hfits, hsize, rfl, rfl⟩ := hfetches
      have hle := w.position_le
      have hroom : p.position + size ≤ p.bytes.length := by
        rw [hp, List.length_append, List.length_append]
        omega
      refine ⟨p.fetch size hroom, ⟨size, hroom, hsize, ?_, rfl⟩,
        .reading hat' hrest hp ?_ fun _ => rfl⟩
      · rw [Place.ahead, Place.ahead, hp, hposition, List.drop_length_add_append,
          List.drop_append_of_le_length hle, List.take_append_of_le_length]
        rw [List.length_drop]
        omega
      · show p.position + size = front.length + (w.position + size)
        omega

/-- By induction on the streams that are left. -/
theorem nextLoop_at (hobeys : Obeys least At) (hrest : Fresh At streams parts)
    (hp : p.bytes = front ++ parts.flatten) (hposition : p.position = front.length) :
    ∃ p', p.Fetches least (nextLoop streams front.length).1 p' ∧
      Concatenated At (nextLoop streams front.length).2 p' := by
  induction hrest generalizing front with
  | nil =>
      have hend : p.ahead = [] := by
        rw [Place.ahead_eq_nil, hp, hposition]
        simp
      rw [nextLoop, ← hposition]
      exact ⟨p.backUp 0, ⟨hend, rfl⟩, .ended hend rfl rfl⟩
  | cons hat hrest ih => exact next_first hobeys hat hrest hp hposition fun front => ih

/-- A skip that the first stream has enough bytes for, or one that goes to its
end. What is left to skip is then computed from the byte counts of the stream
before and after. -/
theorem skip_first (hobeys : Obeys least At) (hat : At first w) (hrest : Fresh At streams parts)
    (hp : p.bytes = front ++ (w.bytes ++ parts.flatten))
    (hposition : p.position = front.length + w.position) (count : Nat)
    (ih : ∀ (p : Place) (front : List UInt8) (count : Nat), p.bytes = front ++ parts.flatten →
      p.position = front.length → ∃ all s', skipLoop streams count front.length = some (all, s') ∧
        p.Skips count all ∧ Concatenated At s' (p.skip count)) :
    ∃ all s', skipLoop (first :: streams) count front.length = some (all, s') ∧
      p.Skips count all ∧ Concatenated At s' (p.skip count) := by
  obtain ⟨all, first', hskip, hskips, hat'⟩ := hobeys.skip_at count hat
  have hroom := length_ahead hp hposition
  rw [skipLoop, hskip]
  cases all with
  | true =>
      have hin : count ≤ w.ahead.length := hskips
      have hinp : count ≤ p.ahead.length := by omega
      refine ⟨true, _, rfl, hinp, .reading hat' hrest hp ?_ fun hpos => absurd hpos (Nat.lt_irrefl 0)⟩
      rw [p.skip_position hinp, w.skip_position hin]
      omega
  | false =>
      have hshort : w.ahead.length < count ∨ count = 0 ∧ w.ahead = [] := hskips
      have hcount : 0 < count - w.ahead.length ∨ w.ahead.length = 0 := by
        rcases hshort with hlt | ⟨-, hnil⟩
        · exact .inl (by omega)
        · exact .inr (by rw [hnil, List.length_nil])
      have hall : w.ahead.length ≤ count := by
        rcases hshort with hlt | ⟨-, hnil⟩
        · exact Nat.le_of_lt hlt
        · rw [hnil]
          exact Nat.zero_le _
      have hk : w.ahead.length ≤ p.ahead.length := by omega
      have hend := w.skip_all hall
      have hlength := w.length_ahead
      have hle := w.position_le
      -- what is left to skip, and where
      have hleft : byteCount first + (count : Int) - byteCount first' =
          ((count - w.ahead.length : Nat) : Int) := by
        rw [hobeys.byteCount_at hat, hobeys.byteCount_at hat', hend]
        omega
      have hretired : (front.length : Int) + byteCount first' = ((front ++ w.bytes).length : Nat) := by
        rw [hobeys.byteCount_at hat', hend, List.length_append]
        omega
      dsimp only
      rw [hleft, hretired]
      obtain ⟨all, s', hloop, hskips', h⟩ := ih (p.skip w.ahead.length) (front ++ w.bytes)
        (count - w.ahead.length) (hp.trans (List.append_assoc _ _ _).symm) (by
          rw [p.skip_position hk, List.length_append]
          omega)
      have hsum : w.ahead.length + (count - w.ahead.length) = count := by omega
      refine ⟨all, s', hloop, ?_, ?_⟩
      · rw [← hsum]
        exact hskips'.after hk hcount
      · rw [Place.skip_skip hk, hsum] at h
        exact h

/-- With no streams left the skip is short. -/
theorem skipLoop_at (hobeys : Obeys least At) (hrest : Fresh At streams parts) (count : Nat)
    (hp : p.bytes = front ++ parts.flatten) (hposition : p.position = front.length) :
    ∃ all s', skipLoop streams count front.length = some (all, s') ∧ p.Skips count all ∧
      Concatenated At s' (p.skip count) := by
  induction hrest generalizing p front count with
  | nil =>
      have hend : p.ahead = [] := by
        rw [Place.ahead_eq_nil, hp, hposition]
        simp
      obtain ⟨hskips, hstay⟩ := Place.skips_end hend count
      refine ⟨false, ⟨[], front.length⟩, rfl, hskips,
        .ended (Place.skip_ahead (by simp [hend])) ?_ rfl⟩
      rw [hstay, hposition]
  | cons hat hrest ih =>
      exact skip_first hobeys hat hrest hp hposition count fun p front count => ih count

end

theorem obeys (hobeys : Obeys least At) : Obeys least (Concatenated At) where
  next_at := by
    intro s p h
    cases h with
    | reading hat hrest hp hposition hlast =>
        exact next_first hobeys hat hrest hp hposition fun front => nextLoop_at hobeys hrest
    | ended hend hretired hlast => exact ⟨p.backUp 0, ⟨hend, rfl⟩, .ended hend hretired rfl⟩
  backUp_at := by
    rintro s p count h ⟨hpos, hcount⟩
    cases h with
    | @reading first streams w _ front parts hat hrest hp hposition hlast =>
        have hsame := hlast hpos
        have hle := w.lastSize_le
        have hallows : w.Allows (.backUp count) := ⟨by omega, by omega⟩
        obtain ⟨first', hfirst, hat'⟩ := hobeys.backUp_at hat hallows
        refine ⟨⟨first' :: streams, front.length⟩, ?_, .reading hat' hrest hp ?_ ?_⟩
        · simp only [backUp]
          rw [hfirst]
          rfl
        · show p.position - count = front.length + (w.position - count)
          omega
        · exact fun hpos => absurd hpos (Nat.lt_irrefl 0)
    | ended hend hretired hlast => exact absurd hpos (by omega)
  skip_at := by
    intro s p count h
    cases h with
    | reading hat hrest hp hposition hlast =>
        exact skip_first hobeys hat hrest hp hposition count fun p front count =>
          skipLoop_at hobeys hrest count
    | ended hend hretired hlast =>
        have hnil : p.bytes = p.bytes ++ ([] : List (List UInt8)).flatten := (List.append_nil _).symm
        have hposition := Nat.le_antisymm p.position_le (Place.ahead_eq_nil.mp hend)
        rw [hretired, hposition]
        exact skipLoop_at hobeys .nil count hnil hposition
  byteCount_at := by
    intro s p h
    cases h with
    | reading hat hrest hp hposition hlast =>
        simp only [byteCount]
        rw [hobeys.byteCount_at hat, hposition]
        rfl
    | ended hend hretired hlast => exact hretired

omit [ZeroCopyInputStream σ] in
theorem at_new {streams : List σ} {parts : List (List UInt8)} (h : Fresh At streams parts) :
    Concatenated At (new streams) (.start parts.flatten) := by
  cases h with
  | nil => exact .ended rfl rfl rfl
  | @cons first part streams parts hat hrest =>
      have hp : (Place.start (part :: parts).flatten).bytes =
          [] ++ ((Place.start part).bytes ++ parts.flatten) := rfl
      refine .reading hat hrest hp rfl ?_
      exact fun hpos => absurd hpos (Nat.lt_irrefl 0)

/-- **One stream after another.** Streams that were not begun answer, one after
another, as one stream that holds the bytes of all, whatever is asked, wherever
the streams and their buffers end; and no check fails in what may be asked next. -/
theorem concatenated_history (hobeys : Obeys least At) {streams : List σ} {parts : List (List UInt8)}
    (hfresh : Fresh At streams parts) {calls : List (StreamCall × StreamAnswer)}
    {s : ConcatenatingInputStream σ} (hrun : History Performs (new streams) calls s)
    (hrespects : Respects 0 calls) :
    ∃ p, History (Place.Step least) (.start parts.flatten) calls p ∧
      ∀ call, p.Allows call → ∃ answer s', Performs s call answer s' := by
  obtain ⟨p, hhistory, h⟩ := (obeys hobeys).history (at_new hfresh) hrun hrespects
  exact ⟨p, hhistory, (obeys hobeys).answers h⟩

end ConcatenatingInputStream

/-! ## 3. Streams of two kinds

The list of a concatenated stream has streams of one type. A sum makes one type
of two, and with it anything may stand behind anything. -/

theorem Obeys.sum {τ : Type} [ZeroCopyInputStream τ] {At' : τ → Place → Prop} (h : Obeys least At)
    (h' : Obeys least At') : Obeys least (Sum.elim At At') where
  next_at := by
    rintro (s | t) p hat
    · exact h.next_at hat
    · exact h'.next_at hat
  backUp_at := by
    rintro (s | t) p count hat hallows
    · obtain ⟨s', hs', hat'⟩ := h.backUp_at hat hallows
      exact ⟨.inl s', congrArg (Option.map Sum.inl) hs', hat'⟩
    · obtain ⟨t', ht', hat'⟩ := h'.backUp_at hat hallows
      exact ⟨.inr t', congrArg (Option.map Sum.inr) ht', hat'⟩
  skip_at := by
    rintro (s | t) p count hat
    · obtain ⟨all, s', hs', hskips, hat'⟩ := h.skip_at count hat
      exact ⟨all, .inl s', congrArg (Option.map (Prod.map id Sum.inl)) hs', hskips, hat'⟩
    · obtain ⟨all, t', ht', hskips, hat'⟩ := h'.skip_at count hat
      exact ⟨all, .inr t', congrArg (Option.map (Prod.map id Sum.inr)) ht', hskips, hat'⟩
  byteCount_at := by
    rintro (s | t) p hat
    · exact h.byteCount_at hat
    · exact h'.byteCount_at hat

namespace ConcatenatingInputStream

/-- An array, and behind it the front of another. -/
def twoStreams : List (ArrayInputStream ⊕ LimitingInputStream ArrayInputStream) :=
  [.inl (.new [1, 2] 0), .inr (.new (.new [3, 4, 5, 6] 2) 3)]

theorem fresh_twoStreams :
    Fresh (Sum.elim ArrayInputStream.At
      (LimitingInputStream.Limited ArrayInputStream.At [3, 4, 5, 6] 0 3)) twoStreams
      [[1, 2], [3, 4, 5]] := by
  refine .cons (ArrayInputStream.at_new [1, 2] 0) (.cons ?_ .nil)
  exact LimitingInputStream.at_new ArrayInputStream.obeys (ArrayInputStream.at_new [3, 4, 5, 6] 2) 3

def twoCalls : List (StreamCall × StreamAnswer) :=
  [(.next, .next (some [1, 2])), (.next, .next (some [3, 4])), (.backUp 1, .backUp),
    (.skip 9, .skip false), (.byteCount, .byteCount 5)]

theorem concatenated_history_nested :
    ∃ s, History Performs (new twoStreams) twoCalls s ∧
      ∃ p, History (Place.Step 1) (.start [1, 2, 3, 4, 5]) twoCalls p ∧
        ∀ call, p.Allows call → ∃ answer s', Performs s call answer s' := by
  have hrun : History Performs (new twoStreams) twoCalls ⟨[], 5⟩ :=
    .cons rfl (.cons rfl (.cons rfl (.cons rfl (.cons rfl (.nil _)))))
  refine ⟨_, hrun, ?_⟩
  exact concatenated_history (ArrayInputStream.obeys.sum
    (LimitingInputStream.obeys ArrayInputStream.obeys (Nat.le_refl 1) [3, 4, 5, 6] 0 3))
    fresh_twoStreams hrun (by simp [twoCalls, Respects])

end ConcatenatingInputStream

end SpringDome.Protobuf
