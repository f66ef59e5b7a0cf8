/-
SpringDome.Protobuf.CodedInputTags — tags, and the limits of messages.

A tag of 0 tells the end. Whether a message may end there
(`ConsumedEntireMessage`) depends on which limit was met, and on three paths
through `ReadTag`: `AnswersTag` says that all of them do what `Cursor.readTag`
does, as long as the stream does not remember an end that is none
(`Cursor.Ended`).

Why `Ended` is there. `ReadTag` sets the flag only where it meets the end; a
tag that is no varint gives 0 as well and leaves the flag as it was. After such
a tag the flag must be down, so it must have been down before. It was if there
was anything to read, and that is what `Ended` gives: the flag is up only at
the limit of the message or behind the last byte. A limit that is taken back
puts it down (`popLimit`), and no other call brings bytes before the limit.

How the proofs go. A path that reads a number is `readVarint64_simulates` or an
array decoder of the last module, with a failure turned into the tag 0
(`tagOfVarint_answers`). A path that reads none has found the end by itself:
the fallback at a limit, without asking for a buffer, and the slow path after a
refresh that failed (`tagOfEnd_answers`). Both compute what `Cursor.endsMessage`
says. The case in between is a refresh that succeeds and brings nothing before
the limit: then the total limit is met, the number fails, and the message may
not end (`tagAtTotalLimit_answers`).

The frame lemmas of the first section say that a reader of numbers leaves the
flag alone. `Simulates` cannot say so: it speaks of the stream only after a
success.
-/
import SpringDome.Protobuf.CodedInputTheorems

namespace SpringDome.Protobuf

open SpringDome.Lib.WireFormat

/-! ## 1. Tags -/

namespace Cursor

/-- Where a message may end: at the end of the bytes or at a limit that a
message has, not at the total limit alone. -/
def endsMessage (c : Cursor) : Bool :=
  decide (c.position < c.totalBytesLimit) || decide (c.currentLimit = c.totalBytesLimit)

/-- A tag, or 0 at the end; none is read from bytes that are no varint. -/
def nextTag (c : Cursor) : Option (UInt32 × Cursor) :=
  match Varint.decode kMaxVarintBytes c.readable with
  | .ok (n, rest) => some (UInt32.ofNat n, c.advance (c.readable.length - rest.length))
  | .error _ =>
      if c.readable = [] then some (0, { c with legitimateMessageEnd := c.endsMessage }) else none

def readTag (c : Cursor) : Option (UInt32 × Cursor) :=
  c.nextTag.map fun (tag, c) => (tag, { c with lastTag := tag })

/-- A message that has ended stays so until the limit is another. The total
limit is left out, since a message does not end there. -/
def Ended (c : Cursor) : Prop :=
  c.legitimateMessageEnd = true → c.currentLimit = c.position ∨ c.ahead = []

/-- So the flag is down wherever a byte may be read. -/
theorem Ended.readable {c : Cursor} (h : c.Ended) (hend : c.legitimateMessageEnd = true) :
    c.readable = [] := by
  unfold Cursor.readable
  rcases h hend with hlimit | hahead
  · rw [Nat.sub_eq_zero_of_le, List.take_zero]
    rw [← hlimit]
    exact Nat.min_le_left _ _
  · rw [hahead, List.take_nil]

theorem nextTag_of_decode {c : Cursor} {n : Nat} {rest : List UInt8}
    (h : Varint.decode kMaxVarintBytes c.readable = .ok (n, rest)) :
    c.nextTag = some (UInt32.ofNat n, c.advance (c.readable.length - rest.length)) := by
  unfold nextTag
  rw [h]

theorem nextTag_of_end {c : Cursor} (h : c.readable = []) :
    c.nextTag = some (0, { c with legitimateMessageEnd := c.endsMessage }) := by
  unfold nextTag
  rw [if_pos h, h]
  rfl

theorem nextTag_of_error {c : Cursor} {failure : Failure}
    (h : Varint.decode kMaxVarintBytes c.readable = .error failure) (hne : c.readable ≠ []) :
    c.nextTag = none := by
  unfold nextTag
  rw [h, if_neg hne]

end Cursor

namespace CodedInputStream

/-- A tag is read as the cursor reads it; where it reads none the tag is 0 and
no message has ended. -/
def AnswersTag (result : Outcome UInt32 × CodedInputStream) : Option (UInt32 × Cursor) → Prop
  | some (tag, c) => ∃ s', result = (.done tag, s') ∧ s'.WellFormed ∧ s'.abs = c
  | none => ∃ s', result = (.done 0, s') ∧ s'.legitimateMessageEnd = false

/-! Frame lemmas: only `ReadTag` and `PopLimit` write the flag. -/

theorem recomputeBufferLimits_legitimateMessageEnd (s : CodedInputStream) :
    s.recomputeBufferLimits.legitimateMessageEnd = s.legitimateMessageEnd := by
  unfold recomputeBufferLimits
  dsimp only
  split <;> rfl

theorem refresh_legitimateMessageEnd (s : CodedInputStream) :
    s.refresh.2.legitimateMessageEnd = s.legitimateMessageEnd := by
  unfold refresh
  split
  · rfl
  · split
    · rfl
    · split <;> exact recomputeBufferLimits_legitimateMessageEnd _

theorem refreshUntilBytes_legitimateMessageEnd (fuel : Nat) (s : CodedInputStream) :
    (refreshUntilBytes fuel s).2.legitimateMessageEnd = s.legitimateMessageEnd := by
  induction fuel generalizing s with
  | zero => rfl
  | succ fuel ih =>
      have hrefresh := s.refresh_legitimateMessageEnd
      rw [refreshUntilBytes]
      split
      · rfl
      · split
        · rename_i heq
          rw [heq] at hrefresh
          exact hrefresh
        · rename_i heq
          rw [heq] at hrefresh
          rw [ih, hrefresh]

theorem readVarint64Loop_legitimateMessageEnd (left : Nat) (count result : UInt64)
    (s : CodedInputStream) :
    (readVarint64Loop left count result s).2.legitimateMessageEnd = s.legitimateMessageEnd := by
  induction left generalizing count result s with
  | zero => rfl
  | succ left ih =>
      have hrefresh := refreshUntilBytes_legitimateMessageEnd (s.input.length + 2) s
      rw [readVarint64Loop]
      split
      · rename_i heq
        rw [heq] at hrefresh
        exact hrefresh
      · rename_i heq
        rw [heq] at hrefresh
        split
        · exact hrefresh
        · dsimp only
          split
          · exact hrefresh
          · rw [ih, hrefresh]

theorem readVarint64_legitimateMessageEnd (s : CodedInputStream) :
    s.readVarint64.2.legitimateMessageEnd = s.legitimateMessageEnd := by
  have hfallback : s.readVarint64Fallback.2.legitimateMessageEnd = s.legitimateMessageEnd := by
    unfold readVarint64Fallback
    split
    · unfold takeFromArray
      split <;> rfl
    · exact readVarint64Loop_legitimateMessageEnd _ _ _ s
  unfold readVarint64
  split
  · split
    · rfl
    · exact hfallback
  · exact hfallback

/-- Nothing is read behind a limit, and the stream stays as it is: a buffer that
is empty fails the guard, and the refresh is refused. -/
theorem readVarint64_at_limit {s : CodedInputStream} (hbuffer : s.buffer = [])
    (hafter : s.afterLimit ≠ []) : s.readVarint64 = (.failed, s) := by
  have hrefresh : s.refresh = (false, s) := by
    unfold refresh
    rw [if_pos (.inl hafter)]
  have hloop : refreshUntilBytes (s.input.length + 2) s = (false, s) := by
    rw [refreshUntilBytes, hbuffer]
    dsimp only
    rw [hrefresh]
  unfold readVarint64 readVarint64Fallback readVarint64Slow
  rw [hbuffer, varintEndsInBuffer_nil hbuffer]
  dsimp only
  rw [if_neg Bool.false_ne_true, show kMaxVarintBytes = 9 + 1 from rfl, readVarint64Loop, hloop]

theorem recomputeBufferLimits_append (s : CodedInputStream) :
    s.recomputeBufferLimits.buffer ++ s.recomputeBufferLimits.afterLimit =
      s.buffer ++ s.afterLimit := by
  unfold recomputeBufferLimits
  dsimp only
  split
  · exact List.take_append_drop _ _
  · exact List.append_nil _

/-- What a refresh fetches is in the buffer or behind the limit, and the limit
of the message was not yet reached. The input gives no empty buffer, and there
is room to count at least one byte, for the count is below a limit. -/
theorem WellFormed.refresh_progress {s s' : CodedInputStream} (h : s.WellFormed)
    (hempty : s.buffer = []) (hrefresh : s.refresh = (true, s')) :
    s'.buffer ++ s'.afterLimit ≠ [] ∧ s.currentLimit ≠ s.currentPosition := by
  unfold refresh at hrefresh
  split at hrefresh
  · cases hrefresh
  · rename_i hlimit
    have hafter : s.afterLimit = [] :=
      Classical.byContradiction fun hne => hlimit (.inl hne)
    have hposition : s.currentPosition = s.totalBytesRead := by
      unfold currentPosition
      rw [hempty, hafter]
      rfl
    have hcurrent : s.currentLimit ≠ s.currentPosition := by
      rw [hposition]
      exact fun heq => hlimit (.inr (.inr heq.symm))
    refine ⟨?_, hcurrent⟩
    have hroom : s.totalBytesRead < intMax := by
      have hclosest := h.closest
      have hle := s.closestLimit_le
      have hmax := h.limit
      omega
    split at hrefresh
    · cases hrefresh
    · rename_i data input hnext
      obtain ⟨-, -, hdata, -, hne⟩ := nextNonEmpty_some hnext
      have hshort := h.input data hdata
      have hpos := List.length_pos_iff.mpr hne
      split at hrefresh
      · cases hrefresh
        rw [recomputeBufferLimits_append]
        exact List.append_ne_nil_of_left_ne_nil hne _
      · cases hrefresh
        rw [recomputeBufferLimits_append]
        refine List.append_ne_nil_of_left_ne_nil (List.length_pos_iff.mp ?_) _
        rw [List.length_take]
        omega

/-- What `ReadTagSlow` does when there are bytes. With bytes before the limit a
failure is a bad varint or one that is cut short, never the end. -/
theorem tagOfVarint_answers {s : CodedInputStream} (h : s.WellFormed)
    (hend : s.legitimateMessageEnd = false) (hne : s.abs.readable ≠ []) :
    AnswersTag
      (match s.readVarint64 with
      | (.done value, s) => (.done value.toUInt32, s)
      | (.failed, s) => (.done 0, s)
      | (.overrun, s) => (.overrun, s)) s.abs.nextTag := by
  have hread := readVarint64_simulates s h
  have hframe := s.readVarint64_legitimateMessageEnd
  dsimp only at hread
  cases hdecode : Varint.decode kMaxVarintBytes s.abs.readable with
  | ok x =>
      obtain ⟨n, rest⟩ := x
      rw [Cursor.readWith_varint hdecode] at hread
      obtain ⟨s', hs', hwell, habs⟩ := hread
      rw [Cursor.nextTag_of_decode hdecode, hs', ← toUInt32_ofNat]
      exact ⟨s', rfl, hwell, habs⟩
  | error failure =>
      rw [Cursor.readWith_varint_error hdecode] at hread
      rw [Cursor.nextTag_of_error hdecode hne]
      cases hpair : s.readVarint64 with
      | mk outcome s' =>
          rw [hpair] at hread hframe
          obtain rfl : outcome = .failed := hread
          exact ⟨s', rfl, hframe.trans hend⟩

/-- What `ReadTagSlow` does when a refresh finds nothing: its test of the total
limit is `endsMessage`. -/
theorem tagOfEnd_answers {s s' : CodedInputStream} (h : s.WellFormed) (hbuffer : s.buffer = [])
    (hrefresh : s.refresh = (false, s')) :
    AnswersTag
      (.done 0, { s' with legitimateMessageEnd :=
        if s'.totalBytesLimit ≤ s'.totalBytesRead - s'.afterLimit.length then
          s'.currentLimit == s'.totalBytesLimit
        else true }) s.abs.nextTag := by
  obtain ⟨hwell, habs, hempty, hnone⟩ := h.refresh_false hbuffer hrefresh
  have hposition : s'.totalBytesRead - s'.afterLimit.length = s.abs.position := by
    rw [← habs]
    show _ = s'.totalBytesRead - (s'.buffer.length + s'.afterLimit.length)
    rw [hempty, List.length_nil, Nat.zero_add]
  have hends : (if s'.totalBytesLimit ≤ s'.totalBytesRead - s'.afterLimit.length then
      s'.currentLimit == s'.totalBytesLimit else true) = s.abs.endsMessage := by
    rw [hposition, ← habs]
    show _ = (decide (s'.abs.position < s'.totalBytesLimit) ||
      decide (s'.currentLimit = s'.totalBytesLimit))
    by_cases htotal : s'.totalBytesLimit ≤ s'.abs.position
    · rw [if_pos htotal, decide_eq_false (by omega), Bool.false_or]
      rfl
    · rw [if_neg htotal, decide_eq_true (by omega), Bool.true_or]
  rw [Cursor.nextTag_of_end hnone, hends]
  refine ⟨_, rfl, ⟨hwell.position, hwell.total, hwell.limit, hwell.afterLimit, hwell.closest,
    hwell.overflow, hwell.input⟩, ?_⟩
  rw [← habs]
  rfl

/-- What `ReadTagSlow` does when a refresh brings nothing before the limit: the
total limit lies between two buffers, and a message may not end there. -/
theorem tagAtTotalLimit_answers {s : CodedInputStream} (h : s.WellFormed) (hempty : s.buffer = [])
    (hafter : s.afterLimit ≠ []) (hcurrent : s.currentLimit ≠ s.abs.position)
    (hend : s.legitimateMessageEnd = false) :
    AnswersTag
      (match s.readVarint64 with
      | (.done value, s) => (.done value.toUInt32, s)
      | (.failed, s) => (.done 0, s)
      | (.overrun, s) => (.overrun, s)) s.abs.nextTag := by
  have hnone : s.abs.readable = [] := by
    rw [h.readable_of_limit (.inl hafter), hempty]
  have hposition : s.abs.position = s.closestLimit := by
    have hle := h.position
    have hpos := List.length_pos_iff.mpr hafter
    have hlimit := h.afterLimit
    show s.totalBytesRead - (s.buffer.length + s.afterLimit.length) = _
    rw [hempty, List.length_nil] at hle ⊢
    omega
  have htotal : s.totalBytesLimit = s.abs.position := by
    unfold closestLimit at hposition
    omega
  have hends : s.abs.endsMessage = false := by
    show (decide (s.abs.position < s.totalBytesLimit) ||
      decide (s.currentLimit = s.totalBytesLimit)) = false
    rw [htotal, decide_eq_false (Nat.lt_irrefl _), decide_eq_false hcurrent]
    rfl
  rw [readVarint64_at_limit hempty hafter, Cursor.nextTag_of_end hnone, hends]
  refine ⟨s, rfl, h, ?_⟩
  unfold abs
  rw [hend]

/-- Three cases: bytes in the buffer, no bytes to be had, and a new buffer. -/
theorem readTagSlow_answers {s : CodedInputStream} (h : s.WellFormed) (hended : s.abs.Ended) :
    AnswersTag s.readTagSlow s.abs.nextTag := by
  unfold readTagSlow
  cases hbuffer : s.buffer with
  | cons b buffer =>
      have hne : s.abs.readable ≠ [] := by
        rw [h.readable_eq, hbuffer]
        exact List.cons_ne_nil _ _
      have hend : s.legitimateMessageEnd = false :=
        Bool.eq_false_iff.mpr fun htrue => hne (hended.readable htrue)
      exact tagOfVarint_answers h hend hne
  | nil =>
      dsimp only
      cases hrefresh : s.refresh with
      | mk success s' =>
          cases success with
          | false => exact tagOfEnd_answers h hbuffer hrefresh
          | true =>
              -- bytes came, so the flag is down, wherever the limits lie
              obtain ⟨hwell, habs, -⟩ := h.refresh_true hbuffer hrefresh
              obtain ⟨hprogress, hcurrent⟩ := h.refresh_progress hbuffer hrefresh
              have hahead : s.abs.ahead ≠ [] := by
                rw [← habs]
                show s'.buffer ++ (s'.afterLimit ++ _) ≠ []
                rw [← List.append_assoc]
                exact List.append_ne_nil_of_left_ne_nil hprogress _
              have hend : s.legitimateMessageEnd = false := by
                refine Bool.eq_false_iff.mpr fun htrue => ?_
                rcases hended htrue with heq | hnil
                · exact hcurrent heq
                · exact hahead hnil
              have hend' : s'.legitimateMessageEnd = false := by
                rw [← hend]
                exact congrArg Cursor.legitimateMessageEnd habs
              dsimp only
              rw [← habs]
              by_cases hempty : s'.buffer = []
              · rw [hempty, List.nil_append] at hprogress
                refine tagAtTotalLimit_answers hwell hempty hprogress (fun heq => ?_) hend'
                have hlimit : s'.abs.currentLimit = s.abs.currentLimit := by rw [habs]
                have hmove : s'.abs.position = s.abs.position := by rw [habs]
                exact hcurrent (hlimit.symm.trans (heq.trans hmove))
              · have hne : s'.abs.readable ≠ [] := by
                  rw [hwell.readable_eq]
                  exact List.append_ne_nil_of_left_ne_nil hempty _
                exact tagOfVarint_answers hwell hend' hne

/-- The caller has seen the first byte: a byte below 128 other than 0 is a tag
by itself and does not come here. -/
theorem readTagFallback_answers {s : CodedInputStream} (h : s.WellFormed) (hended : s.abs.Ended)
    {first : UInt32}
    (hfirst : ∀ b buffer, s.buffer = b :: buffer → first = b.toUInt32 ∧ (b = 0 ∨ 128 ≤ b.toNat)) :
    AnswersTag (s.readTagFallback first) s.abs.nextTag := by
  unfold readTagFallback
  by_cases hguard : s.varintEndsInBuffer = true
  · rw [if_pos hguard]
    cases hbuffer : s.buffer with
    | nil =>
        rw [varintEndsInBuffer_nil hbuffer] at hguard
        cases hguard
    | cons b buffer =>
        obtain ⟨rfl, rfl | hb⟩ := hfirst b buffer hbuffer
        · -- the byte 0 is the tag 0, and it is taken: the number of no field
          obtain ⟨rest, hdecode, hwell, habs⟩ := h.take_byte hbuffer (by decide)
          rw [if_pos (show UInt8.toUInt32 0 = 0 from rfl), Cursor.nextTag_of_decode hdecode]
          exact ⟨_, rfl, hwell, habs⟩
        have hfirst : b.toUInt32 ≠ 0 := by
          intro hzero
          have hnat := congrArg UInt32.toNat hzero
          rw [UInt8.toNat_toUInt32] at hnat
          have hzero' : b.toNat = 0 := hnat
          omega
        have hne : s.abs.readable ≠ [] := by
          rw [h.readable_eq, hbuffer]
          exact List.cons_ne_nil _ _
        have hend : s.legitimateMessageEnd = false :=
          Bool.eq_false_iff.mpr fun htrue => hne (hended.readable htrue)
        have henough := decode_of_varintEndsInBuffer hguard
        rw [if_neg hfirst, readVarint32FromArray_eq hb, ← hbuffer]
        cases hdecode : Varint.decode 10 s.buffer with
        | ok x =>
            obtain ⟨n, ptr⟩ := x
            obtain ⟨rest, hmore, hwell, habs⟩ := h.take_varint hdecode
            rw [Cursor.nextTag_of_decode hmore]
            exact ⟨_, rfl, hwell, habs⟩
        | error failure =>
            obtain rfl : failure = .malformedVarint := by
              rcases Varint.decode_error hdecode with rfl | rfl
              · exact absurd hdecode henough
              · rfl
            have hmore := Varint.decode_malformed_append hdecode
              ((s.afterLimit ++ (s.overflow ++ s.input.flatten)).take
                (s.closestLimit - s.currentPosition - s.buffer.length))
            rw [← h.readable_eq] at hmore
            rw [Cursor.nextTag_of_error hmore hne]
            exact ⟨s, rfl, hend⟩
  · rw [if_neg hguard]
    by_cases hlimit : s.buffer = [] ∧ (s.afterLimit ≠ [] ∨ s.totalBytesRead = s.currentLimit) ∧
        s.totalBytesRead - s.afterLimit.length < s.totalBytesLimit
    · -- at the limit of a message, so that no buffer is asked for
      obtain ⟨hempty, hreached, htotal⟩ := hlimit
      have hnone : s.abs.readable = [] := by
        rw [h.readable_of_limit (hreached.imp id .inr), hempty]
      have hends : s.abs.endsMessage = true := by
        have hposition : s.abs.position = s.totalBytesRead - s.afterLimit.length := by
          show s.totalBytesRead - (s.buffer.length + s.afterLimit.length) = _
          rw [hempty, List.length_nil, Nat.zero_add]
        show (decide (s.abs.position < s.totalBytesLimit) || _) = true
        rw [hposition, decide_eq_true htotal, Bool.true_or]
      rw [if_pos ⟨hempty, hreached, htotal⟩, Cursor.nextTag_of_end hnone, hends]
      exact ⟨_, rfl, ⟨h.position, h.total, h.limit, h.afterLimit, h.closest, h.overflow, h.input⟩,
        rfl⟩
    · rw [if_neg hlimit]
      exact readTagSlow_answers h hended

theorem readTagNoLastTag_answers {s : CodedInputStream} (h : s.WellFormed)
    (hended : s.abs.Ended) : AnswersTag s.readTagNoLastTag s.abs.nextTag := by
  unfold readTagNoLastTag
  cases hbuffer : s.buffer with
  | nil =>
      refine readTagFallback_answers h hended fun b buffer hcons => ?_
      rw [hbuffer] at hcons
      cases hcons
  | cons b buffer =>
      dsimp only
      by_cases hb : b < 0x80
      · obtain ⟨rest, hdecode, hwell, habs⟩ := h.take_byte hbuffer hb
        rw [if_pos hb, Cursor.nextTag_of_decode hdecode]
        refine ⟨_, ?_, hwell, habs⟩
        congr 2
        refine UInt32.toNat_inj.mp ?_
        simp
      · rw [if_neg hb]
        refine readTagFallback_answers h hended fun b' buffer' hcons => ?_
        rw [hbuffer] at hcons
        cases hcons
        exact ⟨rfl, .inr (toNat_of_not_lt hb)⟩

theorem WellFormed.withLastTag {s : CodedInputStream} (h : s.WellFormed) (tag : UInt32) :
    ({ s with lastTag := tag } : CodedInputStream).WellFormed :=
  ⟨h.position, h.total, h.limit, h.afterLimit, h.closest, h.overflow, h.input⟩

/-- `last_tag_` is set to what was read, a 0 included: it is what
`LastTagWas` and `ConsumedEntireMessage` ask about afterwards. -/
theorem readTag_answers {s : CodedInputStream} (h : s.WellFormed) (hended : s.abs.Ended) :
    AnswersTag s.readTag s.abs.readTag := by
  have htag := readTagNoLastTag_answers h hended
  unfold readTag Cursor.readTag
  cases hnext : s.abs.nextTag with
  | none =>
      rw [hnext] at htag
      obtain ⟨s', hs', hend⟩ := htag
      rw [hs']
      exact ⟨_, rfl, hend⟩
  | some x =>
      obtain ⟨tag, c⟩ := x
      rw [hnext] at htag
      obtain ⟨s', hs', hwell, habs⟩ := htag
      rw [hs']
      refine ⟨_, rfl, hwell.withLastTag tag, ?_⟩
      rw [← habs]
      rfl

theorem readTag_lastTag {s s' : CodedInputStream} {tag : UInt32} (h : s.readTag = (.done tag, s')) :
    s'.lastTag = tag := by
  unfold readTag andThen at h
  split at h <;> cases h
  rfl

/-! ## 2. Tags with a cutoff

`ReadTagWithCutoff` gives the tag that `ReadTag` gives and compares it with the
cutoff on the way. Its fast path has the tags of one and two bytes in line and
may skip the comparison when the cutoff is above all of them. The tag 0 is
where the paths differ: the slow one compares `tag - 1`, which wraps around to
the greatest number. The callers read nothing from the comparison then. -/

/-- As `AnswersTag`, with the comparison, which tells nothing about 0. -/
def AnswersCutoff (cutoff : UInt32) (result : Outcome (UInt32 × Bool) × CodedInputStream) :
    Option (UInt32 × Cursor) → Prop
  | some (tag, c) => ∃ below s', result = (.done (tag, below), s') ∧ s'.WellFormed ∧ s'.abs = c ∧
      (tag ≠ 0 → below = decide (tag ≤ cutoff))
  | none => ∃ below s', result = (.done (0, below), s') ∧ s'.legitimateMessageEnd = false

/-- `tag - 1` wraps around for 0 alone. -/
theorem pred_lt_iff {tag : UInt32} (htag : tag ≠ 0) (cutoff : UInt32) :
    tag - 1 < cutoff ↔ tag ≤ cutoff := by
  have hpos : 1 ≤ tag.toNat := by
    refine Nat.one_le_iff_ne_zero.mpr fun hzero => htag ?_
    exact UInt32.toNat_inj.mp hzero
  have hpred : (tag - 1).toNat = tag.toNat - 1 :=
    UInt32.toNat_sub_of_le _ _ (UInt32.le_iff_toNat_le.mpr hpos)
  rw [UInt32.lt_iff_toNat_lt, UInt32.le_iff_toNat_le, hpred]
  omega

/-- The bitwise test of the fast path: the first byte goes on, the second does
not. -/
theorem and_not_high {b0 b1 : UInt8} (h : 0x80 ≤ b0 &&& ~~~b1) :
    128 ≤ b0.toNat ∧ b1.toNat < 128 := by
  have hhigh : 128 ≤ (b0 &&& ~~~b1).toNat := UInt8.le_iff_toNat_le.mp h
  have hle0 : (b0 &&& ~~~b1).toNat ≤ b0.toNat := by
    rw [UInt8.toNat_and]
    exact Nat.and_le_left
  have hle1 : (b0 &&& ~~~b1).toNat ≤ (~~~b1).toNat := by
    rw [UInt8.toNat_and]
    exact Nat.and_le_right
  have hnot : (~~~b1).toNat = 255 - b1.toNat := by
    rw [UInt8.toNat_not]
    rfl
  omega

/-- A comparison with the greatest tag first saves the other. -/
theorem decide_or_le {most tag : UInt32} (htag : tag ≤ most) (cutoff : UInt32) :
    (decide (most ≤ cutoff) || decide (tag ≤ cutoff)) = decide (tag ≤ cutoff) := by
  rw [← Bool.decide_or]
  refine decide_eq_decide.mpr ⟨?_, .inr⟩
  intro h
  rcases h with h | h
  · exact UInt32.le_trans htag h
  · exact h

/-- The slow path is `ReadTag` and a comparison. -/
theorem cutoffSlow_answers {s : CodedInputStream} (h : s.WellFormed) (hended : s.abs.Ended)
    {first : UInt32}
    (hfirst : ∀ b buffer, s.buffer = b :: buffer → first = b.toUInt32 ∧ (b = 0 ∨ 128 ≤ b.toNat))
    (cutoff : UInt32) :
    AnswersCutoff cutoff
      (andThen (s.readTagFallback first) fun tag s => (.done (tag, decide (tag - 1 < cutoff)), s))
      s.abs.nextTag := by
  have htag := readTagFallback_answers h hended hfirst
  cases hnext : s.abs.nextTag with
  | none =>
      rw [hnext] at htag
      obtain ⟨s', hs', hend⟩ := htag
      rw [hs']
      exact ⟨_, s', rfl, hend⟩
  | some x =>
      obtain ⟨tag, c⟩ := x
      rw [hnext] at htag
      obtain ⟨s', hs', hwell, habs⟩ := htag
      rw [hs']
      exact ⟨_, s', rfl, hwell, habs, fun hne => decide_eq_decide.mpr (pred_lt_iff hne cutoff)⟩

/-- By the bytes in the buffer: none, one that is a tag, two that are one, and
the slow path for all others. A tag of two bytes is tried only when the cutoff
is that large, and is read by the slow path otherwise. -/
theorem readTagWithCutoffNoLastTag_answers {s : CodedInputStream} (h : s.WellFormed)
    (hended : s.abs.Ended) (cutoff : UInt32) :
    AnswersCutoff cutoff (s.readTagWithCutoffNoLastTag cutoff) s.abs.nextTag := by
  unfold readTagWithCutoffNoLastTag
  cases hbuffer : s.buffer with
  | nil =>
      refine cutoffSlow_answers h hended (fun b buffer hcons => ?_) cutoff
      rw [hbuffer] at hcons
      cases hcons
  | cons b0 buffer =>
      dsimp only
      by_cases hone : 0 < b0 ∧ b0 < 0x80
      · obtain ⟨rest, hdecode, hwell, habs⟩ := h.take_byte hbuffer hone.2
        have htag : b0.toUInt32 = UInt32.ofNat b0.toNat := by
          refine UInt32.toNat_inj.mp ?_
          simp
        have hlast : b0.toUInt32 ≤ 0x7f := by
          have hlt := UInt8.lt_iff_toNat_lt.mp hone.2
          rw [UInt32.le_iff_toNat_le, UInt8.toNat_toUInt32]
          exact Nat.le_of_lt_succ hlt
        rw [if_pos hone, Cursor.nextTag_of_decode hdecode, ← htag]
        exact ⟨_, _, rfl, hwell, habs, fun _ => decide_or_le hlast cutoff⟩
      · rw [if_neg hone]
        have hfirst : b0 = 0 ∨ 128 ≤ b0.toNat := by
          by_cases hzero : b0 = 0
          · exact .inl hzero
          · refine .inr (toNat_of_not_lt fun hlt => hone ⟨?_, hlt⟩)
            rw [UInt8.lt_iff_toNat_lt]
            exact Nat.pos_of_ne_zero fun hnat => hzero (UInt8.toNat_inj.mp hnat)
        have hslow := cutoffSlow_answers h hended
          (fun b buffer' hcons => by
            rw [hbuffer] at hcons
            cases hcons
            exact ⟨rfl, hfirst⟩) cutoff
        cases hbuffer' : buffer with
        | nil => exact hslow
        | cons b1 buffer' =>
            dsimp only
            by_cases htwo : 0x80 ≤ cutoff ∧ 0x80 ≤ b0 &&& ~~~b1
            · obtain ⟨hmore, hlast⟩ := and_not_high htwo.2
              have hlt := b0.toNat_lt
              have hdecode : Varint.decode kMaxVarintBytes s.buffer =
                  .ok (b0.toNat - 128 + 128 * b1.toNat, buffer') := by
                rw [hbuffer, hbuffer']
                show Varint.decode (9 + 1) _ = _
                rw [Varint.decode_more hmore, Varint.decode_last hlast]
                rfl
              obtain ⟨rest, hread, hwell, habs⟩ := h.take_varint hdecode
              have hfirst' : (b0.toUInt32 - 0x80).toNat = b0.toNat - 128 := by
                rw [UInt32.toNat_sub_of_le _ _ (by rw [UInt32.le_iff_toNat_le]; simpa using hmore)]
                simp
              have htag : 0x80 * b1.toUInt32 + (b0.toUInt32 - 0x80) =
                  UInt32.ofNat (b0.toNat - 128 + 128 * b1.toNat) := by
                refine UInt32.toNat_inj.mp ?_
                rw [UInt32.toNat_add, UInt32.toNat_mul, hfirst', UInt32.toNat_ofNat']
                simp
                omega
              have hsmall : UInt32.ofNat (b0.toNat - 128 + 128 * b1.toNat) ≤ 0x3fff := by
                rw [UInt32.le_iff_toNat_le, UInt32.toNat_ofNat']
                show _ ≤ 0x3fff
                omega
              rw [if_pos htwo, Cursor.nextTag_of_decode hread, htag]
              exact ⟨_, _, rfl, hwell, habs, fun _ => decide_or_le hsmall cutoff⟩
            · rw [if_neg htwo]
              exact hslow

theorem readTagWithCutoff_answers {s : CodedInputStream} (h : s.WellFormed)
    (hended : s.abs.Ended) (cutoff : UInt32) :
    AnswersCutoff cutoff (s.readTagWithCutoff cutoff) s.abs.readTag := by
  have htag := readTagWithCutoffNoLastTag_answers h hended cutoff
  unfold readTagWithCutoff Cursor.readTag
  cases hnext : s.abs.nextTag with
  | none =>
      rw [hnext] at htag
      obtain ⟨below, s', hs', hend⟩ := htag
      rw [hs']
      exact ⟨below, _, rfl, hend⟩
  | some x =>
      obtain ⟨tag, c⟩ := x
      rw [hnext] at htag
      obtain ⟨below, s', hs', hwell, habs, hbelow⟩ := htag
      rw [hs']
      refine ⟨below, _, rfl, hwell.withLastTag tag, ?_, hbelow⟩
      rw [← habs]
      rfl

end CodedInputStream

/-! ## 3. Limits

A limit counts from the start of the stream, and a new one is taken only if it
is nearer than the one before, in the range of an `int` and not before the
place. So `PushLimit` needs no hypothesis. `PopLimit` puts back what it is
given, and that is a hypothesis here: the place must not be past it, and
`PushLimit` and the calls between see to that. -/

namespace Cursor

def pushLimit (c : Cursor) (byteLimit : Int) : Nat × Cursor :=
  if 0 ≤ byteLimit ∧ byteLimit ≤ (intMax : Int) - c.position ∧
      byteLimit < (c.currentLimit : Int) - c.position then
    (c.currentLimit, { c with currentLimit := c.position + byteLimit.toNat })
  else (c.currentLimit, c)

def popLimit (c : Cursor) (limit : Nat) : Cursor :=
  { c with currentLimit := limit, legitimateMessageEnd := false }

def bytesUntilLimit (c : Cursor) : Int :=
  if c.currentLimit = intMax then -1 else (c.currentLimit : Int) - c.position

def setTotalBytesLimit (c : Cursor) (totalBytesLimit : Nat) : Cursor :=
  { c with totalBytesLimit := max c.position totalBytesLimit }

def decrementRecursionDepth (c : Cursor) : Cursor :=
  if c.recursionBudget < c.recursionLimit then
    { c with recursionBudget := c.recursionBudget + 1 }
  else c

end Cursor

namespace CodedInputStream

/-- A new limit, not before the position, is found wherever the buffers end.
This is `recomputeBufferLimits_spec` at a stream whose limit is wrong for its
buffer, which is why that lemma does not ask for `WellFormed`. -/
theorem WellFormed.limits {s : CodedInputStream} (h : s.WellFormed) {current total : Nat}
    (hmax : current ≤ intMax) (hcurrent : s.currentPosition ≤ current)
    (htotal : s.currentPosition ≤ total) :
    (recomputeBufferLimits { s with currentLimit := current, totalBytesLimit := total }).WellFormed ∧
      (recomputeBufferLimits { s with currentLimit := current, totalBytesLimit := total }).abs =
        { s.abs with currentLimit := current, totalBytesLimit := total } := by
  have hclosest : s.currentPosition ≤ min current total := Nat.le_min.mpr ⟨hcurrent, htotal⟩
  exact @recomputeBufferLimits_spec { s with currentLimit := current, totalBytesLimit := total }
    h.position h.total hmax hclosest h.overflow h.input

theorem pushLimit_spec {s : CodedInputStream} (h : s.WellFormed) (byteLimit : Int) :
    (s.pushLimit byteLimit).1 = (s.abs.pushLimit byteLimit).1 ∧
      (s.pushLimit byteLimit).2.WellFormed ∧
        (s.pushLimit byteLimit).2.abs = (s.abs.pushLimit byteLimit).2 := by
  have hclosest := h.closest
  have hcurrent := s.closestLimit_le
  unfold closestLimit at hclosest hcurrent
  unfold pushLimit Cursor.pushLimit
  rw [show s.abs.position = s.currentPosition from rfl,
    show s.abs.currentLimit = s.currentLimit from rfl]
  by_cases hlimit : 0 ≤ byteLimit ∧ byteLimit ≤ (intMax : Int) - s.currentPosition ∧
      byteLimit < (s.currentLimit : Int) - s.currentPosition
  · rw [if_pos hlimit, if_pos hlimit]
    exact ⟨rfl, h.limits (by omega) (Nat.le_add_right _ _) (by omega)⟩
  · rw [if_neg hlimit, if_neg hlimit]
    exact ⟨rfl, h, rfl⟩

theorem popLimit_spec {s : CodedInputStream} (h : s.WellFormed) {limit : Nat}
    (hmax : limit ≤ intMax) (hlimit : s.currentPosition ≤ limit) :
    (s.popLimit limit).WellFormed ∧ (s.popLimit limit).abs = s.abs.popLimit limit := by
  have hclosest := h.closest
  unfold closestLimit at hclosest
  obtain ⟨hwell, habs⟩ := @WellFormed.limits s h limit s.totalBytesLimit hmax hlimit (by omega)
  unfold popLimit Cursor.popLimit
  refine ⟨⟨hwell.position, hwell.total, hwell.limit, hwell.afterLimit, hwell.closest,
    hwell.overflow, hwell.input⟩, ?_⟩
  have habs' := congrArg (fun c : Cursor => { c with legitimateMessageEnd := false }) habs
  exact habs'

theorem setTotalBytesLimit_spec {s : CodedInputStream} (h : s.WellFormed) (totalBytesLimit : Nat) :
    (s.setTotalBytesLimit totalBytesLimit).WellFormed ∧
      (s.setTotalBytesLimit totalBytesLimit).abs = s.abs.setTotalBytesLimit totalBytesLimit := by
  have hclosest := h.closest
  unfold closestLimit at hclosest
  exact h.limits h.limit (by omega) (Nat.le_max_left _ _)

theorem decrementRecursionDepth_spec {s : CodedInputStream} (h : s.WellFormed) :
    s.decrementRecursionDepth.WellFormed ∧
      s.decrementRecursionDepth.abs = s.abs.decrementRecursionDepth := by
  unfold decrementRecursionDepth Cursor.decrementRecursionDepth
  rw [show s.abs.recursionBudget = s.recursionBudget from rfl,
    show s.abs.recursionLimit = s.recursionLimit from rfl]
  by_cases hbudget : s.recursionBudget < s.recursionLimit
  · rw [if_pos hbudget, if_pos hbudget]
    exact ⟨⟨h.position, h.total, h.limit, h.afterLimit, h.closest, h.overflow, h.input⟩, rfl⟩
  · rw [if_neg hbudget, if_neg hbudget]
    exact ⟨h, rfl⟩

/-! ## 4. New streams

A stream over a source asks for its first buffer at once. A stream over an array
has the array as its buffer and no source, and its limit is the length of the
array; the overflow cannot come about there. -/

theorem ofStream_spec {input : List (List UInt8)} (h : ∀ data ∈ input, data.length ≤ intMax) :
    (ofStream input).WellFormed ∧
      (ofStream input).abs = ⟨input.flatten, 0, intMax, intMax, 0, false, 100, 100⟩ := by
  have hwell : (⟨[], [], [], input, 0, 0, false, intMax, intMax, 100, 100⟩ :
      CodedInputStream).WellFormed :=
    ⟨Nat.le_refl _, Nat.zero_le _, Nat.le_refl _, (Nat.zero_sub _).symm, Nat.zero_le _,
      fun hne => absurd rfl hne, h⟩
  unfold ofStream
  cases hrefresh : refresh ⟨[], [], [], input, 0, 0, false, intMax, intMax, 100, 100⟩ with
  | mk success s =>
      cases success with
      | true =>
          obtain ⟨hwell', habs, -⟩ := hwell.refresh_true rfl hrefresh
          exact ⟨hwell', habs⟩
      | false =>
          obtain ⟨hwell', habs, -⟩ := hwell.refresh_false rfl hrefresh
          exact ⟨hwell', habs⟩

theorem ofArray_spec {buffer : List UInt8} (h : buffer.length ≤ intMax) :
    (ofArray buffer).WellFormed ∧
      (ofArray buffer).abs = ⟨buffer, 0, buffer.length, intMax, 0, false, 100, 100⟩ := by
  have hclosest : (ofArray buffer).closestLimit = buffer.length := Nat.min_eq_left h
  have hposition : (ofArray buffer).currentPosition = 0 := by
    unfold currentPosition ofArray
    simp
  refine ⟨⟨Nat.le_refl _, h, h, ?_, ?_, fun hne => absurd rfl hne, fun d hd => nomatch hd⟩, ?_⟩
  · rw [hclosest]
    show 0 = buffer.length - buffer.length
    omega
  · rw [hposition]
    exact Nat.zero_le _
  · unfold abs
    rw [hposition]
    unfold ahead ofArray
    simp

end CodedInputStream

end SpringDome.Protobuf
