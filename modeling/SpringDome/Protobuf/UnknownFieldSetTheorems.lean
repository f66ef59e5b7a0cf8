/-
SpringDome.Protobuf.UnknownFieldSetTheorems — what sets are read from bytes.

`SkipMessage` over any buffers reads what `Lib.WireFormat` reads from the bytes
(`skipMessage_spec`), whether it keeps the fields or not.

How the proofs go. The grammar of messages is the relation `ReadsTo` of
`Lib.WireFormat`: so many levels of groups, these bytes, these fields, the tag
that ended them and the bytes behind it. `Skips` compares a call with it. Either
the bytes are a message, and the call keeps its fields and stands behind it; or
they are none, and the call fails or stops without an end of a message, so that
whoever asks for one is told no.

`skipMessage_spec` is an induction on the rounds of the loop, with one lemma for
each thing that the next tag may be:

  - there is none, at the end of the bytes (`skips_end`);
  - what is there is no tag of a field (`skips_noTag`);
  - the end of a group, which ends the message (`skips_endGroup`);
  - a field of one piece, read by `skipField_leaf` (`skips_leaf`);
  - a group, which is a message one level down and its end (`skips_group`).

The last two have a message behind them, and `skips_more` puts what was read in
front of it. The rounds are enough because each takes a tag away, so a bound by
the bytes that may be read goes down with them (`BehindTag.length_lt`). The
rounds of a group are counted from the same bound.

Why the side conditions are there. `Ended` is the one of `ReadTag`: the flag
that a message has ended must not be left over from before. The budget is the
number of levels that are left, and it is compared with the depth of `ReadsTo`.
It may not be above the limit, since `DecrementRecursionDepth` gives a level
back only below it: with a greater budget the way up would not undo the way
down.
-/
import SpringDome.Protobuf.CodedInputTags
import SpringDome.Protobuf.UnknownFieldSet

namespace SpringDome.Protobuf

open SpringDome.Lib.WireFormat (Payload Fields Failure ReadsTo Varint.decode readLengthDelimited
  readLittleEndian)

/-! ## 1. Tags

The source takes a tag apart with a shift and a mask, the grammar with a
quotient and a remainder. -/

namespace WireFormatLite

theorem getTagFieldNumber_eq (tag : UInt32) : getTagFieldNumber tag = tag.toNat / 8 := by
  unfold getTagFieldNumber
  rw [UInt32.toNat_shiftRight, Nat.shiftRight_eq_div_pow]
  rfl

theorem getTagWireType_eq (tag : UInt32) : getTagWireType tag = tag.toNat % 8 := by
  unfold getTagWireType
  rw [UInt32.toNat_and]
  exact Nat.and_two_pow_sub_one_eq_mod tag.toNat 3

theorem toNat_makeTag {number wireType : Nat} (hnumber : number < 2 ^ 29) (hwire : wireType < 8) :
    (makeTag number wireType).toNat = Lib.WireFormat.makeTag number wireType := by
  have hsmall : (UInt32.ofNat wireType).toNat = wireType := by
    rw [UInt32.toNat_ofNat']
    omega
  have hnumber' : (UInt32.ofNat number).toNat = number := by
    rw [UInt32.toNat_ofNat']
    omega
  unfold makeTag Lib.WireFormat.makeTag
  rw [UInt32.or_comm, Lib.WireFormat.toNat_or_shiftLeft32 (by decide) (by rw [hsmall]; exact hwire),
    hsmall, hnumber']
  show (wireType + number * 8) % 2 ^ 32 = number * 8 + wireType
  omega

end WireFormatLite

open WireFormatLite

/-! ## 2. Fields that are no group

A field of one piece is read by one reader of the stream, or by two for a
string. The readers are those of the modules before, so what is left is to say
that `Payload.read` is the same reader on bytes, and what is kept of it. -/

namespace Cursor

theorem readWith_ok {α : Type} {c : Cursor} {reader : List UInt8 → Except Failure (α × List UInt8)}
    {a : α} {rest : List UInt8} (h : reader c.readable = .ok (a, rest)) :
    c.readWith reader = some (a, c.advance (c.readable.length - rest.length)) := by
  unfold readWith
  rw [h]

theorem readWith_error {α : Type} {c : Cursor}
    {reader : List UInt8 → Except Failure (α × List UInt8)} {failure : Failure}
    (h : reader c.readable = .error failure) : c.readWith reader = none := by
  unfold readWith
  rw [h]

/-- What is left of the readable bytes when all before `rest` is taken. -/
theorem readable_advance_front {c : Cursor} {front rest : List UInt8}
    (h : c.readable = front ++ rest) :
    (c.advance (c.readable.length - rest.length)).readable = rest := by
  rw [readable_advance, h, List.length_append, Nat.add_sub_cancel, List.drop_left]

/-- A length, then so many bytes. The length is 32 bits that are read as an
`int`; one of 2^31 or more is negative, and nothing is read for it. -/
theorem readLengthDelimited_eq (c : Cursor) :
    c.readWith readLengthDelimited =
      (c.readWith (readVarintAs kMaxVarintBytes UInt32.ofNat)).bind fun (length, c) =>
        if length.toBitVec.toInt < 0 then none
        else c.readWith (readBytes length.toBitVec.toInt.toNat) := by
  cases hdecode : Lib.WireFormat.Varint.decode kMaxVarintBytes c.readable with
  | error failure =>
      have hnone : readLengthDelimited c.readable = .error failure := by
        unfold readLengthDelimited
        rw [show (10 : Nat) = kMaxVarintBytes from rfl, hdecode]
      rw [readWith_error hnone, readWith_varint_error hdecode]
      rfl
  | ok x =>
      obtain ⟨n, rest⟩ := x
      obtain ⟨front, hfront, -⟩ := Lib.WireFormat.Varint.exists_of_decode hdecode
      have hrest := readable_advance_front hfront
      have hsize : (UInt32.ofNat n).toBitVec.toInt =
          if 2 * (n % 2 ^ 32) < 2 ^ 32 then ((n % 2 ^ 32 : Nat) : Int)
          else ((n % 2 ^ 32 : Nat) : Int) - (2 ^ 32 : Nat) := by
        rw [BitVec.toInt_eq_toNat_cond]
        rw [show (UInt32.ofNat n).toBitVec.toNat = n % 2 ^ 32 from UInt32.toNat_ofNat']
      rw [readWith_varint hdecode, Option.bind_some]
      dsimp only
      by_cases hneg : 2 ^ 31 ≤ n % 2 ^ 32
      · have hnone : readLengthDelimited c.readable = .error .negativeSize := by
          unfold readLengthDelimited
          rw [show (10 : Nat) = kMaxVarintBytes from rfl, hdecode]
          dsimp only
          rw [if_pos hneg]
        have hless : (UInt32.ofNat n).toBitVec.toInt < 0 := by
          rw [hsize, if_neg (by omega)]
          omega
        rw [readWith_error hnone, if_pos hless]
      · have htoNat : (UInt32.ofNat n).toBitVec.toInt.toNat = n % 2 ^ 32 := by
          rw [hsize, if_pos (by omega), Int.toNat_natCast]
        rw [if_neg (by rw [hsize, if_pos (by omega)]; omega), htoNat,
          CodedInputStream.readWith_readBytes, hrest]
        by_cases hlong : rest.length < n % 2 ^ 32
        · have hnone : readLengthDelimited c.readable = .error .truncated := by
            unfold readLengthDelimited
            rw [show (10 : Nat) = kMaxVarintBytes from rfl, hdecode]
            dsimp only
            rw [if_neg hneg, if_pos hlong]
          rw [readWith_error hnone, if_neg (by omega)]
        · have hok : readLengthDelimited c.readable =
              .ok (rest.take (n % 2 ^ 32), rest.drop (n % 2 ^ 32)) := by
            unfold readLengthDelimited
            rw [show (10 : Nat) = kMaxVarintBytes from rfl, hdecode]
            dsimp only
            rw [if_neg hneg, if_neg hlong]
          have hlength := congrArg List.length hfront
          rw [List.length_append] at hlength
          rw [readWith_ok hok, if_pos (by omega), advance_advance, List.length_drop]
          congr 3
          omega

end Cursor

namespace WireFormat

open CodedInputStream

theorem andThen_assoc {α β γ : Type} (result : Outcome α × CodedInputStream)
    (next : α → CodedInputStream → Outcome β × CodedInputStream)
    (last : β → CodedInputStream → Outcome γ × CodedInputStream) :
    andThen (andThen result next) last = andThen result fun a s => andThen (next a s) last := by
  obtain ⟨outcome, s⟩ := result
  cases outcome <;> rfl

/-- A call that reads what a field holds. Four of the kinds are this lemma, at
the reader and the constructor of the kind. -/
theorem addField_answers {α : Type} {result : Outcome α × CodedInputStream} {c : Cursor}
    {reader : List UInt8 → Except Failure (α × List UInt8)}
    (hresult : Answers result (c.readWith reader)) (payload : α → Payload) (wireType : Nat)
    (hread : ∀ bytes, Payload.read wireType bytes =
      (reader bytes).map fun (a, rest) => (payload a, rest))
    (number : Nat) (unknownFields : Option Fields) :
    Answers
      (andThen result fun a input => (.done (addField number (payload a) unknownFields), input))
      ((c.readWith (Payload.read wireType)).map fun (payload, c) =>
        (addField number payload unknownFields, c)) := by
  have hpayload := hread c.readable
  cases hreader : reader c.readable with
  | error failure =>
      rw [hreader] at hpayload
      rw [Cursor.readWith_error hreader] at hresult
      rw [Cursor.readWith_error hpayload]
      exact hresult.andThen_none _
  | ok x =>
      obtain ⟨a, rest⟩ := x
      rw [hreader] at hpayload
      rw [Cursor.readWith_ok hreader] at hresult
      rw [Cursor.readWith_ok hpayload]
      exact hresult.andThen fun a => simulates_done (addField number (payload a) unknownFields)

/-- Two maps of a reading are one. -/
theorem map_value {α β : Type} (x : Except Failure (Nat × List UInt8)) (value : Nat → α)
    (payload : α → β) :
    x.map (fun (n, rest) => (payload (value n), rest)) =
      (x.map fun (n, rest) => (value n, rest)).map fun (a, rest) => (payload a, rest) := by
  cases x <;> rfl

/-- Where the bytes are not kept they are skipped, as far as they are there. A
skip that is short fails, as the reader of a string does, so the two ways accept
the same bytes. -/
theorem skip_readBytes (size : Int) :
    Simulates
      (fun s => andThen (s.skip size) fun _ input => ((.done none : Outcome (Option Fields)), input))
      fun c => (if size < 0 then none else c.readWith (readBytes size.toNat)).map
        fun (_, c) => (none, c) := by
  intro s h
  have hskip := skip_simulates size s h
  dsimp only at hskip ⊢
  by_cases hneg : size < 0
  · rw [if_pos hneg] at hskip ⊢
    exact hskip.andThen_none _
  · rw [if_neg hneg] at hskip ⊢
    rw [readWith_readBytes]
    by_cases hle : size.toNat ≤ s.abs.readable.length
    · rw [if_pos hle] at hskip ⊢
      exact hskip.andThen fun _ => simulates_done none
    · rw [if_neg hle] at hskip ⊢
      exact hskip.andThen_none _

/-- A string that is kept. -/
theorem readString_lengthDelimited {s : CodedInputStream} (h : s.WellFormed) (number : Nat)
    (fields : Fields) :
    Answers
      (andThen s.readVarint32 fun length input =>
        andThen (input.readString length.toBitVec.toInt) fun value input =>
          (.done (addField number (.lengthDelimited value) (some fields)), input))
      ((s.abs.readWith (Payload.read 2)).map fun (payload, c) =>
        (addField number payload (some fields), c)) := by
  have hvalue := (readVarint32_simulates s h).andThen fun length =>
    readString_simulates length.toBitVec.toInt
  rw [← Cursor.readLengthDelimited_eq] at hvalue
  have hfield := addField_answers hvalue .lengthDelimited 2 (fun _ => rfl) number (some fields)
  rw [andThen_assoc] at hfield
  exact hfield

/-- One that is skipped. -/
theorem skip_lengthDelimited {s : CodedInputStream} (h : s.WellFormed) (number : Nat) :
    Answers
      (andThen s.readVarint32 fun length input =>
        andThen (input.skip length.toBitVec.toInt) fun _ input => (.done none, input))
      ((s.abs.readWith (Payload.read 2)).map fun (payload, c) =>
        (addField number payload none, c)) := by
  have hskip := (readVarint32_simulates s h).andThen fun length =>
    skip_readBytes length.toBitVec.toInt
  have hspec : ((s.abs.readWith (Payload.read 2)).map fun (payload, c) =>
      (addField number payload none, c)) =
        (s.abs.readWith readLengthDelimited).map fun x => ((none : Option Fields), x.2) := by
    have hpayload : Payload.read 2 s.abs.readable =
        (readLengthDelimited s.abs.readable).map fun x => (.lengthDelimited x.1, x.2) := rfl
    cases hread : readLengthDelimited s.abs.readable with
    | error failure =>
        rw [hread] at hpayload
        rw [Cursor.readWith_error hread, Cursor.readWith_error hpayload]
        rfl
    | ok x =>
        obtain ⟨value, rest⟩ := x
        rw [hread] at hpayload
        rw [Cursor.readWith_ok hread, Cursor.readWith_ok hpayload]
        rfl
  rw [hspec, Cursor.readLengthDelimited_eq, Option.map_bind]
  exact hskip

/-- A field of a kind that is no group is read as its payload is. The kinds 4, 6
and 7 have no payload: both sides fail. -/
theorem skipField_leaf
    (rec : CodedInputStream → Option Fields → Outcome (Option Fields) × CodedInputStream)
    {s : CodedInputStream} (h : s.WellFormed) {tag : UInt32} (htag : 8 ≤ tag.toNat)
    (hkind : tag.toNat % 8 ≠ 3) (unknownFields : Option Fields) :
    Answers (skipField rec s tag unknownFields)
      ((s.abs.readWith (Payload.read (tag.toNat % 8))).map fun (payload, c) =>
        (addField (tag.toNat / 8) payload unknownFields, c)) := by
  unfold skipField
  rw [getTagFieldNumber_eq, getTagWireType_eq]
  dsimp only
  rw [if_neg (by omega)]
  have hlt := Nat.mod_lt tag.toNat (show 0 < 8 by decide)
  generalize hwire : tag.toNat % 8 = wireType at hkind hlt
  match wireType, hkind, hlt with
  | 0, _, _ =>
      exact addField_answers (readVarint64_simulates s h) .varint 0
        (fun bytes => map_value (Varint.decode 10 bytes) UInt64.ofNat Payload.varint) _ _
  | 1, _, _ =>
      exact addField_answers (readFixed_simulates readsFixed64 s h) .fixed64 1
        (fun bytes => map_value (readLittleEndian 8 bytes) UInt64.ofNat Payload.fixed64) _ _
  | 2, _, _ =>
      cases unknownFields with
      | none => exact skip_lengthDelimited h _
      | some fields => exact readString_lengthDelimited h _ fields
  | 5, _, _ =>
      exact addField_answers (readFixed_simulates readsFixed32 s h) .fixed32 5
        (fun bytes => map_value (readLittleEndian 4 bytes) UInt32.ofNat Payload.fixed32) _ _
  | 4, _, _ => rfl
  | 6, _, _ => rfl
  | 7, _, _ => rfl

end WireFormat

/-! ## 3. Messages

The flag is up behind a message only if no tag ended it, and only where a
message may end. -/

namespace Cursor

/-- Where a message ends that leaves `rest` behind the tag `last`. -/
def skipped (c : Cursor) (last : Nat) (rest : List UInt8) : Cursor :=
  { c.advance (c.readable.length - rest.length) with
    lastTag := UInt32.ofNat last
    legitimateMessageEnd :=
      decide (last = 0) && (c.advance (c.readable.length - rest.length)).endsMessage }

theorem endsMessage_of_eq {c : Cursor} (h : c.currentLimit = c.totalBytesLimit) :
    c.endsMessage = true := by
  unfold endsMessage
  rw [decide_eq_true h, Bool.or_true]

/-- From a place on the way it is the same: the flag and the last tag of that
place are written again before the end. -/
theorem skipped_advance (c : Cursor) {k : Nat} {rest : List UInt8} (hk : k ≤ c.readable.length)
    (hrest : rest.length ≤ (c.advance k).readable.length) (tag : UInt32) (ends : Bool) (last : Nat) :
    ({ c.advance k with lastTag := tag, legitimateMessageEnd := ends } : Cursor).skipped last rest =
      c.skipped last rest := by
  have hreadable : ({ c.advance k with lastTag := tag, legitimateMessageEnd := ends } :
      Cursor).readable = c.readable.drop k := c.readable_advance k
  rw [readable_advance, List.length_drop] at hrest
  unfold skipped
  rw [hreadable, List.length_drop]
  have hmove : (c.advance k).advance (c.readable.length - k - rest.length) =
      c.advance (c.readable.length - rest.length) := by
    rw [advance_advance]
    congr 1
    omega
  rw [← hmove]
  rfl

theorem decrementRecursionDepth_of_lt {c : Cursor} (h : c.recursionBudget < c.recursionLimit) :
    c.decrementRecursionDepth = { c with recursionBudget := c.recursionBudget + 1 } :=
  if_pos h

/-- The end of a group that is one level down, back up again. -/
theorem skipped_group {c : Cursor} {last : Nat} (hlast : last ≠ 0)
    (hbudget : c.recursionBudget ≤ c.recursionLimit) (behind : List UInt8) :
    (({ c with recursionBudget := c.recursionBudget - 1 } : Cursor).skipped last
      behind).decrementRecursionDepth =
        { c.advance (c.readable.length - behind.length) with
          lastTag := UInt32.ofNat last, legitimateMessageEnd := false } := by
  have hinside : ({ c with recursionBudget := c.recursionBudget - 1 } : Cursor).skipped last behind =
      { c.advance (c.readable.length - behind.length) with
        lastTag := UInt32.ofNat last, legitimateMessageEnd := false
        recursionBudget := c.recursionBudget - 1 } := by
    unfold skipped
    rw [decide_eq_false hlast]
    rfl
  rw [hinside, decrementRecursionDepth_of_lt
    (show c.recursionBudget - 1 < c.recursionLimit by omega)]
  dsimp only [advance]
  rw [Int.sub_add_cancel]

end Cursor

namespace WireFormat

open CodedInputStream

/-- A message was skipped and its fields were kept, or there is none and the
call fails or ends with no message end. -/
def Skips (depth : Nat) (result : Outcome (Option Fields) × CodedInputStream) (c : Cursor)
    (unknownFields : Option Fields) : Prop :=
  (∃ fields last rest s', ReadsTo depth c.readable fields last rest ∧
    result = (.done (unknownFields.map (·.append fields)), s') ∧ s'.WellFormed ∧
      s'.abs = c.skipped last rest) ∨
  ((∀ fields last rest, ¬ReadsTo depth c.readable fields last rest) ∧
    (result.1 = .failed ∨ ∃ kept s', result = (.done kept, s') ∧
      s'.legitimateMessageEnd = false ∧ s'.lastTag.toNat < 8))

/-- With the flag down there is no end to remember. -/
theorem ended_of_false {c : Cursor} (h : c.legitimateMessageEnd = false) : c.Ended := by
  intro hend
  rw [h] at hend
  cases hend

/-- A message that is not empty starts with a tag. -/
theorem exists_tag {depth last : Nat} {bytes rest : List UInt8} {fields : Fields}
    (h : ReadsTo depth bytes fields last rest) (hne : bytes ≠ []) :
    ∃ tag afterTag, Lib.WireFormat.readTag bytes = .ok (tag, afterTag) := by
  cases h with
  | stop depth => exact absurd rfl hne
  | endGroup tag => exact ⟨_, _, tag⟩
  | leaf tag value more => exact ⟨_, _, tag⟩
  | group tag value more => exact ⟨_, _, tag⟩

/-- The tag that ends a message was read as one, so it has 32 bits. -/
theorem last_lt {depth last : Nat} {bytes rest : List UInt8} {fields : Fields}
    (h : ReadsTo depth bytes fields last rest) : last < 2 ^ 32 := by
  induction h with
  | stop depth => decide
  | endGroup tag =>
      exact (Lib.WireFormat.readTag_front tag
        (Lib.WireFormat.ne_nil_of_readTag tag (Lib.WireFormat.makeTag_ne_zero (by decide)))).2.2.2
  | leaf tag value more ih => exact ih
  | group tag value more ihvalue ihmore => exact ihmore

/-- The first tag, on the stream and in the bytes. A number below 8 is no tag of
a field: the grammar has none, and the stream gives it like any other. With it
go the bytes that are no number at all, for which the stream gives 0. -/
theorem readTag_cases {s : CodedInputStream} (h : s.WellFormed) (hended : s.abs.Ended) :
    (s.abs.readable = [] ∧ ∃ s', s.readTag = (.done 0, s') ∧ s'.WellFormed ∧
      s'.abs = s.abs.skipped 0 []) ∨
    (s.abs.readable ≠ [] ∧
      (∀ tag rest, Lib.WireFormat.readTag s.abs.readable ≠ .ok (tag, rest)) ∧
        ∃ tag s', s.readTag = (.done tag, s') ∧ s'.legitimateMessageEnd = false ∧
          s'.lastTag = tag ∧ tag.toNat < 8) ∨
    (∃ tag front rest s', s.abs.readable = front ++ rest ∧ 0 < front.length ∧ 8 ≤ tag.toNat ∧
      Lib.WireFormat.readTag s.abs.readable = .ok (tag.toNat, rest) ∧
        s.readTag = (.done tag, s') ∧ s'.WellFormed ∧
          s'.abs = { s.abs.advance (s.abs.readable.length - rest.length) with
            lastTag := tag, legitimateMessageEnd := false }) := by
  have htag := readTag_answers h hended
  by_cases hnil : s.abs.readable = []
  · refine .inl ⟨hnil, ?_⟩
    unfold Cursor.readTag at htag
    rw [Cursor.nextTag_of_end hnil] at htag
    obtain ⟨s', hs', hwell, habs⟩ := htag
    refine ⟨s', hs', hwell, ?_⟩
    rw [habs]
    unfold Cursor.skipped
    rw [hnil]
    rfl
  · have hend : s.abs.legitimateMessageEnd = false :=
      Bool.eq_false_iff.mpr fun htrue => hnil (hended.readable htrue)
    unfold Cursor.readTag at htag
    cases hdecode : Lib.WireFormat.Varint.decode kMaxVarintBytes s.abs.readable with
    | error failure =>
        rw [Cursor.nextTag_of_error hdecode hnil] at htag
        obtain ⟨s', hs', hfalse⟩ := htag
        refine .inr (.inl ⟨hnil, ?_, 0, s', hs', hfalse, readTag_lastTag hs', by decide⟩)
        intro tag rest hread
        rw [Lib.WireFormat.readTag_of_error hnil hdecode] at hread
        cases hread
    | ok x =>
        obtain ⟨n, rest⟩ := x
        obtain ⟨front, hfront, hpos, -⟩ := Lib.WireFormat.Varint.exists_of_decode hdecode
        have htoNat : (UInt32.ofNat n).toNat = n % 2 ^ 32 := UInt32.toNat_ofNat'
        rw [Cursor.nextTag_of_decode hdecode] at htag
        obtain ⟨s', hs', hwell, habs⟩ := htag
        have hread := Lib.WireFormat.readTag_of_decode hnil hdecode
        by_cases hsmall : n % 2 ^ 32 < 8
        · refine .inr (.inl ⟨hnil, ?_, _, s', hs', ?_, readTag_lastTag hs', ?_⟩)
          · intro tag rest' heq
            rw [hread, if_pos hsmall] at heq
            cases heq
          · have hframe := congrArg Cursor.legitimateMessageEnd habs
            exact hframe.trans hend
          · rw [htoNat]
            exact hsmall
        · rw [if_neg hsmall] at hread
          refine .inr (.inr ⟨UInt32.ofNat n, front, rest, s', hfront, hpos, by omega, ?_, hs', hwell,
            ?_⟩)
          · rw [hread, htoNat]
          · rw [habs]
            dsimp only
            rw [← hend]
            rfl

/-- A field, then the rest of the message. `hcons` puts the field in front of a
message, and `hinv` says that a message which starts like this is one after the
field: the first is for the answer, the second for the failure. -/
theorem Skips.of_field {depth k : Nat} {result : Outcome (Option Fields) × CodedInputStream}
    {c : Cursor} {tag : UInt32} {field : Fields} {unknownFields : Option Fields}
    (hk : k ≤ c.readable.length)
    (h : Skips depth result { c.advance k with lastTag := tag, legitimateMessageEnd := false }
      (unknownFields.map (·.append field)))
    (hcons : ∀ fields last rest, ReadsTo depth (c.advance k).readable fields last rest →
      ReadsTo depth c.readable (field.append fields) last rest)
    (hinv : ∀ all last rest, ReadsTo depth c.readable all last rest →
      ∃ fields, ReadsTo depth (c.advance k).readable fields last rest) :
    Skips depth result c unknownFields := by
  rcases h with ⟨fields, last, rest, s', hreads, hresult, hwell, habs⟩ | ⟨hnone, hresult⟩
  · refine .inl ⟨field.append fields, last, rest, s', hcons fields last rest hreads, ?_, hwell, ?_⟩
    · rw [hresult, Option.map_map]
      congr 3
      funext old
      exact Fields.append_assoc old field fields
    · rw [habs]
      exact c.skipped_advance hk hreads.length_le tag false last
  · refine .inr ⟨?_, hresult⟩
    intro all last rest hreads
    obtain ⟨fields, hfields⟩ := hinv all last rest hreads
    exact hnone fields last rest hfields

/-- A group is a message one level down, with the tag that belongs to it at the
end. -/
theorem skipField_group
    (rec : CodedInputStream → Option Fields → Outcome (Option Fields) × CodedInputStream)
    (s : CodedInputStream) {tag : UInt32} (htag : 8 ≤ tag.toNat) (hkind : tag.toNat % 8 = 3)
    (unknownFields : Option Fields) :
    skipField rec s tag unknownFields =
      if 0 ≤ s.recursionBudget - 1 then
        andThen (rec { s with recursionBudget := s.recursionBudget - 1 }
          (unknownFields.map fun _ => .nil)) fun inside input =>
            if input.decrementRecursionDepth.lastTag = makeTag (tag.toNat / 8) 4 then
              (.done (addGroup (tag.toNat / 8) inside unknownFields),
                input.decrementRecursionDepth)
            else (.failed, input.decrementRecursionDepth)
      else (.failed, { s with recursionBudget := s.recursionBudget - 1 }) := by
  unfold skipField
  rw [getTagFieldNumber_eq, getTagWireType_eq, hkind]
  dsimp only
  rw [if_neg (by omega)]
  unfold incrementRecursionDepth
  by_cases hbudget : 0 ≤ s.recursionBudget - 1
  · rw [if_pos hbudget, decide_eq_true hbudget]
    simp only [lastTagWas, beq_iff_eq]
  · rw [if_neg hbudget, decide_eq_false hbudget]
    rfl

/-- A group that is kept goes behind the fields; where nothing is kept, nothing
of the group was. -/
theorem addGroup_map (number : Nat) (inside : Fields) (unknownFields : Option Fields) :
    addGroup number ((unknownFields.map fun _ => Fields.nil).map (·.append inside)) unknownFields =
      unknownFields.map (·.append (.group number inside .nil)) := by
  cases unknownFields <;> rfl

/-- The tag that ends a group is told apart from any other in 32 bits. -/
theorem ofNat_eq_makeTag_iff {last number : Nat} (hlast : last < 2 ^ 32)
    (hnumber : number < 2 ^ 29) :
    UInt32.ofNat last = makeTag number 4 ↔ last = Lib.WireFormat.makeTag number 4 := by
  rw [← UInt32.toNat_inj, toNat_makeTag hnumber (by decide), UInt32.toNat_ofNat',
    Nat.mod_eq_of_lt hlast]

theorem decrementRecursionDepth_lastTag (s : CodedInputStream) :
    s.decrementRecursionDepth.lastTag = s.lastTag := by
  unfold decrementRecursionDepth
  split <;> rfl

theorem map_append_nil (unknownFields : Option Fields) :
    unknownFields.map (·.append .nil) = unknownFields := by
  cases unknownFields with
  | none => rfl
  | some fields => exact congrArg some fields.append_nil

/-- `s'` is `s` behind the tag in front of what it may read: `front` are the
bytes of the tag and `rest` those behind it. -/
structure BehindTag (s s' : CodedInputStream) (tag : UInt32) (front rest : List UInt8) : Prop where
  bytes : s.abs.readable = front ++ rest
  front_pos : 0 < front.length
  tag_ge : 8 ≤ tag.toNat
  read : Lib.WireFormat.readTag s.abs.readable = .ok (tag.toNat, rest)
  wellFormed : s'.WellFormed
  place : s'.abs = { s.abs.advance (s.abs.readable.length - rest.length) with
    lastTag := tag, legitimateMessageEnd := false }

namespace BehindTag

variable {s s' : CodedInputStream} {tag : UInt32} {front rest : List UInt8}

theorem readable (h : BehindTag s s' tag front rest) : s'.abs.readable = rest := by
  rw [h.place]
  exact Cursor.readable_advance_front h.bytes

theorem ne_nil (h : BehindTag s s' tag front rest) : s.abs.readable ≠ [] := by
  rw [h.bytes]
  exact List.append_ne_nil_of_left_ne_nil (List.length_pos_iff.mp h.front_pos) _

theorem length_lt (h : BehindTag s s' tag front rest) : rest.length < s.abs.readable.length := by
  have hlength := congrArg List.length h.bytes
  have hpos := h.front_pos
  rw [List.length_append] at hlength
  omega

theorem tag_ne_zero (h : BehindTag s s' tag front rest) : tag ≠ 0 := by
  intro hzero
  have hge := h.tag_ge
  rw [hzero] at hge
  exact absurd hge (by decide)

theorem recursionBudget (h : BehindTag s s' tag front rest) :
    s'.recursionBudget = s.recursionBudget := by
  have hframe : s'.abs.recursionBudget = s.abs.recursionBudget := by
    rw [h.place]
    rfl
  exact hframe

theorem recursionLimit (h : BehindTag s s' tag front rest) :
    s'.recursionLimit = s.recursionLimit := by
  have hframe : s'.abs.recursionLimit = s.abs.recursionLimit := by
    rw [h.place]
    rfl
  exact hframe

/-- The place that `behind` is left at is the same from `s` and from `s'`. -/
theorem advance_behind (h : BehindTag s s' tag front rest) {piece behind : List UInt8}
    (hpiece : rest = piece ++ behind) :
    (s.abs.advance (s.abs.readable.length - rest.length)).advance (rest.length - behind.length) =
        s.abs.advance (s.abs.readable.length - behind.length) ∧
      (s.abs.advance (s.abs.readable.length - behind.length)).readable = behind := by
  have hlt := h.length_lt
  have hlength := congrArg List.length hpiece
  rw [List.length_append] at hlength
  constructor
  · rw [Cursor.advance_advance]
    congr 1
    omega
  · have hwhole : s.abs.readable = (front ++ piece) ++ behind := by
      rw [h.bytes, hpiece, List.append_assoc]
    exact Cursor.readable_advance_front hwhole

end BehindTag

/-- `skipMessage` with so many rounds skips what messages they are enough for. -/
def SkipsWithin (fuel : Nat) : Prop :=
  ∀ {depth : Nat} {s : CodedInputStream}, s.WellFormed → s.abs.Ended →
    s.abs.readable.length < fuel → s.recursionBudget = (depth : Int) →
      s.recursionBudget ≤ s.recursionLimit → ∀ unknownFields,
        Skips depth (skipMessage fuel s unknownFields) s.abs unknownFields

section Rounds

variable {fuel depth : Nat} {s s' : CodedInputStream} {tag : UInt32} {front rest : List UInt8}

/-- There is nothing more. -/
theorem skips_end (hnil : s.abs.readable = []) (hwell : s'.WellFormed)
    (habs : s'.abs = s.abs.skipped 0 []) (unknownFields : Option Fields) :
    Skips depth (.done unknownFields, s') s.abs unknownFields := by
  refine .inl ⟨.nil, 0, [], s', ?_, by rw [map_append_nil], hwell, habs⟩
  rw [hnil]
  exact .stop depth

/-- What is there is no tag of a field. It may be taken for the end of a
message, but then no caller takes the message for a whole one. -/
theorem skips_noTag (hne : s.abs.readable ≠ [])
    (hnone : ∀ tag rest, Lib.WireFormat.readTag s.abs.readable ≠ .ok (tag, rest))
    (hend : s'.legitimateMessageEnd = false) (hlast : s'.lastTag = tag) (hsmall : tag.toNat < 8)
    (unknownFields : Option Fields) :
    Skips depth
      (if tag = 0 then (.done unknownFields, s')
        else if getTagWireType tag = 4 then (.done unknownFields, s')
        else andThen (skipField (skipMessage fuel) s' tag unknownFields) fun unknownFields input =>
          skipMessage fuel input unknownFields) s.abs unknownFields := by
  refine .inr ⟨?_, ?_⟩
  · intro fields last rest hreads
    obtain ⟨tag', afterTag, htag'⟩ := exists_tag hreads hne
    exact hnone tag' afterTag htag'
  by_cases hzero : tag = 0
  · rw [if_pos hzero]
    exact .inr ⟨_, s', rfl, hend, by rw [hlast]; exact hsmall⟩
  rw [if_neg hzero]
  by_cases hgroup : getTagWireType tag = 4
  · rw [if_pos hgroup]
    exact .inr ⟨_, s', rfl, hend, by rw [hlast]; exact hsmall⟩
  · rw [if_neg hgroup]
    unfold skipField
    dsimp only
    rw [getTagFieldNumber_eq, if_pos (by omega)]
    exact .inl rfl

/-- The tag that ends a group ends the message. -/
theorem skips_endGroup (h : BehindTag s s' tag front rest) (hkind : tag.toNat % 8 = 4)
    (unknownFields : Option Fields) :
    Skips depth (.done unknownFields, s') s.abs unknownFields := by
  have hge := h.tag_ge
  refine .inl ⟨.nil, tag.toNat, rest, s', ?_, by rw [map_append_nil], h.wellFormed, ?_⟩
  · have hmake := Lib.WireFormat.makeTag_div_mod tag.toNat
    have hread := h.read
    rw [hkind] at hmake
    rw [← hmake] at hread ⊢
    exact .endGroup hread
  · rw [h.place]
    unfold Cursor.skipped
    rw [decide_eq_false (by omega), UInt32.ofNat_toNat]
    rfl

/-- A field was read, and the rest of the message is one that fewer rounds are
enough for. `piece` are the bytes of the field behind its tag, `behind` those of
the rest. -/
theorem skips_more (ih : SkipsWithin fuel) (h : BehindTag s s' tag front rest)
    (hfuel : s.abs.readable.length < fuel + 1) (hbudget : s.recursionBudget = (depth : Int))
    (hlimit : s.recursionBudget ≤ s.recursionLimit) {piece behind : List UInt8}
    (hpiece : rest = piece ++ behind) (tag' : UInt32) {s'' : CodedInputStream} {field : Fields}
    (hwell : s''.WellFormed)
    (hplace : s''.abs = { s.abs.advance (s.abs.readable.length - behind.length) with
      lastTag := tag', legitimateMessageEnd := false })
    (hcons : ∀ fields last rest', ReadsTo depth behind fields last rest' →
      ReadsTo depth s.abs.readable (field.append fields) last rest')
    (hinv : ∀ all last rest', ReadsTo depth s.abs.readable all last rest' →
      ∃ fields, ReadsTo depth behind fields last rest') (unknownFields : Option Fields) :
    Skips depth (skipMessage fuel s'' (unknownFields.map (·.append field))) s.abs
      unknownFields := by
  have hlt := h.length_lt
  have hlength := congrArg List.length hpiece
  rw [List.length_append] at hlength
  obtain ⟨-, hbehind⟩ := h.advance_behind hpiece
  have hreadable : s''.abs.readable = behind := by
    rw [hplace]
    exact hbehind
  have hbudget' : s''.abs.recursionBudget = s.abs.recursionBudget := by
    rw [hplace]
    rfl
  have hlimit' : s''.abs.recursionLimit = s.abs.recursionLimit := by
    rw [hplace]
    rfl
  have hmore := ih hwell (ended_of_false (by rw [hplace])) (by rw [hreadable]; omega)
    (hbudget'.trans hbudget)
    (show s''.abs.recursionBudget ≤ s''.abs.recursionLimit by
      rw [hbudget', hlimit']
      exact hlimit) (unknownFields.map (·.append field))
  rw [hplace] at hmore
  rw [← hbehind] at hcons hinv
  exact hmore.of_field (Nat.sub_le _ _) hcons hinv

/-- A field that is no group, and what comes behind it. -/
theorem skips_leaf (ih : SkipsWithin fuel) (h : BehindTag s s' tag front rest)
    (hfuel : s.abs.readable.length < fuel + 1) (hbudget : s.recursionBudget = (depth : Int))
    (hlimit : s.recursionBudget ≤ s.recursionLimit) (hgroup : tag.toNat % 8 ≠ 3)
    (hend : tag.toNat % 8 ≠ 4) (unknownFields : Option Fields) :
    Skips depth (andThen (skipField (skipMessage fuel) s' tag unknownFields)
      fun unknownFields input => skipMessage fuel input unknownFields) s.abs unknownFields := by
  have hrest := h.readable
  have hfield := skipField_leaf (skipMessage fuel) h.wellFormed h.tag_ge hgroup unknownFields
  cases hvalue : Payload.read (tag.toNat % 8) rest with
  | error failure =>
      rw [Cursor.readWith_error (by rw [hrest]; exact hvalue)] at hfield
      refine .inr ⟨?_, .inl (hfield.andThen_none _)⟩
      intro fields last rest' hreads
      obtain ⟨payload, behind, _, hvalue', -⟩ := hreads.leaf_of_tag h.read h.ne_nil hgroup hend
      rw [hvalue] at hvalue'
      cases hvalue'
  | ok x =>
      obtain ⟨payload, behind⟩ := x
      rw [Cursor.readWith_ok (by rw [hrest]; exact hvalue)] at hfield
      obtain ⟨s'', hs'', hwell'', habs''⟩ := hfield
      obtain ⟨piece, hpiece⟩ := (Lib.WireFormat.takesFront_payload _).front hvalue
      rw [hs'', andThen]
      refine skips_more ih h hfuel hbudget hlimit hpiece tag hwell'' ?_ ?_ ?_ unknownFields
      · rw [habs'', hrest, h.place, ← (h.advance_behind hpiece).1]
        rfl
      · intro fields last rest' hreads
        have hmake := Lib.WireFormat.makeTag_div_mod tag.toNat
        have hkind := (Lib.WireFormat.Payload.of_read hvalue).1
        have hread := h.read
        rw [← hkind] at hmake hvalue
        rw [← hmake] at hread
        exact .leaf hread hvalue hreads
      · intro all last rest' hreads
        obtain ⟨_, _, fields, hvalue', hmore⟩ := hreads.leaf_of_tag h.read h.ne_nil hgroup hend
        rw [hvalue] at hvalue'
        cases hvalue'
        exact ⟨fields, hmore⟩

/-- The message inside a group, one level down. It starts where the tag of the
group ends, and has fewer bytes than the group for that reason alone. -/
theorem skips_inside (ih : SkipsWithin fuel) (h : BehindTag s s' tag front rest)
    (hfuel : s.abs.readable.length < fuel + 1)
    (hbudget : s.recursionBudget = ((depth + 1 : Nat) : Int))
    (hlimit : s.recursionBudget ≤ s.recursionLimit) (unknownFields : Option Fields) :
    Skips depth
      (skipMessage fuel { s' with recursionBudget := s'.recursionBudget - 1 } unknownFields)
      { s'.abs with recursionBudget := s'.abs.recursionBudget - 1 } unknownFields := by
  have hwell := h.wellFormed
  have hwell' : ({ s' with recursionBudget := s'.recursionBudget - 1 } :
      CodedInputStream).WellFormed :=
    ⟨hwell.position, hwell.total, hwell.limit, hwell.afterLimit, hwell.closest, hwell.overflow,
      hwell.input⟩
  have hlt := h.length_lt
  have hbudget' := h.recursionBudget
  have hlimit' := h.recursionLimit
  exact ih hwell' (ended_of_false (congrArg Cursor.legitimateMessageEnd h.place))
    (show s'.abs.readable.length < fuel by rw [h.readable]; omega)
    (show s'.recursionBudget - 1 = (depth : Int) by omega) (by dsimp only; omega) unknownFields

/-- Nothing is read where the group is none: there is no message inside, or
the tag behind it belongs to another group. -/
theorem not_reads_group (h : BehindTag s s' tag front rest) (hgroup : tag.toNat % 8 = 3)
    (hnone : ∀ inside behind, ¬ReadsTo depth rest inside
      (Lib.WireFormat.makeTag (tag.toNat / 8) 4) behind) :
    ∀ all last rest', ¬ReadsTo (depth + 1) s.abs.readable all last rest' := by
  intro all last rest' hall
  obtain ⟨depth', inside, behind, _, hdepth, hinside, -⟩ := hall.group_of_tag h.read h.ne_nil hgroup
  obtain rfl := Nat.succ.inj hdepth
  exact hnone inside behind hinside

/-- A group that ends with its tag, and what comes behind it. -/
theorem skips_group_end (ih : SkipsWithin fuel) (h : BehindTag s s' tag front rest)
    (hfuel : s.abs.readable.length < fuel + 1)
    (hbudget : s.recursionBudget = ((depth + 1 : Nat) : Int))
    (hlimit : s.recursionBudget ≤ s.recursionLimit) (hgroup : tag.toNat % 8 = 3)
    {inside : Fields} {behind : List UInt8} {s₃ : CodedInputStream}
    (hreads : ReadsTo depth rest inside (Lib.WireFormat.makeTag (tag.toNat / 8) 4) behind)
    (hwell : s₃.WellFormed)
    (habs : s₃.abs = ({ s'.abs with recursionBudget := s'.abs.recursionBudget - 1 } :
      Cursor).skipped (Lib.WireFormat.makeTag (tag.toNat / 8) 4) behind)
    (unknownFields : Option Fields) :
    Skips (depth + 1)
      (skipMessage fuel s₃.decrementRecursionDepth
        (unknownFields.map (·.append (.group (tag.toNat / 8) inside .nil)))) s.abs
      unknownFields := by
  obtain ⟨hwell', habs'⟩ := decrementRecursionDepth_spec hwell
  obtain ⟨piece, hpiece⟩ := hreads.suffix
  refine skips_more ih h hfuel hbudget hlimit hpiece
    (UInt32.ofNat (Lib.WireFormat.makeTag (tag.toNat / 8) 4)) hwell' ?_ ?_ ?_ unknownFields
  · -- down and up again
    have hbudget' := h.recursionBudget
    have hlimit' := h.recursionLimit
    have hlast : Lib.WireFormat.makeTag (tag.toNat / 8) 4 ≠ 0 :=
      Lib.WireFormat.makeTag_ne_zero (by decide)
    have hback := Cursor.skipped_group hlast
      (show s'.abs.recursionBudget ≤ s'.abs.recursionLimit from
        (show s'.recursionBudget ≤ s'.recursionLimit by omega)) behind
    rw [h.readable] at hback
    rw [habs', habs]
    refine hback.trans ?_
    rw [h.place, ← (h.advance_behind hpiece).1]
    rfl
  · intro fields last rest' hmore
    have hmake := Lib.WireFormat.makeTag_div_mod tag.toNat
    have hread := h.read
    rw [hgroup] at hmake
    rw [← hmake] at hread
    exact .group hread hreads hmore
  · intro all last rest' hall
    obtain ⟨depth', _, _, fields, hdepth, hinside, hmore⟩ :=
      hall.group_of_tag h.read h.ne_nil hgroup
    obtain rfl := Nat.succ.inj hdepth
    obtain ⟨-, -, rfl⟩ := hreads.unique hinside
    exact ⟨fields, hmore⟩

/-- A group, whether it is one or not, and what comes behind it. It is none if
it is too deep, if its message is none, and if that ends with another tag: the
end of the bytes, whose tag is 0, or the end of a group of another number. -/
theorem skips_group (ih : SkipsWithin fuel) (h : BehindTag s s' tag front rest)
    (hfuel : s.abs.readable.length < fuel + 1) (hbudget : s.recursionBudget = (depth : Int))
    (hlimit : s.recursionBudget ≤ s.recursionLimit) (hgroup : tag.toNat % 8 = 3)
    (unknownFields : Option Fields) :
    Skips depth (andThen (skipField (skipMessage fuel) s' tag unknownFields)
      fun unknownFields input => skipMessage fuel input unknownFields) s.abs unknownFields := by
  have htag := tag.toNat_lt
  have hbudget' := h.recursionBudget
  rw [skipField_group _ s' h.tag_ge hgroup]
  cases depth with
  | zero =>
      -- too deep
      rw [if_neg (by omega)]
      refine .inr ⟨?_, .inl rfl⟩
      intro fields last rest' hreads
      obtain ⟨_, _, _, _, hdepth, -⟩ := hreads.group_of_tag h.read h.ne_nil hgroup
      cases hdepth
  | succ depth =>
      rw [if_pos (by omega)]
      have hinside := skips_inside ih h hfuel hbudget hlimit (unknownFields.map fun _ => .nil)
      have hbytes : Cursor.readable
          { s'.abs with recursionBudget := s'.abs.recursionBudget - 1 } = rest := h.readable
      rcases hinside with ⟨inside, last, behind, s₃, hreads, hresult, hwell, habs⟩ |
        ⟨hnone, hresult⟩
      · rw [hbytes] at hreads
        have hlast : s₃.decrementRecursionDepth.lastTag = UInt32.ofNat last := by
          rw [decrementRecursionDepth_lastTag]
          exact congrArg Cursor.lastTag habs
        have hends := ofNat_eq_makeTag_iff (last_lt hreads)
          (show tag.toNat / 8 < 2 ^ 29 by omega)
        rw [hresult, andThen, hlast]
        by_cases hend : last = Lib.WireFormat.makeTag (tag.toNat / 8) 4
        · rw [if_pos (hends.mpr hend), addGroup_map, andThen]
          rw [hend] at hreads habs
          exact skips_group_end ih h hfuel hbudget hlimit hgroup hreads hwell habs unknownFields
        · rw [if_neg (fun heq => hend (hends.mp heq))]
          refine .inr ⟨not_reads_group h hgroup ?_, .inl rfl⟩
          exact fun inside' behind' hreads' => hend (hreads.unique hreads').2.1
      · rw [hbytes] at hnone
        refine .inr ⟨not_reads_group h hgroup fun inside behind => hnone inside _ behind, .inl ?_⟩
        rcases hresult with hfailed | ⟨kept, s₃, hs₃, -, hsmall⟩
        · exact Answers.andThen_none (Answers.andThen_none hfailed _) _
        · -- what ended it is no tag of a group
          rw [hs₃, andThen, decrementRecursionDepth_lastTag, if_neg ?_]
          · rfl
          · intro heq
            have hge := h.tag_ge
            rw [heq, toNat_makeTag (by omega) (by decide)] at hsmall
            unfold Lib.WireFormat.makeTag at hsmall
            omega

end Rounds

/-- By induction on the rounds: one lemma above for each thing that the next
tag may be. -/
theorem skipMessage_spec {fuel depth : Nat} {s : CodedInputStream} (h : s.WellFormed)
    (hended : s.abs.Ended) (hfuel : s.abs.readable.length < fuel)
    (hbudget : s.recursionBudget = (depth : Int)) (hlimit : s.recursionBudget ≤ s.recursionLimit)
    (unknownFields : Option Fields) :
    Skips depth (skipMessage fuel s unknownFields) s.abs unknownFields := by
  induction fuel generalizing depth s unknownFields with
  | zero => omega
  | succ fuel ih =>
      have ih : SkipsWithin fuel := fun h hended hfuel hbudget hlimit unknownFields =>
        ih h hended hfuel hbudget hlimit unknownFields
      rw [skipMessage]
      rcases readTag_cases h hended with ⟨hnil, s', hs', hwell, habs⟩ |
        ⟨hne, hnone, tag, s', hs', hend, hlast, hsmall⟩ |
        ⟨tag, front, rest, s', hfront, hpos, htag, hread, hs', hwell, habs⟩
      · rw [hs', andThen, if_pos rfl]
        exact skips_end hnil hwell habs unknownFields
      · rw [hs', andThen]
        exact skips_noTag hne hnone hend hlast hsmall unknownFields
      · have hbehind : BehindTag s s' tag front rest := ⟨hfront, hpos, htag, hread, hwell, habs⟩
        rw [hs', andThen, if_neg hbehind.tag_ne_zero, getTagWireType_eq]
        by_cases hgroupEnd : tag.toNat % 8 = 4
        · rw [if_pos hgroupEnd]
          exact skips_endGroup hbehind hgroupEnd unknownFields
        rw [if_neg hgroupEnd]
        by_cases hgroup : tag.toNat % 8 = 3
        · exact skips_group ih hbehind hfuel hbudget hlimit hgroup unknownFields
        · exact skips_leaf ih hbehind hfuel hbudget hlimit hgroup hgroupEnd unknownFields

end WireFormat

/-! ## 4. Sets

A new stream has a hundred levels and both limits at INT_MAX. With the limits
at the same place the end of the bytes that may be read is the end of a message
(`Cursor.endsMessage_of_eq`), also where there are more bytes than that. -/

namespace UnknownFieldSet

open CodedInputStream

/-- What a new stream skips, read from the bytes that an `int` can name. -/
theorem skipMessage_ofStream {input : List (List UInt8)}
    (h : ∀ data ∈ input, data.length ≤ intMax) (unknownFields : Option Fields) :
    (∃ fields last rest s', ReadsTo 100 (input.flatten.take intMax) fields last rest ∧
      WireFormat.skipMessage (rounds (.ofStream input)) (.ofStream input) unknownFields =
        (.done (unknownFields.map (·.append fields)), s') ∧
          s'.consumedEntireMessage = decide (last = 0)) ∨
    ((∀ fields last rest, ¬ReadsTo 100 (input.flatten.take intMax) fields last rest) ∧
      ((WireFormat.skipMessage (rounds (.ofStream input)) (.ofStream input) unknownFields).1 =
          .failed ∨
        ∃ kept s', WireFormat.skipMessage (rounds (.ofStream input)) (.ofStream input)
          unknownFields = (.done kept, s') ∧ s'.consumedEntireMessage = false)) := by
  obtain ⟨hwell, habs⟩ := ofStream_spec h
  have hreadable : (ofStream input).abs.readable = input.flatten.take intMax := by
    rw [habs]
    rfl
  have hrounds : (ofStream input).abs.readable.length < rounds (.ofStream input) := by
    unfold rounds Cursor.readable
    rw [List.length_take]
    have hahead : (ofStream input).abs.ahead.length =
        ((ofStream input).buffer ++ (ofStream input).afterLimit ++ (ofStream input).overflow ++
          (ofStream input).input.flatten).length := by
      show (ofStream input).ahead.length = _
      unfold ahead
      simp only [List.append_assoc]
    omega
  have hbudget : (ofStream input).recursionBudget = 100 := congrArg Cursor.recursionBudget habs
  have hlimit : (ofStream input).recursionLimit = 100 := congrArg Cursor.recursionLimit habs
  have hspec := WireFormat.skipMessage_spec hwell
    (WireFormat.ended_of_false (congrArg Cursor.legitimateMessageEnd habs)) hrounds
    (show (ofStream input).recursionBudget = ((100 : Nat) : Int) from hbudget) (by omega)
    unknownFields
  unfold WireFormat.Skips at hspec
  rw [hreadable] at hspec
  rcases hspec with ⟨fields, last, rest, s', hreads, hresult, -, habs'⟩ | ⟨hnone, hresult⟩
  · refine .inl ⟨fields, last, rest, s', hreads, hresult, ?_⟩
    have hend := congrArg Cursor.legitimateMessageEnd habs'
    refine hend.trans ?_
    have hlimits : ∀ n, ((ofStream input).abs.advance n).endsMessage = true := by
      intro n
      rw [habs]
      exact Cursor.endsMessage_of_eq rfl
    unfold Cursor.skipped
    dsimp only
    rw [hlimits, Bool.and_true]
  · refine .inr ⟨hnone, ?_⟩
    rcases hresult with hfailed | ⟨kept, s', hs', hend, -⟩
    · exact .inl hfailed
    · exact .inr ⟨kept, s', hs', hend⟩

/-- A message that a tag has ended is not whole, and its fields are dropped. -/
theorem mergeFromCodedStream_spec {input : List (List UInt8)}
    (h : ∀ data ∈ input, data.length ≤ intMax) (fields : Fields) :
    (∃ other s', ReadsTo 100 (input.flatten.take intMax) other 0 [] ∧
      mergeFromCodedStream fields (.ofStream input) = (.done (fields.append other), s') ∧
        s'.consumedEntireMessage = true) ∨
    ((∀ other, ¬ReadsTo 100 (input.flatten.take intMax) other 0 []) ∧
      (mergeFromCodedStream fields (.ofStream input)).1 = .failed) := by
  unfold mergeFromCodedStream
  rcases skipMessage_ofStream h (some .nil) with
    ⟨other, last, rest, s', hreads, hresult, hend⟩ | ⟨hnone, hresult⟩
  · rw [hresult, andThen]
    dsimp only [Option.map_some]
    by_cases hlast : last = 0
    · subst hlast
      obtain rfl := hreads.rest_of_last rfl
      refine .inl ⟨other, s', hreads, ?_, hend⟩
      rw [if_pos (show s'.consumedEntireMessage = true from hend)]
      rfl
    · refine .inr ⟨?_, ?_⟩
      · intro other' hreads'
        exact hlast (hreads.unique hreads').2.1
      · rw [hend, decide_eq_false hlast]
        rfl
  · refine .inr ⟨fun other => hnone other 0 [], ?_⟩
    rcases hresult with hfailed | ⟨kept, s', hs', hend⟩
    · exact Answers.andThen_none hfailed _
    · rw [hs', andThen]
      cases kept with
      | none => rfl
      | some other =>
          dsimp only
          rw [hend]
          rfl

/-- The end is asked for twice, by the merge and by the parser; the second
answer is the first, for nothing was read in between. -/
theorem parseFromZeroCopyStream_spec {input : List (List UInt8)}
    (h : ∀ data ∈ input, data.length ≤ intMax) :
    (∃ fields, ReadsTo 100 (input.flatten.take intMax) fields 0 [] ∧
      parseFromZeroCopyStream input = .done fields) ∨
    ((∀ fields, ¬ReadsTo 100 (input.flatten.take intMax) fields 0 []) ∧
      parseFromZeroCopyStream input = .failed) := by
  unfold parseFromZeroCopyStream parseFromCodedStream
  rcases mergeFromCodedStream_spec h .nil with ⟨fields, s', hreads, hresult, hend⟩ |
    ⟨hnone, hfailed⟩
  · refine .inl ⟨fields, hreads, ?_⟩
    rw [hresult, andThen, if_pos hend]
    rfl
  · exact .inr ⟨hnone, Answers.andThen_none hfailed _⟩

/-- A set is parsed from bytes in any buffers when the bytes are its fields,
with at most a hundred groups one in another; in no other case, and without a
look behind a buffer. Of more than `INT_MAX` bytes the first are taken. -/
theorem parseFromZeroCopyStream_eq_done_iff {input : List (List UInt8)}
    (h : ∀ data ∈ input, data.length ≤ intMax) (fields : Fields) :
    (parseFromZeroCopyStream input = .done fields ↔
      Lib.WireFormat.read 100 (input.flatten.take intMax) = .ok (fields, 0, [])) ∧
        parseFromZeroCopyStream input ≠ .overrun := by
  rw [Lib.WireFormat.read_eq_ok_iff]
  rcases parseFromZeroCopyStream_spec h with ⟨fields', hreads, hresult⟩ | ⟨hnone, hresult⟩
  · rw [hresult]
    refine ⟨⟨?_, ?_⟩, fun heq => nomatch heq⟩
    · intro heq
      cases heq
      exact hreads
    · intro hreads'
      rw [(hreads.unique hreads').1]
  · rw [hresult]
    refine ⟨iff_of_false ?_ (hnone fields), fun heq => nomatch heq⟩
    exact fun heq => nomatch heq

theorem parseFromZeroCopyStream_eq_done_iff_150 :
    (parseFromZeroCopyStream [[8], [150, 1]] = .done (.leaf 1 (.varint 150) .nil) ↔
      Lib.WireFormat.read 100 (([[8], [150, 1]] : List (List UInt8)).flatten.take intMax) =
        .ok (.leaf 1 (.varint 150) .nil, 0, [])) ∧
      parseFromZeroCopyStream [[8], [150, 1]] ≠ .overrun :=
  parseFromZeroCopyStream_eq_done_iff (by decide) _

/-- Merging from a second stream is parsing both as one. The size is bounded for
the sake of the parser: of more than INT_MAX bytes together it would read the
first, and the two streams apart read them all. -/
theorem mergeFromCodedStream_eq_parse {input input' : List (List UInt8)} {fields : Fields}
    (h : ∀ data ∈ input ++ input', data.length ≤ intMax)
    (hsize : (input ++ input').flatten.length ≤ intMax)
    (hparse : parseFromZeroCopyStream input = .done fields) :
    (mergeFromCodedStream fields (.ofStream input')).1 =
      parseFromZeroCopyStream (input ++ input') := by
  rw [List.flatten_append] at hsize
  have hlength : (input.flatten ++ input'.flatten).length =
      input.flatten.length + input'.flatten.length := List.length_append
  have hfirst := parseFromZeroCopyStream_spec fun data hdata =>
    h data (List.mem_append_left input' hdata)
  have hsecond := mergeFromCodedStream_spec
    (fun data hdata => h data (List.mem_append_right input hdata)) fields
  have hboth := parseFromZeroCopyStream_spec h
  rw [List.take_of_length_le (by omega)] at hfirst hsecond
  rw [List.flatten_append, List.take_of_length_le hsize] at hboth
  rcases hfirst with ⟨fields', hreads, hresult⟩ | ⟨-, hresult⟩
  · rw [hparse] at hresult
    cases hresult
    rcases hsecond with ⟨other, s', hmore, hmerge, -⟩ | ⟨hnone, hfailed⟩
    · have hall := hreads.append hmore
      rcases hboth with ⟨all, hreads', hresult⟩ | ⟨hnone, -⟩
      · rw [hmerge, hresult, (hall.unique hreads').1]
      · exact absurd hall (hnone _)
    · rcases hboth with ⟨all, hreads', -⟩ | ⟨-, hresult⟩
      · obtain ⟨more, -, hmore⟩ := hreads.of_append hreads'
        exact absurd hmore (hnone more)
      · rw [hfailed, hresult]
  · rw [hparse] at hresult
    cases hresult

theorem mergeFromCodedStream_eq_parse_two :
    (mergeFromCodedStream (.leaf 1 (.varint 1) .nil) (.ofStream [[16, 2]])).1 =
      parseFromZeroCopyStream ([[8], [1]] ++ [[16, 2]]) :=
  mergeFromCodedStream_eq_parse (by decide) (by decide) (by decide)

end UnknownFieldSet

end SpringDome.Protobuf
