/-
SpringDome.Protobuf.UserProtoTheorems — what a `Response` is, whatever it keeps
`info` as, and what it answers to whoever asks.

A message is four fields of which some are set: `Content`. The class keeps more
than that. `info` is a string or bytes and changes from one to the other when it
is asked for, two memos say whether the message is initialized and how long it
is, and a field that is not set keeps a value all the same. None of it
may show, and `Accessor.runAll_eq` says that none does.

How the proofs go.

  - Section 2 is the arithmetic of `bitField0_`: a bit that is set or cleared is
    set or cleared, and the other two stay. With it every method of the builder
    is one equation about `content` (section 3), and later modules know the
    methods by these equations alone.
  - `Defaults` is the invariant of a builder and `Sound` that of a message. A
    getter does not look at the bit of its field, so that a field which is not
    set must keep its default; and an answer that is remembered must be the
    right one. Both are about values that `content` does not show, which is why
    they are needed beside it.
  - Each accessor then gets one lemma of one form: the answer is a function of
    the content, and the message after it has the same content and is sound.
    `run_eq` collects them, and the induction over a list of calls is short.

The two forms of `info` meet in `Info.bytes`. A string is kept only if its bytes
lead back to it: `getInfo` stores the string for bytes that are UTF-8 and leaves
all others (`getInfo_eq`), so the bytes of the field never change.
-/
import SpringDome.Protobuf.UserProto

namespace SpringDome.Protobuf

open SpringDome.Lib.WireFormat
open SpringDome.Lib.Charset

variable {U : Type}

/-! ## 1. Texts

The decoder of malformed input is a parameter of the runtime. What is needed of
it is what every decoder has: text that is encoded is read back. -/

theorem Runtime.isValidUtf8_iff (rt : Runtime U) (bs : List UInt8) :
    rt.isValidUtf8 bs = true ↔ ∃ s, copyFromUtf8 s = bs := by
  unfold isValidUtf8 copyFromUtf8
  rw [Option.isSome_iff_exists]
  constructor
  · intro h
    obtain ⟨text, htext⟩ := h
    refine ⟨String.ofList text, ?_⟩
    rw [String.toList_ofList]
    exact (Decoder.decode_report_iff rfl).mp htext
  · intro h
    obtain ⟨s, hs⟩ := h
    exact ⟨s.toList, (Decoder.decode_report_iff rfl).mpr hs⟩

theorem Runtime.toStringUtf8_copyFromUtf8 (rt : Runtime U) (s : String) :
    rt.toStringUtf8 (copyFromUtf8 s) = s := by
  unfold toStringUtf8 copyFromUtf8
  rw [Decoder.decode_encodeUtf8, Option.getD_some, String.ofList_toList]

/-- The bytes of the text that is read for some bytes are these if and only if
they are UTF-8. -/
theorem Runtime.copyFromUtf8_toStringUtf8_iff (rt : Runtime U) (bs : List UInt8) :
    copyFromUtf8 (rt.toStringUtf8 bs) = bs ↔ rt.isValidUtf8 bs = true := by
  rw [isValidUtf8_iff]
  constructor
  · intro h
    exact ⟨_, h⟩
  · intro h
    obtain ⟨s, rfl⟩ := h
    rw [toStringUtf8_copyFromUtf8]

/-! ## 2. Bits

For every word, not for the three masks of the class: `m &&& m'` is 0 for two
different bits, and `decide` closes that at the masks. -/

theorem or_and_self (b m : BitVec 32) : (b ||| m) &&& m = m := by
  ext i hi
  rw [BitVec.getElem_and, BitVec.getElem_or]
  cases b[i] <;> cases m[i] <;> rfl

theorem or_and_other {m m' : BitVec 32} (h : m &&& m' = 0#32) (b : BitVec 32) :
    (b ||| m) &&& m' = b &&& m' := by
  rw [BitVec.and_or_distrib_right, h, BitVec.or_zero]

theorem and_not_and_self (b m : BitVec 32) : b &&& ~~~m &&& m = 0#32 := by
  rw [BitVec.and_assoc, BitVec.and_comm (~~~m), BitVec.and_not_self]
  exact BitVec.and_zero

theorem and_not_and_other {m m' : BitVec 32} (h : m &&& m' = 0#32) (b : BitVec 32) :
    b &&& ~~~m &&& m' = b &&& m' := by
  have hsub : ~~~m &&& m' = m' := by
    ext i hi
    have hbit := congrArg (fun v : BitVec 32 => v[i]) h
    simp only [BitVec.getElem_and, BitVec.getElem_zero, BitVec.getElem_not] at hbit ⊢
    revert hbit
    cases m[i] <;> cases m'[i] <;> decide
  rw [BitVec.and_assoc, hsub]

/-! ## 3. What a message is -/

/-- The fields that are set, with `info` as bytes. -/
structure Content (U : Type) where
  id : Option Int32
  result : Option Int32
  info : Option (List UInt8)
  unknown : U

def Info.bytes : Info → List UInt8
  | .string s => copyFromUtf8 s
  | .byteString bs => bs

def Response.content (m : Response U) : Content U where
  id := if m.hasId then some m.id else none
  result := if m.hasResult then some m.result else none
  info := if m.hasInfo then some m.info.bytes else none
  unknown := m.unknownFields

def Builder.content (b : Builder U) : Content U where
  id := if b.hasId then some b.id else none
  result := if b.hasResult then some b.result else none
  info := if b.hasInfo then some b.info.bytes else none
  unknown := b.unknownFields

/-- Nothing is set. -/
def Content.empty (rt : Runtime U) : Content U := ⟨none, none, none, rt.defaultInstance⟩

namespace Builder

variable (rt : Runtime U) (b : Builder U)

/-! One equation for each method. A setter writes its field and its bit, and
the content of the builder changes in that field. -/

theorem content_create : (create rt).content = .empty rt := by
  simp [content, create, hasId, hasResult, hasInfo, Content.empty]

theorem content_setId (v : Int32) : (b.setId v).content = { b.content with id := some v } := by
  simp only [content, setId, hasId, hasResult, hasInfo, or_and_self,
    or_and_other (show 0x1#32 &&& 0x2#32 = 0#32 by decide),
    or_and_other (show 0x1#32 &&& 0x4#32 = 0#32 by decide), BEq.rfl, if_pos]
  rfl

theorem content_clearId : b.clearId.content = { b.content with id := none } := by
  simp only [content, clearId, hasId, hasResult, hasInfo, and_not_and_self,
    and_not_and_other (show 0x1#32 &&& 0x2#32 = 0#32 by decide),
    and_not_and_other (show 0x1#32 &&& 0x4#32 = 0#32 by decide)]
  rfl

theorem content_setResult (v : Int32) :
    (b.setResult v).content = { b.content with result := some v } := by
  simp only [content, setResult, hasId, hasResult, hasInfo, or_and_self,
    or_and_other (show 0x2#32 &&& 0x1#32 = 0#32 by decide),
    or_and_other (show 0x2#32 &&& 0x4#32 = 0#32 by decide), BEq.rfl, if_pos]
  rfl

theorem content_clearResult : b.clearResult.content = { b.content with result := none } := by
  simp only [content, clearResult, hasId, hasResult, hasInfo, and_not_and_self,
    and_not_and_other (show 0x2#32 &&& 0x1#32 = 0#32 by decide),
    and_not_and_other (show 0x2#32 &&& 0x4#32 = 0#32 by decide)]
  rfl

theorem content_setInfoString (s : String) :
    (b.setInfoString s).content = { b.content with info := some (copyFromUtf8 s) } := by
  simp only [content, setInfoString, hasId, hasResult, hasInfo, or_and_self,
    or_and_other (show 0x4#32 &&& 0x1#32 = 0#32 by decide),
    or_and_other (show 0x4#32 &&& 0x2#32 = 0#32 by decide), BEq.rfl, if_pos, Info.bytes]
  rfl

theorem content_setInfoBytes (bs : List UInt8) :
    (b.setInfoBytes bs).content = { b.content with info := some bs } := by
  simp only [content, setInfoBytes, hasId, hasResult, hasInfo, or_and_self,
    or_and_other (show 0x4#32 &&& 0x1#32 = 0#32 by decide),
    or_and_other (show 0x4#32 &&& 0x2#32 = 0#32 by decide), BEq.rfl, if_pos, Info.bytes]
  rfl

theorem content_clearInfo : (b.clearInfo rt).content = { b.content with info := none } := by
  simp only [content, clearInfo, hasId, hasResult, hasInfo, and_not_and_self,
    and_not_and_other (show 0x4#32 &&& 0x1#32 = 0#32 by decide),
    and_not_and_other (show 0x4#32 &&& 0x2#32 = 0#32 by decide)]
  rfl

theorem content_setUnknownFields (u : U) :
    (b.setUnknownFields u).content = { b.content with unknown := u } := rfl

/-- The bits are copied one by one, and a field that is not set is copied as
well; both sides agree on what is set. -/
theorem content_buildPartial : b.buildPartial.content = b.content := by
  unfold content Response.content buildPartial
  simp only [Response.hasId, Response.hasResult, Response.hasInfo]
  cases b.hasId <;> cases b.hasResult <;> cases b.hasInfo <;> simp

theorem hasId_eq : b.hasId = b.content.id.isSome := by
  unfold content
  cases b.hasId <;> rfl

theorem hasResult_eq : b.hasResult = b.content.result.isSome := by
  unfold content
  cases b.hasResult <;> rfl

theorem hasInfo_eq : b.hasInfo = b.content.info.isSome := by
  unfold content
  cases b.hasInfo <;> rfl

/-- A field that is not set has its default. For `info` this is the empty
string and not just something without bytes: the builder's `getInfo` turns
bytes into text without a look at the bit, and may only do so to a field that
is set. -/
structure Defaults (b : Builder U) : Prop where
  id : b.hasId = false → b.id = 0
  result : b.hasResult = false → b.result = 0
  info : b.hasInfo = false → b.info = .string ""

variable {rt b}

theorem defaults_create : (create rt).Defaults :=
  ⟨fun _ => rfl, fun _ => rfl, fun _ => rfl⟩

theorem Defaults.setId (h : b.Defaults) (v : Int32) : (b.setId v).Defaults where
  id := by
    rw [hasId_eq, content_setId]
    exact fun hno => nomatch hno
  result := by
    rw [hasResult_eq, content_setId, ← hasResult_eq]
    exact h.result
  info := by
    rw [hasInfo_eq, content_setId, ← hasInfo_eq]
    exact h.info

theorem Defaults.clearId (h : b.Defaults) : b.clearId.Defaults where
  id := fun _ => rfl
  result := by
    rw [hasResult_eq, content_clearId, ← hasResult_eq]
    exact h.result
  info := by
    rw [hasInfo_eq, content_clearId, ← hasInfo_eq]
    exact h.info

theorem Defaults.setResult (h : b.Defaults) (v : Int32) : (b.setResult v).Defaults where
  id := by
    rw [hasId_eq, content_setResult, ← hasId_eq]
    exact h.id
  result := by
    rw [hasResult_eq, content_setResult]
    exact fun hno => nomatch hno
  info := by
    rw [hasInfo_eq, content_setResult, ← hasInfo_eq]
    exact h.info

theorem Defaults.clearResult (h : b.Defaults) : b.clearResult.Defaults where
  id := by
    rw [hasId_eq, content_clearResult, ← hasId_eq]
    exact h.id
  result := fun _ => rfl
  info := by
    rw [hasInfo_eq, content_clearResult, ← hasInfo_eq]
    exact h.info

/-- Setting `info`, as a string or as bytes: whatever is stored, the field is
set after it, and the other two are as before. -/
theorem Defaults.withInfo (h : b.Defaults) {b' : Builder U} {bs : List UInt8}
    (hcontent : b'.content = { b.content with info := some bs }) (hid : b'.id = b.id)
    (hresult : b'.result = b.result) : b'.Defaults where
  id := by
    rw [hasId_eq, hcontent, ← hasId_eq, hid]
    exact h.id
  result := by
    rw [hasResult_eq, hcontent, ← hasResult_eq, hresult]
    exact h.result
  info := by
    rw [hasInfo_eq, hcontent]
    exact fun hno => nomatch hno

theorem Defaults.clearInfo (h : b.Defaults) : (b.clearInfo rt).Defaults where
  id := by
    rw [hasId_eq, content_clearInfo, ← hasId_eq]
    exact h.id
  result := by
    rw [hasResult_eq, content_clearInfo, ← hasResult_eq]
    exact h.result
  info := fun _ => rfl

theorem Defaults.setUnknownFields (h : b.Defaults) (u : U) : (b.setUnknownFields u).Defaults :=
  ⟨h.id, h.result, h.info⟩

end Builder

/-! ## 4. Accessors of a message

On the side of the content everything is a list of fields and its bytes. On the
side of the class the sizes are added up in `int`s, before a byte is written. -/

/-- A field, if there is one. -/
def optionalField (number : Nat) : Option Payload → Fields
  | none => .nil
  | some payload => .leaf number payload .nil

namespace Content

/-- What `writeTo` writes, in its order. -/
def fields (rt : Runtime U) (c : Content U) : Fields :=
  (optionalField 1 (c.id.map int32Payload)).append <|
    (optionalField 2 (c.result.map int32Payload)).append <|
      (optionalField 3 (c.info.map .lengthDelimited)).append (rt.asFields c.unknown)

def write (rt : Runtime U) (c : Content U) : List UInt8 := (c.fields rt).write

/-- As Java adds it up, that is without regard to overflow. -/
def size (rt : Runtime U) (c : Content U) : Int32 := Int32.ofNat (c.write rt).length

/-- An array has room for less than 2^31 bytes. A longer message has a size that
is negative, or one that is too small for its bytes. -/
def toByteArray (rt : Runtime U) (c : Content U) : Except Thrown (List UInt8) :=
  if c.size rt < 0 then .error .negativeArraySize
  else if (c.write rt).length < 2 ^ 31 then .ok (c.write rt)
  else .error .outOfSpace

theorem write_eq (rt : Runtime U) (c : Content U) :
    c.write rt = (c.id.map (writeInt32 1)).getD [] ++ ((c.result.map (writeInt32 2)).getD [] ++
      ((c.info.map (writeBytes 3)).getD [] ++ (rt.asFields c.unknown).write)) := by
  unfold write fields
  rw [Fields.write_append, Fields.write_append, Fields.write_append]
  have hfield : ∀ number payload, (optionalField number payload).write =
      (payload.map fun p => varint (makeTag number p.wireType) ++ p.write).getD [] := by
    intro number payload
    cases payload with
    | none => rfl
    | some payload => simp only [optionalField, Fields.write, List.append_nil, Option.map_some,
        Option.getD_some]
  rw [hfield, hfield, hfield, Option.map_map, Option.map_map, Option.map_map]
  rfl

theorem toByteArray_eq_ok_iff (rt : Runtime U) (c : Content U) (bytes : List UInt8) :
    c.toByteArray rt = .ok bytes ↔ bytes = c.write rt ∧ bytes.length < 2 ^ 31 := by
  unfold toByteArray
  constructor
  · intro h
    split at h
    · cases h
    · split at h
      · cases h
        exact ⟨rfl, by assumption⟩
      · cases h
  · intro h
    obtain ⟨rfl, hlt⟩ := h
    have hsize : ¬c.size rt < 0 := by
      rw [Int32.lt_iff_toInt_lt, size, Int32.toInt_ofNat_of_lt hlt, Int32.toInt_zero]
      omega
    rw [if_neg hsize, if_pos hlt]

end Content

namespace Response

/-- What is remembered is right, and a field that is not set has its default.
-1 is what a memo starts with, and what no right answer is: a message that is
2^32 - 1 bytes long is computed again each time, and right each time. -/
structure Sound (rt : Runtime U) (m : Response U) : Prop where
  defaultId : m.hasId = false → m.id = 0
  defaultResult : m.hasResult = false → m.result = 0
  defaultInfo : m.hasInfo = false → m.info.bytes = []
  isInitialized : m.memoizedIsInitialized = -1 ∨
    m.memoizedIsInitialized = if m.hasId then 1 else 0
  serializedSize : m.memoizedSerializedSize = -1 ∨ m.memoizedSerializedSize = m.content.size rt

variable {rt : Runtime U} {m : Response U}

/-- `info` may change its form as long as it keeps its bytes. This is the only
change that an accessor makes to a field. -/
theorem content_withInfo {info : Info} (h : info.bytes = m.info.bytes) :
    ({ m with info := info } : Response U).content = m.content := by
  unfold content
  rw [h]
  rfl

theorem Sound.withInfo (hm : m.Sound rt) {info : Info} (h : info.bytes = m.info.bytes) :
    ({ m with info := info } : Response U).Sound rt where
  defaultId := hm.defaultId
  defaultResult := hm.defaultResult
  defaultInfo := fun hno => h.trans (hm.defaultInfo hno)
  isInitialized := hm.isInitialized
  serializedSize := by
    rw [content_withInfo h]
    exact hm.serializedSize

/-- The text of the bytes, whichever way they are kept. -/
theorem getInfo_eq (rt : Runtime U) (m : Response U) :
    (m.getInfo rt).1 = rt.toStringUtf8 m.info.bytes ∧
      ∃ info, (m.getInfo rt).2 = { m with info := info } ∧ info.bytes = m.info.bytes := by
  unfold getInfo
  cases hinfo : m.info with
  | string s => exact ⟨(rt.toStringUtf8_copyFromUtf8 s).symm, m.info, rfl, by rw [hinfo]⟩
  | byteString bs =>
      simp only
      split
      · rename_i hvalid
        exact ⟨rfl, _, rfl, (rt.copyFromUtf8_toStringUtf8_iff bs).mpr hvalid⟩
      · exact ⟨rfl, m.info, rfl, by rw [hinfo]⟩

theorem getInfoBytes_eq (m : Response U) :
    m.getInfoBytes.1 = m.info.bytes ∧
      ∃ info, m.getInfoBytes.2 = { m with info := info } ∧ info.bytes = m.info.bytes := by
  unfold getInfoBytes
  cases hinfo : m.info with
  | string s => exact ⟨rfl, _, rfl, rfl⟩
  | byteString bs => exact ⟨rfl, m.info, rfl, by rw [hinfo]⟩

/-- Remembered, or not set, or set: `id` is the only required field. -/
theorem isInitialized_eq (hm : m.Sound rt) :
    m.isInitialized.1 = m.hasId ∧
      m.isInitialized.2.content = m.content ∧ m.isInitialized.2.Sound rt := by
  unfold isInitialized
  split
  · rename_i hmemo
    have hright := hm.isInitialized.resolve_left hmemo
    refine ⟨?_, rfl, hm⟩
    show (m.memoizedIsInitialized == 1) = m.hasId
    rw [hright]
    cases m.hasId <;> rfl
  · split
    · rename_i hno
      have hfalse : m.hasId = false := by simpa using hno
      refine ⟨hfalse.symm, rfl, { hm with isInitialized := .inr ?_ }⟩
      show (0 : Int8) = if m.hasId then 1 else 0
      rw [hfalse]
      rfl
    · rename_i hyes
      have htrue : m.hasId = true := by simpa using hyes
      refine ⟨htrue.symm, rfl, { hm with isInitialized := .inr ?_ }⟩
      show (1 : Int8) = if m.hasId then 1 else 0
      rw [htrue]
      rfl

/-- The fields that are set, in the order of their numbers. -/
theorem write_content (rt : Runtime U) (m : Response U) :
    m.content.write rt =
      (if m.hasId then writeInt32 1 m.id else []) ++
        (if m.hasResult then writeInt32 2 m.result else []) ++
          (if m.hasInfo then writeBytes 3 m.info.bytes else []) ++
            (rt.asFields m.unknownFields).write := by
  rw [Content.write_eq, List.append_assoc, List.append_assoc]
  unfold content
  cases m.hasId <;> cases m.hasResult <;> cases m.hasInfo <;> rfl

/-- The sizes are added modulo 2^32, and so is the length of what is written:
`Int32.ofNat` carries the sum over. -/
theorem size_content (rt : Runtime U) (m : Response U) :
    m.content.size rt =
      (if m.hasId then computeInt32Size 1 m.id else 0) +
        (if m.hasResult then computeInt32Size 2 m.result else 0) +
          (if m.hasInfo then computeBytesSize 3 m.info.bytes else 0) +
            Int32.ofNat (rt.asFields m.unknownFields).write.length := by
  unfold Content.size
  rw [write_content, List.length_append, List.length_append, List.length_append,
    Int32.ofNat_add, Int32.ofNat_add, Int32.ofNat_add]
  cases m.hasId <;> cases m.hasResult <;> cases m.hasInfo <;> rfl

/-- `info` becomes bytes on the way, if it is set. The memo is then that of the
message after, whose content is the same. -/
theorem getSerializedSize_eq (hm : m.Sound rt) :
    (m.getSerializedSize rt).1 = m.content.size rt ∧
      (m.getSerializedSize rt).2.content = m.content ∧ (m.getSerializedSize rt).2.Sound rt := by
  obtain ⟨hbytes, info, hafter, hinfo⟩ := m.getInfoBytes_eq
  unfold getSerializedSize
  split
  · rename_i hmemo
    exact ⟨hm.serializedSize.resolve_left hmemo, rfl, hm⟩
  · rw [hbytes, hafter]
    have hsize := size_content rt m
    have hsound := hm.withInfo hinfo
    cases hset : m.hasInfo with
    | false =>
        rw [hset] at hsize
        refine ⟨?_, rfl, { hm with serializedSize := .inr ?_ }⟩
        · rw [hsize]
          cases m.hasId <;> cases m.hasResult <;> simp
        · show _ = m.content.size rt
          rw [hsize]
          cases m.hasId <;> cases m.hasResult <;> simp
    | true =>
        rw [hset] at hsize
        refine ⟨?_, content_withInfo hinfo, { hsound with serializedSize := .inr ?_ }⟩
        · rw [hsize]
          cases m.hasId <;> cases m.hasResult <;> simp
        · show _ = ({ m with info := info } : Response U).content.size rt
          rw [content_withInfo hinfo, hsize]
          cases m.hasId <;> cases m.hasResult <;> simp

/-- `writeTo` asks for the size first, for the memo only. -/
theorem writeTo_eq (hm : m.Sound rt) :
    (m.writeTo rt).1 = m.content.write rt ∧
      (m.writeTo rt).2.content = m.content ∧ (m.writeTo rt).2.Sound rt := by
  obtain ⟨-, hcontent, hsound⟩ := getSerializedSize_eq hm
  unfold writeTo
  generalize (m.getSerializedSize rt).2 = m' at hcontent hsound ⊢
  obtain ⟨hbytes, info, hafter, hinfo⟩ := m'.getInfoBytes_eq
  rw [← hcontent, write_content]
  dsimp only
  rw [hbytes, hafter]
  cases hset : m'.hasInfo with
  | false =>
      refine ⟨?_, rfl, hsound⟩
      cases m'.hasId <;> cases m'.hasResult <;> simp
  | true =>
      refine ⟨?_, content_withInfo hinfo, hsound.withInfo hinfo⟩
      cases m'.hasId <;> cases m'.hasResult <;> simp

/-- The array has the size that was computed. The writer fails at its end when
the message is longer, and `checkNoSpaceLeft` fails when it is shorter. -/
theorem toByteArray_eq (hm : m.Sound rt) :
    (m.toByteArray rt).1 = m.content.toByteArray rt ∧
      (m.toByteArray rt).2.content = m.content ∧ (m.toByteArray rt).2.Sound rt := by
  have hget := getSerializedSize_eq hm
  unfold toByteArray Content.toByteArray
  cases hpair : m.getSerializedSize rt with
  | mk size m' =>
      rw [hpair] at hget
      obtain ⟨rfl, hcontent, hsound⟩ := hget
      have hwrite := writeTo_eq hsound
      dsimp only
      split
      · exact ⟨rfl, hcontent, hsound⟩
      · rename_i hpos
        cases hpair' : m'.writeTo rt with
        | mk output m'' =>
            rw [hpair'] at hwrite
            obtain ⟨rfl, hcontent', hsound'⟩ := hwrite
            have hcontent'' := hcontent'.trans hcontent
            dsimp only
            rw [hcontent]
            by_cases hlt : (m.content.write rt).length < 2 ^ 31
            · -- the size is the length, so neither failure comes about
              rw [if_pos hlt, if_neg, if_neg]
              · exact ⟨rfl, hcontent'', hsound'⟩
              · rw [Content.size, Int32.toInt_ofNat_of_lt hlt]
                omega
              · rw [Content.size, Int32.toInt_ofNat_of_lt hlt]
                omega
            · -- too long to be told apart by its size
              have hle := (m.content.size rt).toInt_lt
              rw [if_neg hlt, if_pos (by omega)]
              exact ⟨rfl, hcontent'', hsound'⟩

end Response

/-- What can be asked of a message. -/
inductive Accessor where
  | hasId
  | hasResult
  | hasInfo
  | getId
  | getResult
  | getInfo
  | isInitialized
  | getSerializedSize
  | writeTo
  | toByteArray
  deriving DecidableEq, Repr

inductive Answer where
  | boolean (b : Bool)
  | int (n : Int32)
  | string (s : String)
  | output (bytes : List UInt8)
  | array (result : Except Thrown (List UInt8))

namespace Accessor

def run (rt : Runtime U) (m : Response U) : Accessor → Answer × Response U
  | .hasId => (.boolean m.hasId, m)
  | .hasResult => (.boolean m.hasResult, m)
  | .hasInfo => (.boolean m.hasInfo, m)
  | .getId => (.int m.getId, m)
  | .getResult => (.int m.getResult, m)
  | .getInfo => (.string (m.getInfo rt).1, (m.getInfo rt).2)
  | .isInitialized => (.boolean m.isInitialized.1, m.isInitialized.2)
  | .getSerializedSize => (.int (m.getSerializedSize rt).1, (m.getSerializedSize rt).2)
  | .writeTo => (.output (m.writeTo rt).1, (m.writeTo rt).2)
  | .toByteArray => (.array (m.toByteArray rt).1, (m.toByteArray rt).2)

def runAll (rt : Runtime U) : Response U → List Accessor → List Answer × Response U
  | m, [] => ([], m)
  | m, a :: accessors =>
      let (answer, m) := a.run rt m
      let (answers, m) := runAll rt m accessors
      (answer :: answers, m)

/-- The answer by what the message is. -/
def answer (rt : Runtime U) (c : Content U) : Accessor → Answer
  | .hasId => .boolean c.id.isSome
  | .hasResult => .boolean c.result.isSome
  | .hasInfo => .boolean c.info.isSome
  | .getId => .int (c.id.getD 0)
  | .getResult => .int (c.result.getD 0)
  | .getInfo => .string (rt.toStringUtf8 (c.info.getD []))
  | .isInitialized => .boolean c.id.isSome
  | .getSerializedSize => .int (c.size rt)
  | .writeTo => .output (c.write rt)
  | .toByteArray => .array (c.toByteArray rt)

variable {rt : Runtime U} {m : Response U}

/-- One lemma of the section before for each accessor; `getId` and `getResult`
need the defaults, `getInfo` the default of its bytes. -/
theorem run_eq (hm : m.Sound rt) (a : Accessor) :
    (a.run rt m).1 = a.answer rt m.content ∧ (a.run rt m).2.content = m.content ∧
      (a.run rt m).2.Sound rt := by
  have hid : m.hasId = m.content.id.isSome := by
    unfold Response.content
    cases m.hasId <;> rfl
  have hresult : m.hasResult = m.content.result.isSome := by
    unfold Response.content
    cases m.hasResult <;> rfl
  have hinfo : m.hasInfo = m.content.info.isSome := by
    unfold Response.content
    cases m.hasInfo <;> rfl
  cases a with
  | hasId => exact ⟨congrArg Answer.boolean hid, rfl, hm⟩
  | hasResult => exact ⟨congrArg Answer.boolean hresult, rfl, hm⟩
  | hasInfo => exact ⟨congrArg Answer.boolean hinfo, rfl, hm⟩
  | getId =>
      refine ⟨congrArg Answer.int ?_, rfl, hm⟩
      show m.id = (if m.hasId then some m.id else none).getD 0
      cases hset : m.hasId with
      | false => exact hm.defaultId hset
      | true => rfl
  | getResult =>
      refine ⟨congrArg Answer.int ?_, rfl, hm⟩
      show m.result = (if m.hasResult then some m.result else none).getD 0
      cases hset : m.hasResult with
      | false => exact hm.defaultResult hset
      | true => rfl
  | getInfo =>
      obtain ⟨htext, info, hafter, hbytes⟩ := m.getInfo_eq rt
      refine ⟨congrArg Answer.string (htext.trans (congrArg rt.toStringUtf8 ?_)), ?_, ?_⟩
      · show m.info.bytes = (if m.hasInfo then some m.info.bytes else none).getD []
        cases hset : m.hasInfo with
        | false => exact hm.defaultInfo hset
        | true => rfl
      · show (m.getInfo rt).2.content = m.content
        rw [hafter]
        exact Response.content_withInfo hbytes
      · show (m.getInfo rt).2.Sound rt
        rw [hafter]
        exact hm.withInfo hbytes
  | isInitialized =>
      obtain ⟨heq, hafter⟩ := Response.isInitialized_eq hm
      exact ⟨congrArg Answer.boolean (heq.trans hid), hafter⟩
  | getSerializedSize =>
      obtain ⟨heq, hafter⟩ := Response.getSerializedSize_eq hm
      exact ⟨congrArg Answer.int heq, hafter⟩
  | writeTo =>
      obtain ⟨heq, hafter⟩ := Response.writeTo_eq hm
      exact ⟨congrArg Answer.output heq, hafter⟩
  | toByteArray =>
      obtain ⟨heq, hafter⟩ := Response.toByteArray_eq hm
      exact ⟨congrArg Answer.array heq, hafter⟩

/-- What is remembered never shows: however often and in whatever order a
message is asked, it answers by what it was at first. -/
theorem runAll_eq (hm : m.Sound rt) (accessors : List Accessor) :
    (runAll rt m accessors).1 = accessors.map (answer rt m.content) ∧
      (runAll rt m accessors).2.content = m.content ∧ (runAll rt m accessors).2.Sound rt := by
  induction accessors generalizing m with
  | nil => exact ⟨rfl, rfl, hm⟩
  | cons a accessors ih =>
      obtain ⟨hanswer, hcontent, hsound⟩ := run_eq hm a
      obtain ⟨hanswers, hcontent', hsound'⟩ := ih hsound
      refine ⟨?_, hcontent'.trans hcontent, hsound'⟩
      show (a.run rt m).1 :: (runAll rt (a.run rt m).2 accessors).1 = _
      rw [hanswer, hanswers, hcontent, List.map_cons]

end Accessor

end SpringDome.Protobuf
