/-
SpringDome.Protobuf.UnknownFieldSetWire — sets written and read back.

`SerializeUnknownFields` puts the bytes of `Lib.WireFormat`, in any buffers;
`SerializeUnknownFieldsToArray` puts the same bytes in an array of the size
that `ComputeUnknownFieldsSize` tells. What is read back from them, in any
buffers again, is the set, unless its groups nest too deep.
-/
import SpringDome.Protobuf.UnknownFieldSetTheorems
import SpringDome.Protobuf.CodedOutputTheorems

namespace SpringDome.Protobuf

open SpringDome.Lib.WireFormat (Payload Fields ReadsTo ValidNumber)

namespace WireFormat

open WireFormatLite CodedOutputStream

/-! ## 1. Writing -/

theorem toNat_ofNat_length {value : List UInt8} (h : value.length < 2 ^ 31) :
    (UInt32.ofNat value.length).toNat = value.length := by
  rw [UInt32.toNat_ofNat']
  omega

theorem writeTag_puts {number wireType : Nat} (hnumber : ValidNumber number) (hwire : wireType < 8)
    (s : CodedOutputStream) :
    Puts s (Lib.WireFormat.varint (Lib.WireFormat.makeTag number wireType))
      (s.writeVarint32 (makeTag number wireType)) := by
  rw [← toNat_makeTag hnumber.2 hwire]
  exact writeVarint32_puts s _

theorem serializePayload_puts {payload : Payload} (h : payload.WellFormed)
    (s : CodedOutputStream) : Puts s payload.write (serializePayload payload s) := by
  cases payload with
  | varint value => exact writeVarint64_puts s value
  | fixed64 value => exact writeLittleEndian64_puts s value
  | fixed32 value => exact writeLittleEndian32_puts s value
  | lengthDelimited value =>
      have hlength := writeVarint32_puts s (UInt32.ofNat value.length)
      rw [toNat_ofNat_length h] at hlength
      exact hlength.append (writeRaw_puts _ value)

theorem serializeUnknownFields_puts {fields : Fields} (h : fields.WellFormed)
    (s : CodedOutputStream) : Puts s fields.write (serializeUnknownFields fields s) := by
  induction fields generalizing s with
  | nil => exact .nil s
  | leaf number payload rest ih =>
      have htag := writeTag_puts h.1 payload.wireType_lt s
      exact (htag.append (serializePayload_puts h.2.1 _)).append (ih h.2.2 _)
  | group number inside rest ihinside ihrest =>
      have hstart := writeTag_puts h.1 (show 3 < 8 by decide) s
      have hinside := hstart.append (ihinside h.2.1 _)
      exact (hinside.append (writeTag_puts h.1 (show 4 < 8 by decide) _)).append (ihrest h.2.2 _)

theorem tagSize_eq {number wireType : Nat} (hnumber : ValidNumber number) (hwire : wireType < 8) :
    varintSize32 (makeTag number wireType) =
      (Lib.WireFormat.varint (Lib.WireFormat.makeTag number wireType)).length := by
  rw [varintSize32_eq, toNat_makeTag hnumber.2 hwire]

theorem payloadSize_eq {payload : Payload} (h : payload.WellFormed) :
    payloadSize payload = payload.write.length := by
  cases payload with
  | varint value => exact varintSize64_eq value
  | fixed64 value => exact (Lib.WireFormat.length_littleEndian 8 _).symm
  | fixed32 value => exact (Lib.WireFormat.length_littleEndian 4 _).symm
  | lengthDelimited value =>
      rw [payloadSize, varintSize32_eq, toNat_ofNat_length h, Payload.write, List.length_append]

theorem computeUnknownFieldsSize_eq {fields : Fields} (h : fields.WellFormed) :
    computeUnknownFieldsSize fields = fields.write.length := by
  induction fields with
  | nil => rfl
  | leaf number payload rest ih =>
      rw [computeUnknownFieldsSize, Fields.write, tagSize_eq h.1 payload.wireType_lt,
        payloadSize_eq h.2.1, ih h.2.2, List.length_append, List.length_append]
  | group number inside rest ihinside ihrest =>
      rw [computeUnknownFieldsSize, Fields.write, tagSize_eq h.1 (by decide),
        tagSize_eq h.1 (by decide), ihinside h.2.1, ihrest h.2.2, List.length_append,
        List.length_append, List.length_append]

end WireFormat

/-! ## 2. Reading back -/

namespace UnknownFieldSet

theorem read_written {fields : Fields} (h : fields.WellFormed) {depth : Nat}
    (hdepth : fields.depth ≤ depth) : ReadsTo depth fields.write fields 0 [] := by
  have hread := Lib.WireFormat.readsTo_write h hdepth (.stop depth)
  rw [List.append_nil, Fields.append_nil] at hread
  exact hread

/-- What was written is read back as it was when its groups do not nest too
deep, and else it is refused. -/
theorem parse_written {fields : Fields} (h : fields.WellFormed)
    {input : List (List UInt8)} (hinput : ∀ data ∈ input, data.length ≤ intMax)
    (hbytes : input.flatten = fields.write) (hsize : fields.write.length ≤ intMax) :
    parseFromZeroCopyStream input = if fields.depth ≤ 100 then .done fields else .failed := by
  have hspec := parseFromZeroCopyStream_spec hinput
  rw [hbytes, List.take_of_length_le hsize] at hspec
  by_cases hdepth : fields.depth ≤ 100
  · rw [if_pos hdepth]
    have hread := read_written h hdepth
    rcases hspec with ⟨fields', hreads, hresult⟩ | ⟨hnone, -⟩
    · rw [hresult, (hread.unique hreads).1]
    · exact absurd hread (hnone fields)
  · rw [if_neg hdepth]
    rcases hspec with ⟨fields', hreads, -⟩ | ⟨-, hresult⟩
    · have hdeep := read_written h (Nat.le_refl _)
      obtain ⟨rfl, -⟩ := hdeep.unique (hreads.of_depth (Nat.le_trans hreads.depth_le (by omega)))
      exact absurd hreads.depth_le hdepth
    · exact hresult

/-- Through any buffers on the way out, and any others on the way in. -/
theorem parse_serialize {fields : Fields} (h : fields.WellFormed) {output : List Nat}
    (hroom : WireFormat.computeUnknownFieldsSize fields ≤ output.sum)
    (hsize : WireFormat.computeUnknownFieldsSize fields ≤ intMax) {input : List (List UInt8)}
    (hinput : ∀ data ∈ input, data.length ≤ intMax)
    (hbytes : input.flatten =
      (WireFormat.serializeUnknownFields fields (.ofBuffers output)).written) :
    (WireFormat.serializeUnknownFields fields (.ofBuffers output)).hadError = false ∧
      parseFromZeroCopyStream input = if fields.depth ≤ 100 then .done fields else .failed := by
  obtain ⟨hwritten, herror, hsum⟩ := CodedOutputStream.ofBuffers_spec output
  have hputs := WireFormat.serializeUnknownFields_puts h (.ofBuffers output)
  rw [WireFormat.computeUnknownFieldsSize_eq h] at hroom hsize
  have hall : (WireFormat.serializeUnknownFields fields (.ofBuffers output)).written =
      fields.write := by
    rw [hputs.written, hwritten, hsum, List.nil_append, List.take_of_length_le hroom]
  rw [hall] at hbytes
  refine ⟨?_, parse_written h hinput hbytes hsize⟩
  rw [hputs.hadError, herror, hsum, decide_eq_false (by omega)]
  rfl

theorem parse_serialize_150 :
    (WireFormat.serializeUnknownFields (.leaf 1 (.varint 150) .nil)
      (.ofBuffers [2, 4])).hadError = false ∧
      parseFromZeroCopyStream [[8], [150, 1]] =
        if (Fields.leaf 1 (.varint 150) .nil).depth ≤ 100 then
          .done (.leaf 1 (.varint 150) .nil)
        else .failed := by
  have hwell : (Fields.leaf 1 (.varint 150) .nil).WellFormed :=
    ⟨⟨by decide, by decide⟩, trivial, trivial⟩
  refine parse_serialize hwell (by decide) (by decide) (by decide) ?_
  rw [(WireFormat.serializeUnknownFields_puts hwell _).written]
  decide

end UnknownFieldSet

end SpringDome.Protobuf
