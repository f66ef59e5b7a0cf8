/-
SpringDome.Protobuf.WireAgreement — the Java message and the C++ sets read the
same bytes.

A C++ program that does not know `Response` keeps all its fields as unknown
ones, and writes them in its own way: numbers in as few bytes as they need, in
whatever buffers there are. A `Response` builder merges what it wrote as it
would have merged the first bytes.
-/
import SpringDome.Protobuf.UserProtoRuns
import SpringDome.Protobuf.UnknownFieldSetWire

namespace SpringDome.Protobuf

open SpringDome.Lib.WireFormat (Fields ReadsTo)

variable {U : Type} {rt : Runtime U}

namespace UnknownFieldSet

theorem readsTo_of_parse {input : List (List UInt8)} (hinput : ∀ data ∈ input, data.length ≤ intMax)
    (hsize : input.flatten.length ≤ intMax) {fields : Fields}
    (h : parseFromZeroCopyStream input = .done fields) :
    ReadsTo 100 input.flatten fields 0 [] := by
  have hread := (parseFromZeroCopyStream_eq_done_iff hinput fields).1.mp h
  rw [List.take_of_length_le hsize] at hread
  exact Lib.WireFormat.read_eq_ok_iff.mp hread

/-- As much room as the bytes took that a set was parsed from is enough to
write it. -/
theorem serialize_written {bytes : List UInt8} {fields : Fields} (h : ReadsTo 100 bytes fields 0 [])
    {output : List Nat} (hroom : bytes.length ≤ output.sum) :
    (WireFormat.serializeUnknownFields fields (.ofBuffers output)).written = fields.write ∧
      (WireFormat.serializeUnknownFields fields (.ofBuffers output)).hadError = false := by
  have hlength := h.length_write_le
  rw [if_pos rfl] at hlength
  have hputs := WireFormat.serializeUnknownFields_puts h.wellFormed (.ofBuffers output)
  obtain ⟨hwritten, herror, hsum⟩ := CodedOutputStream.ofBuffers_spec output
  refine ⟨?_, ?_⟩
  · rw [hputs.written, hwritten, hsum, List.nil_append, List.take_of_length_le (by omega)]
  · rw [hputs.hadError, herror, hsum, decide_eq_false (by omega)]
    rfl

end UnknownFieldSet

namespace Builder

open UnknownFieldSet

variable {b : Builder U}

/-- A builder merges what a set is parsed from, if its groups do not nest too
deep for it, and fields that are written again are merged as they were. -/
theorem mergeFromBytes_write (hb : b.Sound rt) {bytes : List UInt8} {fields : Fields}
    (h : ReadsTo 100 bytes fields 0 []) :
    (b.mergeFromBytes rt fields.write).toOption.map content =
      (b.mergeFromBytes rt bytes).toOption.map content := by
  by_cases hdepth : fields.depth ≤ recursionLimit
  · have hfirst := h.of_depth hdepth
    have hagain := read_written h.wellFormed hdepth
    obtain ⟨b₁, hmerge₁, -, hcontent₁⟩ := mergeFromBytes_of_readsTo hfirst hb
    obtain ⟨b₂, hmerge₂, -, hcontent₂⟩ := mergeFromBytes_of_readsTo hagain hb
    rw [hmerge₁, hmerge₂]
    show some b₂.content = some b₁.content
    rw [hcontent₁, hcontent₂]
  · have hfails : ∀ data, ReadsTo 100 data fields 0 [] →
        (b.mergeFromBytes rt data).toOption.map content = none := by
      intro data hdata
      cases hmerge : b.mergeFromBytes rt data with
      | error thrown => rfl
      | ok b' =>
          obtain ⟨fields', hfields'⟩ := readsTo_of_mergeFromBytes hmerge
          have hlow := hfields'.depth_le
          obtain ⟨rfl, -⟩ := hdata.unique
            (hfields'.of_depth (Nat.le_trans hlow (by decide)))
          exact absurd hlow hdepth
    rw [hfails _ (read_written h.wellFormed h.depth_le), hfails _ h]

/-- **What the C++ library passes on.** Bytes that it parses, from any buffers,
it can write again with no more room, in any buffers, and a builder then merges
or rejects them as it does the first ones. -/
theorem mergeFromBytes_serializeUnknownFields (hrt : rt.Lawful) (hb : Reached rt (.inl b))
    {input : List (List UInt8)} (hinput : ∀ data ∈ input, data.length ≤ intMax)
    (hsize : input.flatten.length ≤ intMax) {fields : Fields}
    (hparse : parseFromZeroCopyStream input = .done fields) {output : List Nat}
    (hroom : input.flatten.length ≤ output.sum) :
    (WireFormat.serializeUnknownFields fields (.ofBuffers output)).hadError = false ∧
      (b.mergeFromBytes rt
        (WireFormat.serializeUnknownFields fields (.ofBuffers output)).written).toOption.map
          content =
        (b.mergeFromBytes rt input.flatten).toOption.map content := by
  have hreads := readsTo_of_parse hinput hsize hparse
  obtain ⟨hwritten, herror⟩ := serialize_written hreads hroom
  rw [hwritten]
  exact ⟨herror, mergeFromBytes_write (hb.sound hrt) hreads⟩

/-- An id of 7 in two bytes where one will do. -/
theorem mergeFromBytes_serializeUnknownFields_padded :
    (WireFormat.serializeUnknownFields (.leaf 1 (.varint 7) .nil) (.ofBuffers [1, 2])).hadError =
        false ∧
      ((create (vectorRuntime fun _ => 1)).mergeFromBytes (vectorRuntime fun _ => 1)
        (WireFormat.serializeUnknownFields (.leaf 1 (.varint 7) .nil)
          (.ofBuffers [1, 2])).written).toOption.map content =
        ((create (vectorRuntime fun _ => 1)).mergeFromBytes (vectorRuntime fun _ => 1)
          [[8, 135], [0]].flatten).toOption.map content :=
  mergeFromBytes_serializeUnknownFields (vectorRuntime_lawful fun _ => 1) .newBuilder
    (by decide) (by decide) (by decide) (by decide)

end Builder

end SpringDome.Protobuf
