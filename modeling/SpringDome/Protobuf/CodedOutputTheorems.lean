/-
SpringDome.Protobuf.CodedOutputTheorems — a coded output stream puts bytes one
after another.

`Puts` says what a call does that writes `bytes`: as many are written as the
buffers have room for, and an error is had if that is not all. Calls compose
(`Puts.append`), so where the buffers end plays no part, and no fast path
writes behind one.

How the proof goes: `put` and `refresh` are the only steps there are. `put`
puts what fits the buffer, and a refresh of a full buffer puts nothing more or
ends in an error (`refresh_puts`); the loop of `WriteRaw` is an induction on the
buffers that are left. Every number is then a `WriteRaw` of its bytes, by the
fast path or the slow one.

A buffer is asked for only when the one before is full and bytes are left. So
`total_bytes_` never goes beyond what was written before, the bytes of the call
and one buffer; that is the bound under which it stays an `int`.
-/
import SpringDome.Protobuf.CodedOutputStream

namespace SpringDome.Protobuf

open SpringDome.Lib.WireFormat

namespace CodedOutputStream

/-! ## 1. Room -/

/-- What the buffers have still to take. -/
def room (s : CodedOutputStream) : Nat := s.bufferSize + s.output.sum

/-- `total_bytes_` counts all of the last buffer. -/
def Counted (s : CodedOutputStream) : Prop := s.totalBytes = s.written.length + s.bufferSize

theorem Counted.byteCount {s : CodedOutputStream} (h : s.Counted) :
    s.byteCount = s.written.length := by
  unfold CodedOutputStream.byteCount
  unfold Counted at h
  omega

theorem ofBuffers_spec (output : List Nat) :
    (ofBuffers output).written = [] ∧ (ofBuffers output).hadError = false ∧
      (ofBuffers output).room = output.sum := by
  cases output with
  | nil => exact ⟨rfl, rfl, rfl⟩
  | cons size output => exact ⟨rfl, rfl, List.sum_cons.symm⟩

structure Puts (s : CodedOutputStream) (bytes : List UInt8) (s' : CodedOutputStream) : Prop where
  written : s'.written = s.written ++ bytes.take s.room
  room : s'.room = s.room - bytes.length
  hadError : s'.hadError = (s.hadError || decide (s.room < bytes.length))
  overrun : s'.overrun = s.overrun
  counted : s.Counted → s'.Counted
  output : s'.output <:+ s.output
  overflow : s.Counted → (∀ size ∈ s.output, s.written.length + bytes.length + size < 2 ^ 31) →
    s'.overflow = s.overflow

theorem Puts.nil (s : CodedOutputStream) : Puts s [] s where
  written := by rw [List.take_nil, List.append_nil]
  room := rfl
  hadError := by rw [List.length_nil, decide_eq_false (Nat.not_lt_zero _), Bool.or_false]
  overrun := rfl
  counted := id
  output := List.suffix_refl _
  overflow := fun _ _ => rfl

theorem Puts.length_written_le {s s' : CodedOutputStream} {bytes : List UInt8}
    (h : Puts s bytes s') : s'.written.length ≤ s.written.length + bytes.length := by
  rw [h.written, List.length_append, List.length_take]
  omega

/-- One call after another. -/
theorem Puts.append {s s' s'' : CodedOutputStream} {bytes more : List UInt8}
    (h : Puts s bytes s') (h' : Puts s' more s'') : Puts s (bytes ++ more) s'' where
  written := by rw [h'.written, h.written, h.room, List.append_assoc, List.take_append]
  room := by rw [h'.room, h.room, List.length_append, Nat.sub_add_eq]
  hadError := by
    rw [h'.hadError, h.hadError, h.room, List.length_append, Bool.or_assoc, ← Bool.decide_or]
    congr 1
    exact decide_eq_decide.mpr (by omega)
  overrun := h'.overrun.trans h.overrun
  counted := fun hcounted => h'.counted (h.counted hcounted)
  output := h'.output.trans h.output
  overflow := by
    intro hcounted hfits
    rw [List.length_append] at hfits
    have hlength := h.length_written_le
    rw [h'.overflow (h.counted hcounted) ?_, h.overflow hcounted ?_]
    · intro size hsize
      have hsum := hfits size hsize
      omega
    · intro size hsize
      have hsum := hfits size (h.output.subset hsize)
      omega

/-! ## 2. Raw bytes -/

theorem put_puts {s : CodedOutputStream} {bytes : List UInt8} (h : bytes.length ≤ s.bufferSize) :
    Puts s bytes (s.put bytes) where
  written := by
    unfold CodedOutputStream.room put
    rw [List.take_of_length_le (by omega)]
  room := by
    unfold CodedOutputStream.room put
    dsimp only
    omega
  hadError := by
    have hroom : ¬s.room < bytes.length := by
      unfold CodedOutputStream.room
      omega
    rw [decide_eq_false hroom, Bool.or_false]
    rfl
  overrun := by
    unfold put
    dsimp only
    rw [decide_eq_false (by omega), Bool.or_false]
  counted := by
    intro hcounted
    unfold Counted put at *
    dsimp only
    rw [List.length_append]
    omega
  output := List.suffix_refl _
  overflow := fun _ _ => rfl

/-- A full buffer, then the next one. -/
theorem refresh_puts {s s' : CodedOutputStream} {bytes : List UInt8} (h : Puts s bytes s')
    (hfull : s'.bufferSize = 0) :
    if s'.refresh.1 then Puts s bytes s'.refresh.2 ∧ s'.refresh.2.output.length < s'.output.length
    else ∀ more : List UInt8, more ≠ [] → Puts s (bytes ++ more) s'.refresh.2 := by
  unfold refresh
  cases houtput : s'.output with
  | nil =>
      intro more hmore
      have hroom : s'.room = 0 := by
        unfold CodedOutputStream.room
        rw [hfull, houtput]
        rfl
      have hpos := List.length_pos_iff.mpr hmore
      have hnone : Puts s' more { s' with bufferSize := 0, output := [], hadError := true } := by
        refine ⟨?_, ?_, ?_, rfl, ?_, ?_, fun _ _ => rfl⟩
        · rw [hroom, List.take_zero, List.append_nil]
        · rw [hroom, Nat.zero_sub]
          rfl
        · rw [hroom, decide_eq_true hpos, Bool.or_true]
        · intro hcounted
          unfold Counted at hcounted ⊢
          dsimp only
          omega
        · exact List.nil_suffix
      exact h.append hnone
  | cons size output =>
      have hsuffix := h.output
      rw [houtput] at hsuffix
      refine ⟨⟨h.written, ?_, h.hadError, h.overrun, ?_, ?_, ?_⟩, Nat.lt_succ_self _⟩
      · rw [← h.room]
        unfold CodedOutputStream.room
        rw [hfull, houtput, List.sum_cons, Nat.zero_add]
      · intro hcounted
        have hcounted' := h.counted hcounted
        unfold Counted at hcounted' ⊢
        dsimp only
        omega
      · exact (List.suffix_cons size output).trans hsuffix
      · intro hcounted hfits
        have hcounted' := h.counted hcounted
        have hlength := h.length_written_le
        have hsum := hfits size (hsuffix.subset List.mem_cons_self)
        unfold Counted at hcounted'
        show (s'.overflow || decide (2 ^ 31 ≤ s'.totalBytes + size)) = s.overflow
        rw [decide_eq_false (by omega), Bool.or_false]
        exact h.overflow hcounted hfits

theorem writeRawLoop_puts {fuel : Nat} {s : CodedOutputStream} (h : s.output.length < fuel)
    (data : List UInt8) : Puts s data (writeRawLoop fuel s data) := by
  induction fuel generalizing s data with
  | zero => omega
  | succ fuel ih =>
      rw [writeRawLoop]
      by_cases hlong : s.bufferSize < data.length
      · rw [if_pos hlong]
        have htaken : (data.take s.bufferSize).length = s.bufferSize := by
          rw [List.length_take]
          omega
        have hput := put_puts (Nat.le_of_eq htaken)
        have hfull : (s.put (data.take s.bufferSize)).bufferSize = 0 := by
          unfold put
          dsimp only
          omega
        have hnext := refresh_puts hput hfull
        have houtput : (s.put (data.take s.bufferSize)).output = s.output := rfl
        cases hrefresh : (s.put (data.take s.bufferSize)).refresh with
        | mk success s' =>
            rw [hrefresh, houtput] at hnext
            cases success with
            | false =>
                have hrest : data.drop s.bufferSize ≠ [] := by
                  rw [ne_eq, List.drop_eq_nil_iff]
                  omega
                have hall := hnext (data.drop s.bufferSize) hrest
                rw [List.take_append_drop] at hall
                exact hall
            | true =>
                obtain ⟨hputs, hless⟩ := hnext
                have hfuel : s'.output.length < fuel := Nat.lt_of_lt_of_le hless (by omega)
                have hall := hputs.append (ih hfuel (data.drop s.bufferSize))
                rw [List.take_append_drop] at hall
                exact hall
      · rw [if_neg hlong]
        exact put_puts (by omega)

theorem writeRaw_puts (s : CodedOutputStream) (data : List UInt8) :
    Puts s data (s.writeRaw data) :=
  writeRawLoop_puts (Nat.lt_succ_self _) data

/-- The fast path and the slow one put the same bytes, as long as there are not
more of them than both have room for. -/
theorem writeFastOrSlow_puts {size : Nat} {bytes : List UInt8} (h : bytes.length ≤ size)
    (s : CodedOutputStream) : Puts s bytes (s.writeFastOrSlow size bytes) := by
  unfold writeFastOrSlow
  by_cases hfast : size ≤ s.bufferSize
  · rw [if_pos hfast]
    exact put_puts (by omega)
  · rw [if_neg hfast, decide_eq_false (by omega), Bool.or_false]
    exact writeRaw_puts s bytes

/-! ## 3. Numbers -/

theorem or_high (n : Nat) : UInt8.ofNat (n ||| 0x80) = UInt8.ofNat (n % 128 + 128) := by
  have hbits : ∀ v : BitVec 8, (v ||| 0x80#8).toNat = v.toNat % 128 + 128 := by decide
  have hlow : n % 2 ^ 8 ||| 0x80 = n % 2 ^ 8 % 128 + 128 := by
    have hbyte := hbits (BitVec.ofNat 8 n)
    rw [BitVec.toNat_or, BitVec.toNat_ofNat] at hbyte
    exact hbyte
  refine UInt8.toNat_inj.mp ?_
  rw [UInt8.toNat_ofNat', UInt8.toNat_ofNat', Nat.or_mod_two_pow]
  show n % 2 ^ 8 ||| 0x80 = _
  rw [hlow]
  omega

theorem writeVarintToArray_eq {n : Nat} (h : n < 2 ^ 64) : writeVarintToArray n = varint n := by
  refine Varint.fits_induction (motive := fun limit n => writeVarintToArray n = Varint.encode limit n)
    ?_ ?_ (fits_varint h)
  · intro limit n hsmall
    rw [writeVarintToArray, if_neg (by omega), Varint.encode_small hsmall]
  · intro limit n hlarge _ ih
    rw [writeVarintToArray, if_pos hlarge, Varint.encode_large hlarge, or_high,
      Nat.shiftRight_eq_div_pow]
    exact congrArg _ ih

theorem writeVarint32ToArray_eq (value : UInt32) :
    writeVarint32ToArray value = varint value.toNat :=
  writeVarintToArray_eq (Nat.lt_trans value.toNat_lt (by decide))

theorem writeVarint64ToArray_eq (value : UInt64) :
    writeVarint64ToArray value = varint value.toNat :=
  writeVarintToArray_eq value.toNat_lt

theorem toUInt8_shiftRight (value : UInt32) {k : UInt32} (hk : k.toNat < 32) :
    (value >>> k).toUInt8 = UInt8.ofNat (value.toNat / 2 ^ k.toNat) := by
  refine UInt8.toNat_inj.mp ?_
  rw [UInt32.toNat_toUInt8, UInt32.toNat_shiftRight, Nat.mod_eq_of_lt hk,
    Nat.shiftRight_eq_div_pow, UInt8.toNat_ofNat']

theorem writeLittleEndian32ToArray_eq (value : UInt32) :
    writeLittleEndian32ToArray value = littleEndian 4 value.toNat := by
  have hfirst : value.toUInt8 = UInt8.ofNat value.toNat := by
    refine UInt8.toNat_inj.mp ?_
    rw [UInt32.toNat_toUInt8, UInt8.toNat_ofNat']
  unfold writeLittleEndian32ToArray
  rw [hfirst, toUInt8_shiftRight value (by decide), toUInt8_shiftRight value (by decide),
    toUInt8_shiftRight value (by decide)]
  simp only [littleEndian, Nat.div_div_eq_div_mul]
  rfl

/-- A number byte for byte is its low half, then the high one. -/
theorem littleEndian_append (width more n : Nat) :
    littleEndian width (n % 256 ^ width) ++ littleEndian more (n / 256 ^ width) =
      littleEndian (width + more) n := by
  induction width generalizing n with
  | zero => simp [littleEndian]
  | succ width ih =>
      have hbyte : UInt8.ofNat (n % 256 ^ (width + 1)) = UInt8.ofNat n := by
        refine UInt8.toNat_inj.mp ?_
        rw [UInt8.toNat_ofNat', UInt8.toNat_ofNat', Nat.pow_succ]
        exact Nat.mod_mul_left_mod n (256 ^ width) 256
      have hdiv : n % 256 ^ (width + 1) / 256 = n / 256 % 256 ^ width := by
        rw [Nat.pow_succ, Nat.mul_comm, Nat.mod_mul_right_div_self]
      have hhigh : n / 256 ^ (width + 1) = n / 256 / 256 ^ width := by
        rw [Nat.pow_succ, Nat.mul_comm, Nat.div_div_eq_div_mul]
      rw [Nat.succ_add, littleEndian, littleEndian, hbyte, hdiv, hhigh, List.cons_append, ih]

theorem writeLittleEndian64ToArray_eq (value : UInt64) :
    writeLittleEndian64ToArray value = littleEndian 8 value.toNat := by
  have hlt := value.toNat_lt
  unfold writeLittleEndian64ToArray
  rw [writeLittleEndian32ToArray_eq, writeLittleEndian32ToArray_eq, UInt64.toNat_toUInt32,
    UInt64.toNat_toUInt32, UInt64.toNat_shiftRight, Nat.shiftRight_eq_div_pow]
  have hhigh : value.toNat / 2 ^ ((32 : UInt64).toNat % 64) % 2 ^ 32 = value.toNat / 256 ^ 4 := by
    show value.toNat / 2 ^ 32 % 2 ^ 32 = value.toNat / 256 ^ 4
    omega
  rw [hhigh]
  exact littleEndian_append 4 4 value.toNat

theorem writeVarint32_puts (s : CodedOutputStream) (value : UInt32) :
    Puts s (varint value.toNat) (s.writeVarint32 value) := by
  have hlt := value.toNat_lt
  unfold writeVarint32
  rw [writeVarint32ToArray_eq]
  refine writeFastOrSlow_puts ?_ s
  have hlog : Nat.log2 value.toNat < 32 := by
    by_cases hzero : value.toNat = 0
    · rw [hzero, Nat.log2_zero]
      decide
    · exact (Nat.log2_lt hzero).mpr hlt
  rw [length_varint (by omega)]
  omega

theorem writeVarint64_puts (s : CodedOutputStream) (value : UInt64) :
    Puts s (varint value.toNat) (s.writeVarint64 value) := by
  have hlt := value.toNat_lt
  unfold writeVarint64
  rw [writeVarint64ToArray_eq]
  refine writeFastOrSlow_puts ?_ s
  have hlog : Nat.log2 value.toNat < 64 := by
    by_cases hzero : value.toNat = 0
    · rw [hzero, Nat.log2_zero]
      decide
    · exact (Nat.log2_lt hzero).mpr hlt
  rw [length_varint hlt]
  omega

theorem writeLittleEndian32_puts (s : CodedOutputStream) (value : UInt32) :
    Puts s (littleEndian 4 value.toNat) (s.writeLittleEndian32 value) := by
  unfold writeLittleEndian32
  rw [writeLittleEndian32ToArray_eq]
  exact writeFastOrSlow_puts (Nat.le_of_eq (length_littleEndian 4 _)) s

theorem writeLittleEndian64_puts (s : CodedOutputStream) (value : UInt64) :
    Puts s (littleEndian 8 value.toNat) (s.writeLittleEndian64 value) := by
  unfold writeLittleEndian64
  rw [writeLittleEndian64ToArray_eq]
  exact writeFastOrSlow_puts (Nat.le_of_eq (length_littleEndian 8 _)) s

/-! ## 4. Sizes -/

theorem log2_or_one (n : Nat) : Nat.log2 (n ||| 1) = Nat.log2 n := by
  by_cases hzero : n = 0
  · rw [hzero]
    decide
  · have hlow := Nat.log2_self_le hzero
    have hhigh := Nat.lt_log2_self (n := n)
    have hle : n ≤ n ||| 1 := Nat.left_le_or
    refine (Nat.log2_eq_iff (by omega)).mpr ⟨Nat.le_trans hlow hle, ?_⟩
    exact Nat.or_lt_two_pow hhigh (Nat.one_lt_two_pow (by omega))

/-- The multiplication that stands for a division by seven. -/
theorem mul_nine_div {l : Nat} (h : l < 64) : (l * 9 + 73) / 64 = l / 7 + 1 := by
  omega

theorem varintSize64_eq (value : UInt64) : varintSize64 value = (varint value.toNat).length := by
  have hlog : Nat.log2 value.toNat < 64 := by
    by_cases hzero : value.toNat = 0
    · rw [hzero, Nat.log2_zero]
      decide
    · exact (Nat.log2_lt hzero).mpr value.toNat_lt
  unfold varintSize64
  rw [UInt64.toNat_or, show (1 : UInt64).toNat = 1 from rfl, log2_or_one, mul_nine_div hlog,
    length_varint value.toNat_lt]

theorem varintSize32_eq (value : UInt32) : varintSize32 value = (varint value.toNat).length := by
  have hlt := value.toNat_lt
  have hlog : Nat.log2 value.toNat < 32 := by
    by_cases hzero : value.toNat = 0
    · rw [hzero, Nat.log2_zero]
      decide
    · exact (Nat.log2_lt hzero).mpr hlt
  unfold varintSize32
  rw [UInt32.toNat_or, show (1 : UInt32).toNat = 1 from rfl, log2_or_one,
    mul_nine_div (by omega), length_varint (by omega)]

end CodedOutputStream

end SpringDome.Protobuf
