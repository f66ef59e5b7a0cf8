/-
SpringDome.Lib.Charset — two character sets and what they make of each other.

ISO-8859-1 writes one byte for each character, and `?` for a character it does
not have. UTF-8 is the encoding of the core library; a `Decoder` reads it from
the front, and what it does with bytes that are no character is its own: it
may stop, leave them out, or put U+FFFD for as many of them as it takes for
one mistake.

`decode_latin1_iff` says what is left of a text that is written in the one and
read in the other. No decoder makes more characters than there are bytes, so
the text can only come back if each byte is a character by itself, and that is
ASCII.
-/
import Mathlib.Data.List.Basic

namespace SpringDome.Lib.Charset

/-! ## 1. ISO-8859-1 -/

/-- The character, or what stands for it. -/
def asLatin1 (c : Char) : Char := if c.toNat < 256 then c else '?'

def encodeLatin1 (text : List Char) : List UInt8 :=
  text.map fun c => UInt8.ofNat (asLatin1 c).toNat

theorem asLatin1_lt (c : Char) : (asLatin1 c).toNat < 256 := by
  unfold asLatin1
  split
  next h => exact h
  next => decide

/-- Two texts give the same bytes when they look the same in ISO-8859-1. -/
theorem encodeLatin1_eq_iff {s t : List Char} :
    encodeLatin1 s = encodeLatin1 t ↔ s.map asLatin1 = t.map asLatin1 := by
  have hbyte : ∀ c d : Char, UInt8.ofNat (asLatin1 c).toNat = UInt8.ofNat (asLatin1 d).toNat ↔
      asLatin1 c = asLatin1 d := by
    intro c d
    constructor
    · intro h
      have hnat := congrArg UInt8.toNat h
      rw [UInt8.toNat_ofNat_of_lt' (asLatin1_lt c), UInt8.toNat_ofNat_of_lt' (asLatin1_lt d)] at hnat
      rw [← Char.ofNat_toNat (asLatin1 c), hnat, Char.ofNat_toNat]
    · intro h
      rw [h]
  unfold encodeLatin1
  induction s generalizing t with
  | nil => cases t <;> simp
  | cons c s ih =>
      cases t with
      | nil => simp
      | cons d t => simp only [List.map_cons, List.cons.injEq, hbyte, ih]

/-! ## 2. UTF-8 -/

def encodeUtf8 (text : List Char) : List UInt8 := text.flatMap String.utf8EncodeChar

/-- The character at the front of the bytes, if they start with one. -/
def firstChar (bytes : List UInt8) : Option Char := bytes.toByteArray.utf8DecodeChar? 0

theorem firstChar_eq_some_iff {bytes : List UInt8} {c : Char} :
    firstChar bytes = some c ↔ ∃ rest, bytes = String.utf8EncodeChar c ++ rest := by
  unfold firstChar
  constructor
  · intro h
    have hbytes := congrArg (fun b => b.data.toList) (ByteArray.eq_of_utf8DecodeChar?_eq_some h)
    simp only [ByteArray.data_append, Array.toList_append, List.toList_data_toByteArray] at hbytes
    exact ⟨_, hbytes⟩
  · rintro ⟨rest, rfl⟩
    rw [List.toByteArray_append]
    exact ByteArray.utf8DecodeChar?_utf8EncodeChar_append

/-- `java.nio.charset.CodingErrorAction`. -/
inductive CodingErrorAction where
  | ignore
  | replace
  | report
  deriving DecidableEq, Repr

/-- `malformedLength` says how many of the bytes are one mistake, the first of
them included. -/
structure Decoder where
  onMalformedInput : CodingErrorAction
  malformedLength : List UInt8 → Nat

/-- Decode what comes after the first `skip` bytes. -/
def Decoder.decodeFrom (d : Decoder) (skip : Nat) : List UInt8 → Option (List Char)
  | [] => some []
  | b :: bytes =>
      match skip with
      | skip + 1 => d.decodeFrom skip bytes
      | 0 =>
          match firstChar (b :: bytes) with
          | some c => (d.decodeFrom (c.utf8Size - 1) bytes).map (c :: ·)
          | none =>
              match d.onMalformedInput with
              | .ignore => d.decodeFrom (d.malformedLength (b :: bytes) - 1) bytes
              | .replace =>
                  (d.decodeFrom (d.malformedLength (b :: bytes) - 1) bytes).map ('\ufffd' :: ·)
              | .report => none

def Decoder.decode (d : Decoder) (bytes : List UInt8) : Option (List Char) := d.decodeFrom 0 bytes

theorem Decoder.decodeFrom_eq (d : Decoder) (skip : Nat) (bytes : List UInt8) :
    d.decodeFrom skip bytes = d.decode (bytes.drop skip) := by
  induction bytes generalizing skip with
  | nil => simp [decodeFrom, decode]
  | cons b bytes ih =>
      cases skip with
      | zero => rfl
      | succ skip => exact ih skip

/-- What was encoded is decoded, whatever the decoder does with mistakes. -/
theorem Decoder.decode_encodeUtf8 (d : Decoder) (text : List Char) :
    d.decode (encodeUtf8 text) = some text := by
  induction text with
  | nil => rfl
  | cons c text ih =>
      have hfirst : firstChar (String.utf8EncodeChar c ++ encodeUtf8 text) = some c :=
        firstChar_eq_some_iff.mpr ⟨_, rfl⟩
      have hlength : (String.utf8EncodeChar c).length = c.utf8Size := String.length_utf8EncodeChar c
      show d.decode (String.utf8EncodeChar c ++ encodeUtf8 text) = _
      cases hbytes : String.utf8EncodeChar c with
      | nil =>
          have hpos := c.utf8Size_pos
          rw [hbytes] at hlength
          simp at hlength
          omega
      | cons b bytes =>
          rw [hbytes] at hfirst hlength
          have hskip : c.utf8Size - 1 = bytes.length := by
            rw [← hlength]
            simp
          rw [List.cons_append] at hfirst ⊢
          unfold Decoder.decode
          rw [decodeFrom, hfirst]
          simp only
          rw [decodeFrom_eq, hskip, List.drop_left, ih]
          rfl

/-- No character takes less than a byte. -/
theorem Decoder.length_decodeFrom_le (d : Decoder) {skip : Nat} {bytes : List UInt8}
    {text : List Char} (h : d.decodeFrom skip bytes = some text) : text.length ≤ bytes.length := by
  induction bytes generalizing skip text with
  | nil =>
      obtain rfl := Option.some.inj h
      exact Nat.le_refl _
  | cons b bytes ih =>
      rw [List.length_cons]
      cases skip with
      | succ skip =>
          have hle := ih h
          omega
      | zero =>
          rw [decodeFrom] at h
          split at h
          · obtain ⟨text, htext, rfl⟩ := Option.map_eq_some_iff.mp h
            have hle := ih htext
            simp
            omega
          · split at h
            · have hle := ih h
              omega
            · obtain ⟨text, htext, rfl⟩ := Option.map_eq_some_iff.mp h
              have hle := ih htext
              simp
              omega
            · cases h

/-- A decoder that stops at mistakes reads what was encoded and nothing else. -/
theorem Decoder.decode_report_iff {d : Decoder} (h : d.onMalformedInput = .report)
    {bytes : List UInt8} {text : List Char} :
    d.decode bytes = some text ↔ encodeUtf8 text = bytes := by
  constructor
  · intro hdecode
    induction text generalizing bytes with
    | nil =>
        cases bytes with
        | nil => rfl
        | cons b bytes =>
            unfold decode decodeFrom at hdecode
            simp only [h] at hdecode
            split at hdecode
            · obtain ⟨_, _, hcons⟩ := Option.map_eq_some_iff.mp hdecode
              cases hcons
            · cases hdecode
    | cons c text ih =>
        cases bytes with
        | nil => cases hdecode
        | cons b bytes =>
            unfold decode decodeFrom at hdecode
            simp only [h] at hdecode
            split at hdecode
            · rename_i c' hfirst
              obtain ⟨rest, hrest, hcons⟩ := Option.map_eq_some_iff.mp hdecode
              obtain ⟨rfl, rfl⟩ := List.cons.inj hcons
              obtain ⟨after, hafter⟩ := firstChar_eq_some_iff.mp hfirst
              have hlength := String.length_utf8EncodeChar c'
              have hpos := c'.utf8Size_pos
              have htail : bytes.drop (c'.utf8Size - 1) = after := by
                have hdrop : (b :: bytes).drop c'.utf8Size = after := by
                  rw [hafter, ← hlength, List.drop_left]
                obtain ⟨size, hsize⟩ := Nat.exists_eq_succ_of_ne_zero (Nat.ne_of_gt hpos)
                rw [hsize, Nat.succ_eq_add_one, List.drop_succ_cons] at hdrop
                rw [hsize, Nat.succ_eq_add_one, Nat.add_sub_cancel, hdrop]
              rw [decodeFrom_eq, htail] at hrest
              show String.utf8EncodeChar c' ++ encodeUtf8 rest = _
              rw [ih hrest, hafter]
            · cases hdecode
  · intro hbytes
    rw [← hbytes]
    exact d.decode_encodeUtf8 text

/-! ## 3. Written in the one, read in the other -/

/-- All characters are below U+0080. -/
def IsAscii (text : List Char) : Prop := ∀ c ∈ text, c.toNat < 128

instance (text : List Char) : Decidable (IsAscii text) :=
  List.decidableBAll (fun c : Char => c.toNat < 128) text

theorem utf8Size_eq_one_iff {c : Char} : c.utf8Size = 1 ↔ c.toNat < 128 := by
  rw [Char.utf8Size_eq_one_iff, UInt32.le_iff_toNat_le]
  show c.toNat ≤ 127 ↔ c.toNat < 128
  omega

theorem utf8EncodeChar_ascii {c : Char} (h : c.toNat < 128) :
    String.utf8EncodeChar c = [UInt8.ofNat (asLatin1 c).toNat] := by
  have hsame : asLatin1 c = c := by
    unfold asLatin1
    rw [if_pos (by omega)]
  rw [String.utf8EncodeChar_eq_singleton (utf8Size_eq_one_iff.mpr h), hsame]
  rfl

/-- The two character sets are one on ASCII. -/
theorem encodeLatin1_ascii {text : List Char} (h : IsAscii text) :
    encodeLatin1 text = encodeUtf8 text := by
  unfold encodeLatin1 encodeUtf8
  induction text with
  | nil => rfl
  | cons c text ih =>
      rw [List.map_cons, List.flatMap_cons, utf8EncodeChar_ascii (h c List.mem_cons_self),
        ih fun d hd => h d (List.mem_cons_of_mem _ hd)]
      rfl

/-- If the front comes back, it is ASCII, and what comes after it is read by
itself. -/
theorem Decoder.decode_latin1_cons (d : Decoder) {c : Char} {text : List Char}
    (h : d.decode (encodeLatin1 (c :: text)) = some (c :: text)) :
    c.toNat < 128 ∧ d.decode (encodeLatin1 text) = some text := by
  have hlength : (encodeLatin1 text).length = text.length := by simp [encodeLatin1]
  have hbytes : encodeLatin1 (c :: text) =
      UInt8.ofNat (asLatin1 c).toNat :: encodeLatin1 text := rfl
  rw [hbytes] at h
  unfold decode decodeFrom at h
  simp only at h
  split at h
  · -- a character is read: it is `c`, and takes one byte, or too few are left
    rename_i c' hfirst
    obtain ⟨rest, hrest, hcons⟩ := Option.map_eq_some_iff.mp h
    obtain ⟨rfl, rfl⟩ := List.cons.inj hcons
    rw [decodeFrom_eq] at hrest
    have hle := d.length_decodeFrom_le hrest
    obtain ⟨after, hafter⟩ := firstChar_eq_some_iff.mp hfirst
    have hsize := congrArg List.length hafter
    have hpos := c'.utf8Size_pos
    rw [List.length_drop] at hle
    simp only [List.length_cons, List.length_append, String.length_utf8EncodeChar] at hsize
    have hone : c'.utf8Size = 1 := by omega
    rw [hone] at hrest
    exact ⟨utf8Size_eq_one_iff.mp hone, hrest⟩
  · -- a mistake is read: dropped, it leaves too few bytes; `c` is not its
    -- replacement, which is written as a question mark
    rename_i hfirst
    split at h
    · have hle := d.length_decodeFrom_le h
      simp only [List.length_cons] at hle
      omega
    · obtain ⟨rest, -, hcons⟩ := Option.map_eq_some_iff.mp h
      obtain ⟨rfl, -⟩ := List.cons.inj hcons
      have hquestion : firstChar (UInt8.ofNat (asLatin1 '\ufffd').toNat ::
          encodeLatin1 text) = some '?' :=
        firstChar_eq_some_iff.mpr ⟨encodeLatin1 text, rfl⟩
      rw [hquestion] at hfirst
      cases hfirst
    · cases h

/-- **What survives.** A text written in ISO-8859-1 and read in UTF-8 comes
back if and only if it is ASCII, whatever the decoder does with mistakes. -/
theorem Decoder.decode_latin1_iff (d : Decoder) (text : List Char) :
    d.decode (encodeLatin1 text) = some text ↔ IsAscii text := by
  constructor
  · intro h
    induction text with
    | nil => exact fun c hc => by cases hc
    | cons c text ih =>
        obtain ⟨hfront, hrest⟩ := d.decode_latin1_cons h
        intro d' hd'
        rcases List.mem_cons.mp hd' with rfl | hd'
        · exact hfront
        · exact ih hrest d' hd'
  · intro h
    rw [encodeLatin1_ascii h]
    exact d.decode_encodeUtf8 text

end SpringDome.Lib.Charset
