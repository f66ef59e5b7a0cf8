/-
SpringDome.Lib.WireFormat — tagged fields: their bytes, and a reader for them.

A message is a sequence of fields. A field has a number and is a number of
some kind, a string of bytes, or a group of fields in turn; its tag is its
number with the kind. `Fields.write` writes them, and `read` reads as many as
there are, up to the end of the bytes or the tag that ends a group. Groups may
nest as deep as the reader allows.

`ReadsTo` is the derivation that a reading has (`read_eq_ok_iff`), so results
about readings are inductions on it:

* `readsTo_write` — what was written is read back, whatever stands behind it;
* `ReadsTo.append` — two messages put together are read as both, in order;
* `ReadsTo.wellFormed`, `ReadsTo.depth_le` — what is read can be written;
* `ReadsTo.of_take` — cut short anywhere, a message is read as its first
  fields or not at all.

How the proofs go. A reader of one piece takes it from the front and does not
look behind it (`TakesFront`); all that is known about pieces is that, and what
the piece was written as. In a derivation the tags and payloads are readings of
pieces, so an induction on it appends to each of them, cuts each of them off, or
writes each of them again.

Two things about the end of a message make the rules what they are. A message
ends with the bytes or with the tag that ends a group, and in the first case
`last` is 0, which is no tag. A message that was ended by a tag does not depend
on what stands behind it (`append_behind`); one that was ended by the bytes goes
on when there are more (`append`). The level is counted down in a group and
given back behind it. A reading is good for every number of levels that its
groups need (`of_depth`).
-/
import SpringDome.Lib.Varint

namespace SpringDome.Lib.WireFormat

/-! ## 1. Fields -/

/-- What a field holds that is no group. -/
inductive Payload where
  | varint (value : UInt64)
  | fixed64 (value : UInt64)
  | lengthDelimited (value : List UInt8)
  | fixed32 (value : UInt32)
  deriving DecidableEq, Repr

inductive Fields where
  | nil
  | leaf (number : Nat) (payload : Payload) (rest : Fields)
  | group (number : Nat) (inside rest : Fields)
  deriving DecidableEq, Repr

/-- The kinds of field, as tags have them. -/
def Payload.wireType : Payload → Nat
  | .varint _ => 0
  | .fixed64 _ => 1
  | .lengthDelimited _ => 2
  | .fixed32 _ => 5

def makeTag (number wireType : Nat) : Nat := number * 8 + wireType

/-- Numbers that tags have room for. -/
def ValidNumber (number : Nat) : Prop := 0 < number ∧ number < 2 ^ 29

def Payload.WellFormed : Payload → Prop
  | .lengthDelimited value => value.length < 2 ^ 31
  | _ => True

namespace Fields

def append : Fields → Fields → Fields
  | .nil, gs => gs
  | .leaf number payload rest, gs => .leaf number payload (rest.append gs)
  | .group number inside rest, gs => .group number inside (rest.append gs)

def WellFormed : Fields → Prop
  | .nil => True
  | .leaf number payload rest => ValidNumber number ∧ payload.WellFormed ∧ rest.WellFormed
  | .group number inside rest => ValidNumber number ∧ inside.WellFormed ∧ rest.WellFormed

/-- How deep the groups nest. -/
def depth : Fields → Nat
  | .nil => 0
  | .leaf _ _ rest => rest.depth
  | .group _ inside rest => max (inside.depth + 1) rest.depth

/-- The tags of the fields, groups not entered. -/
def tags : Fields → List Nat
  | .nil => []
  | .leaf number payload rest => makeTag number payload.wireType :: rest.tags
  | .group number _ rest => makeTag number 3 :: rest.tags

/-- The fields with such tags, groups not entered. -/
def filter (p : Nat → Bool) : Fields → Fields
  | .nil => .nil
  | .leaf number payload rest =>
      if p (makeTag number payload.wireType) then .leaf number payload (rest.filter p)
      else rest.filter p
  | .group number inside rest =>
      if p (makeTag number 3) then .group number inside (rest.filter p) else rest.filter p

theorem append_nil (fs : Fields) : fs.append .nil = fs := by
  induction fs with
  | nil => rfl
  | leaf number payload rest ih => rw [append, ih]
  | group number inside rest _ ih => rw [append, ih]

theorem append_assoc (fs gs hs : Fields) :
    (fs.append gs).append hs = fs.append (gs.append hs) := by
  induction fs with
  | nil => rfl
  | leaf number payload rest ih => rw [append, append, append, ih]
  | group number inside rest _ ih => rw [append, append, append, ih]

theorem wellFormed_append {fs gs : Fields} :
    (fs.append gs).WellFormed ↔ fs.WellFormed ∧ gs.WellFormed := by
  induction fs with
  | nil => simp [append, WellFormed]
  | leaf number payload rest ih => simp [append, WellFormed, ih, and_assoc]
  | group number inside rest _ ih => simp [append, WellFormed, ih, and_assoc]

theorem depth_append (fs gs : Fields) : (fs.append gs).depth = max fs.depth gs.depth := by
  induction fs with
  | nil => simp [append, depth]
  | leaf number payload rest ih => rw [append, depth, depth, ih]
  | group number inside rest _ ih => rw [append, depth, depth, ih, Nat.max_assoc]

theorem tags_append (fs gs : Fields) : (fs.append gs).tags = fs.tags ++ gs.tags := by
  induction fs with
  | nil => rfl
  | leaf number payload rest ih => rw [append, tags, tags, ih, List.cons_append]
  | group number inside rest _ ih => rw [append, tags, tags, ih, List.cons_append]

theorem tags_filter (p : Nat → Bool) (fs : Fields) : (fs.filter p).tags = fs.tags.filter p := by
  induction fs with
  | nil => rfl
  | leaf number payload rest ih =>
      rw [filter, tags]
      split
      next h => rw [tags, ih, List.filter_cons_of_pos h]
      next h => rw [ih, List.filter_cons_of_neg h]
  | group number inside rest _ ih =>
      rw [filter, tags]
      split
      next h => rw [tags, ih, List.filter_cons_of_pos h]
      next h => rw [ih, List.filter_cons_of_neg h]

theorem WellFormed.filter {fs : Fields} (h : fs.WellFormed) (p : Nat → Bool) :
    (fs.filter p).WellFormed := by
  induction fs with
  | nil => exact h
  | leaf number payload rest ih =>
      rw [Fields.filter]
      split
      · exact ⟨h.1, h.2.1, ih h.2.2⟩
      · exact ih h.2.2
  | group number inside rest _ ih =>
      rw [Fields.filter]
      split
      · exact ⟨h.1, h.2.1, ih h.2.2⟩
      · exact ih h.2.2

theorem depth_filter_le (p : Nat → Bool) (fs : Fields) : (fs.filter p).depth ≤ fs.depth := by
  induction fs with
  | nil => exact Nat.le_refl _
  | leaf number payload rest ih =>
      rw [filter, depth]
      split
      · exact ih
      · exact ih
  | group number inside rest _ ih =>
      rw [filter, depth]
      split
      · rw [depth]
        omega
      · omega

end Fields

/-! ## 2. Bytes -/

/-- A number takes at most ten bytes. -/
def varint (n : Nat) : List UInt8 := Varint.encode 10 n

def littleEndian : Nat → Nat → List UInt8
  | 0, _ => []
  | width + 1, n => UInt8.ofNat n :: littleEndian width (n / 256)

def readLittleEndian : Nat → List UInt8 → Except Failure (Nat × List UInt8)
  | 0, bytes => .ok (0, bytes)
  | _ + 1, [] => .error .truncated
  | width + 1, b :: bytes =>
      (readLittleEndian width bytes).map fun (n, rest) => (b.toNat + 256 * n, rest)

def Payload.write : Payload → List UInt8
  | .varint value => WireFormat.varint value.toNat
  | .fixed64 value => littleEndian 8 value.toNat
  | .lengthDelimited value => WireFormat.varint value.length ++ value
  | .fixed32 value => littleEndian 4 value.toNat

def Fields.write : Fields → List UInt8
  | .nil => []
  | .leaf number payload rest =>
      varint (makeTag number payload.wireType) ++ payload.write ++ rest.write
  | .group number inside rest =>
      varint (makeTag number 3) ++ inside.write ++ varint (makeTag number 4) ++ rest.write

theorem Fields.write_append (fs gs : Fields) : (fs.append gs).write = fs.write ++ gs.write := by
  induction fs with
  | nil => rfl
  | leaf number payload rest ih => simp only [append, write, ih, List.append_assoc]
  | group number inside rest _ ih => simp only [append, write, ih, List.append_assoc]

/-- A tag, or 0 at the end. A tag has 32 bits, and no field has the number 0. -/
def readTag : List UInt8 → Except Failure (Nat × List UInt8)
  | [] => .ok (0, [])
  | b :: bytes =>
      match Varint.decode 10 (b :: bytes) with
      | .error failure => .error failure
      | .ok (n, rest) => if n % 2 ^ 32 < 8 then .error .invalidTag else .ok (n % 2 ^ 32, rest)

/-- A length is a signed number of 32 bits. -/
def readLengthDelimited (bytes : List UInt8) : Except Failure (List UInt8 × List UInt8) :=
  match Varint.decode 10 bytes with
  | .error failure => .error failure
  | .ok (n, rest) =>
      if 2 ^ 31 ≤ n % 2 ^ 32 then .error .negativeSize
      else if rest.length < n % 2 ^ 32 then .error .truncated
      else .ok (rest.take (n % 2 ^ 32), rest.drop (n % 2 ^ 32))

def Payload.read : Nat → List UInt8 → Except Failure (Payload × List UInt8)
  | 0, bytes => (Varint.decode 10 bytes).map fun (n, rest) => (.varint (UInt64.ofNat n), rest)
  | 1, bytes => (readLittleEndian 8 bytes).map fun (n, rest) => (.fixed64 (UInt64.ofNat n), rest)
  | 2, bytes => (readLengthDelimited bytes).map fun (value, rest) => (.lengthDelimited value, rest)
  | 5, bytes => (readLittleEndian 4 bytes).map fun (n, rest) => (.fixed32 (UInt32.ofNat n), rest)
  | _, _ => .error .invalidWireType

/-- Fields up to the end or to the tag that ends a group: what was read, that
tag or 0, and what is left. Every field takes a byte, so `fuel` need not be
more than there are bytes. -/
def readFuel : Nat → Nat → List UInt8 → Except Failure (Fields × Nat × List UInt8)
  | _, _, [] => .ok (.nil, 0, [])
  | 0, _, _ :: _ => .error .truncated
  | fuel + 1, depth, b :: bytes =>
      match readTag (b :: bytes) with
      | .error failure => .error failure
      | .ok (tag, bytes) =>
          if tag % 8 = 4 then .ok (.nil, tag, bytes)
          else if tag % 8 = 3 then
            match depth with
            | 0 => .error .recursionLimit
            | depth + 1 =>
                match readFuel fuel depth bytes with
                | .error failure => .error failure
                | .ok (inside, last, bytes) =>
                    if last = makeTag (tag / 8) 4 then
                      (readFuel fuel (depth + 1) bytes).map fun (fs, last, bytes) =>
                        (.group (tag / 8) inside fs, last, bytes)
                    else .error .invalidEndTag
          else
            match Payload.read (tag % 8) bytes with
            | .error failure => .error failure
            | .ok (payload, bytes) =>
                (readFuel fuel depth bytes).map fun (fs, last, bytes) =>
                  (.leaf (tag / 8) payload fs, last, bytes)

def read (depth : Nat) (bytes : List UInt8) : Except Failure (Fields × Nat × List UInt8) :=
  readFuel bytes.length depth bytes

/-! ## 3. Reading pieces

Tags are left out of `TakesFront`: at the end of the bytes there is the tag 0,
and what comes behind would change that. -/

/-- A reader that takes a piece from the front, whatever stands behind it. -/
structure TakesFront {α : Type} (reader : List UInt8 → Except Failure (α × List UInt8)) : Prop where
  append : ∀ {bytes : List UInt8} {a : α} {rest : List UInt8}, reader bytes = .ok (a, rest) →
    ∀ more, reader (bytes ++ more) = .ok (a, rest ++ more)
  front : ∀ {bytes : List UInt8} {a : α} {rest : List UInt8}, reader bytes = .ok (a, rest) →
    ∃ front, bytes = front ++ rest

theorem map_ok_iff {α β : Type} {x : Except Failure (α × List UInt8)} {f : α → β} {b : β}
    {rest : List UInt8} :
    x.map (fun (a, rest) => (f a, rest)) = .ok (b, rest) ↔ ∃ a, x = .ok (a, rest) ∧ f a = b := by
  cases x with
  | error failure => exact ⟨fun h => (by cases h), fun ⟨_, h, _⟩ => by cases h⟩
  | ok x =>
      obtain ⟨a, rest'⟩ := x
      show Except.ok (f a, rest') = .ok (b, rest) ↔ _
      constructor
      · intro h
        cases h
        exact ⟨a, rfl, rfl⟩
      · intro h
        obtain ⟨a', ha', rfl⟩ := h
        cases ha'
        rfl

theorem TakesFront.map {α β : Type} {reader : List UInt8 → Except Failure (α × List UInt8)}
    (h : TakesFront reader) (f : α → β) :
    TakesFront fun bytes => (reader bytes).map fun (a, rest) => (f a, rest) where
  append := by
    intro bytes b rest hread more
    obtain ⟨a, ha, hb⟩ := map_ok_iff.mp hread
    exact map_ok_iff.mpr ⟨a, h.append ha more, hb⟩
  front := by
    intro bytes b rest hread
    obtain ⟨a, ha, -⟩ := map_ok_iff.mp hread
    exact h.front ha

theorem takesFront_varint (limit : Nat) : TakesFront (Varint.decode limit) where
  append := Varint.decode_append
  front := fun h => by
    obtain ⟨front, hbytes, -⟩ := Varint.exists_of_decode h
    exact ⟨front, hbytes⟩

theorem takesFront_littleEndian (width : Nat) : TakesFront (readLittleEndian width) := by
  induction width with
  | zero =>
      refine ⟨?_, ?_⟩
      · intro bytes n rest h more
        cases h
        rfl
      · intro bytes n rest h
        cases h
        exact ⟨[], rfl⟩
  | succ width ih =>
      refine ⟨?_, ?_⟩
      · intro bytes n rest h more
        cases bytes with
        | nil => cases h
        | cons b bytes =>
            have h' := (ih.map fun m => b.toNat + 256 * m).append h more
            exact h'
      · intro bytes n rest h
        cases bytes with
        | nil => cases h
        | cons b bytes =>
            obtain ⟨front, rfl⟩ := (ih.map fun m => b.toNat + 256 * m).front h
            exact ⟨b :: front, rfl⟩

theorem takesFront_lengthDelimited : TakesFront readLengthDelimited where
  append := by
    intro bytes value rest h more
    unfold readLengthDelimited at h ⊢
    cases hlength : Varint.decode 10 bytes with
    | error failure => simp [hlength] at h
    | ok x =>
        obtain ⟨n, tail⟩ := x
        rw [Varint.decode_append hlength more]
        simp only [hlength] at h ⊢
        split at h
        · cases h
        · split at h
          · cases h
          · rename_i hsize hlong
            cases h
            rw [if_neg hsize, if_neg (by rw [List.length_append]; omega),
              List.take_append_of_le_length (by omega), List.drop_append_of_le_length (by omega)]
  front := by
    intro bytes value rest h
    unfold readLengthDelimited at h
    cases hlength : Varint.decode 10 bytes with
    | error failure => simp [hlength] at h
    | ok x =>
        obtain ⟨n, tail⟩ := x
        obtain ⟨front, rfl, -⟩ := Varint.exists_of_decode hlength
        simp only [hlength] at h
        split at h
        · cases h
        · split at h
          · cases h
          · cases h
            exact ⟨front ++ tail.take (n % 2 ^ 32), by rw [List.append_assoc, List.take_append_drop]⟩

theorem takesFront_payload (wireType : Nat) : TakesFront (Payload.read wireType) :=
  match wireType with
  | 0 => (takesFront_varint 10).map fun n => Payload.varint (UInt64.ofNat n)
  | 1 => (takesFront_littleEndian 8).map fun n => Payload.fixed64 (UInt64.ofNat n)
  | 2 => takesFront_lengthDelimited.map Payload.lengthDelimited
  | 5 => (takesFront_littleEndian 4).map fun n => Payload.fixed32 (UInt32.ofNat n)
  | 3 | 4 | _ + 6 => ⟨fun h => (by cases h), fun h => by cases h⟩

theorem readTag_of_error {bytes : List UInt8} {failure : Failure} (hne : bytes ≠ [])
    (h : Varint.decode 10 bytes = .error failure) : readTag bytes = .error failure := by
  obtain ⟨b, bytes, rfl⟩ := List.exists_cons_of_ne_nil hne
  rw [readTag, h]

theorem readTag_of_decode {bytes rest : List UInt8} {n : Nat} (hne : bytes ≠ [])
    (h : Varint.decode 10 bytes = .ok (n, rest)) :
    readTag bytes =
      if n % 2 ^ 32 < 8 then .error .invalidTag else .ok (n % 2 ^ 32, rest) := by
  obtain ⟨b, bytes, rfl⟩ := List.exists_cons_of_ne_nil hne
  rw [readTag, h]

/-- A tag takes a byte at least. -/
theorem readTag_front {bytes rest : List UInt8} {tag : Nat} (h : readTag bytes = .ok (tag, rest))
    (hne : bytes ≠ []) :
    (∀ more, readTag (bytes ++ more) = .ok (tag, rest ++ more)) ∧ rest.length < bytes.length ∧
      8 ≤ tag ∧ tag < 2 ^ 32 := by
  cases bytes with
  | nil => exact absurd rfl hne
  | cons b bytes =>
      unfold readTag at h
      cases hdecode : Varint.decode 10 (b :: bytes) with
      | error failure => simp [hdecode] at h
      | ok x =>
          obtain ⟨n, tail⟩ := x
          simp only [hdecode] at h
          split at h
          · cases h
          · rename_i hnumber
            cases h
            obtain ⟨front, hfront, hpos, -⟩ := Varint.exists_of_decode hdecode
            have hlength := congrArg List.length hfront
            rw [List.length_append] at hlength
            refine ⟨?_, by omega, by omega, by omega⟩
            intro more
            have hmore := Varint.decode_append hdecode more
            rw [List.cons_append] at hmore
            rw [List.cons_append, readTag, hmore]
            simp only [if_neg hnumber]

theorem readTag_suffix {bytes rest : List UInt8} {tag : Nat}
    (h : readTag bytes = .ok (tag, rest)) : ∃ front, bytes = front ++ rest := by
  cases bytes with
  | nil =>
      cases h
      exact ⟨[], rfl⟩
  | cons b bytes =>
      unfold readTag at h
      cases hdecode : Varint.decode 10 (b :: bytes) with
      | error failure => simp [hdecode] at h
      | ok x =>
          obtain ⟨n, tail⟩ := x
          obtain ⟨front, hfront, -⟩ := Varint.exists_of_decode hdecode
          simp only [hdecode] at h
          split at h
          · cases h
          · cases h
            exact ⟨front, hfront⟩

/-! ## 4. Writing pieces -/

theorem length_littleEndian (width n : Nat) : (littleEndian width n).length = width := by
  induction width generalizing n with
  | zero => rfl
  | succ width ih => rw [littleEndian, List.length_cons, ih]

theorem readLittleEndian_littleEndian (width n : Nat) (rest : List UInt8) :
    readLittleEndian width (littleEndian width n ++ rest) = .ok (n % 256 ^ width, rest) := by
  induction width generalizing n with
  | zero =>
      show Except.ok (0, rest) = _
      rw [Nat.pow_zero, Nat.mod_one]
  | succ width ih =>
      rw [littleEndian, List.cons_append, readLittleEndian, ih]
      show Except.ok ((UInt8.ofNat n).toNat + 256 * (n / 256 % 256 ^ width), rest) = _
      rw [UInt8.toNat_ofNat', Nat.pow_succ' (n := width), @Nat.mod_mul 256]

theorem fits_varint {n : Nat} (h : n < 2 ^ 64) : n < 128 ^ (9 + 1) :=
  Nat.lt_trans h (by decide)

theorem decode_varint {n : Nat} (h : n < 2 ^ 64) (rest : List UInt8) :
    Varint.decode 10 (varint n ++ rest) = .ok (n, rest) :=
  Varint.decode_encode (fits_varint h) rest

theorem length_varint {n : Nat} (h : n < 2 ^ 64) : (varint n).length = Nat.log2 n / 7 + 1 :=
  Varint.length_encode (fits_varint h)

/-- Read and written again, a number takes no more bytes, nor does a smaller
one. -/
theorem length_varint_le {m n : Nat} {bytes rest : List UInt8}
    (h : Varint.decode 10 bytes = .ok (m, rest)) (hle : n ≤ m) :
    (varint n).length + rest.length ≤ bytes.length := by
  obtain ⟨front, rfl, hpos, -, hlt⟩ := Varint.exists_of_decode h
  have hfront : (varint n).length ≤ front.length :=
    Varint.length_encode_le (Nat.lt_of_le_of_lt hle hlt) hpos
  rw [List.length_append]
  exact Nat.add_le_add_right hfront _

theorem length_of_readLittleEndian {width n : Nat} {bytes rest : List UInt8}
    (h : readLittleEndian width bytes = .ok (n, rest)) :
    width + rest.length = bytes.length := by
  induction width generalizing n bytes with
  | zero =>
      cases h
      exact Nat.zero_add _
  | succ width ih =>
      cases bytes with
      | nil => cases h
      | cons b bytes =>
          rw [readLittleEndian] at h
          obtain ⟨m, hm, -⟩ := (map_ok_iff (f := fun m => b.toNat + 256 * m)).mp h
          have hrest := ih hm
          rw [List.length_cons]
          omega

theorem makeTag_lt {number wireType : Nat} (hnumber : ValidNumber number) (h : wireType < 8) :
    makeTag number wireType < 2 ^ 32 := by
  have hlt := hnumber.2
  unfold makeTag
  omega

theorem makeTag_mod {number wireType : Nat} (h : wireType < 8) :
    makeTag number wireType % 8 = wireType := by
  unfold makeTag
  omega

theorem makeTag_div {number wireType : Nat} (h : wireType < 8) :
    makeTag number wireType / 8 = number := by
  unfold makeTag
  omega

theorem makeTag_div_mod (tag : Nat) : makeTag (tag / 8) (tag % 8) = tag := by
  unfold makeTag
  omega

theorem varint_ne_nil (n : Nat) : varint n ≠ [] := by
  unfold varint
  rw [Varint.encode]
  split
  · exact List.cons_ne_nil _ _
  · exact List.cons_ne_nil _ _

theorem readTag_varint {number wireType : Nat} (hnumber : ValidNumber number) (h : wireType < 8)
    (rest : List UInt8) :
    readTag (varint (makeTag number wireType) ++ rest) = .ok (makeTag number wireType, rest) := by
  have hlt := makeTag_lt hnumber h
  have hread := decode_varint (Nat.lt_trans hlt (by decide)) rest
  cases hbytes : varint (makeTag number wireType) ++ rest with
  | nil => exact absurd (List.append_eq_nil_iff.mp hbytes).1 (varint_ne_nil _)
  | cons b bytes =>
      rw [hbytes] at hread
      have hpos : 8 ≤ makeTag number wireType := by
        have hnonzero := hnumber.1
        unfold makeTag
        omega
      rw [readTag, hread]
      show (if makeTag number wireType % 2 ^ 32 < 8 then _ else _) = _
      rw [Nat.mod_eq_of_lt hlt, if_neg (by omega)]

theorem readLengthDelimited_write {value : List UInt8} (h : value.length < 2 ^ 31)
    (rest : List UInt8) :
    readLengthDelimited (varint value.length ++ value ++ rest) = .ok (value, rest) := by
  rw [readLengthDelimited, List.append_assoc, decode_varint (by omega)]
  have hmod : value.length % 2 ^ 32 = value.length := Nat.mod_eq_of_lt (by omega)
  simp only [hmod]
  rw [if_neg (by omega), if_neg (by rw [List.length_append]; omega), List.take_left,
    List.drop_left]

namespace Payload

theorem wireType_lt (payload : Payload) : payload.wireType < 8 := by
  cases payload <;> simp [wireType]

theorem wireType_ne_groups (payload : Payload) : payload.wireType ≠ 3 ∧ payload.wireType ≠ 4 := by
  cases payload <;> simp [wireType]

theorem read_write {payload : Payload} (h : payload.WellFormed) (rest : List UInt8) :
    read payload.wireType (payload.write ++ rest) = .ok (payload, rest) := by
  cases payload with
  | varint value =>
      refine (map_ok_iff (f := fun n => Payload.varint (UInt64.ofNat n))).mpr
        ⟨value.toNat, decode_varint value.toNat_lt rest, ?_⟩
      show Payload.varint (UInt64.ofNat value.toNat) = _
      rw [UInt64.ofNat_toNat]
  | fixed64 value =>
      refine (map_ok_iff (f := fun n => Payload.fixed64 (UInt64.ofNat n))).mpr
        ⟨_, readLittleEndian_littleEndian 8 value.toNat rest, ?_⟩
      have hmod : value.toNat % 256 ^ 8 = value.toNat := Nat.mod_eq_of_lt value.toNat_lt
      rw [hmod, UInt64.ofNat_toNat]
  | lengthDelimited value =>
      exact (map_ok_iff (f := Payload.lengthDelimited)).mpr
        ⟨value, readLengthDelimited_write h rest, rfl⟩
  | fixed32 value =>
      refine (map_ok_iff (f := fun n => Payload.fixed32 (UInt32.ofNat n))).mpr
        ⟨_, readLittleEndian_littleEndian 4 value.toNat rest, ?_⟩
      have hmod : value.toNat % 256 ^ 4 = value.toNat := Nat.mod_eq_of_lt value.toNat_lt
      rw [hmod, UInt32.ofNat_toNat]

theorem length_of_readLengthDelimited {bytes value rest : List UInt8}
    (h : readLengthDelimited bytes = .ok (value, rest)) : value.length < 2 ^ 31 := by
  unfold readLengthDelimited at h
  cases hlength : Varint.decode 10 bytes with
  | error failure => simp [hlength] at h
  | ok x =>
      simp only [hlength] at h
      split at h
      · cases h
      · split at h
        · cases h
        · cases h
          rw [List.length_take]
          omega

theorem length_lengthDelimited_le {bytes value rest : List UInt8}
    (h : readLengthDelimited bytes = .ok (value, rest)) :
    (write (.lengthDelimited value)).length + rest.length ≤ bytes.length := by
  unfold readLengthDelimited at h
  cases hlength : Varint.decode 10 bytes with
  | error failure => simp [hlength] at h
  | ok x =>
      obtain ⟨n, tail⟩ := x
      simp only [hlength] at h
      split at h
      · cases h
      · split at h
        · cases h
        · rename_i hsize hlong
          cases h
          have hvalue : (tail.take (n % 2 ^ 32)).length = n % 2 ^ 32 := by
            rw [List.length_take]
            omega
          have hle := length_varint_le hlength (Nat.mod_le n (2 ^ 32))
          rw [write, hvalue, List.length_append, hvalue, List.length_drop]
          omega

/-- A payload is of the kind that was asked for, and can be written. -/
theorem of_read {wireType : Nat} {bytes rest : List UInt8} {payload : Payload}
    (h : read wireType bytes = .ok (payload, rest)) :
    payload.wireType = wireType ∧ payload.WellFormed := by
  unfold read at h
  split at h
  · obtain ⟨_, _, rfl⟩ := (map_ok_iff (f := fun n => Payload.varint (UInt64.ofNat n))).mp h
    exact ⟨rfl, trivial⟩
  · obtain ⟨_, _, rfl⟩ := (map_ok_iff (f := fun n => Payload.fixed64 (UInt64.ofNat n))).mp h
    exact ⟨rfl, trivial⟩
  · obtain ⟨_, hvalue, rfl⟩ := (map_ok_iff (f := Payload.lengthDelimited)).mp h
    exact ⟨rfl, length_of_readLengthDelimited hvalue⟩
  · obtain ⟨_, _, rfl⟩ := (map_ok_iff (f := fun n => Payload.fixed32 (UInt32.ofNat n))).mp h
    exact ⟨rfl, trivial⟩
  · cases h

theorem length_write_le {wireType : Nat} {bytes rest : List UInt8} {payload : Payload}
    (h : read wireType bytes = .ok (payload, rest)) :
    payload.write.length + rest.length ≤ bytes.length := by
  unfold read at h
  split at h
  · obtain ⟨n, hread, rfl⟩ := (map_ok_iff (f := fun n => Payload.varint (UInt64.ofNat n))).mp h
    refine length_varint_le hread ?_
    rw [UInt64.toNat_ofNat']
    exact Nat.mod_le _ _
  · obtain ⟨n, hread, rfl⟩ := (map_ok_iff (f := fun n => Payload.fixed64 (UInt64.ofNat n))).mp h
    rw [write, length_littleEndian]
    exact Nat.le_of_eq (length_of_readLittleEndian hread)
  · obtain ⟨value, hread, rfl⟩ := (map_ok_iff (f := Payload.lengthDelimited)).mp h
    exact length_lengthDelimited_le hread
  · obtain ⟨n, hread, rfl⟩ := (map_ok_iff (f := fun n => Payload.fixed32 (UInt32.ofNat n))).mp h
    rw [write, length_littleEndian]
    exact Nat.le_of_eq (length_of_readLittleEndian hread)
  · cases h

end Payload

/-! ## 5. Readings as derivations -/

/-- `bytes` hold `fields` up to the tag `last`, with `rest` behind it. The groups
in them nest no deeper than the level says. -/
inductive ReadsTo : Nat → List UInt8 → Fields → Nat → List UInt8 → Prop where
  | stop (depth : Nat) : ReadsTo depth [] .nil 0 []
  | endGroup {depth number : Nat} {bytes rest : List UInt8}
      (tag : readTag bytes = .ok (makeTag number 4, rest)) :
      ReadsTo depth bytes .nil (makeTag number 4) rest
  | leaf {depth number last : Nat} {bytes afterTag behind rest : List UInt8} {payload : Payload}
      {fields : Fields}
      (tag : readTag bytes = .ok (makeTag number payload.wireType, afterTag))
      (value : Payload.read payload.wireType afterTag = .ok (payload, behind))
      (more : ReadsTo depth behind fields last rest) :
      ReadsTo depth bytes (.leaf number payload fields) last rest
  | group {depth number last : Nat} {bytes afterTag behind rest : List UInt8}
      {inside fields : Fields}
      (tag : readTag bytes = .ok (makeTag number 3, afterTag))
      (value : ReadsTo depth afterTag inside (makeTag number 4) behind)
      (more : ReadsTo (depth + 1) behind fields last rest) :
      ReadsTo (depth + 1) bytes (.group number inside fields) last rest

theorem readTag_nil_ok {tag : Nat} {rest : List UInt8} :
    readTag [] = .ok (tag, rest) ↔ tag = 0 ∧ rest = [] := by
  rw [readTag]
  constructor
  · intro h
    cases h
    exact ⟨rfl, rfl⟩
  · intro h
    rw [h.1, h.2]

/-- Nothing is of no kind, and no value is read from nothing. -/
theorem Payload.read_nil (wireType : Nat) (payload : Payload) (rest : List UInt8) :
    Payload.read wireType [] ≠ .ok (payload, rest) := by
  intro h
  unfold read at h
  split at h <;> cases h

theorem ne_nil_of_readTag {bytes rest : List UInt8} {tag : Nat}
    (h : readTag bytes = .ok (tag, rest)) (htag : tag ≠ 0) : bytes ≠ [] := by
  intro hnil
  rw [hnil] at h
  exact htag (readTag_nil_ok.mp h).1

theorem ne_nil_of_readTag_payload {bytes afterTag behind : List UInt8} {tag wireType : Nat}
    {payload : Payload} (htag : readTag bytes = .ok (tag, afterTag))
    (hvalue : Payload.read wireType afterTag = .ok (payload, behind)) : bytes ≠ [] := by
  intro hnil
  rw [hnil] at htag
  rw [(readTag_nil_ok.mp htag).2] at hvalue
  exact Payload.read_nil wireType payload behind hvalue

theorem makeTag_ne_zero {number wireType : Nat} (h : 0 < wireType) : makeTag number wireType ≠ 0 := by
  unfold makeTag
  omega

namespace ReadsTo

/-- What is left is behind what was read. -/
theorem length_le {depth last : Nat} {bytes rest : List UInt8} {fields : Fields}
    (h : ReadsTo depth bytes fields last rest) : rest.length ≤ bytes.length := by
  induction h with
  | stop depth => exact Nat.le_refl _
  | endGroup tag =>
      exact Nat.le_of_lt (readTag_front tag (ne_nil_of_readTag tag (makeTag_ne_zero (by decide)))).2.1
  | leaf tag value more ih =>
      have htag := (readTag_front tag (ne_nil_of_readTag_payload tag value)).2.1
      obtain ⟨front, rfl⟩ := (takesFront_payload _).front value
      rw [List.length_append] at htag
      omega
  | group tag value more ihvalue ihmore =>
      have htag := (readTag_front tag (ne_nil_of_readTag tag (makeTag_ne_zero (by decide)))).2.1
      omega

theorem suffix {depth last : Nat} {bytes rest : List UInt8} {fields : Fields}
    (h : ReadsTo depth bytes fields last rest) : ∃ front, bytes = front ++ rest := by
  induction h with
  | stop depth => exact ⟨[], rfl⟩
  | endGroup tag => exact readTag_suffix tag
  | leaf tag value more ih =>
      obtain ⟨front, rfl⟩ := readTag_suffix tag
      obtain ⟨piece, rfl⟩ := (takesFront_payload _).front value
      obtain ⟨tail, rfl⟩ := ih
      exact ⟨front ++ (piece ++ tail), by simp only [List.append_assoc]⟩
  | group tag value more ihvalue ihmore =>
      obtain ⟨front, rfl⟩ := readTag_suffix tag
      obtain ⟨piece, rfl⟩ := ihvalue
      obtain ⟨tail, rfl⟩ := ihmore
      exact ⟨front ++ (piece ++ tail), by simp only [List.append_assoc]⟩

/-- With as much fuel as there are bytes, what there is to read is read. -/
theorem readFuel_eq {depth last : Nat} {bytes rest : List UInt8} {fields : Fields}
    (h : ReadsTo depth bytes fields last rest) {fuel : Nat} (hfuel : bytes.length ≤ fuel) :
    readFuel fuel depth bytes = .ok (fields, last, rest) := by
  induction h generalizing fuel with
  | stop depth =>
      cases fuel <;> rfl
  | @endGroup depth number bytes rest tag =>
      have hne := ne_nil_of_readTag tag (makeTag_ne_zero (by decide))
      obtain ⟨b, bytes, rfl⟩ := List.exists_cons_of_ne_nil hne
      obtain ⟨fuel, rfl⟩ := Nat.exists_eq_succ_of_ne_zero (n := fuel)
        (by rw [List.length_cons] at hfuel; omega)
      rw [readFuel, tag]
      simp only [makeTag_mod (show 4 < 8 by decide), if_pos]
  | @leaf depth number last bytes afterTag behind rest payload fields tag value more ih =>
      have hne := ne_nil_of_readTag_payload tag value
      have htag := (readTag_front tag hne).2.1
      obtain ⟨front, hfront⟩ := (takesFront_payload _).front value
      obtain ⟨b, bytes, rfl⟩ := List.exists_cons_of_ne_nil hne
      obtain ⟨fuel, rfl⟩ := Nat.exists_eq_succ_of_ne_zero (n := fuel)
        (by rw [List.length_cons] at hfuel; omega)
      have hbehind : behind.length ≤ fuel := by
        have := congrArg List.length hfront
        rw [List.length_append] at this
        omega
      have hkind := payload.wireType_ne_groups
      rw [readFuel, tag]
      simp only [makeTag_mod payload.wireType_lt, makeTag_div payload.wireType_lt, if_neg hkind.1,
        if_neg hkind.2, value, ih hbehind]
      rfl
  | @group depth number last bytes afterTag behind rest inside fields tag value more ihvalue ihmore =>
      have hne := ne_nil_of_readTag tag (makeTag_ne_zero (by decide))
      have htag := (readTag_front tag hne).2.1
      have hbehind := value.length_le
      obtain ⟨b, bytes, rfl⟩ := List.exists_cons_of_ne_nil hne
      obtain ⟨fuel, rfl⟩ := Nat.exists_eq_succ_of_ne_zero (n := fuel)
        (by rw [List.length_cons] at hfuel; omega)
      rw [readFuel, tag]
      simp only [makeTag_mod (show 3 < 8 by decide), makeTag_div (show 3 < 8 by decide),
        ihvalue (show afterTag.length ≤ fuel by omega), ihmore (show behind.length ≤ fuel by omega)]
      rfl

end ReadsTo

/-- And what is read is there to read, with any fuel. -/
theorem readsTo_of_readFuel {fuel depth last : Nat} {bytes rest : List UInt8} {fields : Fields}
    (h : readFuel fuel depth bytes = .ok (fields, last, rest)) :
    ReadsTo depth bytes fields last rest := by
  induction fuel generalizing depth bytes fields last rest with
  | zero =>
      cases bytes with
      | nil =>
          cases h
          exact .stop depth
      | cons b bytes => cases h
  | succ fuel ih =>
      cases bytes with
      | nil =>
          cases h
          exact .stop depth
      | cons b bytes =>
          rw [readFuel] at h
          split at h
          · cases h
          · rename_i tag afterTag htag
            have hmake := makeTag_div_mod tag
            split at h
            · rename_i hend
              cases h
              rw [hend] at hmake
              rw [← hmake] at htag ⊢
              exact .endGroup htag
            · split at h
              · rename_i hstart
                rw [hstart] at hmake
                rw [← hmake] at htag
                cases depth with
                | zero => cases h
                | succ depth =>
                    simp only at h
                    split at h
                    · cases h
                    · rename_i inside innerLast behind hinside
                      split at h
                      · rename_i hlast
                        rw [hlast] at hinside
                        cases hmore : readFuel fuel (depth + 1) behind with
                        | error failure => simp [hmore, Except.map] at h
                        | ok x =>
                            rw [hmore] at h
                            cases h
                            exact .group htag (ih hinside) (ih hmore)
                      · cases h
              · split at h
                · cases h
                · rename_i payload behind hvalue
                  cases hmore : readFuel fuel depth behind with
                  | error failure => simp [hmore, Except.map] at h
                  | ok x =>
                      rw [hmore] at h
                      cases h
                      have hkind := (Payload.of_read hvalue).1
                      rw [← hkind] at hmake hvalue
                      rw [← hmake] at htag
                      exact .leaf htag hvalue (ih hmore)

theorem read_eq_ok_iff {depth last : Nat} {bytes rest : List UInt8} {fields : Fields} :
    read depth bytes = .ok (fields, last, rest) ↔ ReadsTo depth bytes fields last rest :=
  ⟨readsTo_of_readFuel, fun h => h.readFuel_eq (Nat.le_refl _)⟩

/-! ## 6. What is read, and from where

Inductions on the derivation. In the case of a group there are two hypotheses,
for the fields in it and for those behind it. -/

theorem readTag_append {bytes rest : List UInt8} {tag : Nat}
    (h : readTag bytes = .ok (tag, rest)) (hne : bytes ≠ []) (more : List UInt8) :
    readTag (bytes ++ more) = .ok (tag, rest ++ more) :=
  (readTag_front h hne).1 more

theorem validNumber_of_readTag {bytes rest : List UInt8} {number wireType : Nat}
    (h : readTag bytes = .ok (makeTag number wireType, rest)) (hwire : wireType < 8)
    (hne : bytes ≠ []) : ValidNumber number := by
  have htag := (readTag_front h hne).2.2
  unfold makeTag at htag
  unfold ValidNumber
  omega

theorem length_readTag_le {bytes rest : List UInt8} {tag : Nat}
    (h : readTag bytes = .ok (tag, rest)) (hne : bytes ≠ []) :
    (varint tag).length + rest.length ≤ bytes.length := by
  cases bytes with
  | nil => exact absurd rfl hne
  | cons b bytes =>
      unfold readTag at h
      cases hdecode : Varint.decode 10 (b :: bytes) with
      | error failure => simp [hdecode] at h
      | ok x =>
          obtain ⟨n, tail⟩ := x
          simp only [hdecode] at h
          split at h
          · cases h
          · cases h
            exact length_varint_le hdecode (Nat.mod_le n (2 ^ 32))

namespace ReadsTo

/-- The tag is 0 at the end of the bytes, and there only. -/
theorem rest_of_last {depth : Nat} {bytes rest : List UInt8} {fields : Fields} {last : Nat}
    (h : ReadsTo depth bytes fields last rest) (hlast : last = 0) : rest = [] := by
  induction h with
  | stop depth => rfl
  | endGroup tag => exact absurd hlast (makeTag_ne_zero (by decide))
  | leaf tag value more ih => exact ih hlast
  | group tag value more ihvalue ihmore => exact ihmore hlast

/-- What is read can be written. -/
theorem wellFormed {depth last : Nat} {bytes rest : List UInt8} {fields : Fields}
    (h : ReadsTo depth bytes fields last rest) : fields.WellFormed := by
  induction h with
  | stop depth => exact trivial
  | endGroup tag => exact trivial
  | @leaf depth number last bytes afterTag behind rest payload fields tag value more ih =>
      have hnumber := validNumber_of_readTag tag payload.wireType_lt
        (ne_nil_of_readTag_payload tag value)
      exact ⟨hnumber, (Payload.of_read value).2, ih⟩
  | group tag value more ihvalue ihmore =>
      have hnumber := validNumber_of_readTag tag (by decide)
        (ne_nil_of_readTag tag (makeTag_ne_zero (by decide)))
      exact ⟨hnumber, ihvalue, ihmore⟩

theorem depth_le {depth last : Nat} {bytes rest : List UInt8} {fields : Fields}
    (h : ReadsTo depth bytes fields last rest) : fields.depth ≤ depth := by
  induction h with
  | stop depth => exact Nat.zero_le _
  | endGroup tag => exact Nat.zero_le _
  | leaf tag value more ih => exact ih
  | group tag value more ihvalue ihmore =>
      rw [Fields.depth]
      omega

/-- No deeper groups need be allowed than there are. -/
theorem of_depth {depth depth' last : Nat} {bytes rest : List UInt8} {fields : Fields}
    (h : ReadsTo depth bytes fields last rest) (hle : fields.depth ≤ depth') :
    ReadsTo depth' bytes fields last rest := by
  induction h generalizing depth' with
  | stop depth => exact .stop depth'
  | endGroup tag => exact .endGroup tag
  | leaf tag value more ih => exact .leaf tag value (ih hle)
  | group tag value more ihvalue ihmore =>
      rw [Fields.depth] at hle
      obtain ⟨depth', rfl⟩ := Nat.exists_eq_succ_of_ne_zero (n := depth') (by omega)
      exact .group tag (ihvalue (by omega)) (ihmore (by omega))

/-- Written again, fields take no more bytes than they were read from. -/
theorem length_write_le {depth last : Nat} {bytes rest : List UInt8} {fields : Fields}
    (h : ReadsTo depth bytes fields last rest) :
    fields.write.length + (if last = 0 then 0 else (varint last).length) + rest.length ≤
      bytes.length := by
  induction h with
  | stop depth => exact Nat.le_refl _
  | @endGroup depth number bytes rest tag =>
      have hne : makeTag number 4 ≠ 0 := makeTag_ne_zero (by decide)
      have htag := length_readTag_le tag (ne_nil_of_readTag tag hne)
      rw [if_neg hne]
      simpa [Fields.write] using htag
  | leaf tag value more ih =>
      have htag := length_readTag_le tag (ne_nil_of_readTag_payload tag value)
      have hvalue := Payload.length_write_le value
      rw [Fields.write, List.length_append, List.length_append]
      omega
  | group tag value more ihvalue ihmore =>
      have htag := length_readTag_le tag (ne_nil_of_readTag tag (makeTag_ne_zero (by decide)))
      rw [if_neg (makeTag_ne_zero (by decide))] at ihvalue
      rw [Fields.write, List.length_append, List.length_append, List.length_append]
      omega

/-- A group that has ended does not depend on what follows. -/
theorem append_behind {depth last : Nat} {bytes rest : List UInt8} {fields : Fields}
    (h : ReadsTo depth bytes fields last rest) (hlast : last ≠ 0) (more : List UInt8) :
    ReadsTo depth (bytes ++ more) fields last (rest ++ more) := by
  induction h with
  | stop depth => exact absurd rfl hlast
  | endGroup tag =>
      exact .endGroup
        (readTag_append tag (ne_nil_of_readTag tag (makeTag_ne_zero (by decide))) more)
  | leaf tag value _ ih =>
      exact .leaf (readTag_append tag (ne_nil_of_readTag_payload tag value) more)
        ((takesFront_payload _).append value more) (ih hlast)
  | group tag _ _ ihvalue ihmore =>
      exact .group
        (readTag_append tag (ne_nil_of_readTag tag (makeTag_ne_zero (by decide))) more)
        (ihvalue (makeTag_ne_zero (by decide))) (ihmore hlast)

/-- Two messages put together are read as both. -/
theorem append {depth last : Nat} {bytes rest more : List UInt8} {fields moreFields : Fields}
    (h : ReadsTo depth bytes fields 0 [])
    (hmore : ReadsTo depth more moreFields last rest) :
    ReadsTo depth (bytes ++ more) (fields.append moreFields) last rest := by
  generalize hzero : 0 = lastRead, hnil : [] = ending at h
  induction h with
  | stop depth => exact hmore
  | endGroup tag => exact absurd hzero.symm (makeTag_ne_zero (by decide))
  | leaf tag value _ ih =>
      exact .leaf (readTag_append tag (ne_nil_of_readTag_payload tag value) more)
        ((takesFront_payload _).append value more) (ih hmore hzero hnil)
  | group tag value _ _ ihmore =>
      exact .group
        (readTag_append tag (ne_nil_of_readTag tag (makeTag_ne_zero (by decide))) more)
        (value.append_behind (makeTag_ne_zero (by decide)) more) (ihmore hmore hzero hnil)

/-- A derivation is what a reading gives, so there is one for the same bytes. -/
theorem unique {depth last last' : Nat} {bytes rest rest' : List UInt8} {fields fields' : Fields}
    (h : ReadsTo depth bytes fields last rest) (h' : ReadsTo depth bytes fields' last' rest') :
    fields = fields' ∧ last = last' ∧ rest = rest' := by
  have heq := (read_eq_ok_iff.mpr h).symm.trans (read_eq_ok_iff.mpr h')
  cases heq
  exact ⟨rfl, rfl, rfl⟩

/-- How a reading goes on behind a tag. -/
theorem cases_of_tag {depth tag last : Nat} {bytes afterTag rest : List UInt8} {all : Fields}
    (h : ReadsTo depth bytes all last rest) (htag : readTag bytes = .ok (tag, afterTag))
    (hne : bytes ≠ []) :
    (tag % 8 = 4 ∧ all = .nil ∧ last = tag ∧ rest = afterTag) ∨
      (∃ payload behind fields, tag % 8 = payload.wireType ∧
        Payload.read (tag % 8) afterTag = .ok (payload, behind) ∧
          ReadsTo depth behind fields last rest ∧ all = .leaf (tag / 8) payload fields) ∨
      (tag % 8 = 3 ∧ ∃ depth' inside behind fields, depth = depth' + 1 ∧
        ReadsTo depth' afterTag inside (makeTag (tag / 8) 4) behind ∧
          ReadsTo depth behind fields last rest ∧ all = .group (tag / 8) inside fields) := by
  cases h with
  | stop depth => exact absurd rfl hne
  | endGroup tag' =>
      cases htag.symm.trans tag'
      exact .inl ⟨makeTag_mod (by decide), rfl, rfl, rfl⟩
  | @leaf _ number _ _ _ behind _ payload fields tag' value more =>
      cases htag.symm.trans tag'
      rw [makeTag_mod payload.wireType_lt, makeTag_div payload.wireType_lt]
      exact .inr (.inl ⟨payload, behind, fields, rfl, value, more, rfl⟩)
  | @group depth' number _ _ _ behind _ inside fields tag' value more =>
      cases htag.symm.trans tag'
      rw [makeTag_mod (show 3 < 8 by decide), makeTag_div (show 3 < 8 by decide)]
      exact .inr (.inr ⟨rfl, depth', inside, behind, fields, rfl, value, more, rfl⟩)

/-- Behind the tag of a group comes a message one level down. -/
theorem group_of_tag {depth tag last : Nat} {bytes afterTag rest : List UInt8} {all : Fields}
    (h : ReadsTo depth bytes all last rest) (htag : readTag bytes = .ok (tag, afterTag))
    (hne : bytes ≠ []) (hgroup : tag % 8 = 3) :
    ∃ depth' inside behind fields, depth = depth' + 1 ∧
      ReadsTo depth' afterTag inside (makeTag (tag / 8) 4) behind ∧
        ReadsTo depth behind fields last rest := by
  rcases h.cases_of_tag htag hne with ⟨hkind, -⟩ | ⟨payload, _, _, hkind, -⟩ |
    ⟨-, depth', inside, behind, fields, hdepth, hinside, hmore, -⟩
  · omega
  · exact absurd (hkind.symm.trans hgroup) payload.wireType_ne_groups.1
  · exact ⟨depth', inside, behind, fields, hdepth, hinside, hmore⟩

/-- Behind the tag of any other field comes its payload. -/
theorem leaf_of_tag {depth tag last : Nat} {bytes afterTag rest : List UInt8} {all : Fields}
    (h : ReadsTo depth bytes all last rest) (htag : readTag bytes = .ok (tag, afterTag))
    (hne : bytes ≠ []) (hgroup : tag % 8 ≠ 3) (hend : tag % 8 ≠ 4) :
    ∃ payload behind fields, Payload.read (tag % 8) afterTag = .ok (payload, behind) ∧
      ReadsTo depth behind fields last rest := by
  rcases h.cases_of_tag htag hne with ⟨hkind, -⟩ | ⟨payload, behind, fields, -, hread, hmore, -⟩ |
    ⟨hkind, -⟩
  · exact absurd hkind hend
  · exact ⟨payload, behind, fields, hread, hmore⟩
  · exact absurd hkind hgroup

/-- How a reading that meets a leaf goes on. -/
theorem inv_leaf {depth number last : Nat} {bytes afterTag behind rest : List UInt8}
    {payload : Payload} {all : Fields} (h : ReadsTo depth bytes all last rest)
    (tag : readTag bytes = .ok (makeTag number payload.wireType, afterTag))
    (value : Payload.read payload.wireType afterTag = .ok (payload, behind)) :
    ∃ fields, all = .leaf number payload fields ∧ ReadsTo depth behind fields last rest := by
  have hkind := payload.wireType_ne_groups
  have hcases := h.cases_of_tag tag (ne_nil_of_readTag_payload tag value)
  rw [makeTag_mod payload.wireType_lt, makeTag_div payload.wireType_lt] at hcases
  rcases hcases with ⟨hend, -⟩ | ⟨payload', behind', fields, -, value', more, rfl⟩ | ⟨hstart, -⟩
  · exact absurd hend hkind.2
  · cases value.symm.trans value'
    exact ⟨fields, rfl, more⟩
  · exact absurd hstart hkind.1

/-- How a reading that meets a group goes on. -/
theorem inv_group {depth number last : Nat} {bytes afterTag rest : List UInt8} {all : Fields}
    (h : ReadsTo (depth + 1) bytes all last rest)
    (tag : readTag bytes = .ok (makeTag number 3, afterTag)) :
    ∃ inside behind fields, all = .group number inside fields ∧
      ReadsTo depth afterTag inside (makeTag number 4) behind ∧
        ReadsTo (depth + 1) behind fields last rest := by
  have hcases := h.cases_of_tag tag (ne_nil_of_readTag tag (makeTag_ne_zero (by decide)))
  rw [makeTag_mod (show 3 < 8 by decide), makeTag_div (show 3 < 8 by decide)] at hcases
  rcases hcases with ⟨hend, -⟩ | ⟨payload, behind, fields, hkind, -⟩ |
    ⟨-, depth', inside, behind, fields, hdepth, value, more, rfl⟩
  · exact absurd hend (by decide)
  · exact absurd hkind.symm payload.wireType_ne_groups.1
  · obtain rfl := Nat.succ.inj hdepth
    exact ⟨inside, behind, fields, rfl, value, more⟩

/-- When the front of the bytes is a message of its own, the rest is one too. -/
theorem of_append {depth last : Nat} {bytes more rest : List UInt8} {fields all : Fields}
    (h : ReadsTo depth bytes fields 0 []) (hall : ReadsTo depth (bytes ++ more) all last rest) :
    ∃ moreFields, all = fields.append moreFields ∧ ReadsTo depth more moreFields last rest := by
  generalize hzero : 0 = lastRead, hnil : [] = ending at h
  induction h generalizing all with
  | stop depth => exact ⟨all, rfl, hall⟩
  | endGroup tag => exact absurd hzero.symm (makeTag_ne_zero (by decide))
  | leaf tag value _ ih =>
      obtain ⟨behindFields, rfl, hbehind⟩ := hall.inv_leaf
        (readTag_append tag (ne_nil_of_readTag_payload tag value) more)
        ((takesFront_payload _).append value more)
      obtain ⟨moreFields, rfl, hmore⟩ := ih hbehind hzero hnil
      exact ⟨moreFields, rfl, hmore⟩
  | group tag value _ _ ihmore =>
      obtain ⟨inside, behind, behindFields, rfl, hinside, hbehind⟩ := hall.inv_group
        (readTag_append tag (ne_nil_of_readTag tag (makeTag_ne_zero (by decide))) more)
      obtain ⟨rfl, -, rfl⟩ :=
        (value.append_behind (makeTag_ne_zero (by decide)) more).unique hinside
      obtain ⟨moreFields, rfl, hmore⟩ := ihmore hbehind hzero hnil
      exact ⟨moreFields, rfl, hmore⟩

/-- Cut short, a message is read as its first fields or not at all. -/
theorem of_take {depth last : Nat} {bytes rest : List UInt8} {fields front : Fields} {k : Nat}
    (h : ReadsTo depth bytes fields 0 []) (hfront : ReadsTo depth (bytes.take k) front last rest) :
    last = 0 ∧ ∃ tail, fields = front.append tail ∧ ReadsTo depth (bytes.drop k) tail 0 [] := by
  rw [← List.take_append_drop k bytes] at h
  have hlast : last = 0 := by
    refine Classical.byContradiction fun hne => ?_
    exact hne (hfront.append_behind hne (bytes.drop k) |>.unique h).2.1
  subst hlast
  obtain rfl := hfront.rest_of_last rfl
  exact ⟨rfl, hfront.of_append h⟩

end ReadsTo

/-- What was written is read back, and reading goes on behind it. -/
theorem readsTo_write {fields : Fields} {depth last : Nat} {bytes rest : List UInt8}
    {more : Fields} (hwell : fields.WellFormed) (hdepth : fields.depth ≤ depth)
    (hmore : ReadsTo depth bytes more last rest) :
    ReadsTo depth (fields.write ++ bytes) (fields.append more) last rest := by
  induction fields generalizing depth bytes more last rest with
  | nil => exact hmore
  | leaf number payload tail ih =>
      rw [Fields.write, List.append_assoc, List.append_assoc]
      exact .leaf (readTag_varint hwell.1 payload.wireType_lt _)
        (Payload.read_write hwell.2.1 _) (ih hwell.2.2 hdepth hmore)
  | group number inside tail ihinside ihtail =>
      rw [Fields.depth] at hdepth
      obtain ⟨depth, rfl⟩ := Nat.exists_eq_succ_of_ne_zero (n := depth) (by omega)
      rw [Fields.write, List.append_assoc, List.append_assoc, List.append_assoc]
      have hend : ReadsTo depth (varint (makeTag number 4) ++ (tail.write ++ bytes)) .nil
          (makeTag number 4) (tail.write ++ bytes) :=
        .endGroup (readTag_varint hwell.1 (by decide) _)
      have hinside := ihinside hwell.2.1 (show inside.depth ≤ depth by omega) hend
      rw [Fields.append_nil] at hinside
      exact .group (readTag_varint hwell.1 (by decide) _) hinside
        (ihtail hwell.2.2 (by omega) hmore)

end SpringDome.Lib.WireFormat
