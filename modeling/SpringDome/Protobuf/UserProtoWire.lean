/-
SpringDome.Protobuf.UserProtoWire — a `Response` on the wire.

The loop of `mergeFrom(CodedInputStream)` sees one tag at a time. It comes to
the same as reading the whole first (`Lib.WireFormat.read`) and then taking up
the fields one after another (`Content.addFields`): `mergeFromBytes_eq_ok`. And
the fields of a message add up to it again (`Content.addFields_fields`).

How the proofs go. On the side of the content a field is taken up by
`addField`: the three fields of the message go to their places and all others to
the unknown ones, by the number and the kind together. On the side of the loop
the same choice is made by the tag, so the two are compared tag by tag:

  - one lemma for each of the three known tags and one for all others says what
    a round of the loop does (`mergeFromLoop_id` to `mergeFromLoop_unknown`);
  - `mergeFromLoop_of_readsTo` is an induction on the reading, and gives the
    loop's answer for bytes that are a message;
  - `readsTo_of_mergeFromLoop` is an induction on the rounds, and says that the
    loop accepts nothing else.

Why `Kept` is there. The runtime may keep unknown fields in a form of its own,
a map or a list, and what it gives back need not be what was put in. Its laws
speak of fields that can be read. So `Kept` says of unknown fields that they came
from such: well formed, not deeper than a reader goes, and none with a tag that
the message would have taken for one of its own. Readings and merges keep it.
-/
import SpringDome.Protobuf.UserProtoTheorems

namespace SpringDome.Protobuf

open SpringDome.Lib.WireFormat
open SpringDome.Lib.Charset

variable {U : Type}

/-! ## 1. Taking up fields

A field of number 1 that is no varint is unknown, and so is a group of number
1: the number alone does not make it the `id`. -/

/-- The tags of `id`, `result` and `info`. -/
def knownTag (tag : Nat) : Bool := tag == 8 || tag == 16 || tag == 26

/-- The fields that are kept as unknown. -/
def unknownFieldsOf (fs : Fields) : Fields := fs.filter fun tag => !knownTag tag

/-- Reading what `int32Payload` wrote. -/
def ofVarint (value : UInt64) : Int32 := value.toUInt32.toInt32

namespace Content

def addField (rt : Runtime U) (c : Content U) (number : Nat) (payload : Payload) : Content U :=
  match number, payload with
  | 1, .varint value => { c with id := some (ofVarint value) }
  | 2, .varint value => { c with result := some (ofVarint value) }
  | 3, .lengthDelimited value => { c with info := some value }
  | number, payload => { c with unknown := rt.addField c.unknown number payload }

def addGroup (rt : Runtime U) (c : Content U) (number : Nat) (inside : Fields) : Content U :=
  { c with unknown := rt.addGroup c.unknown number (rt.addFields rt.defaultInstance inside) }

def addFields (rt : Runtime U) : Content U → Fields → Content U
  | c, .nil => c
  | c, .leaf number payload rest => addFields rt (c.addField rt number payload) rest
  | c, .group number inside rest => addFields rt (c.addGroup rt number inside) rest

theorem addFields_append (rt : Runtime U) (c : Content U) (fs gs : Fields) :
    c.addFields rt (fs.append gs) = (c.addFields rt fs).addFields rt gs := by
  induction fs generalizing c with
  | nil => rfl
  | leaf number payload rest ih => exact ih _
  | group number inside rest _ ih => exact ih _

end Content

theorem Runtime.addFields_append (rt : Runtime U) (u : U) (fs gs : Fields) :
    rt.addFields u (fs.append gs) = rt.addFields (rt.addFields u fs) gs := by
  induction fs generalizing u with
  | nil => rfl
  | leaf number payload rest ih => exact ih _
  | group number inside rest _ ih => exact ih _

/-- The vector keeps fields as they come. -/
theorem vectorRuntime_addFields (malformedLength : List UInt8 → Nat) (u fs : Fields) :
    (vectorRuntime malformedLength).addFields u fs = u.append fs := by
  induction fs generalizing u with
  | nil => exact (Fields.append_nil u).symm
  | leaf number payload rest ih =>
      rw [Runtime.addFields, ih]
      show (u.append _).append rest = _
      rw [Fields.append_assoc]
      rfl
  | group number inside rest ihinside ih =>
      rw [Runtime.addFields, ih, ihinside]
      show (u.append _).append rest = _
      rw [Fields.append_assoc]
      rfl

/-- The laws are satisfied by the simplest runtime. -/
theorem vectorRuntime_lawful (malformedLength : List UInt8 → Nat) :
    (vectorRuntime malformedLength).Lawful where
  mergeFrom_addFields := fun u fs => by
    rw [vectorRuntime_addFields, vectorRuntime_addFields]
    rfl
  addFields_asFields := fun u fs => by
    rw [vectorRuntime_addFields, vectorRuntime_addFields, vectorRuntime_addFields]
    rfl
  wellFormed_asFields := fun fs h => by
    rw [vectorRuntime_addFields]
    exact h
  depth_asFields := fun fs => by
    rw [vectorRuntime_addFields]
    exact Nat.le_refl _
  tags_asFields := fun fs tag htag => by
    rw [vectorRuntime_addFields] at htag
    exact htag

namespace Content

variable (rt : Runtime U) (c : Content U)

/-- A field without a tag of its own goes to the unknown ones. -/
theorem addField_unknown {number : Nat} {payload : Payload}
    (h : knownTag (makeTag number payload.wireType) = false) :
    c.addField rt number payload = { c with unknown := rt.addField c.unknown number payload } := by
  unfold addField
  split
  · simp [makeTag, Payload.wireType, knownTag] at h
  · simp [makeTag, Payload.wireType, knownTag] at h
  · simp [makeTag, Payload.wireType, knownTag] at h
  · rfl

end Content

/-- What carries a known tag. -/
theorem cases_of_knownTag {number : Nat} {payload : Payload}
    (h : knownTag (makeTag number payload.wireType) = true) :
    (number = 1 ∧ ∃ value, payload = .varint value) ∨
      (number = 2 ∧ ∃ value, payload = .varint value) ∨
        (number = 3 ∧ ∃ value, payload = .lengthDelimited value) := by
  unfold knownTag at h
  simp only [Bool.or_eq_true, beq_iff_eq] at h
  unfold makeTag at h
  cases payload with
  | varint value =>
      rw [Payload.wireType] at h
      by_cases hone : number = 1
      · exact .inl ⟨hone, value, rfl⟩
      · exact .inr (.inl ⟨by omega, value, rfl⟩)
  | fixed64 value =>
      rw [Payload.wireType] at h
      omega
  | lengthDelimited value =>
      rw [Payload.wireType] at h
      exact .inr (.inr ⟨by omega, value, rfl⟩)
  | fixed32 value =>
      rw [Payload.wireType] at h
      omega

namespace Content

variable (rt : Runtime U) (c : Content U)

/-- Among the unknown fields are those without a tag of the message, in their
order, whatever stands between them. -/
theorem unknown_addFields (fs : Fields) :
    (c.addFields rt fs).unknown = rt.addFields c.unknown (unknownFieldsOf fs) := by
  unfold unknownFieldsOf
  induction fs generalizing c with
  | nil => rfl
  | leaf number payload rest ih =>
      rw [addFields, ih, Fields.filter]
      cases hknown : knownTag (makeTag number payload.wireType) with
      | false =>
          rw [addField_unknown rt c hknown]
          rfl
      | true =>
          obtain ⟨rfl, _, rfl⟩ | ⟨rfl, _, rfl⟩ | ⟨rfl, _, rfl⟩ := cases_of_knownTag hknown <;> rfl
  | group number inside rest _ ih =>
      have hgroup : knownTag (makeTag number 3) = false := by
        simp only [knownTag, makeTag, Bool.or_eq_false_iff, beq_eq_false_iff_ne]
        omega
      rw [addFields, ih, Fields.filter, hgroup]
      rfl

/-- Fields without tags of their own change nothing else. -/
theorem addFields_of_unknown {fs : Fields} (h : ∀ tag ∈ fs.tags, knownTag tag = false) :
    c.addFields rt fs = { c with unknown := rt.addFields c.unknown fs } := by
  induction fs generalizing c with
  | nil => rfl
  | leaf number payload rest ih =>
      rw [Fields.tags] at h
      rw [addFields, addField_unknown rt c (h _ List.mem_cons_self),
        ih _ fun tag htag => h tag (List.mem_cons_of_mem _ htag)]
      rfl
  | group number inside rest _ ih =>
      rw [Fields.tags] at h
      rw [addFields, ih _ fun tag htag => h tag (List.mem_cons_of_mem _ htag)]
      rfl

end Content

/-! ## 2. What can be kept as unknown -/

/-- Unknown fields as readings leave them. -/
def Runtime.Kept (rt : Runtime U) (u : U) : Prop :=
  ∃ fs : Fields, u = rt.addFields rt.defaultInstance fs ∧ fs.WellFormed ∧
    fs.depth ≤ recursionLimit ∧ ∀ tag ∈ fs.tags, knownTag tag = false

theorem Runtime.kept_defaultInstance (rt : Runtime U) : rt.Kept rt.defaultInstance :=
  ⟨.nil, rfl, trivial, Nat.zero_le _, fun _ h => by cases h⟩

theorem tags_unknownFieldsOf (fs : Fields) : ∀ tag ∈ (unknownFieldsOf fs).tags,
    knownTag tag = false := by
  intro tag htag
  unfold unknownFieldsOf at htag
  rw [Fields.tags_filter, List.mem_filter, Bool.not_eq_true'] at htag
  exact htag.2

theorem Runtime.Kept.addFields {rt : Runtime U} {u : U} (h : rt.Kept u) {fs : Fields}
    (hwell : fs.WellFormed) (hdepth : fs.depth ≤ recursionLimit) :
    rt.Kept (rt.addFields u (unknownFieldsOf fs)) := by
  obtain ⟨before, rfl, hwell', hdepth', htags⟩ := h
  refine ⟨before.append (unknownFieldsOf fs), (rt.addFields_append _ _ _).symm,
    Fields.wellFormed_append.mpr ⟨hwell', hwell.filter _⟩, ?_, ?_⟩
  · have hle := Fields.depth_filter_le (fun tag => !knownTag tag) fs
    rw [Fields.depth_append]
    unfold unknownFieldsOf
    omega
  · intro tag htag
    rw [Fields.tags_append, List.mem_append] at htag
    exact htag.elim (htags tag) (tags_unknownFieldsOf fs tag)

theorem Runtime.Kept.mergeFrom {rt : Runtime U} (hrt : rt.Lawful) {u v : U} (hu : rt.Kept u)
    (hv : rt.Kept v) : rt.Kept (rt.mergeFrom u v) := by
  obtain ⟨before, rfl, hwell, hdepth, htags⟩ := hu
  obtain ⟨more, rfl, hwell', hdepth', htags'⟩ := hv
  rw [hrt.mergeFrom_addFields, ← rt.addFields_append]
  refine ⟨before.append more, rfl, Fields.wellFormed_append.mpr ⟨hwell, hwell'⟩, ?_, ?_⟩
  · rw [Fields.depth_append]
    omega
  · intro tag htag
    rw [Fields.tags_append, List.mem_append] at htag
    exact htag.elim (htags tag) (htags' tag)

/-! ## 3. The loop

The loop keeps the unknown fields apart in a builder of their own and puts them
in at the end; `u` is that builder below. -/

theorem readInt32_of_read {bytes rest : List UInt8} {value : UInt64}
    (h : Payload.read 0 bytes = .ok (.varint value, rest)) :
    readInt32 bytes = .ok (ofVarint value, rest) := by
  obtain ⟨n, hn, heq⟩ := (map_ok_iff (f := fun n => Payload.varint (UInt64.ofNat n))).mp h
  injection heq with heq
  subst heq
  refine (map_ok_iff (f := fun n => (UInt32.ofNat n).toInt32)).mpr ⟨n, hn, ?_⟩
  unfold ofVarint
  rw [UInt64.toUInt32_ofNat']

theorem readLengthDelimited_of_read {bytes rest value : List UInt8}
    (h : Payload.read 2 bytes = .ok (.lengthDelimited value, rest)) :
    readLengthDelimited bytes = .ok (value, rest) := by
  obtain ⟨value', hvalue, heq⟩ := (map_ok_iff (f := Payload.lengthDelimited)).mp h
  injection heq with heq
  subst heq
  exact hvalue

theorem read_of_readInt32 {bytes rest : List UInt8} {n : Int32}
    (h : readInt32 bytes = .ok (n, rest)) :
    ∃ value, Payload.read 0 bytes = .ok (.varint value, rest) := by
  obtain ⟨m, hm, -⟩ := (map_ok_iff (f := fun n => (UInt32.ofNat n).toInt32)).mp h
  exact ⟨_, (map_ok_iff (f := fun n => Payload.varint (UInt64.ofNat n))).mpr ⟨m, hm, rfl⟩⟩

theorem read_of_readLengthDelimited {bytes rest value : List UInt8}
    (h : readLengthDelimited bytes = .ok (value, rest)) :
    Payload.read 2 bytes = .ok (.lengthDelimited value, rest) :=
  (map_ok_iff (f := Payload.lengthDelimited)).mpr ⟨value, h, rfl⟩

namespace Builder

variable {rt : Runtime U}

/-- The loop on a tag of no field. -/
theorem mergeFromLoop_unknown {bytes rest : List UInt8} {tag : Nat}
    (htag : readTag bytes = .ok (tag, rest)) (hzero : tag ≠ 0) (hknown : knownTag tag = false)
    (fuel : Nat) (b : Builder U) (u : U) :
    mergeFromLoop rt (fuel + 1) b u bytes =
      if tag % 8 = 4 then .ok (b.setUnknownFields u, tag, rest)
      else if tag % 8 = 3 then
        match read (recursionLimit - 1) rest with
        | .error failure => .error failure
        | .ok (inside, last, rest) =>
            if last = makeTag (tag / 8) 4 then
              mergeFromLoop rt fuel b (rt.addGroup u (tag / 8)
                (rt.addFields rt.defaultInstance inside)) rest
            else .error .invalidEndTag
      else
        match Payload.read (tag % 8) rest with
        | .error failure => .error failure
        | .ok (payload, rest) => mergeFromLoop rt fuel b (rt.addField u (tag / 8) payload) rest := by
  rw [mergeFromLoop, htag]
  split
  next h => cases h
  next h =>
    cases h
    exact absurd rfl hzero
  next h =>
    cases h
    cases hknown
  next h =>
    cases h
    cases hknown
  next h =>
    cases h
    cases hknown
  next h =>
    cases h
    rfl

/-! The loop on each of the fields of a message. -/

theorem mergeFromLoop_id (rt : Runtime U) {bytes afterTag : List UInt8}
    (tag : readTag bytes = .ok (8, afterTag)) (fuel : Nat) (b : Builder U) (u : U) :
    mergeFromLoop rt (fuel + 1) b u bytes =
      (readInt32 afterTag).bind fun x => mergeFromLoop rt fuel (b.setId x.1) u x.2 := by
  rw [mergeFromLoop, tag]
  cases hvalue : readInt32 afterTag with
  | error failure => simp only [hvalue, Except.bind]
  | ok x => simp only [hvalue, Except.bind]

theorem mergeFromLoop_result (rt : Runtime U) {bytes afterTag : List UInt8}
    (tag : readTag bytes = .ok (16, afterTag)) (fuel : Nat) (b : Builder U) (u : U) :
    mergeFromLoop rt (fuel + 1) b u bytes =
      (readInt32 afterTag).bind fun x => mergeFromLoop rt fuel (b.setResult x.1) u x.2 := by
  rw [mergeFromLoop, tag]
  cases hvalue : readInt32 afterTag with
  | error failure => simp only [hvalue, Except.bind]
  | ok x => simp only [hvalue, Except.bind]

theorem mergeFromLoop_info (rt : Runtime U) {bytes afterTag : List UInt8}
    (tag : readTag bytes = .ok (26, afterTag)) (fuel : Nat) (b : Builder U) (u : U) :
    mergeFromLoop rt (fuel + 1) b u bytes = (readLengthDelimited afterTag).bind fun x =>
      mergeFromLoop rt fuel (b.setInfoBytes x.1) u x.2 := by
  rw [mergeFromLoop, tag]
  cases hvalue : readLengthDelimited afterTag with
  | error failure => simp only [hvalue, Except.bind]
  | ok x => simp only [hvalue, Except.bind]

/-- The loop on a field of its own. -/
theorem mergeFromLoop_known (rt : Runtime U) {bytes afterTag behind : List UInt8} {number : Nat}
    {payload : Payload}
    (tag : readTag bytes = .ok (makeTag number payload.wireType, afterTag))
    (value : Payload.read payload.wireType afterTag = .ok (payload, behind))
    (hknown : knownTag (makeTag number payload.wireType) = true) {b : Builder U}
    (hb : b.Defaults) :
    ∃ b' : Builder U, b'.Defaults ∧ b'.content = b.content.addField rt number payload ∧
      ∀ fuel u, mergeFromLoop rt (fuel + 1) b u bytes = mergeFromLoop rt fuel b' u behind := by
  obtain ⟨rfl, v, rfl⟩ | ⟨rfl, v, rfl⟩ | ⟨rfl, v, rfl⟩ := cases_of_knownTag hknown
  · refine ⟨b.setId (ofVarint v), hb.setId _, content_setId b _, fun fuel u => ?_⟩
    rw [mergeFromLoop_id rt tag, readInt32_of_read value]
    rfl
  · refine ⟨b.setResult (ofVarint v), hb.setResult _, content_setResult b _, fun fuel u => ?_⟩
    rw [mergeFromLoop_result rt tag, readInt32_of_read value]
    rfl
  · have hcontent := content_setInfoBytes b v
    refine ⟨b.setInfoBytes v, hb.withInfo hcontent rfl rfl, hcontent, fun fuel u => ?_⟩
    rw [mergeFromLoop_info rt tag, readLengthDelimited_of_read value]
    rfl

/-- What can be read is merged, field by field. By induction on the reading, at
its outermost level: the fields in a group are read by the reader of groups and
taken up as a whole. -/
theorem mergeFromLoop_of_readsTo {bytes rest : List UInt8} {fields : Fields} {last : Nat}
    (h : ReadsTo recursionLimit bytes fields last rest) {fuel : Nat}
    (hfuel : bytes.length < fuel) {b : Builder U} (hb : b.Defaults) (u : U) :
    ∃ b', mergeFromLoop rt fuel b u bytes = .ok (b', last, rest) ∧ b'.Defaults ∧
      b'.content = (b.setUnknownFields u).content.addFields rt fields := by
  generalize hdepth : recursionLimit = depth at h
  induction h generalizing fuel b u with
  | stop depth =>
      obtain ⟨fuel, rfl⟩ := Nat.exists_eq_succ_of_ne_zero (Nat.ne_zero_of_lt hfuel)
      exact ⟨b.setUnknownFields u, rfl, hb.setUnknownFields u, rfl⟩
  | @endGroup depth number bytes rest tag =>
      obtain ⟨fuel, rfl⟩ := Nat.exists_eq_succ_of_ne_zero (Nat.ne_zero_of_lt hfuel)
      refine ⟨b.setUnknownFields u, ?_, hb.setUnknownFields u, rfl⟩
      rw [Nat.succ_eq_add_one, mergeFromLoop_unknown tag (makeTag_ne_zero (by decide)),
        if_pos (makeTag_mod (by decide))]
      simp only [knownTag, makeTag, Bool.or_eq_false_iff, beq_eq_false_iff_ne]
      omega
  | @leaf depth number last bytes afterTag behind rest payload fields tag value more ih =>
      obtain ⟨fuel, rfl⟩ := Nat.exists_eq_succ_of_ne_zero (Nat.ne_zero_of_lt hfuel)
      have hne := ne_nil_of_readTag_payload tag value
      have hshort := (readTag_front tag hne).2.1
      obtain ⟨front, hfront⟩ := (takesFront_payload _).front value
      have hbehind : behind.length < fuel := by
        have hlength := congrArg List.length hfront
        rw [List.length_append] at hlength
        omega
      cases hknown : knownTag (makeTag number payload.wireType) with
      | false =>
          obtain ⟨b', hloop, hdefaults, hcontent⟩ :=
            ih hbehind hb (rt.addField u number payload) hdepth
          have hkind := payload.wireType_ne_groups
          have hzero : makeTag number payload.wireType ≠ 0 := by
            have hpos := (readTag_front tag hne).2.2.1
            omega
          refine ⟨b', ?_, hdefaults, ?_⟩
          · rw [Nat.succ_eq_add_one, mergeFromLoop_unknown tag hzero hknown,
              makeTag_mod payload.wireType_lt, makeTag_div payload.wireType_lt, if_neg hkind.2,
              if_neg hkind.1, value]
            exact hloop
          · rw [hcontent, Content.addFields, Content.addField_unknown rt _ hknown]
            rfl
      | true =>
          obtain ⟨b₁, hdefaults₁, hcontent₁, hstep⟩ := mergeFromLoop_known rt tag value hknown hb
          obtain ⟨b', hloop, hdefaults, hcontent⟩ := ih hbehind hdefaults₁ u hdepth
          refine ⟨b', (hstep fuel u).trans hloop, hdefaults, ?_⟩
          rw [hcontent, content_setUnknownFields, hcontent₁, Content.addFields]
          congr 1
          obtain ⟨rfl, v, rfl⟩ | ⟨rfl, v, rfl⟩ | ⟨rfl, v, rfl⟩ := cases_of_knownTag hknown <;> rfl
  | @group depth number last bytes afterTag behind rest inside fields tag value more _ ih =>
      obtain ⟨fuel, rfl⟩ := Nat.exists_eq_succ_of_ne_zero (Nat.ne_zero_of_lt hfuel)
      have hne := ne_nil_of_readTag tag (makeTag_ne_zero (by decide))
      have hshort := (readTag_front tag hne).2.1
      have hbehind := value.length_le
      have hknown : knownTag (makeTag number 3) = false := by
        simp only [knownTag, makeTag, Bool.or_eq_false_iff, beq_eq_false_iff_ne]
        omega
      obtain ⟨b', hloop, hdefaults, hcontent⟩ := ih (show behind.length < fuel by omega) hb
        (rt.addGroup u number (rt.addFields rt.defaultInstance inside)) hdepth
      refine ⟨b', ?_, hdefaults, ?_⟩
      · have hinside : read (recursionLimit - 1) afterTag =
            .ok (inside, makeTag number 4, behind) := by
          rw [hdepth, Nat.add_sub_cancel]
          exact read_eq_ok_iff.mpr value
        rw [Nat.succ_eq_add_one, mergeFromLoop_unknown tag (makeTag_ne_zero (by decide)) hknown,
          makeTag_mod (by decide), makeTag_div (by decide), hinside, if_neg (by decide),
          if_pos rfl]
        dsimp only
        rw [if_pos rfl]
        exact hloop
      · rw [hcontent]
        rfl

/-- A round that has taken up one of the three fields has read its payload. -/
theorem payload_of_mergeFromLoop {fuel : Nat} {b b' : Builder U} {u : U}
    {bytes afterTag rest : List UInt8} {tag last : Nat} (htag : readTag bytes = .ok (tag, afterTag))
    (hknown : knownTag tag = true)
    (h : mergeFromLoop rt (fuel + 1) b u bytes = .ok (b', last, rest)) :
    ∃ payload behind b₁, Payload.read (tag % 8) afterTag = .ok (payload, behind) ∧
      mergeFromLoop rt fuel b₁ u behind = .ok (b', last, rest) := by
  simp only [knownTag, Bool.or_eq_true, beq_iff_eq] at hknown
  obtain (rfl | rfl) | rfl := hknown
  · rw [mergeFromLoop_id rt htag] at h
    cases hvalue : readInt32 afterTag with
    | error failure =>
        rw [hvalue] at h
        cases h
    | ok x =>
        rw [hvalue] at h
        obtain ⟨w, hw⟩ := read_of_readInt32 hvalue
        exact ⟨_, _, _, hw, h⟩
  · rw [mergeFromLoop_result rt htag] at h
    cases hvalue : readInt32 afterTag with
    | error failure =>
        rw [hvalue] at h
        cases h
    | ok x =>
        rw [hvalue] at h
        obtain ⟨w, hw⟩ := read_of_readInt32 hvalue
        exact ⟨_, _, _, hw, h⟩
  · rw [mergeFromLoop_info rt htag] at h
    cases hvalue : readLengthDelimited afterTag with
    | error failure =>
        rw [hvalue] at h
        cases h
    | ok x =>
        rw [hvalue] at h
        exact ⟨_, _, _, read_of_readLengthDelimited hvalue, h⟩

/-- What is merged can be read. By induction on the rounds, with a case for each
exit of the loop. -/
theorem readsTo_of_mergeFromLoop {fuel : Nat} {b b' : Builder U} {u : U} {bytes rest : List UInt8}
    {last : Nat} (h : mergeFromLoop rt fuel b u bytes = .ok (b', last, rest)) :
    ∃ fields, ReadsTo recursionLimit bytes fields last rest := by
  induction fuel generalizing b u bytes with
  | zero => cases h
  | succ fuel ih =>
      cases htag : readTag bytes with
      | error failure =>
          rw [mergeFromLoop, htag] at h
          cases h
      | ok x =>
          obtain ⟨tag, afterTag⟩ := x
          by_cases hnil : bytes = []
          · -- the end of the bytes
            subst hnil
            obtain ⟨rfl, rfl⟩ := readTag_nil_ok.mp htag
            rw [mergeFromLoop, htag] at h
            cases h
            exact ⟨.nil, .stop _⟩
          · have hpos := (readTag_front htag hnil).2.2.1
            have hmake := makeTag_div_mod tag
            cases hknown : knownTag tag with
            | true =>
                obtain ⟨payload, behind, b₁, hvalue, hloop⟩ :=
                  payload_of_mergeFromLoop htag hknown h
                obtain ⟨fields, hmore⟩ := ih hloop
                rw [← (Payload.of_read hvalue).1] at hmake hvalue
                rw [← hmake] at htag
                exact ⟨_, .leaf htag hvalue hmore⟩
            | false =>
                rw [mergeFromLoop_unknown htag (by omega) hknown] at h
                split at h
                · rename_i hend
                  cases h
                  rw [hend] at hmake
                  rw [← hmake] at htag ⊢
                  exact ⟨.nil, .endGroup htag⟩
                · split at h
                  · rename_i hstart
                    rw [hstart] at hmake
                    rw [← hmake] at htag
                    split at h
                    · cases h
                    · rename_i inside innerLast behind hinside
                      split at h
                      · rename_i hlast
                        rw [hlast] at hinside
                        obtain ⟨fields, hmore⟩ := ih h
                        exact ⟨_, .group htag (read_eq_ok_iff.mp hinside) hmore⟩
                      · cases h
                  · split at h
                    · cases h
                    · rename_i payload behind hvalue
                      obtain ⟨fields, hmore⟩ := ih h
                      rw [← (Payload.of_read hvalue).1] at hmake hvalue
                      rw [← hmake] at htag
                      exact ⟨_, .leaf htag hvalue hmore⟩

/-- What a builder is after any calls. -/
structure Sound (rt : Runtime U) (b : Builder U) : Prop where
  defaults : b.Defaults
  kept : rt.Kept b.unknownFields

theorem sound_create (rt : Runtime U) : (create rt).Sound rt :=
  ⟨defaults_create, rt.kept_defaultInstance⟩

theorem mergeFromBytes_of_readsTo {data : List UInt8} {fields : Fields}
    (h : ReadsTo recursionLimit data fields 0 []) {b : Builder U} (hb : b.Sound rt) :
    ∃ b', b.mergeFromBytes rt data = .ok b' ∧ b'.Sound rt ∧
      b'.content = b.content.addFields rt fields := by
  obtain ⟨b', hloop, hdefaults, hcontent⟩ :=
    mergeFromLoop_of_readsTo h (Nat.lt_succ_self _) hb.defaults b.unknownFields
  have hunknown : b'.unknownFields = rt.addFields b.unknownFields (unknownFieldsOf fields) := by
    show b'.content.unknown = _
    rw [hcontent, Content.unknown_addFields]
    rfl
  refine ⟨b', ?_, ⟨hdefaults, ?_⟩, hcontent⟩
  · unfold mergeFromBytes mergeFromInput
    rw [hloop]
    rfl
  · rw [hunknown]
    exact hb.kept.addFields h.wellFormed h.depth_le

theorem readsTo_of_mergeFromBytes {data : List UInt8} {b b' : Builder U}
    (h : b.mergeFromBytes rt data = .ok b') :
    ∃ fields, ReadsTo recursionLimit data fields 0 [] := by
  unfold mergeFromBytes mergeFromInput at h
  split at h
  · cases h
  · rename_i hloop
    split at h
    · rename_i hlast
      obtain ⟨fields, hfields⟩ := readsTo_of_mergeFromLoop hloop
      subst hlast
      obtain rfl := hfields.rest_of_last rfl
      exact ⟨fields, hfields⟩
    · cases h

/-- **The loop reads a message.** Bytes are merged if and only if they are
fields to the end, and then field by field. -/
theorem mergeFromBytes_eq_ok {data : List UInt8} {b b' : Builder U} (hb : b.Sound rt)
    (h : b.mergeFromBytes rt data = .ok b') :
    ∃ fields, ReadsTo recursionLimit data fields 0 [] ∧ b'.Sound rt ∧
      b'.content = b.content.addFields rt fields := by
  obtain ⟨fields, hfields⟩ := readsTo_of_mergeFromBytes h
  obtain ⟨b'', hmerge, hsound, hcontent⟩ := mergeFromBytes_of_readsTo hfields hb
  cases h.symm.trans hmerge
  exact ⟨fields, hfields, hsound, hcontent⟩

end Builder

/-! ## 4. Written and read back

A field that is not set writes nothing, and taking up nothing changes nothing;
so each of the three fields may be looked at by itself. -/

theorem ofVarint_toUInt64 (v : Int32) : ofVarint v.toInt64.toUInt64 = v := by
  refine Int32.toBitVec_inj.mp ?_
  show BitVec.setWidth 32 (BitVec.signExtend 64 v.toBitVec) = v.toBitVec
  rw [← BitVec.signExtend_eq_setWidth_of_le _ (by decide)]
  exact congrArg Int32.toBitVec v.toInt32_toInt64

namespace Content

variable {rt : Runtime U} {c : Content U}

theorem wellFormed_optionalField {number : Nat} {payload : Option Payload}
    (hnumber : ValidNumber number) (h : ∀ p ∈ payload, p.WellFormed) :
    (optionalField number payload).WellFormed := by
  cases payload with
  | none => exact trivial
  | some p => exact ⟨hnumber, h p rfl, trivial⟩

theorem depth_optionalField (number : Nat) (payload : Option Payload) :
    (optionalField number payload).depth = 0 := by
  cases payload <;> rfl

/-- The fields of a message can be written. -/
theorem wellFormed_fields (hrt : rt.Lawful) (hkept : rt.Kept c.unknown)
    (hinfo : ∀ bs ∈ c.info, bs.length < 2 ^ 31) : (c.fields rt).WellFormed := by
  obtain ⟨fs, hfs, hwell, -, -⟩ := hkept
  have hnumber : ∀ number, 0 < number → number < 4 → ValidNumber number := by
    intro number hpos hlt
    exact ⟨hpos, Nat.lt_trans hlt (by decide)⟩
  refine Fields.wellFormed_append.mpr ⟨?_, Fields.wellFormed_append.mpr ⟨?_,
    Fields.wellFormed_append.mpr ⟨?_, ?_⟩⟩⟩
  · refine wellFormed_optionalField (hnumber 1 (by decide) (by decide)) ?_
    intro p hp
    obtain ⟨v, -, rfl⟩ := Option.map_eq_some_iff.mp hp
    exact trivial
  · refine wellFormed_optionalField (hnumber 2 (by decide) (by decide)) ?_
    intro p hp
    obtain ⟨v, -, rfl⟩ := Option.map_eq_some_iff.mp hp
    exact trivial
  · refine wellFormed_optionalField (hnumber 3 (by decide) (by decide)) ?_
    intro p hp
    obtain ⟨bs, hbs, rfl⟩ := Option.map_eq_some_iff.mp hp
    exact hinfo bs hbs
  · rw [hfs]
    exact hrt.wellFormed_asFields fs hwell

theorem depth_fields_le (hrt : rt.Lawful) (hkept : rt.Kept c.unknown) :
    (c.fields rt).depth ≤ recursionLimit := by
  obtain ⟨fs, hfs, -, hdepth, -⟩ := hkept
  have hle := hrt.depth_asFields fs
  rw [← hfs] at hle
  unfold fields
  rw [Fields.depth_append, Fields.depth_append, Fields.depth_append, depth_optionalField,
    depth_optionalField, depth_optionalField]
  omega

/-- The unknown fields of a message have no tags of its own, and added to
others they are these again. -/
theorem addFields_asFields (hrt : rt.Lawful) {u : U} (hkept : rt.Kept u) (c : Content U) :
    c.addFields rt (rt.asFields u) = { c with unknown := rt.mergeFrom c.unknown u } := by
  obtain ⟨fs, rfl, -, -, htags⟩ := hkept
  rw [addFields_of_unknown _ _ fun tag htag => htags tag (hrt.tags_asFields fs tag htag),
    hrt.addFields_asFields, hrt.mergeFrom_addFields]

theorem addFields_id (rt : Runtime U) (c : Content U) (id : Option Int32) :
    c.addFields rt (optionalField 1 (id.map int32Payload)) = { c with id := id.or c.id } := by
  cases id with
  | none => rfl
  | some v => exact congrArg (fun v => { c with id := some v }) (ofVarint_toUInt64 v)

theorem addFields_result (rt : Runtime U) (c : Content U) (result : Option Int32) :
    c.addFields rt (optionalField 2 (result.map int32Payload)) =
      { c with result := result.or c.result } := by
  cases result with
  | none => rfl
  | some v => exact congrArg (fun v => { c with result := some v }) (ofVarint_toUInt64 v)

theorem addFields_info (rt : Runtime U) (c : Content U) (info : Option (List UInt8)) :
    c.addFields rt (optionalField 3 (info.map .lengthDelimited)) =
      { c with info := info.or c.info } := by
  cases info <;> rfl

/-- The fields of a message, taken up after others, replace those it has, and
its unknown fields are added. -/
theorem addFields_fields (hrt : rt.Lawful) (hkept : rt.Kept c.unknown) (before : Content U) :
    before.addFields rt (c.fields rt) =
      ⟨c.id.or before.id, c.result.or before.result, c.info.or before.info,
        rt.mergeFrom before.unknown c.unknown⟩ := by
  unfold fields
  rw [addFields_append, addFields_append, addFields_append, addFields_asFields hrt hkept,
    addFields_id, addFields_result, addFields_info]

/-- Nothing is added to unknown fields that are read on their own. -/
theorem mergeFrom_default (hrt : rt.Lawful) {u : U} (hkept : rt.Kept u) :
    rt.mergeFrom rt.defaultInstance u = u := by
  obtain ⟨fs, rfl, -, -, -⟩ := hkept
  exact hrt.mergeFrom_addFields _ fs

theorem empty_addFields_fields (hrt : rt.Lawful) (hkept : rt.Kept c.unknown) :
    (empty rt).addFields rt (c.fields rt) = c := by
  rw [addFields_fields hrt hkept]
  show Content.mk (c.id.or none) (c.result.or none) (c.info.or none)
    (rt.mergeFrom rt.defaultInstance c.unknown) = c
  rw [mergeFrom_default hrt hkept, Option.or_none, Option.or_none, Option.or_none]

/-- What a message is written as can be read. -/
theorem readsTo_fields (hrt : rt.Lawful) (hkept : rt.Kept c.unknown)
    (hlength : (c.write rt).length < 2 ^ 31) :
    ReadsTo recursionLimit (c.write rt) (c.fields rt) 0 [] := by
  have hinfo : ∀ bs ∈ c.info, bs.length < 2 ^ 31 := by
    intro bs hbs
    rw [write_eq, hbs] at hlength
    simp only [List.length_append, Option.map_some, Option.getD_some, writeBytes,
      Payload.write] at hlength
    omega
  have hwrite := readsTo_write (wellFormed_fields hrt hkept hinfo)
    (depth_fields_le hrt hkept) (.stop recursionLimit)
  rwa [Fields.append_nil, List.append_nil] at hwrite

end Content

end SpringDome.Protobuf
