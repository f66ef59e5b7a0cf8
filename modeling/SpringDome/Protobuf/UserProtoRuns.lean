/-
SpringDome.Protobuf.UserProtoRuns — builders and messages over any calls.

`Reached` holds of what calls of the public methods give: builders, new ones,
clones or those of a message, the messages they build, and these after they were
asked things. The two setters of unknown fields that a builder inherits are left
out: with them a field that has a number of its own could be put among the
unknown ones, and would be read back as the known one.

* `build_runCalls` — the builder is a record of optional fields;
* `run_runAll` — what a message remembers never shows;
* `parseFrom_toByteArray` — a message comes back from its bytes;
* `mergeFromBytes_append`, `mergeFromBytes_eq_mergeFrom_iff` — bytes put
  together are merged as one, and when this is what `mergeFrom(Response)` does;
* `parseFrom_take` — cut short, the bytes of a message are rejected, or tell
  nothing that is not so.

How the proofs go: a builder or a message has a `Content`, and each call does to
it what `Call.effect` says (`call_eq`, one case a call). The invariant
(`Reached.invariant`) is that what is remembered is right, that what is not set
has its default, and that the unknown fields are some that were read. The last
part is what lets bytes be read back: only then are the unknown fields well
formed, none of them has the number of a known one, and their groups are not
nested deeper than a reader goes.

`clone` and `toBuilder` are `mergeFrom(Response)` on a new builder, which takes
`info` as a text. So neither is a copy where `info` is bytes that are no text
(`content_clone`, `content_toBuilder`).
-/
import SpringDome.Protobuf.UserProtoWire

namespace SpringDome.Protobuf

open SpringDome.Lib.WireFormat
open SpringDome.Lib.Charset

variable {U : Type}

/-! ## 1. Builders and messages -/

namespace Response

/-- What a message is after any calls. -/
structure Made (rt : Runtime U) (m : Response U) : Prop where
  sound : m.Sound rt
  kept : rt.Kept m.content.unknown

end Response

namespace Builder

variable {rt : Runtime U} {b : Builder U}

theorem made_buildPartial (hb : b.Sound rt) : b.buildPartial.Made rt where
  sound := by
    have hcontent := content_buildPartial b
    have hset : b.buildPartial.hasId = b.hasId ∧ b.buildPartial.hasResult = b.hasResult ∧
        b.buildPartial.hasInfo = b.hasInfo := by
      unfold buildPartial
      simp only [Response.hasId, Response.hasResult, Response.hasInfo]
      cases b.hasId <;> cases b.hasResult <;> cases b.hasInfo <;> simp
    refine ⟨?_, ?_, ?_, .inl rfl, .inl rfl⟩
    · rw [hset.1]
      exact hb.defaults.id
    · rw [hset.2.1]
      exact hb.defaults.result
    · rw [hset.2.2]
      intro hno
      show b.info.bytes = []
      rw [hb.defaults.info hno]
      rfl
  kept := hb.kept

/-- `build` returns if and only if an id is set. -/
theorem build_eq (hb : b.Sound rt) :
    b.build = if b.hasId then .ok b.buildPartial.isInitialized.2
      else .error .uninitializedMessage := by
  have heq := (Response.isInitialized_eq (made_buildPartial hb).sound).1
  have hset : b.buildPartial.hasId = b.hasId := by
    have hid := congrArg (fun c : Content U => c.id.isSome) (content_buildPartial b)
    rw [hasId_eq, ← hid]
    unfold Response.content
    cases b.buildPartial.hasId <;> rfl
  unfold build
  cases hpair : b.buildPartial.isInitialized with
  | mk initialized result =>
      rw [hpair] at heq
      rw [← hset, ← heq]

theorem buildParsed_eq (hb : b.Sound rt) :
    b.buildParsed = if b.hasId then .ok b.buildPartial.isInitialized.2
      else .error .missingFields := by
  have heq := build_eq hb
  unfold build at heq
  unfold buildParsed
  cases hpair : b.buildPartial.isInitialized with
  | mk initialized result =>
      rw [hpair] at heq
      cases initialized <;> cases hset : b.hasId <;> rw [hset] at heq <;> simp_all

end Builder

/-- A call of a public method. -/
inductive Call (U : Type) where
  | clear
  | setId (value : Int32)
  | clearId
  | setResult (value : Int32)
  | clearResult
  | getInfo
  | setInfo (value : Option String)
  | setInfoBytes (value : List UInt8)
  | clearInfo
  | mergeFrom (other : Response U)
  | mergeFromBytes (data : List UInt8)
  /-- The calls that follow are calls of the clone. -/
  | clone

def Builder.call (rt : Runtime U) (b : Builder U) : Call U → Except Thrown (Builder U)
  | .clear => .ok (b.clear rt)
  | .setId value => .ok (b.setId value)
  | .clearId => .ok b.clearId
  | .setResult value => .ok (b.setResult value)
  | .clearResult => .ok b.clearResult
  | .getInfo => .ok (b.getInfo rt).2
  | .setInfo value => b.setInfo value
  | .setInfoBytes value => .ok (b.setInfoBytes value)
  | .clearInfo => .ok (b.clearInfo rt)
  | .mergeFrom other => .ok (b.mergeFrom rt other).1
  | .mergeFromBytes data => b.mergeFromBytes rt data
  | .clone => .ok (b.clone rt)

def Builder.runCalls (rt : Runtime U) : Builder U → List (Call U) → Except Thrown (Builder U)
  | b, [] => .ok b
  | b, c :: calls =>
      match b.call rt c with
      | .error thrown => .error thrown
      | .ok b => b.runCalls rt calls

/-- The bytes that are left of some bytes when they have been read as a text. -/
def Runtime.asText (rt : Runtime U) (bs : List UInt8) : List UInt8 :=
  copyFromUtf8 (rt.toStringUtf8 bs)

/-- What is set in `other` replaces what is set in `c`. -/
def Content.merge (rt : Runtime U) (c other : Content U) : Content U :=
  ⟨other.id.or c.id, other.result.or c.result, (other.info.map rt.asText).or c.info,
    rt.mergeFrom c.unknown other.unknown⟩

/-- What a call means. -/
def Call.effect (rt : Runtime U) (c : Content U) : Call U → Option (Content U)
  | .clear => some (.empty rt)
  | .setId value => some { c with id := some value }
  | .clearId => some { c with id := none }
  | .setResult value => some { c with result := some value }
  | .clearResult => some { c with result := none }
  | .getInfo => some { c with info := c.info.map rt.asText }
  | .setInfo value => value.map fun s => { c with info := some (copyFromUtf8 s) }
  | .setInfoBytes value => some { c with info := some value }
  | .clearInfo => some { c with info := none }
  | .mergeFrom other => some (c.merge rt other.content)
  | .mergeFromBytes data =>
      match read recursionLimit data with
      | .ok (fields, 0, _) => some (c.addFields rt fields)
      | _ => none
  -- `mergeFrom(Response)` takes `info` as a text
  | .clone => some { c with info := c.info.map rt.asText }

def Call.effects (rt : Runtime U) : Content U → List (Call U) → Option (Content U)
  | c, [] => some c
  | c, call :: calls => (call.effect rt c).bind fun c => effects rt c calls

namespace Builder

variable {rt : Runtime U} {b : Builder U}

theorem asText_copyFromUtf8 (rt : Runtime U) (s : String) :
    rt.asText (copyFromUtf8 s) = copyFromUtf8 s := by
  unfold Runtime.asText
  rw [rt.toStringUtf8_copyFromUtf8]

theorem content_getInfo (rt : Runtime U) (hb : b.Defaults) :
    (b.getInfo rt).2.content = { b.content with info := b.content.info.map rt.asText } ∧
      (b.getInfo rt).2.Defaults := by
  unfold getInfo
  cases hinfo : b.info with
  | string s =>
      refine ⟨?_, hb⟩
      have hsame : b.content.info.map rt.asText = b.content.info := by
        unfold content
        rw [hinfo]
        cases b.hasInfo with
        | false => rfl
        | true => exact congrArg some (asText_copyFromUtf8 rt s)
      rw [hsame]
  | byteString bs =>
      have hset : b.hasInfo = true := by
        cases hno : b.hasInfo with
        | false =>
            rw [hb.info hno] at hinfo
            cases hinfo
        | true => rfl
      have hcontent : ({ b with info := .string (rt.toStringUtf8 bs) } : Builder U).content =
          { b.content with info := some (rt.asText bs) } := by
        have hset' : ({ b with info := .string (rt.toStringUtf8 bs) } : Builder U).hasInfo = true :=
          hset
        unfold content
        rw [hset', if_pos rfl]
        rfl
      refine ⟨?_, hb.withInfo hcontent rfl rfl⟩
      rw [hcontent]
      unfold content
      rw [hset, hinfo]
      rfl

theorem content_mergeFrom (rt : Runtime U) (hb : b.Defaults) (other : Response U) :
    (b.mergeFrom rt other).1.content = b.content.merge rt other.content ∧
      (b.mergeFrom rt other).1.Defaults := by
  have hid : ∀ b : Builder U, b.Defaults →
      (if other.hasId then b.setId other.getId else b).content =
        { b.content with id := other.content.id.or b.content.id } ∧
      (if other.hasId then b.setId other.getId else b).Defaults := by
    intro b hb
    unfold Response.content
    cases other.hasId with
    | false => exact ⟨rfl, hb⟩
    | true => exact ⟨content_setId b _, hb.setId _⟩
  have hresult : ∀ b : Builder U, b.Defaults →
      (if other.hasResult then b.setResult other.getResult else b).content =
        { b.content with result := other.content.result.or b.content.result } ∧
      (if other.hasResult then b.setResult other.getResult else b).Defaults := by
    intro b hb
    unfold Response.content
    cases other.hasResult with
    | false => exact ⟨rfl, hb⟩
    | true => exact ⟨content_setResult b _, hb.setResult _⟩
  obtain ⟨hcontent₁, hdefaults₁⟩ := hid b hb
  obtain ⟨hcontent₂, hdefaults₂⟩ := hresult _ hdefaults₁
  unfold mergeFrom
  dsimp only
  generalize (if other.hasResult then
    (if other.hasId then b.setId other.getId else b).setResult other.getResult
    else if other.hasId then b.setId other.getId else b) = b' at hcontent₂ hdefaults₂ ⊢
  rw [hcontent₁] at hcontent₂
  obtain ⟨htext, info, hafter, -⟩ := other.getInfo_eq rt
  cases hset : other.hasInfo with
  | false =>
      refine ⟨?_, hdefaults₂.setUnknownFields _⟩
      show { b'.content with unknown := rt.mergeFrom b'.content.unknown other.unknownFields } = _
      rw [hcontent₂]
      unfold Content.merge Response.content
      rw [hset]
      rfl
  | true =>
      have hcontent₃ := content_setInfoString b' (other.getInfo rt).1
      refine ⟨?_, (hdefaults₂.withInfo hcontent₃ rfl rfl).setUnknownFields _⟩
      show { (b'.setInfoString (other.getInfo rt).1).content with
        unknown := rt.mergeFrom b'.content.unknown (other.getInfo rt).2.unknownFields } = _
      rw [hcontent₃, hcontent₂, hafter, htext]
      unfold Content.merge Response.content
      rw [hset]
      rfl

/-- What is set in a message is set in the builder it is turned into. -/
theorem content_toBuilder (hrt : rt.Lawful) {m : Response U} (hm : m.Made rt) :
    (m.toBuilder rt).1.content = { m.content with info := m.content.info.map rt.asText } ∧
      (m.toBuilder rt).1.Sound rt := by
  obtain ⟨hcontent, hdefaults⟩ := content_mergeFrom rt (sound_create rt).defaults m
  have hmerge : (Content.empty rt).merge rt m.content =
      { m.content with info := m.content.info.map rt.asText } := by
    show Content.mk (m.content.id.or none) (m.content.result.or none)
      ((m.content.info.map rt.asText).or none)
      (rt.mergeFrom rt.defaultInstance m.content.unknown) = _
    rw [Content.mergeFrom_default hrt hm.kept, Option.or_none, Option.or_none, Option.or_none]
  rw [content_create, hmerge] at hcontent
  refine ⟨hcontent, hdefaults, ?_⟩
  show rt.Kept (m.toBuilder rt).1.content.unknown
  rw [show (m.toBuilder rt).1.content = _ from hcontent]
  exact hm.kept

/-- A clone is the builder of the message that `buildPartial` gives. -/
theorem content_clone (hrt : rt.Lawful) (hb : b.Sound rt) :
    (b.clone rt).content = { b.content with info := b.content.info.map rt.asText } ∧
      (b.clone rt).Sound rt := by
  have hclone := content_toBuilder hrt (made_buildPartial hb)
  rw [content_buildPartial] at hclone
  exact hclone

/-- **The builder is a record of optional fields.** A call throws if and only
if it has no effect on the record, and otherwise has that one. -/
theorem call_eq (hrt : rt.Lawful) (hb : b.Sound rt) {c : Call U}
    (hother : ∀ other, c = .mergeFrom other → other.Made rt) :
    (b.call rt c).toOption.map content = c.effect rt b.content ∧
      ∀ b', b.call rt c = .ok b' → b'.Sound rt := by
  have hok : ∀ {b' : Builder U} {c' : Content U}, b'.content = c' → b'.Sound rt →
      (Except.ok b' : Except Thrown (Builder U)).toOption.map content = some c' ∧
        ∀ b'', (Except.ok b' : Except Thrown (Builder U)) = .ok b'' → b''.Sound rt := by
    intro b' c' hcontent hsound
    refine ⟨congrArg some hcontent, fun b'' h => ?_⟩
    cases h
    exact hsound
  cases c with
  | clear => exact hok (content_create rt) (sound_create rt)
  | setId value => exact hok (content_setId b value) ⟨hb.defaults.setId _, hb.kept⟩
  | clearId => exact hok (content_clearId b) ⟨hb.defaults.clearId, hb.kept⟩
  | setResult value => exact hok (content_setResult b value) ⟨hb.defaults.setResult _, hb.kept⟩
  | clearResult => exact hok (content_clearResult b) ⟨hb.defaults.clearResult, hb.kept⟩
  | getInfo =>
      obtain ⟨hcontent, hdefaults⟩ := content_getInfo rt hb.defaults
      refine hok hcontent ⟨hdefaults, ?_⟩
      show rt.Kept (b.getInfo rt).2.content.unknown
      rw [hcontent]
      exact hb.kept
  | setInfo value =>
      cases value with
      | none => exact ⟨rfl, fun b' h => nomatch h⟩
      | some s =>
          have hcontent := content_setInfoString b s
          exact hok hcontent ⟨hb.defaults.withInfo hcontent rfl rfl, hb.kept⟩
  | setInfoBytes value =>
      have hcontent := content_setInfoBytes b value
      exact hok hcontent ⟨hb.defaults.withInfo hcontent rfl rfl, hb.kept⟩
  | clearInfo => exact hok (content_clearInfo rt b) ⟨hb.defaults.clearInfo, hb.kept⟩
  | mergeFrom other =>
      obtain ⟨hcontent, hdefaults⟩ := content_mergeFrom rt hb.defaults other
      refine hok hcontent ⟨hdefaults, ?_⟩
      show rt.Kept (b.mergeFrom rt other).1.content.unknown
      rw [hcontent]
      exact hb.kept.mergeFrom hrt (hother other rfl).kept
  | mergeFromBytes data =>
      cases hmerge : b.mergeFromBytes rt data with
      | ok b' =>
          obtain ⟨fields, hread, hsound, hcontent⟩ := mergeFromBytes_eq_ok hb hmerge
          have heffect : Call.effect rt b.content (.mergeFromBytes data) =
              some (b.content.addFields rt fields) := by
            rw [Call.effect, read_eq_ok_iff.mpr hread]
            rfl
          rw [heffect]
          show (b.mergeFromBytes rt data).toOption.map content = _ ∧
            ∀ b'', b.mergeFromBytes rt data = .ok b'' → _
          rw [hmerge]
          exact hok hcontent hsound
      | error thrown =>
          have heffect : Call.effect rt b.content (.mergeFromBytes data) = none := by
            rw [Call.effect]
            split
            · rename_i fields rest hread
              have hfields := read_eq_ok_iff.mp hread
              obtain rfl := hfields.rest_of_last rfl
              obtain ⟨b', hok', -⟩ := mergeFromBytes_of_readsTo hfields hb
              cases hmerge.symm.trans hok'
            · rfl
          rw [heffect]
          show (b.mergeFromBytes rt data).toOption.map content = _ ∧
            ∀ b'', b.mergeFromBytes rt data = .ok b'' → _
          rw [hmerge]
          exact ⟨rfl, fun b'' h => nomatch h⟩
  | clone =>
      obtain ⟨hcontent, hsound⟩ := content_clone hrt hb
      exact hok hcontent hsound

theorem runCalls_eq (hrt : rt.Lawful) (hb : b.Sound rt) {calls : List (Call U)}
    (hothers : ∀ other, .mergeFrom other ∈ calls → other.Made rt) :
    (b.runCalls rt calls).toOption.map content = Call.effects rt b.content calls ∧
      ∀ b', b.runCalls rt calls = .ok b' → b'.Sound rt := by
  induction calls generalizing b with
  | nil =>
      refine ⟨rfl, fun b' h => ?_⟩
      cases h
      exact hb
  | cons c calls ih =>
      obtain ⟨heffect, hsound⟩ := call_eq hrt hb (c := c)
        fun other hc => hothers other (by rw [hc]; exact List.mem_cons_self)
      rw [Call.effects, ← heffect, runCalls]
      cases hcall : b.call rt c with
      | error thrown => exact ⟨rfl, fun b' h => nomatch h⟩
      | ok b' =>
          exact ih (hsound b' hcall) fun other hmem => hothers other (List.mem_cons_of_mem _ hmem)

end Builder

/-- The builders and messages that calls of the public methods give. -/
inductive Reached (rt : Runtime U) : Builder U ⊕ Response U → Prop where
  | newBuilder : Reached rt (.inl (Builder.create rt))
  | call {b b' : Builder U} {c : Call U} (builder : Reached rt (.inl b))
      (others : ∀ other, c = .mergeFrom other → Reached rt (.inr other))
      (returns : b.call rt c = .ok b') : Reached rt (.inl b')
  | buildPartial {b : Builder U} (builder : Reached rt (.inl b)) :
      Reached rt (.inr b.buildPartial)
  | ask {m : Response U} (a : Accessor) (message : Reached rt (.inr m)) :
      Reached rt (.inr (a.run rt m).2)
  | toBuilder {m : Response U} (message : Reached rt (.inr m)) :
      Reached rt (.inl (m.toBuilder rt).1)

namespace Reached

variable {rt : Runtime U}

/-- The invariant of builders and messages. -/
theorem invariant (hrt : rt.Lawful) {x : Builder U ⊕ Response U} (h : Reached rt x) :
    x.elim (Builder.Sound rt) (Response.Made rt) := by
  induction h with
  | newBuilder => exact Builder.sound_create rt
  | call builder others returns ihbuilder ihothers =>
      exact (Builder.call_eq hrt ihbuilder fun other hc => ihothers other hc).2 _ returns
  | buildPartial builder ih => exact Builder.made_buildPartial ih
  | ask a message ih =>
      obtain ⟨-, hcontent, hsound⟩ := Accessor.run_eq ih.sound a
      refine ⟨hsound, ?_⟩
      rw [hcontent]
      exact ih.kept
  | toBuilder message ih => exact (Builder.content_toBuilder hrt ih).2

theorem sound (hrt : rt.Lawful) {b : Builder U} (h : Reached rt (.inl b)) : b.Sound rt :=
  h.invariant hrt

theorem made (hrt : rt.Lawful) {m : Response U} (h : Reached rt (.inr m)) : m.Made rt :=
  h.invariant hrt

/-- All three fields set, then built. -/
theorem of_fields (rt : Runtime U) (info : String) (result id : Int32) :
    Reached rt (.inr ((((Builder.create rt).setInfoString info).setResult result).setId
      id).buildPartial) := by
  have hinfo : Reached rt (.inl ((Builder.create rt).setInfoString info)) :=
    .call (c := .setInfo (some info)) .newBuilder (fun _ hc => nomatch hc) rfl
  have hresult : Reached rt (.inl (((Builder.create rt).setInfoString info).setResult result)) :=
    .call (c := .setResult result) hinfo (fun _ hc => nomatch hc) rfl
  exact .buildPartial (.call (c := .setId id) hresult (fun _ hc => nomatch hc) rfl)

end Reached

namespace Builder

variable {rt : Runtime U}

/-- **The builder is a record of optional fields.** Any calls, one after
another, throw if and only if they have no effect on such a record. Otherwise
`build` returns if and only if its id is set, and the message answers by the
record whatever it is asked. -/
theorem build_runCalls (hrt : rt.Lawful) (calls : List (Call U))
    (hothers : ∀ other, .mergeFrom other ∈ calls → Reached rt (.inr other)) :
    match Call.effects rt (.empty rt) calls with
    | none => ∃ thrown, (create rt).runCalls rt calls = .error thrown
    | some c => ∃ b, (create rt).runCalls rt calls = .ok b ∧
        if c.id.isSome then
          ∃ m, b.build = .ok m ∧ ∀ accessors,
            (Accessor.runAll rt m accessors).1 = accessors.map (Accessor.answer rt c)
        else b.build = .error .uninitializedMessage := by
  obtain ⟨heffects, hsound⟩ :=
    runCalls_eq hrt (sound_create rt) fun other hmem => (hothers other hmem).made hrt
  rw [content_create] at heffects
  rw [← heffects]
  cases hrun : (create rt).runCalls rt calls with
  | error thrown => exact ⟨thrown, rfl⟩
  | ok b =>
      have hb := hsound b hrun
      have hbuild := build_eq hb
      refine ⟨b, rfl, ?_⟩
      rw [hasId_eq] at hbuild
      split
      · rename_i hid
        rw [if_pos hid] at hbuild
        obtain ⟨-, hcontent, hsound'⟩ := Response.isInitialized_eq (made_buildPartial hb).sound
        refine ⟨_, hbuild, fun accessors => ?_⟩
        rw [(Accessor.runAll_eq hsound' accessors).1, hcontent, content_buildPartial]
      · rename_i hid
        rw [if_neg hid] at hbuild
        exact hbuild

theorem build_runCalls_ann :
    ∃ b, (create (vectorRuntime fun _ => 1)).runCalls (vectorRuntime fun _ => 1)
        [.setResult 3, .setInfo (some "ann"), .setId 7, .clearResult] = .ok b ∧
      ∃ m, b.build = .ok m ∧ ∀ accessors,
        (Accessor.runAll (vectorRuntime fun _ => 1) m accessors).1 = accessors.map
          (Accessor.answer (vectorRuntime fun _ => 1) ⟨some 7, none, some [97, 110, 110], .nil⟩) :=
  build_runCalls (vectorRuntime_lawful fun _ => 1)
    [.setResult 3, .setInfo (some "ann"), .setId 7, .clearResult] fun other hmem => by simp at hmem

end Builder

/-! ## 2. Messages and their bytes -/

namespace Response

variable {rt : Runtime U} {m : Response U}

theorem hasId_eq (m : Response U) : m.hasId = m.content.id.isSome := by
  unfold content
  cases m.hasId <;> rfl

/-- Bytes are parsed as what their fields add up to. -/
theorem parseFrom_of_readsTo (rt : Runtime U) {data : List UInt8} {fields : Fields}
    (h : ReadsTo recursionLimit data fields 0 []) :
    if ((Content.empty rt).addFields rt fields).id.isSome then
      ∃ m, parseFrom rt data = .ok m ∧ Reached rt (.inr m) ∧ m.Made rt ∧
        m.content = (Content.empty rt).addFields rt fields
    else parseFrom rt data = .error .missingFields := by
  obtain ⟨b, hmerge, hsound, hcontent⟩ :=
    Builder.mergeFromBytes_of_readsTo h (Builder.sound_create rt)
  rw [Builder.content_create] at hcontent
  have hbuild := Builder.buildParsed_eq hsound
  rw [Builder.hasId_eq, hcontent] at hbuild
  have hmade := Builder.made_buildPartial hsound
  unfold parseFrom
  rw [hmerge]
  dsimp only
  rw [hbuild]
  split
  · have hreached : Reached rt (.inl b) :=
      .call (c := .mergeFromBytes data) .newBuilder (fun _ hc => nomatch hc) hmerge
    obtain ⟨-, hsame, hsound'⟩ := isInitialized_eq hmade.sound
    refine ⟨_, rfl, hreached.buildPartial.ask .isInitialized, ⟨hsound', ?_⟩, ?_⟩
    · rw [hsame]
      exact hmade.kept
    · rw [hsame, Builder.content_buildPartial, hcontent]
  · rfl

/-- Whatever is parsed is fields to the end. -/
theorem parseFrom_ok {data : List UInt8} (h : parseFrom rt data = .ok m) :
    Reached rt (.inr m) ∧ ∃ fields, ReadsTo recursionLimit data fields 0 [] ∧
      m.content = (Content.empty rt).addFields rt fields := by
  have hread : ∃ fields, ReadsTo recursionLimit data fields 0 [] := by
    unfold parseFrom at h
    split at h
    · cases h
    · rename_i hmerge
      exact Builder.readsTo_of_mergeFromBytes hmerge
  obtain ⟨fields, hfields⟩ := hread
  have hparse := parseFrom_of_readsTo rt hfields
  split at hparse
  · obtain ⟨m', hm', hreached, -, hcontent⟩ := hparse
    cases h.symm.trans hm'
    exact ⟨hreached, fields, hfields, hcontent⟩
  · cases h.symm.trans hparse

/-- The bytes of a message are its fields. -/
theorem readsTo_toByteArray (hrt : rt.Lawful) (hm : m.Made rt) {bytes : List UInt8}
    (h : (m.toByteArray rt).1 = .ok bytes) :
    ReadsTo recursionLimit bytes (m.content.fields rt) 0 [] := by
  rw [(toByteArray_eq hm.sound).1] at h
  obtain ⟨rfl, hlength⟩ := (Content.toByteArray_eq_ok_iff rt m.content bytes).mp h
  exact Content.readsTo_fields hrt hm.kept hlength

/-- **Round trip.** A message that calls of the public methods gave, and that
has an id, is parsed from its bytes: the parsed message answers whatever it is
asked, in whatever order, as the first one does. Without an id it is rejected
for that. -/
theorem parseFrom_toByteArray (hrt : rt.Lawful) (hm : Reached rt (.inr m)) {bytes : List UInt8}
    (h : (m.toByteArray rt).1 = .ok bytes) :
    if m.hasId then
      ∃ m', parseFrom rt bytes = .ok m' ∧ ∀ accessors,
        (Accessor.runAll rt m' accessors).1 = (Accessor.runAll rt m accessors).1
    else parseFrom rt bytes = .error .missingFields := by
  have hmade := hm.made hrt
  have hparse := parseFrom_of_readsTo rt (readsTo_toByteArray hrt hmade h)
  rw [Content.empty_addFields_fields hrt hmade.kept, ← hasId_eq] at hparse
  split at hparse
  · rename_i hid
    obtain ⟨m', hm', -, hmade', hcontent⟩ := hparse
    rw [if_pos hid]
    refine ⟨m', hm', fun accessors => ?_⟩
    rw [(Accessor.runAll_eq hmade'.sound accessors).1, hcontent,
      (Accessor.runAll_eq hmade.sound accessors).1]
  · rename_i hid
    rw [if_neg hid]
    exact hparse

theorem parseFrom_toByteArray_ann :
    ∃ m', parseFrom (vectorRuntime fun _ => 1) [8, 7, 16, 7, 26, 3, 97, 110, 110] = .ok m' ∧
      ∀ accessors, (Accessor.runAll (vectorRuntime fun _ => 1) m' accessors).1 =
        (Accessor.runAll (vectorRuntime fun _ => 1)
          ((((Builder.create (vectorRuntime fun _ => 1)).setInfoString "ann").setResult 7).setId
            7).buildPartial accessors).1 :=
  parseFrom_toByteArray (vectorRuntime_lawful fun _ => 1) (.of_fields _ "ann" 7 7) (by decide)

/-- **What is remembered never shows.** After any questions in any order a
message answers the next one as it would have at first. -/
theorem run_runAll (hrt : rt.Lawful) (hm : Reached rt (.inr m)) (accessors : List Accessor)
    (a : Accessor) : (a.run rt (Accessor.runAll rt m accessors).2).1 = (a.run rt m).1 := by
  have hmade := hm.made hrt
  obtain ⟨-, hcontent, hsound⟩ := Accessor.runAll_eq hmade.sound accessors
  rw [(Accessor.run_eq hsound a).1, hcontent, (Accessor.run_eq hmade.sound a).1]

theorem run_runAll_ann :
    (Accessor.getInfo.run (vectorRuntime fun _ => 1) (Accessor.runAll (vectorRuntime fun _ => 1)
      ((((Builder.create (vectorRuntime fun _ => 1)).setInfoString "ann").setResult 7).setId
        7).buildPartial [.writeTo, .getInfo, .toByteArray]).2).1 = .string "ann" :=
  run_runAll (vectorRuntime_lawful fun _ => 1) (.of_fields _ "ann" 7 7)
    [.writeTo, .getInfo, .toByteArray] .getInfo

end Response

/-! ## 3. Bytes put together and cut short -/

namespace Builder

variable {rt : Runtime U} {b : Builder U}

/-- **Bytes put together.** Behind bytes that are a message of their own, other
bytes are merged, or rejected, as they are by themselves. -/
theorem mergeFromBytes_append (hrt : rt.Lawful) (hb : Reached rt (.inl b)) {b₁ : Builder U}
    {first : List UInt8} (hfirst : b.mergeFromBytes rt first = .ok b₁) (second : List UInt8) :
    (b.mergeFromBytes rt (first ++ second)).toOption.map content =
      (b₁.mergeFromBytes rt second).toOption.map content := by
  have hsound := hb.sound hrt
  obtain ⟨fields, hfields, hsound₁, hcontent₁⟩ := mergeFromBytes_eq_ok hsound hfirst
  cases hsecond : b₁.mergeFromBytes rt second with
  | ok b₂ =>
      obtain ⟨more, hmore, -, hcontent₂⟩ := mergeFromBytes_eq_ok hsound₁ hsecond
      obtain ⟨b', hboth, -, hcontent⟩ := mergeFromBytes_of_readsTo (hfields.append hmore) hsound
      rw [hboth]
      show some b'.content = some b₂.content
      rw [hcontent, hcontent₂, hcontent₁, Content.addFields_append]
  | error thrown =>
      cases hboth : b.mergeFromBytes rt (first ++ second) with
      | error thrown' => rfl
      | ok b' =>
          obtain ⟨all, hall⟩ := readsTo_of_mergeFromBytes hboth
          obtain ⟨more, -, hmore⟩ := hfields.of_append hall
          obtain ⟨b₂, hok, -⟩ := mergeFromBytes_of_readsTo hmore hsound₁
          cases hsecond.symm.trans hok

theorem mergeFromBytes_append_seven :
    ((create (vectorRuntime fun _ => 1)).mergeFromBytes (vectorRuntime fun _ => 1)
        ([8, 7] ++ [16, 3, 8, 5])).toOption.map content =
      ((Builder.mk 1#32 7 0 (.string "") .nil).mergeFromBytes (vectorRuntime fun _ => 1)
        [16, 3, 8, 5]).toOption.map content :=
  mergeFromBytes_append (vectorRuntime_lawful fun _ => 1) .newBuilder rfl [16, 3, 8, 5]

/-- **Two ways to merge a message.** Its bytes can always be merged, and give
what `mergeFrom(Response)` gives if and only if `info` is UTF-8: that method
takes it as a text. -/
theorem mergeFromBytes_eq_mergeFrom_iff (hrt : rt.Lawful) (hb : Reached rt (.inl b))
    {m : Response U} (hm : Reached rt (.inr m)) {bytes : List UInt8}
    (h : (m.toByteArray rt).1 = .ok bytes) :
    ∃ b', b.mergeFromBytes rt bytes = .ok b' ∧
      (b'.content = (b.mergeFrom rt m).1.content ↔
        ∀ bs ∈ m.content.info, rt.isValidUtf8 bs = true) := by
  have hmade := hm.made hrt
  have hsound := hb.sound hrt
  obtain ⟨b', hmerge, -, hcontent⟩ :=
    mergeFromBytes_of_readsTo (Response.readsTo_toByteArray hrt hmade h) hsound
  rw [Content.addFields_fields hrt hmade.kept] at hcontent
  refine ⟨b', hmerge, ?_⟩
  rw [hcontent, (content_mergeFrom rt hsound.defaults m).1]
  unfold Content.merge
  cases hinfo : m.content.info with
  | none =>
      simp only [Option.map_none, true_iff]
      exact fun bs hbs => nomatch hbs
  | some bs =>
      have hvalid := rt.copyFromUtf8_toStringUtf8_iff bs
      simp only [Option.map_some, Option.some_or, Content.mk.injEq, Option.some.injEq, true_and,
        and_true, Option.mem_def, forall_eq']
      rw [← hvalid]
      exact eq_comm

/-- `info` is the byte 255, which is no text. -/
theorem mergeFromBytes_eq_mergeFrom_iff_255 :
    ∃ b', (create (vectorRuntime fun _ => 1)).mergeFromBytes (vectorRuntime fun _ => 1)
        [26, 1, 255] = .ok b' ∧
      (b'.content = ((create (vectorRuntime fun _ => 1)).mergeFrom (vectorRuntime fun _ => 1)
          ((create (vectorRuntime fun _ => 1)).setInfoBytes [255]).buildPartial).1.content ↔
        ∀ bs ∈ some [255], (vectorRuntime fun _ => 1).isValidUtf8 bs = true) :=
  mergeFromBytes_eq_mergeFrom_iff (vectorRuntime_lawful fun _ => 1) .newBuilder
    (.buildPartial (.call (c := .setInfoBytes [255]) .newBuilder (fun _ hc => nomatch hc) rfl))
    (by decide)

end Builder

/-- The first of some fields are none of them, or start with the one that is
there. -/
theorem append_eq_optionalField {number : Nat} {payload : Option Payload} {front tail rest : Fields}
    (h : front.append tail = (optionalField number payload).append rest) :
    front = .nil ∨
      ∃ front', front = (optionalField number payload).append front' ∧
        front'.append tail = rest := by
  cases payload with
  | none => exact .inr ⟨front, rfl, h⟩
  | some p =>
      cases front with
      | nil => exact .inl rfl
      | leaf number' p' front' =>
          injection h with hnumber hpayload hrest
          exact .inr ⟨front', by rw [hnumber, hpayload]; rfl, hrest⟩
      | group number' inside front' => cases h

namespace Content

variable {rt : Runtime U} {c : Content U}

/-- What the first fields of a message add up to: nothing, its id, its id and
result, or these and its `info`. -/
theorem addFields_front (hrt : rt.Lawful) (hkept : rt.Kept c.unknown) {front tail : Fields}
    (h : c.fields rt = front.append tail) :
    let content := (empty rt).addFields rt front
    content = empty rt ∨
      content.id = c.id ∧ (content.result = none ∧ content.info = none ∨
        content.result = c.result ∧ (content.info = none ∨ content.info = c.info)) := by
  rcases append_eq_optionalField h.symm with rfl | ⟨front₁, rfl, hrest₁⟩
  · exact .inl rfl
  right
  rw [addFields_append, addFields_id, show c.id.or (empty rt).id = c.id from Option.or_none]
  rcases append_eq_optionalField hrest₁ with rfl | ⟨front₂, rfl, hrest₂⟩
  · exact ⟨rfl, .inl ⟨rfl, rfl⟩⟩
  rw [addFields_append, addFields_result,
    show c.result.or (empty rt).result = c.result from Option.or_none]
  rcases append_eq_optionalField hrest₂ with rfl | ⟨front₃, rfl, hrest₃⟩
  · exact ⟨rfl, .inr ⟨rfl, .inl rfl⟩⟩
  rw [addFields_append, addFields_info, show c.info.or (empty rt).info = c.info from Option.or_none]
  -- the rest is unknown
  have htags : ∀ tag ∈ front₃.tags, knownTag tag = false := by
    obtain ⟨fs, hfs, -, -, hunknown⟩ := hkept
    intro tag htag
    refine hunknown tag (hrt.tags_asFields fs tag ?_)
    rw [← hfs, ← hrest₃, Fields.tags_append]
    exact List.mem_append_left _ htag
  rw [addFields_of_unknown _ _ htags]
  exact ⟨rfl, .inr ⟨rfl, .inr rfl⟩⟩

end Content

/-- **Bytes cut short.** If the first bytes of a message are parsed at all,
then with its id, and with its result and `info` or without them; what comes
later is missing first. -/
theorem Response.parseFrom_take {rt : Runtime U} (hrt : rt.Lawful) {m m' : Response U}
    (hm : Reached rt (.inr m)) {bytes : List UInt8} (h : (m.toByteArray rt).1 = .ok bytes) (k : Nat)
    (hparse : parseFrom rt (bytes.take k) = .ok m') :
    m'.hasId = true ∧ m'.content.id = m.content.id ∧
      (m'.content.result = none ∧ m'.content.info = none ∨
        m'.content.result = m.content.result ∧
          (m'.content.info = none ∨ m'.content.info = m.content.info)) := by
  have hmade := hm.made hrt
  obtain ⟨-, front, hfront, hcontent⟩ := parseFrom_ok hparse
  obtain ⟨-, tail, hfields, -⟩ := (readsTo_toByteArray hrt hmade h).of_take hfront
  have hid : m'.hasId = true := by
    have hresult := parseFrom_of_readsTo rt hfront
    rw [← hcontent, ← hasId_eq] at hresult
    by_contra hno
    rw [if_neg hno] at hresult
    cases hparse.symm.trans hresult
  rcases Content.addFields_front hrt hmade.kept hfields with hempty | hset
  · rw [hasId_eq, hcontent, hempty] at hid
    cases hid
  · rw [← hcontent] at hset
    exact ⟨hid, hset⟩

theorem Response.parseFrom_take_ann :
    let m : Response Fields := ((((Builder.create (vectorRuntime fun _ => 1)).setInfoString
      "ann").setResult 7).setId 7).buildPartial
    let m' : Response Fields := ⟨1#32, 7, 0, .string "", .nil, 1, -1⟩
    m'.hasId = true ∧ m'.content.id = m.content.id ∧
      (m'.content.result = none ∧ m'.content.info = none ∨
        m'.content.result = m.content.result ∧
          (m'.content.info = none ∨ m'.content.info = m.content.info)) :=
  parseFrom_take (vectorRuntime_lawful fun _ => 1) (.of_fields _ "ann" 7 7)
    (show _ = Except.ok [8, 7, 16, 7, 26, 3, 97, 110, 110] by decide) 2 rfl

end SpringDome.Protobuf
