/-
SpringDome.Mapper.WellFormed — which calls send a complete statement.

The guards of the templates cover less than the arguments the interface
takes. `MapperCall.sound` is the exact condition, and there are four ways to
miss it: an `in` or `not in` with an empty list, a null among the criteria, a
record without a field to write, and a null example where the guard
`_parameter != null` looks at the map of the two parameters of an update.
-/
import SpringDome.Mapper.ExampleFilters

namespace SpringDome.Mapper

open SpringDome.Bean
open SpringDome.Lib.DynamicSql
open SpringDome.Lib.Sql

/-! ## 1. The condition -/

/-- No null among the criteria, and no list criterion without values. -/
def whereSound (ex : UserExample) : Bool :=
  ex.oredCriteria.all fun c => c.any fun c => c.criteria.all fun k => !k.emptyList

/-- The arguments of the call are ones its template covers. -/
def MapperCall.sound (strict : Bool) : MapperCall → Bool
  | .countByExample ex | .deleteByExample ex => ex.all whereSound
  | .selectByExample ex => (ex.isSome || !strict) && ex.all whereSound
  | .updateByExample _ ex => ex.any whereSound
  | .updateByExampleSelective record ex => hasField record && ex.any whereSound
  | .insertSelective record => hasField record
  | .updateByPrimaryKeySelective record => record.name.isSome
  | .deleteByPrimaryKey _ | .insert _ | .selectByPrimaryKey _ | .updateByPrimaryKey _ => true

/-- The example among the arguments. -/
def MapperCall.example? : MapperCall → Option UserExample
  | .countByExample ex | .deleteByExample ex | .selectByExample ex
  | .updateByExampleSelective _ ex | .updateByExample _ ex => ex
  | _ => none

/-- The call sends a complete statement. -/
def Sends (strict : Bool) (call : MapperCall) : Prop :=
  ∃ b, call.boundSql strict = .ok b ∧ b.Complete

/-! What is sent, from what is rendered. -/

/-- A template that renders to a statement. -/
theorem sends_of_renders {strict : Bool} {call : MapperCall} {ts : List (Token Obj)}
    (h : Renders call.template ⟨strict, call.parameter, []⟩ ts) {st : Statement Obj}
    (hst : statement ts = some st) : Sends strict call := by
  obtain ⟨b, hb, hparse⟩ := h.getBoundSql
  exact ⟨b, hb, st, hparse.trans hst⟩

/-- What is sent is no statement. -/
theorem not_sends_of_parse {strict : Bool} {call : MapperCall} {b : BoundSql Obj}
    (hb : call.boundSql strict = .ok b) (hnone : b.parse = none) : ¬ Sends strict call := by
  rintro ⟨b', hb', st, hst⟩
  obtain rfl := Except.ok.inj (hb.symm.trans hb')
  rw [hnone] at hst
  cases hst

/-- And a template that renders to something else. -/
theorem not_sends_of_renders {strict : Bool} {call : MapperCall} {ts : List (Token Obj)}
    (h : Renders call.template ⟨strict, call.parameter, []⟩ ts) (hnone : statement ts = none) :
    ¬ Sends strict call := by
  obtain ⟨b, hb, hparse⟩ := h.getBoundSql
  exact not_sends_of_parse hb (hparse.trans hnone)

theorem not_sends_of_raises {strict : Bool} {call : MapperCall}
    (h : Raises call.template ⟨strict, call.parameter, []⟩) : ¬ Sends strict call := by
  rintro ⟨b, hb, -⟩
  exact h.getBoundSql b hb

/-! ## 2. Examples -/

/-- An example without a null criteria, as its criteria print. -/
theorem exists_allPrint {ored : List (Option Criteria)}
    (hbuilt : ∀ c, some c ∈ ored → ∃ calls, c = Criteria.build calls) (hnull : none ∉ ored) :
    ∃ cs pss, ored = cs.map some ∧ AllPrint cs pss := by
  induction ored with
  | nil => exact ⟨[], [], rfl, .nil⟩
  | cons c ored ih =>
      obtain ⟨cs, pss, hored, hprint⟩ := ih (fun c hc => hbuilt c (List.mem_cons_of_mem _ hc))
        fun hmem => hnull (List.mem_cons_of_mem _ hmem)
      cases c with
      | none => exact absurd List.mem_cons_self hnull
      | some c =>
          obtain ⟨calls, rfl⟩ := hbuilt c List.mem_cons_self
          exact ⟨_ :: cs, _ :: pss, by rw [hored]; rfl, .cons (Criteria.build_prints calls) hprint⟩

theorem all_complete_iff {ks : List Criterion} {ps : List (Predicate Obj)}
    (h : List.Forall₂ Criterion.Prints ks ps) :
    (ks.all fun k => !k.emptyList) = true ↔ ∀ p ∈ ps, p.Complete := by
  rw [List.all_eq_true]
  induction h with
  | nil => simp
  | cons hk _ ih =>
      rw [List.forall_mem_cons, List.forall_mem_cons, ih, hk.complete, Bool.not_eq_true']

/-- The condition on the criterions, on their predicates. -/
theorem whereSound_iff {ex : UserExample} {cs : List Criteria} {pss : List (List (Predicate Obj))}
    (hored : ex.oredCriteria = cs.map some) (h : AllPrint cs pss) :
    whereSound ex = true ↔ AllComplete (pss.filterMap toBlock) := by
  have hlists : whereSound ex = true ↔ ∀ ps ∈ pss, ∀ p ∈ ps, p.Complete := by
    rw [whereSound, hored, List.all_map]
    clear hored
    induction h with
    | nil => simp
    | cons hc _ ih =>
        rw [List.all_cons, Bool.and_eq_true, ih, List.forall_mem_cons, ← all_complete_iff hc]
        rfl
  rw [hlists]
  constructor
  · intro hall b hb
    exact hall _ (mem_blocks.mp hb)
  · intro hall ps hps p hp
    cases ps with
    | nil => cases hp
    | cons q ps => exact hall (q, ps) (mem_blocks.mpr hps) p hp

/-- A null criteria has no property `valid`. -/
theorem raises_where {e : Env} {collection : Path} {ored : List (Option Criteria)}
    (hcollection : e.eval collection = .ok (.list (ored.map criteriaObj)))
    (hnull : none ∈ ored) : Raises (whereFragment collection) e := by
  have hiterable : ForEach.iterable e ⟨collection, "criteria", none, none, some "or"⟩ =
      .ok (ored.map criteriaObj) := by
    rw [ForEach.iterable, hcollection]
    rfl
  have hitem : Raises criteriaItem (e.bind "criteria" .null) := ⟨.sourceIsNull "valid", rfl⟩
  have hloop := Raises.round hiterable ⟨_, List.mem_map_of_mem hnull, hitem⟩
  exact .seqRight (.seqLeft (.trim (.seqRight (.seqLeft hloop _) _) _) _) _

/-- The where clause of a statement with a parameter. -/
theorem raises_unless {e : Env} {fragment : SqlNode}
    (htest : (Test.notNull (name "_parameter")).eval e = .ok true) (h : Raises fragment e) :
    Raises (unlessParameterNull fragment) e :=
  .ifTrue htest (.seqRight (.seqLeft h _) _)

/-- With a null criteria no statement with the example is sent. -/
theorem raises_of_null {ex : UserExample} (hnull : none ∈ ex.oredCriteria) (strict : Bool)
    (record : User) : ∀ call ∈ exampleCalls record ex, ¬ Sends strict call := by
  have hexample : Raises (unlessParameterNull exampleWhereClause) ⟨strict, ex.toObj, []⟩ :=
    raises_unless rfl (raises_where rfl hnull)
  have hupdate : Raises (unlessParameterNull updateByExampleWhereClause)
      ⟨strict, updateParameters record (some ex), []⟩ :=
    raises_unless rfl (raises_where rfl hnull)
  simp only [exampleCalls, List.forall_mem_cons]
  refine ⟨not_sends_of_raises ?_, not_sends_of_raises ?_, not_sends_of_raises ?_,
    not_sends_of_raises ?_, not_sends_of_raises ?_, fun _ hnil => by cases hnil⟩
  · exact .seqRight (.seqRight (.seqRight (.seqRight (.seqRight (.seqLeft hexample _) _) _) _) _) _
  · exact .seqRight (.seqLeft hexample _) _
  · exact .seqRight (.seqLeft hexample _) _
  · exact .seqRight (.seqLeft hupdate _) _
  · exact .seqRight (.seqRight (.seqRight (.seqLeft hupdate _) _) _) _

/-! ## 3. Calls with an example -/

theorem exists_incomplete {bs : List (Block Obj)} (h : ¬ AllComplete bs) :
    ∃ c ∈ bs, ∃ q ∈ c.predicates, ¬ q.Complete := by
  simp only [AllComplete, not_forall] at h
  obtain ⟨c, hc, q, hq, hbad⟩ := h
  exact ⟨c, hc, q, hq, hbad⟩

section Example

variable {cs : List Criteria} {pss : List (List (Predicate Obj))} {ex : UserExample}

/-- A statement that ends with the where clause. -/
theorem sends_iff_complete {strict : Bool} {call : MapperCall} {b : BoundSql Obj}
    (hb : call.boundSql strict = .ok b) {f : Option (Condition Obj) → Statement Obj}
    (hparse : b.parse = (lastWhere (whereTokens pss)).map f) :
    Sends strict call ↔ AllComplete (pss.filterMap toBlock) := by
  constructor
  · intro hsends
    by_contra hincomplete
    have hbad := exists_incomplete hincomplete
    refine not_sends_of_parse hb ?_ hsends
    rw [hparse, whereTokens, lastWhere_incomplete hbad, Option.map_none]
  · intro hcomplete
    rw [whereTokens, lastWhere_complete hcomplete] at hparse
    exact ⟨b, hb, _, hparse⟩

theorem sends_selectByExample (h : AllPrint cs pss) (hored : ex.oredCriteria = cs.map some)
    (hvalid : ValidOrder ex) (strict : Bool) :
    Sends strict (.selectByExample (some ex)) ↔ AllComplete (pss.filterMap toBlock) := by
  obtain ⟨b, hb, hparse⟩ := sent_selectByExample h hored strict
  constructor
  · intro hsends
    by_contra hincomplete
    have hbad := exists_incomplete hincomplete
    refine not_sends_of_parse hb ?_ hsends
    rw [hparse, Option.bind_eq_none_iff]
    intro us _
    exact selectRest_incomplete hbad us
  · intro hcomplete
    obtain ⟨us, st, hus, hst⟩ := selectRest_complete hcomplete hvalid.orderByClause hvalid.limit
      hvalid.offset
    exact ⟨b, hb, st, by rw [hparse, hus, Option.bind_some]; exact hst⟩

/-- Without a field to assign there is no update, whatever the example. -/
theorem sends_updateByExampleSelective (h : AllPrint cs pss) (hored : ex.oredCriteria = cs.map some)
    (strict : Bool) (record : User) :
    Sends strict (.updateByExampleSelective record (some ex)) ↔
      hasField record = true ∧ AllComplete (pss.filterMap toBlock) := by
  obtain ⟨b, hb, hparse⟩ := sent_updateByExampleSelective h hored strict record
  cases hfield : hasField record with
  | true =>
      rw [if_pos hfield] at hparse
      simpa using sends_iff_complete hb hparse
  | false =>
      rw [if_neg (Bool.eq_false_iff.mp hfield)] at hparse
      exact iff_of_false (not_sends_of_parse hb hparse) fun hsound =>
        Bool.false_ne_true hsound.1

end Example

/-- A built example lists a null criteria, or its criteria print. -/
theorem null_or_allPrint {ex : UserExample} (h : ∃ calls, ex = (Session.run calls).toExample) :
    none ∈ ex.oredCriteria ∧ whereSound ex = false ∨
      none ∉ ex.oredCriteria ∧ ∃ cs pss, ex.oredCriteria = cs.map some ∧ AllPrint cs pss := by
  obtain ⟨calls, rfl⟩ := h
  by_cases hnull : none ∈ (Session.run calls).toExample.oredCriteria
  · refine .inl ⟨hnull, ?_⟩
    rw [whereSound, List.all_eq_false]
    exact ⟨none, hnull, Bool.false_ne_true⟩
  · exact .inr ⟨hnull, exists_allPrint (fun c hc => Session.exists_build calls hc) hnull⟩

/-- The calls with an example. -/
theorem sends_example {ex : UserExample} (hbuilt : ∃ calls, ex = (Session.run calls).toExample)
    (hvalid : ValidOrder ex) (strict : Bool) (record : User) :
    ∀ call ∈ exampleCalls record ex, (Sends strict call ↔ call.sound strict = true) := by
  rcases null_or_allPrint hbuilt with ⟨hnull, hsound⟩ | ⟨-, cs, pss, hored, hprint⟩
  · intro call hcall
    refine ⟨fun h => absurd h (raises_of_null hnull strict record call hcall), ?_⟩
    intro h
    revert call
    simp only [exampleCalls, List.forall_mem_cons]
    simp [MapperCall.sound, hsound]
  · have hwhere := whereSound_iff hored hprint
    simp only [exampleCalls, List.forall_mem_cons]
    refine ⟨?_, ?_, ?_, ?_, ?_, fun _ hnil => by cases hnil⟩
    · rw [sends_selectByExample hprint hored hvalid, ← hwhere]
      simp [MapperCall.sound]
    · obtain ⟨b, hb, hparse⟩ := sent_countByExample hprint hored strict
      rw [sends_iff_complete hb hparse, ← hwhere]
      simp [MapperCall.sound]
    · obtain ⟨b, hb, hparse⟩ := sent_deleteByExample hprint hored strict
      rw [sends_iff_complete hb hparse, ← hwhere]
      simp [MapperCall.sound]
    · obtain ⟨b, hb, hparse⟩ := sent_updateByExample hprint hored strict record
      rw [sends_iff_complete hb hparse, ← hwhere]
      simp [MapperCall.sound]
    · rw [sends_updateByExampleSelective hprint hored, ← hwhere]
      simp [MapperCall.sound]

/-! ## 4. Calls without an example -/

/-- Without a parameter there is no where clause. -/
theorem renders_noParameter (strict : Bool) (fragment : SqlNode) :
    Renders (unlessParameterNull fragment) ⟨strict, .null, []⟩ [] := .ifFalse _ rfl _

theorem sends_countByExample_null (strict : Bool) : Sends strict (.countByExample none) := by
  have hfront := renders_text "\n    select count(*) from t_user\n    " countFront rfl rfl
  have hall := (hfront ⟨strict, .null, []⟩).seq
    ((renders_noParameter strict exampleWhereClause).seq
      ((renders_blank "\n  " (by decide) _).seq .skip))
  exact sends_of_renders hall rfl

theorem sends_deleteByExample_null (strict : Bool) : Sends strict (.deleteByExample none) := by
  have hfront := renders_text "\n    delete from t_user\n    " deleteFront rfl rfl
  have hall := (hfront ⟨strict, .null, []⟩).seq
    ((renders_noParameter strict exampleWhereClause).seq
      ((renders_blank "\n  " (by decide) _).seq .skip))
  exact sends_of_renders hall rfl

/-- A null example has no `distinct`: the lenient reading takes it as false,
the strict one raises. -/
theorem sends_selectByExample_null (strict : Bool) :
    Sends strict (.selectByExample none) ↔ strict = false := by
  cases strict with
  | true =>
      have htest : (Test.truthy (name "distinct")).eval ⟨true, .null, []⟩ =
          .error (.sourceIsNull "distinct") := rfl
      have hraises : Raises selectByExample ⟨true, .null, []⟩ :=
        .seqRight (.seqLeft (.test htest _) _) _
      exact iff_of_false (not_sends_of_raises hraises) Bool.noConfusion
  | false =>
      have hblank := fun e => renders_blank "\n    " (by decide) e
      have htail : Renders selectTail ⟨false, .null, []⟩ [] :=
        (hblank _).seq ((Renders.ifFalse (.notNull (name "orderByClause")) rfl _).seq
          ((hblank _).seq ((Renders.ifFalse (.notNull (name "limit")) rfl _).seq
            ((renders_blank "\n  " (by decide) _).seq .skip))))
      have hall := (renders_text "\n    select\n    " [.keyword .select]
          rfl rfl ⟨false, .null, []⟩).seq
        ((Renders.ifFalse (.truthy (name "distinct")) rfl (text "\n      distinct\n    ")).seq
        ((hblank _).seq ((renders_baseColumnList _).seq
        ((renders_text "\n    from t_user\n    " [.keyword .from, .ident "t_user"]
          rfl rfl _).seq
        ((renders_noParameter false exampleWhereClause).seq htail)))))
      exact iff_of_true (sends_of_renders hall rfl) rfl

/-- An update of a null example has a parameter, the map of both. -/
theorem not_sends_update_null (strict : Bool) (record : User) :
    ¬ Sends strict (.updateByExample record none) ∧
      ¬ Sends strict (.updateByExampleSelective record none) := by
  have hloop : ForEach.iterable ⟨strict, updateParameters record none, []⟩
      ⟨property "example" "oredCriteria", "criteria", none, none, some "or"⟩ =
        .error (.sourceIsNull "oredCriteria") := rfl
  have hfragment : Raises (unlessParameterNull updateByExampleWhereClause)
      ⟨strict, updateParameters record none, []⟩ :=
    raises_unless rfl (.seqRight (.seqLeft (.trim (.seqRight (.seqLeft
      (.collection hloop _) _) _) _) _) _)
  constructor
  · exact not_sends_of_raises (.seqRight (.seqLeft hfragment _) _)
  · exact not_sends_of_raises (.seqRight (.seqRight (.seqRight (.seqLeft hfragment _) _) _) _)

/-- A record without a field has no columns to insert. -/
theorem sends_insertSelective (strict : Bool) (record : User) :
    Sends strict (.insertSelective record) ↔ hasField record = true := by
  have hrenders := renders_insertSelective strict record
  obtain ⟨id, name⟩ := record
  cases id with
  | none =>
      cases name with
      | none => exact iff_of_false (not_sends_of_renders hrenders rfl) Bool.noConfusion
      | some name => exact iff_of_true (sends_of_renders hrenders rfl) rfl
  | some id =>
      cases name with
      | none => exact iff_of_true (sends_of_renders hrenders rfl) rfl
      | some name => exact iff_of_true (sends_of_renders hrenders rfl) rfl

theorem sends_updateByPrimaryKeySelective (strict : Bool) (record : User) :
    Sends strict (.updateByPrimaryKeySelective record) ↔ record.name.isSome = true := by
  have hrenders := renders_updateByPrimaryKeySelective strict record
  obtain ⟨id, name⟩ := record
  cases name with
  | none => exact iff_of_false (not_sends_of_renders hrenders rfl) Bool.noConfusion
  | some name => exact iff_of_true (sends_of_renders hrenders rfl) rfl

/-- The four statements without a guard. -/
theorem sends_unguarded (strict : Bool) (id : Option Int32) (record : User) :
    Sends strict (.selectByPrimaryKey id) ∧ Sends strict (.deleteByPrimaryKey id) ∧
      Sends strict (.insert record) ∧ Sends strict (.updateByPrimaryKey record) :=
  ⟨sends_of_renders (renders_selectByPrimaryKey strict id) rfl,
    sends_of_renders (renders_deleteByPrimaryKey strict id) rfl,
    sends_of_renders (renders_insert strict record) rfl,
    sends_of_renders (renders_updateByPrimaryKey strict record) rfl⟩

/-! ## 5. All calls -/

/-- **Which calls send a complete statement.** The example, if there is one, is
built by public calls, with a valid order and window; the record is any. -/
theorem sends_iff_sound {call : MapperCall}
    (hexample : ∀ ex ∈ call.example?, (∃ calls, ex = (Session.run calls).toExample) ∧ ValidOrder ex)
    (strict : Bool) : Sends strict call ↔ call.sound strict = true := by
  cases call with
  | countByExample ex =>
      cases ex with
      | none => exact iff_of_true (sends_countByExample_null strict) rfl
      | some ex =>
          obtain ⟨hbuilt, hvalid⟩ := hexample ex rfl
          exact sends_example hbuilt hvalid strict ⟨none, none⟩ _ (by simp [exampleCalls])
  | deleteByExample ex =>
      cases ex with
      | none => exact iff_of_true (sends_deleteByExample_null strict) rfl
      | some ex =>
          obtain ⟨hbuilt, hvalid⟩ := hexample ex rfl
          exact sends_example hbuilt hvalid strict ⟨none, none⟩ _ (by simp [exampleCalls])
  | selectByExample ex =>
      cases ex with
      | none =>
          rw [sends_selectByExample_null]
          cases strict <;> simp [MapperCall.sound]
      | some ex =>
          obtain ⟨hbuilt, hvalid⟩ := hexample ex rfl
          exact sends_example hbuilt hvalid strict ⟨none, none⟩ _ (by simp [exampleCalls])
  | updateByExampleSelective record ex =>
      cases ex with
      | none =>
          refine iff_of_false (not_sends_update_null strict record).2 ?_
          simp [MapperCall.sound]
      | some ex =>
          obtain ⟨hbuilt, hvalid⟩ := hexample ex rfl
          exact sends_example hbuilt hvalid strict record _ (by simp [exampleCalls])
  | updateByExample record ex =>
      cases ex with
      | none => exact iff_of_false (not_sends_update_null strict record).1 Bool.noConfusion
      | some ex =>
          obtain ⟨hbuilt, hvalid⟩ := hexample ex rfl
          exact sends_example hbuilt hvalid strict record _ (by simp [exampleCalls])
  | insertSelective record => exact sends_insertSelective strict record
  | updateByPrimaryKeySelective record => exact sends_updateByPrimaryKeySelective strict record
  | selectByPrimaryKey id => exact iff_of_true (sends_unguarded strict id ⟨none, none⟩).1 rfl
  | deleteByPrimaryKey id => exact iff_of_true (sends_unguarded strict id ⟨none, none⟩).2.1 rfl
  | insert record => exact iff_of_true (sends_unguarded strict none record).2.2.1 rfl
  | updateByPrimaryKey record => exact iff_of_true (sends_unguarded strict none record).2.2.2 rfl

/-- An example with an order and a window. -/
def lastTen : UserExample :=
  (Session.run [.createCriteria, .and 0 (.integer .andIdGreaterThan (some 3)),
    .setOrderByClause (some "name desc, id"), .setLimit (some 10), .setOffset (some 20)]).toExample

theorem lastTen_sends : Sends true (.selectByExample (some lastTen)) := by
  have hvalid : ValidOrder lastTen := {
    orderByClause := by
      rintro clause ⟨⟩
      exact ⟨⟨"name", some true⟩, [⟨"id", none⟩], by decide⟩
    limit := by
      rintro n ⟨⟩
      decide
    offset := by
      rintro n ⟨⟩
      decide }
  have hexample : ∀ ex ∈ (MapperCall.selectByExample (some lastTen)).example?,
      (∃ calls, ex = (Session.run calls).toExample) ∧ ValidOrder ex := by
    rintro ex ⟨⟩
    exact ⟨⟨_, rfl⟩, hvalid⟩
  exact (sends_iff_sound hexample true).mpr rfl

/-- Two examples that the builder accepts: an `in` with an empty list, and a
null criteria. -/
def emptyIn : UserExample :=
  (Session.run [.createCriteria, .and 0 (.integers .andIdIn (some []))]).toExample

def nullCriteria : UserExample := (Session.run [.orAdd none]).toExample

/-- One call for each way to miss the condition. -/
theorem calls_not_sent :
    ¬ Sends false (.updateByExample ⟨some 1, some "ann"⟩ none) ∧
      ¬ Sends false (.insertSelective ⟨none, none⟩) ∧
      ¬ Sends false (.updateByPrimaryKeySelective ⟨some 1, none⟩) ∧
      ¬ Sends false (.deleteByExample (some emptyIn)) ∧
      ¬ Sends false (.countByExample (some nullCriteria)) := by
  have hunset : ∀ ored, ValidOrder ⟨none, false, ored, none, none⟩ := fun ored =>
    ⟨(fun _ h => by cases h), (fun _ h => by cases h), (fun _ h => by cases h)⟩
  have hempty := @sends_example emptyIn ⟨_, rfl⟩ (hunset _) false ⟨none, none⟩
    (.deleteByExample (some emptyIn)) (by simp [exampleCalls])
  have hnull := @sends_example nullCriteria ⟨_, rfl⟩ (hunset _) false ⟨none, none⟩
    (.countByExample (some nullCriteria)) (by simp [exampleCalls])
  refine ⟨(not_sends_update_null false _).1, ?_, ?_, ?_, ?_⟩
  · rw [sends_insertSelective]
    decide
  · rw [sends_updateByPrimaryKeySelective]
    decide
  · rw [hempty]
    decide
  · rw [hnull]
    decide

end SpringDome.Mapper
