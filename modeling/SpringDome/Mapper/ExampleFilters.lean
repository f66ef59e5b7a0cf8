/-
SpringDome.Mapper.ExampleFilters — the rows an example selects.

The abstract meaning of an example is a predicate on rows: all accepted calls
of some criteria hold, or no criteria has one. The where clause of the
mapper, rendered and parsed again, has that meaning, and the five statements
with an example have that where clause.
-/
import SpringDome.Mapper.StatementTheorems

namespace SpringDome.Mapper

open SpringDome.Bean
open SpringDome.Lib.DynamicSql
open SpringDome.Lib.Sql

/-! ## 1. The meaning of an example -/

/-- The row passes the example: SQL's *true* for every criterion of some
criteria that has one, or there is no such criteria. -/
def Selects (d : Dialect Obj) (row : String → Obj) (ored : List (List AndCall)) : Prop :=
  (∃ calls ∈ ored, (Criteria.build calls).isValid = true ∧
    ∀ call ∈ calls, call.accepted = true → call.predicate.eval d row = .holds) ∨
  ∀ calls ∈ ored, (Criteria.build calls).isValid = false

/-- The values of an example, in the order of its criterions. -/
def boundValues (ored : List (List AndCall)) : List Obj :=
  ored.flatMap fun calls => (calls.filter AndCall.accepted).flatMap AndCall.values

/-- Not an `in` or `not in` with an empty list. -/
def listFilled : AndCall → Bool
  | .integers _ (some []) | .strings _ (some []) => false
  | _ => true

/-- The predicates of the accepted calls. -/
def predicates (calls : List AndCall) : List (Predicate Obj) :=
  (calls.filter AndCall.accepted).map AndCall.predicate

theorem mem_predicates {calls : List AndCall} {p : Predicate Obj} :
    p ∈ predicates calls ↔ ∃ call ∈ calls, call.accepted = true ∧ call.predicate = p := by
  simp [predicates, and_assoc]

theorem allPrint_build (ored : List (List AndCall)) :
    AllPrint (ored.map Criteria.build) (ored.map predicates) := by
  rw [AllPrint, List.forall₂_map_left_iff, List.forall₂_map_right_iff]
  exact List.forall₂_same.mpr fun calls _ => Criteria.build_prints calls

/-- A criteria is valid when a call was accepted. -/
theorem isValid_build (calls : List AndCall) :
    (Criteria.build calls).isValid = true ↔ predicates calls ≠ [] := by
  have hlength : (Criteria.build calls).criteria.length = (predicates calls).length :=
    (Criteria.build_prints calls).length_eq
  rw [Criteria.isValid, hlength, decide_eq_true_eq, List.length_pos_iff]

/-! ## 2. Blocks -/

theorem mem_blocks {pss : List (List (Predicate Obj))} {b : Block Obj} :
    b ∈ pss.filterMap toBlock ↔ b.predicates ∈ pss := by
  rw [List.mem_filterMap]
  constructor
  · rintro ⟨ps, hps, hb⟩
    cases ps with
    | nil => cases hb
    | cons p ps =>
        obtain rfl := Option.some.inj hb
        exact hps
  · intro h
    exact ⟨b.predicates, h, rfl⟩

/-- All lists are filled. -/
theorem allComplete_build {ored : List (List AndCall)}
    (h : ∀ calls ∈ ored, ∀ call ∈ calls, listFilled call = true) :
    AllComplete ((ored.map predicates).filterMap toBlock) := by
  have hcomplete : ∀ call : AndCall, listFilled call = true → call.accepted = true →
      call.predicate.Complete := by
    intro call hfilled haccepted
    cases call with
    | nullary m => cases m <;> trivial
    | integer m value => trivial
    | integers m values =>
        obtain ⟨_ | ⟨v, vs⟩, rfl⟩ := Option.isSome_iff_exists.mp haccepted
        · cases hfilled
        · exact List.cons_ne_nil _ _
    | integerPair m value1 value2 => trivial
    | string m value => cases m <;> trivial
    | strings m values =>
        obtain ⟨_ | ⟨v, vs⟩, rfl⟩ := Option.isSome_iff_exists.mp haccepted
        · cases hfilled
        · exact List.cons_ne_nil _ _
    | stringPair m value1 value2 => trivial
  intro b hb p hp
  obtain ⟨calls, hcalls, heq⟩ := List.mem_map.mp (mem_blocks.mp hb)
  rw [← heq] at hp
  obtain ⟨call, hcall, haccepted, rfl⟩ := mem_predicates.mp hp
  exact hcomplete call (h calls hcalls call hcall) haccepted

/-- The filter of the blocks keeps the rows the example selects. -/
theorem keeps_iff_selects (d : Dialect Obj) (row : String → Obj) (ored : List (List AndCall)) :
    Keeps d row (filterOf ((ored.map predicates).filterMap toBlock)) ↔ Selects d row ored := by
  have hempty : (ored.map predicates).filterMap toBlock = [] ↔
      ∀ calls ∈ ored, (Criteria.build calls).isValid = false := by
    rw [List.filterMap_eq_nil_iff]
    simp only [List.forall_mem_map, ← Bool.not_eq_true, isValid_build, not_not]
    refine forall₂_congr ?_
    intro calls _
    cases predicates calls <;> simp [toBlock]
  have hsome : (∃ b ∈ (ored.map predicates).filterMap toBlock,
      ∀ p ∈ b.predicates, p.eval d row = .holds) ↔
      ∃ calls ∈ ored, (Criteria.build calls).isValid = true ∧
        ∀ call ∈ calls, call.accepted = true → call.predicate.eval d row = .holds := by
    constructor
    · rintro ⟨b, hb, hall⟩
      obtain ⟨calls, hcalls, heq⟩ := List.mem_map.mp (mem_blocks.mp hb)
      refine ⟨calls, hcalls, (isValid_build calls).mpr ?_, ?_⟩
      · rw [heq]
        exact List.cons_ne_nil _ _
      · intro call hcall haccepted
        exact hall _ (heq ▸ mem_predicates.mpr ⟨call, hcall, haccepted, rfl⟩)
    · rintro ⟨calls, hcalls, hvalid, hall⟩
      obtain ⟨p, ps, heq⟩ := List.exists_cons_of_ne_nil ((isValid_build calls).mp hvalid)
      refine ⟨(p, ps), mem_blocks.mpr (List.mem_map.mpr ⟨calls, hcalls, heq⟩), ?_⟩
      intro q hq
      have hmem : q ∈ predicates calls := heq ▸ hq
      obtain ⟨call, hcall, haccepted, rfl⟩ := mem_predicates.mp hmem
      exact hall call hcall haccepted
  rw [keeps_filterOf, hempty, hsome, Selects]
  exact or_comm

/-! ## 3. Values -/

theorem values_predicate (call : AndCall) : call.predicate.values = call.values := by
  have hin : ∀ (column : String) (negated : Bool) (vs : List Obj),
      (Predicate.inList negated (.column column) (vs.map .value)).values = vs := by
    intro column negated vs
    cases negated <;> exact values_listTokens vs
  cases call with
  | nullary m => cases m <;> rfl
  | integer m value => rfl
  | integers m values =>
      have hvalues := hin "id" m.negated ((values.getD []).map ofInteger)
      rw [List.map_map] at hvalues
      exact hvalues
  | integerPair m value1 value2 => cases m <;> rfl
  | string m value => cases m <;> rfl
  | strings m values =>
      have hvalues := hin "name" m.negated ((values.getD []).map ofString)
      rw [List.map_map] at hvalues
      exact hvalues
  | stringPair m value1 value2 => cases m <;> rfl

theorem values_filterTokens (bs : List (Block Obj)) :
    (filterTokens bs).filterMap Token.value? =
      bs.flatMap fun b => b.predicates.flatMap Predicate.values := by
  cases bs with
  | nil => rfl
  | cons b bs => exact values_dnfTokens b bs

/-- The values of the where clause. -/
theorem values_whereTokens (ored : List (List AndCall)) :
    (whereTokens (ored.map predicates)).filterMap Token.value? = boundValues ored := by
  rw [whereTokens, values_filterTokens]
  induction ored with
  | nil => rfl
  | cons calls ored ih =>
      have hcalls : (predicates calls).flatMap Predicate.values =
          (calls.filter AndCall.accepted).flatMap AndCall.values := by
        rw [predicates, List.flatMap_map]
        exact congrArg (List.flatMap · _) (funext values_predicate)
      have hrest : boundValues (calls :: ored) =
          (predicates calls).flatMap Predicate.values ++ boundValues ored := by
        rw [hcalls, boundValues, List.flatMap_cons]
        rfl
      rw [hrest, ← ih, List.map_cons]
      cases predicates calls with
      | nil => rfl
      | cons p ps => rfl

/-! ## 4. The statements with an example -/

/-- An order that is a list of columns, and a window without negative
numbers, where they are set. -/
structure ValidOrder (ex : UserExample) : Prop where
  orderByClause : ∀ clause ∈ ex.orderByClause, IsOrderList clause
  limit : ∀ n ∈ ex.limit, 0 ≤ n
  offset : ∀ n ∈ ex.offset, 0 ≤ n

/-- The five calls that take the example. -/
def exampleCalls (record : User) (ex : UserExample) : List MapperCall :=
  [.selectByExample (some ex), .countByExample (some ex), .deleteByExample (some ex),
    .updateByExample record (some ex), .updateByExampleSelective record (some ex)]

/-- What a call needs besides criteria: an order and a window, or a field to
write. -/
def MapperCall.Supplied : MapperCall → Prop
  | .selectByExample ex => ∀ e ∈ ex, ValidOrder e
  | .updateByExampleSelective record _ => hasField record = true
  | _ => True

/-- What is sent has the filter of the statement it parses to. -/
theorem filter_of_parse {b : BoundSql Obj} {sent : Statement Obj} (h : b.parse = some sent) :
    (∀ st, b.parse = some st → st.filter = sent.filter) ∧ b.Complete := by
  refine ⟨?_, sent, h⟩
  intro st hst
  rw [Option.some.inj (h.symm.trans hst)]

/-- Each of them filters by the blocks. -/
theorem exampleCalls_filter {cs : List Criteria} {pss : List (List (Predicate Obj))}
    {ex : UserExample} (h : AllPrint cs pss) (hored : ex.oredCriteria = cs.map some)
    (hcomplete : AllComplete (pss.filterMap toBlock)) (strict : Bool) (record : User) :
    ∀ call ∈ exampleCalls record ex, ∃ b, call.boundSql strict = .ok b ∧
      (∀ st, b.parse = some st → st.filter = filterOf (pss.filterMap toBlock)) ∧
      (call.Supplied → b.Complete) := by
  have hwhere : lastWhere (whereTokens pss) = some (filterOf (pss.filterMap toBlock)) :=
    lastWhere_complete hcomplete
  simp only [exampleCalls, List.forall_mem_cons]
  refine ⟨?_, ?_, ?_, ?_, ?_, fun _ hnil => by cases hnil⟩
  · obtain ⟨b, hb, hparse⟩ := sent_selectByExample h hored strict
    refine ⟨b, hb, ?_, ?_⟩
    · intro st hst
      rw [hparse] at hst
      obtain ⟨us, hus, hst⟩ := Option.bind_eq_some_iff.mp hst
      exact selectRest_filter hcomplete (endsFilter_spliced hus) hst
    · intro hsupplied
      have hvalid : ValidOrder ex := hsupplied ex rfl
      obtain ⟨us, st, hus, hst⟩ := selectRest_complete hcomplete hvalid.orderByClause hvalid.limit
        hvalid.offset
      exact ⟨st, by rw [hparse, hus, Option.bind_some]; exact hst⟩
  · obtain ⟨b, hb, hparse⟩ := sent_countByExample h hored strict
    rw [hwhere, Option.map_some] at hparse
    obtain ⟨hfilter, hcomplete⟩ := filter_of_parse hparse
    exact ⟨b, hb, hfilter, fun _ => hcomplete⟩
  · obtain ⟨b, hb, hparse⟩ := sent_deleteByExample h hored strict
    rw [hwhere, Option.map_some] at hparse
    obtain ⟨hfilter, hcomplete⟩ := filter_of_parse hparse
    exact ⟨b, hb, hfilter, fun _ => hcomplete⟩
  · obtain ⟨b, hb, hparse⟩ := sent_updateByExample h hored strict record
    rw [hwhere, Option.map_some] at hparse
    obtain ⟨hfilter, hcomplete⟩ := filter_of_parse hparse
    exact ⟨b, hb, hfilter, fun _ => hcomplete⟩
  · obtain ⟨b, hb, hparse⟩ := sent_updateByExampleSelective h hored strict record
    refine ⟨b, hb, ?_, ?_⟩
    · intro st hst
      rw [hparse] at hst
      split at hst
      · rw [hwhere, Option.map_some] at hst
        obtain rfl := Option.some.inj hst
        rfl
      · cases hst
    · intro hsupplied
      have hrecord : hasField record = true := hsupplied
      rw [if_pos hrecord, hwhere, Option.map_some] at hparse
      exact ⟨_, hparse⟩

/-- **The meaning of the where clause.** Both fragments render to one text with
one list of values, which is the values of the example in order. The text
parses to a filter that keeps exactly the rows the example selects, and this
is the filter of each of the five statements. They are complete, the select with
a valid order and window, the selective update with a field to write. -/
theorem whereClause_meaning {ored : List (List AndCall)}
    (hfilled : ∀ calls ∈ ored, ∀ call ∈ calls, listFilled call = true) {ex : UserExample}
    (hex : ex.oredCriteria = ored.map fun calls => some (Criteria.build calls)) (strict : Bool)
    (record : User) : ∃ (b : BoundSql Obj) (filter : Option (Condition Obj)),
      getBoundSql strict exampleWhereClause ex.toObj = .ok b ∧
      getBoundSql strict updateByExampleWhereClause (updateParameters record (some ex)) = .ok b ∧
      b.parseFilter = some filter ∧ b.bindings = boundValues ored ∧
      (∀ (d : Dialect Obj) (row : String → Obj), Keeps d row filter ↔ Selects d row ored) ∧
      ∀ call ∈ exampleCalls record ex, ∃ b', call.boundSql strict = .ok b' ∧
        (∀ st, b'.parse = some st → st.filter = filter) ∧
        (call.Supplied → b'.Complete) := by
  have hored : ex.oredCriteria = (ored.map Criteria.build).map some := by
    rw [hex, List.map_map]
    rfl
  have hprint := allPrint_build ored
  have hcomplete := allComplete_build hfilled
  obtain ⟨chunks, hrender, hchunks⟩ := whereFragment_render hprint
  refine ⟨toBoundSql (joinChunks chunks), filterOf ((ored.map predicates).filterMap toBlock),
    ?_, ?_, ?_, ?_, fun d row => keeps_iff_selects d row ored,
    exampleCalls_filter hprint hored hcomplete strict record⟩
  · have heval : Env.eval ⟨strict, ex.toObj, []⟩ (name "oredCriteria") =
        .ok (.list ((ored.map Criteria.build).map fun c => criteriaObj (some c))) := by
      rw [← oredCriteria_obj hored]
      rfl
    rw [getBoundSql, exampleWhereClause, hrender _ _ heval]
    rfl
  · have heval : Env.eval ⟨strict, updateParameters record (some ex), []⟩
        (property "example" "oredCriteria") =
        .ok (.list ((ored.map Criteria.build).map fun c => criteriaObj (some c))) := by
      rw [← oredCriteria_obj hored]
      rfl
    rw [getBoundSql, updateByExampleWhereClause, hrender _ _ heval]
    rfl
  · rw [BoundSql.parseFilter, hchunks.readSql, Option.bind_some]
    exact lastWhere_complete hcomplete
  · rw [← values_whereTokens, whereTokens]
    exact (valuesOf_joinChunks _).trans hchunks.values

/-- Three criteria, the one in the middle without criterions. -/
def threeCriteria : List (List AndCall) :=
  [[.integerPair .andIdNotBetween (some 1) (some 9), .string .andNameLike (some "a%")], [],
    [.strings .andNameIn (some [some "bob", none])]]

/-- The example that lists them. -/
def threeCriteriaExample : UserExample :=
  (Session.run [.createCriteria, .and 0 (.integerPair .andIdNotBetween (some 1) (some 9)),
    .and 0 (.string .andNameLike (some "a%")), .or, .or,
    .and 2 (.strings .andNameIn (some [some "bob", none]))]).toExample

theorem threeCriteria_meaning : ∃ (b : BoundSql Obj) (filter : Option (Condition Obj)),
    getBoundSql true exampleWhereClause threeCriteriaExample.toObj = .ok b ∧
    b.parseFilter = some filter ∧ b.bindings = boundValues threeCriteria ∧
    ∀ (d : Dialect Obj) (row : String → Obj), Keeps d row filter ↔ Selects d row threeCriteria := by
  have hfilled : ∀ calls ∈ threeCriteria, ∀ call ∈ calls, listFilled call = true := by decide
  have hex : threeCriteriaExample.oredCriteria =
      threeCriteria.map fun calls => some (Criteria.build calls) := rfl
  obtain ⟨b, filter, hb, -, hfilter, hvalues, hkeeps, -⟩ :=
    whereClause_meaning hfilled hex true ⟨none, none⟩
  exact ⟨b, filter, hb, hfilter, hvalues, hkeeps⟩

end SpringDome.Mapper
