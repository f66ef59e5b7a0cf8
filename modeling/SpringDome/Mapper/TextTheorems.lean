/-
SpringDome.Mapper.TextTheorems — no value reaches the SQL text.

Two runs of calls on an example that differ only in the values handed to the
`and*` methods leave examples that differ only there (`Session.Alike`): every
criterion has the same condition and the same kind, and a list of values the
same length. On such examples each template takes the same branches and
splices the same text, which is all that noninterference of the template
language asks for.

How the proofs go. `Alike` is kept by every call (`Session.Alike.step`), and so
by a run. A list's length is part of it, since a loop over the list writes one
mark for each value, and so is the kind of a criterion, which the clause asks
for. A `null` argument is refused and changes nothing, so two such calls must be
refused together: `AndCall.Alike` has no `null` on either side, and the same
call on both stands for the rest.

Templates are then compared node by node (`agree_cons`, `criterionChoice_agree`).
A mark may stand for different values, a spliced text may not.
-/
import SpringDome.Bean.UserExampleTheorems
import SpringDome.Mapper.UserMapper

namespace SpringDome.Bean

open SpringDome.Lib.DynamicSql

/-! ## 1. Examples that differ in values only -/

structure Criterion.Alike (c d : Criterion) : Prop where
  condition : c.condition = d.condition
  noValue : c.noValue = d.noValue
  singleValue : c.singleValue = d.singleValue
  betweenValue : c.betweenValue = d.betweenValue
  listValue : c.listValue = d.listValue
  items : c.listValue = true →
    ∃ as bs, c.value = .list as ∧ d.value = .list bs ∧ as.length = bs.length

def Criteria.Alike (c d : Criteria) : Prop := List.Forall₂ Criterion.Alike c.criteria d.criteria

/-- The same method with other values; none of them is null. -/
inductive AndCall.Alike : AndCall → AndCall → Prop where
  | nullary (m : NullaryMethod) : Alike (.nullary m) (.nullary m)
  | integer (m : IntegerMethod) (v w : Int32) : Alike (.integer m (some v)) (.integer m (some w))
  | integers (m : IntegersMethod) {vs ws : List (Option Int32)} (h : vs.length = ws.length) :
      Alike (.integers m (some vs)) (.integers m (some ws))
  | integerPair (m : IntegerPairMethod) (v v' w w' : Int32) :
      Alike (.integerPair m (some v) (some v')) (.integerPair m (some w) (some w'))
  | string (m : StringMethod) (v w : String) : Alike (.string m (some v)) (.string m (some w))
  | strings (m : StringsMethod) {vs ws : List (Option String)} (h : vs.length = ws.length) :
      Alike (.strings m (some vs)) (.strings m (some ws))
  | stringPair (m : StringPairMethod) (v v' w w' : String) :
      Alike (.stringPair m (some v) (some v')) (.stringPair m (some w) (some w'))

/-- The same call on the example, up to the values of an `and*` method. -/
inductive ExampleCall.Alike : ExampleCall → ExampleCall → Prop where
  | refl (call : ExampleCall) : Alike call call
  | and (criteria : Nat) {a b : AndCall} (h : a.Alike b) :
      Alike (.and criteria a) (.and criteria b)

structure UserExample.Alike (e f : UserExample) : Prop where
  orderByClause : e.orderByClause = f.orderByClause
  distinct : e.distinct = f.distinct
  oredCriteria : List.Forall₂ (Option.Rel Criteria.Alike) e.oredCriteria f.oredCriteria
  limit : e.limit = f.limit
  offset : e.offset = f.offset

structure Session.Alike (s t : Session) : Prop where
  handedOut : List.Forall₂ Criteria.Alike s.handedOut t.handedOut
  orderByClause : s.orderByClause = t.orderByClause
  distinct : s.distinct = t.distinct
  oredCriteria : s.oredCriteria = t.oredCriteria
  limit : s.limit = t.limit
  offset : s.offset = t.offset

/-- The same fields are null. -/
def User.Alike (u v : User) : Prop := u.id.isSome = v.id.isSome ∧ u.name.isSome = v.name.isSome

/-! ## 2. The same calls with other values -/

theorem Criterion.Kind.alike {c : Criterion} (h : c.Kind) : c.Alike c where
  condition := rfl
  noValue := rfl
  singleValue := rfl
  betweenValue := rfl
  listValue := rfl
  items := by
    intro hlist
    cases h with
    | noValue condition => cases hlist
    | singleValue condition v h => cases hlist
    | betweenValue condition v w => cases hlist
    | listValue condition items => exact ⟨items, items, rfl, rfl, rfl⟩

/-- Two lists of one length. -/
theorem Criterion.alike_list (condition : String) {as bs : List Obj} (h : as.length = bs.length) :
    (Criterion.ofValue condition (.list as) none).Alike (.ofValue condition (.list bs) none) :=
  ⟨rfl, rfl, rfl, rfl, rfl, fun _ => ⟨as, bs, rfl, rfl, h⟩⟩

/-- Two values that are no lists. -/
theorem Criterion.alike_single (condition : String) {v w : Obj} (hv : ∀ items, v ≠ .list items)
    (hw : ∀ items, w ≠ .list items) :
    (Criterion.ofValue condition v none).Alike (.ofValue condition w none) := by
  have hsingle : ∀ {u : Obj}, (∀ items, u ≠ .list items) →
      Criterion.ofValue condition u none =
        ⟨condition, u, .null, false, true, false, false, none⟩ := by
    intro u hu
    cases u with
    | list items => exact absurd rfl (hu items)
    | _ => rfl
  rw [hsingle hv, hsingle hw]
  exact ⟨rfl, rfl, rfl, rfl, rfl, fun h => by cases h⟩

theorem Criterion.alike_between (condition : String) (v v' w w' : Obj) :
    (Criterion.ofBetween condition v v' none).Alike (.ofBetween condition w w' none) :=
  ⟨rfl, rfl, rfl, rfl, rfl, fun h => by cases h⟩

theorem Criteria.Alike.add {c d : Criteria} (h : c.Alike d) {k l : Criterion} (hkl : k.Alike l) :
    (c.add k).Alike (d.add l) := List.rel_append h (.cons hkl .nil)

/-- One `and*` call with other values. -/
theorem Criteria.Alike.call {c d : Criteria} (h : c.Alike d) {a b : AndCall} (hab : a.Alike b) :
    (c.call a).Alike (d.call b) := by
  cases hab with
  | nullary m =>
      obtain ⟨condition, -, hcall⟩ := m.call_eq
      rw [hcall, hcall]
      exact h.add (Criterion.Kind.noValue condition).alike
  | integer m v w =>
      obtain ⟨condition, -, hcall⟩ := m.call_eq
      rw [hcall, hcall]
      exact h.add (Criterion.alike_single condition (by simp) (by simp))
  | @integers m vs ws hlength =>
      obtain ⟨condition, -, hcall⟩ := m.call_eq
      rw [hcall, hcall]
      exact h.add (Criterion.alike_list condition (by simpa using hlength))
  | integerPair m v v' w w' =>
      obtain ⟨condition, -, hcall⟩ := m.call_eq
      rw [hcall, hcall]
      exact h.add (Criterion.alike_between condition _ _ _ _)
  | string m v w =>
      obtain ⟨condition, -, hcall⟩ := m.call_eq
      rw [hcall, hcall]
      exact h.add (Criterion.alike_single condition (by simp) (by simp))
  | @strings m vs ws hlength =>
      obtain ⟨condition, -, hcall⟩ := m.call_eq
      rw [hcall, hcall]
      exact h.add (Criterion.alike_list condition (by simpa using hlength))
  | stringPair m v v' w w' =>
      obtain ⟨condition, -, hcall⟩ := m.call_eq
      rw [hcall, hcall]
      exact h.add (Criterion.alike_between condition _ _ _ _)

/-- The same call on both, null arguments included. -/
theorem Criteria.Alike.callSame {c d : Criteria} (h : c.Alike d) (a : AndCall) :
    (c.call a).Alike (d.call a) := by
  cases haccepted : a.accepted with
  | false =>
      rw [call_refused haccepted, call_refused haccepted]
      exact h
  | true =>
      obtain ⟨k, hk, hcall⟩ := call_accepted haccepted
      rw [hcall, hcall]
      exact h.add hk.kind.alike

/-- The same change at one position. -/
theorem forall₂_modify {α : Type} {R : α → α → Prop} {as bs : List α} (h : List.Forall₂ R as bs)
    {f g : α → α} (hfg : ∀ a b, R a b → R (f a) (g b)) (i : Nat) :
    List.Forall₂ R (as.modify i f) (bs.modify i g) := by
  induction h generalizing i with
  | nil => simp
  | cons hab htail ih =>
      cases i with
      | zero => simpa using ⟨hfg _ _ hab, htail⟩
      | succ i => simpa using ⟨hab, ih i⟩

/-- One call on the example keeps the two runs alike. -/
theorem Session.Alike.step {s t : Session} (h : s.Alike t) {a b : ExampleCall} (hab : a.Alike b) :
    (s.step a).Alike (t.step b) := by
  have hlength : s.handedOut.length = t.handedOut.length := h.handedOut.length_eq
  have hnew : List.Forall₂ Criteria.Alike (s.handedOut ++ [.new]) (t.handedOut ++ [.new]) :=
    List.rel_append h.handedOut (.cons .nil .nil)
  cases hab with
  | and criteria hcall =>
      exact { h with handedOut := forall₂_modify h.handedOut (fun _ _ hcd => hcd.call hcall) _ }
  | refl call =>
      cases a with
      | setOrderByClause orderByClause => exact { h with orderByClause := rfl }
      | setDistinct distinct => exact { h with distinct := rfl }
      | setLimit limit => exact { h with limit := rfl }
      | setOffset offset => exact { h with offset := rfl }
      | clear => exact { h with oredCriteria := rfl, orderByClause := rfl, distinct := rfl }
      | and criteria call =>
          exact { h with
            handedOut := forall₂_modify h.handedOut (fun _ _ hcd => hcd.callSame call) _ }
      | or =>
          exact { h with
            handedOut := hnew
            oredCriteria := by
              show s.oredCriteria ++ [some s.handedOut.length] = t.oredCriteria ++ _
              rw [h.oredCriteria, hlength] }
      | createCriteria =>
          rw [Session.step, Session.step, Session.createCriteria_eq, Session.createCriteria_eq]
          exact { h with
            handedOut := hnew
            oredCriteria := by simp only [h.oredCriteria, hlength] }
      | orAdd criteria =>
          simp only [Session.step, hlength]
          split
          · exact { h with oredCriteria := congrArg (· ++ _) h.oredCriteria }
          · exact h

/-- Two runs of alike calls. -/
theorem Session.run_alike {calls₁ calls₂ : List ExampleCall}
    (h : List.Forall₂ ExampleCall.Alike calls₁ calls₂) :
    (Session.run calls₁).Alike (Session.run calls₂) := by
  have hfrom : ∀ {s t : Session}, s.Alike t →
      (calls₁.foldl Session.step s).Alike (calls₂.foldl Session.step t) := by
    induction h with
    | nil => exact fun hst => hst
    | cons hab _ ih => exact fun hst => ih (hst.step hab)
  exact hfrom ⟨.nil, rfl, rfl, rfl, rfl, rfl⟩

theorem Session.Alike.toExample {s t : Session} (h : s.Alike t) :
    s.toExample.Alike t.toExample where
  orderByClause := h.orderByClause
  distinct := h.distinct
  limit := h.limit
  offset := h.offset
  oredCriteria := by
    simp only [Session.toExample, h.oredCriteria]
    rw [List.forall₂_map_left_iff, List.forall₂_map_right_iff]
    refine List.forall₂_same.mpr ?_
    intro c _
    cases c with
    | none => exact .none
    | some ref =>
        have hlength := h.handedOut.length_eq
        by_cases href : ref < s.handedOut.length
        · have href' : ref < t.handedOut.length := hlength ▸ href
          simp only [Option.bind_some, List.getElem?_eq_getElem href,
            List.getElem?_eq_getElem href']
          exact .some (h.handedOut.get href href')
        · have href' : ¬ ref < t.handedOut.length := hlength ▸ href
          simp only [Option.bind_some, List.getElem?_eq_none (Nat.le_of_not_lt href),
            List.getElem?_eq_none (Nat.le_of_not_lt href')]
          exact .none

end SpringDome.Bean

namespace SpringDome.Mapper

open SpringDome.Bean
open SpringDome.Lib.DynamicSql
open SpringDome.Lib.Sql (BoundSql)

/-! ## 3. The where fragments take the same way -/

theorem agree_nil (e₁ e₂ : Env) : (SqlNode.text []).Agree e₁ e₂ := fun _ h => by cases h

theorem agree_cons {e₁ e₂ : Env} {p : Piece} {ps : List Piece} (hp : p.Agree e₁ e₂)
    (hps : (SqlNode.text ps).Agree e₁ e₂) : (SqlNode.text (p :: ps)).Agree e₁ e₂ :=
  List.forall_mem_cons.mpr ⟨hp, hps⟩

/-- Literal text in front. -/
theorem agree_lit {e₁ e₂ : Env} {s : String} {ps : List Piece}
    (hps : (SqlNode.text ps).Agree e₁ e₂) : (SqlNode.text (.lit s :: ps)).Agree e₁ e₂ :=
  agree_cons trivial hps

/-- A placeholder whose two values exist. -/
theorem agree_param {e₁ e₂ : Env} {p : Path} {ps : List Piece} {v w : Obj}
    (hv : e₁.paramValue p = .ok v) (hw : e₂.paramValue p = .ok w)
    (hps : (SqlNode.text ps).Agree e₁ e₂) : (SqlNode.text (.param p :: ps)).Agree e₁ e₂ := by
  refine agree_cons ?_ hps
  rw [Piece.Agree, hv, hw]
  exact .ok trivial

/-- A raw substitution of one object. -/
theorem agree_splice {e₁ e₂ : Env} {p : Path} {ps : List Piece} {v : Obj}
    (hv : e₁.eval p = .ok v) (hw : e₂.eval p = .ok v)
    (hps : (SqlNode.text ps).Agree e₁ e₂) : (SqlNode.text (.splice p :: ps)).Agree e₁ e₂ := by
  refine agree_cons ?_ hps
  rw [Piece.Agree, hv, hw]

theorem text_agree (s : String) (e₁ e₂ : Env) : (text s).Agree e₁ e₂ := agree_lit (agree_nil e₁ e₂)

/-- A condition with a value-free environment. -/
theorem criterionChoice_agree {c d : Criterion} (h : c.Alike d) (e₁ e₂ : Env) :
    criterionChoice.Agree (e₁.bind "criterion" c.toObj) (e₂.bind "criterion" d.toObj) := by
  have hcondition : (e₂.bind "criterion" d.toObj).eval (property "criterion" "condition") =
      .ok (.str c.condition) := by
    rw [h.condition]
    rfl
  refine ⟨congrArg Except.ok h.noValue, ?_, fun _ =>
    ⟨congrArg Except.ok h.singleValue, ?_, fun _ =>
    ⟨congrArg Except.ok h.betweenValue, ?_, fun _ =>
    ⟨congrArg Except.ok h.listValue, fun hlist => ⟨?_, ?_, text_agree _ _ _, trivial⟩,
      fun _ => trivial⟩⟩⟩⟩
  · intro _
    exact agree_lit (agree_splice rfl hcondition (agree_lit (agree_nil _ _)))
  · intro _
    exact agree_lit (agree_splice rfl hcondition (agree_lit (agree_param rfl rfl
      (agree_lit (agree_nil _ _)))))
  · intro _
    exact agree_lit (agree_splice rfl hcondition (agree_lit (agree_param rfl rfl
      (agree_lit (agree_param rfl rfl (agree_lit (agree_nil _ _)))))))
  · exact agree_lit (agree_splice rfl hcondition (agree_lit (agree_nil _ _)))
  · -- as many placeholders in both lists
    obtain ⟨as, bs, has, hbs, hlength⟩ := h.items (Except.ok.inj hlist)
    have hiter : ∀ (e : Env) (k : Criterion) (items : List Obj), k.value = .list items →
        ForEach.iterable (e.bind "criterion" k.toObj)
          ⟨property "criterion" "value", "listItem", some "(", some ")", some ","⟩ = .ok items := by
      intro e k items hk
      have heval : (e.bind "criterion" k.toObj).eval (property "criterion" "value") =
          .ok (.list items) := by
        rw [← hk]
        rfl
      rw [ForEach.iterable, heval]
      rfl
    rw [listItems, SqlNode.Agree, hiter e₁ c as has, hiter e₂ d bs hbs]
    refine .ok (List.forall₂_iff_get.mpr ⟨hlength, ?_⟩)
    intro i _ _
    exact agree_lit (agree_param rfl rfl (agree_lit (agree_nil _ _)))

theorem criteriaItem_agree {c d : Option Criteria} (h : Option.Rel Criteria.Alike c d)
    (e₁ e₂ : Env) : criteriaItem.Agree (e₁.bind "criteria" (criteriaObj c))
      (e₂.bind "criteria" (criteriaObj d)) := by
  cases h with
  | none => exact ⟨text_agree _ _ _, ⟨rfl, fun h => by cases h⟩, text_agree _ _ _, trivial⟩
  | @some c d h =>
      have hvalid : c.isValid = d.isValid := by rw [Criteria.isValid, Criteria.isValid, h.length_eq]
      refine ⟨text_agree _ _ _, ⟨congrArg Except.ok hvalid, fun _ => ⟨text_agree _ _ _,
        ⟨text_agree _ _ _, ?_, text_agree _ _ _, trivial⟩, text_agree _ _ _, trivial⟩⟩,
        text_agree _ _ _, trivial⟩
      refine SameResult.ok ?_
      rw [List.forall₂_map_left_iff, List.forall₂_map_right_iff]
      exact h.imp fun k l hkl => ⟨text_agree _ _ _, criterionChoice_agree hkl _ _,
        text_agree _ _ _, trivial⟩

/-- A where fragment over alike lists of criteria. -/
theorem whereFragment_agree {collection : Path} {e₁ e₂ : Env} {cs ds : List (Option Criteria)}
    (h : List.Forall₂ (Option.Rel Criteria.Alike) cs ds)
    (hcs : e₁.eval collection = .ok (.list (cs.map criteriaObj)))
    (hds : e₂.eval collection = .ok (.list (ds.map criteriaObj))) :
    (whereFragment collection).Agree e₁ e₂ := by
  refine ⟨text_agree _ _ _, ⟨text_agree _ _ _, ?_, text_agree _ _ _, trivial⟩, text_agree _ _ _,
    trivial⟩
  simp only [SqlNode.Agree, ForEach.iterable, hcs, hds]
  refine SameResult.ok ?_
  rw [List.forall₂_map_left_iff, List.forall₂_map_right_iff]
  exact h.imp fun c d hcd => criteriaItem_agree hcd _ _

/-! ## 4. The eleven statements -/

section Example

variable {e f : UserExample}

/-- The where clause of a statement whose parameter is the example. -/
theorem exampleWhere_agree (h : e.Alike f) (strict : Bool) :
    (unlessParameterNull exampleWhereClause).Agree
      ⟨strict, e.toObj, []⟩ ⟨strict, f.toObj, []⟩ :=
  ⟨rfl, fun _ => ⟨text_agree _ _ _, whereFragment_agree h.oredCriteria rfl rfl,
    text_agree _ _ _, trivial⟩⟩

/-- The where clause of an update with a record and an example. -/
theorem updateWhere_agree (h : e.Alike f) (strict : Bool) (u v : User) :
    (unlessParameterNull updateByExampleWhereClause).Agree
      ⟨strict, updateParameters u (some e), []⟩ ⟨strict, updateParameters v (some f), []⟩ :=
  ⟨rfl, fun _ => ⟨text_agree _ _ _, whereFragment_agree h.oredCriteria rfl rfl,
    text_agree _ _ _, trivial⟩⟩

theorem countByExample_agree (h : e.Alike f) (strict : Bool) :
    countByExample.Agree ⟨strict, e.toObj, []⟩ ⟨strict, f.toObj, []⟩ :=
  ⟨text_agree _ _ _, exampleWhere_agree h strict, text_agree _ _ _, trivial⟩

theorem deleteByExample_agree (h : e.Alike f) (strict : Bool) :
    deleteByExample.Agree ⟨strict, e.toObj, []⟩ ⟨strict, f.toObj, []⟩ :=
  ⟨text_agree _ _ _, exampleWhere_agree h strict, text_agree _ _ _, trivial⟩

theorem selectByExample_agree (h : e.Alike f) (strict : Bool) :
    selectByExample.Agree ⟨strict, e.toObj, []⟩ ⟨strict, f.toObj, []⟩ := by
  have hwhere := exampleWhere_agree h strict
  obtain ⟨orderByClause, distinct, cs, limit, offset⟩ := e
  obtain ⟨orderByClause', distinct', ds, limit', offset'⟩ := f
  obtain ⟨rfl, rfl, -, rfl, rfl⟩ := h
  have hspliced : ∀ p : Path, p = name "orderByClause" ∨ p = name "limit" ∨ p = name "offset" →
      ∃ o, Env.eval ⟨strict, UserExample.toObj ⟨orderByClause, distinct, cs, limit, offset⟩, []⟩ p =
          .ok o ∧
        Env.eval ⟨strict, UserExample.toObj ⟨orderByClause, distinct, ds, limit, offset⟩, []⟩ p =
          .ok o := by
    rintro p (rfl | rfl | rfl)
    · exact ⟨_, rfl, rfl⟩
    · exact ⟨_, rfl, rfl⟩
    · exact ⟨_, rfl, rfl⟩
  obtain ⟨order, horder, horder'⟩ := hspliced (name "orderByClause") (.inl rfl)
  obtain ⟨lim, hlimit, hlimit'⟩ := hspliced (name "limit") (.inr (.inl rfl))
  obtain ⟨off, hoffset, hoffset'⟩ := hspliced (name "offset") (.inr (.inr rfl))
  refine ⟨text_agree _ _ _, ⟨rfl, fun _ => text_agree _ _ _⟩, text_agree _ _ _, text_agree _ _ _,
    text_agree _ _ _, hwhere, text_agree _ _ _, ⟨rfl, ?_⟩, text_agree _ _ _,
    ⟨rfl, fun _ => ⟨text_agree _ _ _, ⟨rfl, ?_⟩, text_agree _ _ _, ⟨rfl, ?_⟩,
      text_agree _ _ _, trivial⟩⟩, text_agree _ _ _, trivial⟩
  · intro _
    exact agree_lit (agree_splice horder horder' (agree_lit (agree_nil _ _)))
  · intro _
    exact agree_lit (agree_splice hoffset hoffset' (agree_lit (agree_splice hlimit hlimit'
      (agree_lit (agree_nil _ _)))))
  · intro _
    exact agree_lit (agree_splice hlimit hlimit' (agree_lit (agree_nil _ _)))

end Example

/-! A statement with a record tests its fields for null. -/

theorem ofInteger_isNull (a : Option Int32) : (ofInteger a).isNull = !a.isSome := by
  cases a <;> rfl

theorem ofString_isNull (a : Option String) : (ofString a).isNull = !a.isSome := by
  cases a <;> rfl

section Record

variable {u v : User}

/-- A test of a field that is the id of the record in both runs. -/
theorem id_test (h : u.Alike v) {e₁ e₂ : Env} {p : Path} (h₁ : e₁.eval p = .ok (ofInteger u.id))
    (h₂ : e₂.eval p = .ok (ofInteger v.id)) :
    (Test.notNull p).eval e₁ = (Test.notNull p).eval e₂ := by
  rw [Test.eval, Test.eval, h₁, h₂, Except.map, Except.map, ofInteger_isNull, ofInteger_isNull, h.1]

theorem name_test (h : u.Alike v) {e₁ e₂ : Env} {p : Path} (h₁ : e₁.eval p = .ok (ofString u.name))
    (h₂ : e₂.eval p = .ok (ofString v.name)) :
    (Test.notNull p).eval e₁ = (Test.notNull p).eval e₂ := by
  rw [Test.eval, Test.eval, h₁, h₂, Except.map, Except.map, ofString_isNull, ofString_isNull, h.2]

theorem insert_agree (strict : Bool) (u v : User) :
    insert.Agree ⟨strict, u.toObj, []⟩ ⟨strict, v.toObj, []⟩ :=
  agree_lit (agree_param rfl rfl (agree_lit (agree_param rfl rfl (agree_lit (agree_nil _ _)))))

theorem insertSelective_agree (h : u.Alike v) (strict : Bool) :
    insertSelective.Agree ⟨strict, u.toObj, []⟩ ⟨strict, v.toObj, []⟩ :=
  ⟨text_agree _ _ _,
    ⟨text_agree _ _ _, ⟨id_test h rfl rfl, fun _ => text_agree _ _ _⟩, text_agree _ _ _,
      ⟨name_test h rfl rfl, fun _ => text_agree _ _ _⟩, text_agree _ _ _, trivial⟩,
    text_agree _ _ _,
    ⟨text_agree _ _ _,
      ⟨id_test h rfl rfl, fun _ => agree_lit (agree_param rfl rfl (agree_lit (agree_nil _ _)))⟩,
      text_agree _ _ _,
      ⟨name_test h rfl rfl, fun _ => agree_lit (agree_param rfl rfl (agree_lit (agree_nil _ _)))⟩,
      text_agree _ _ _, trivial⟩,
    text_agree _ _ _, trivial⟩

theorem updateByExampleSelective_agree {e f : UserExample} (hex : e.Alike f) (h : u.Alike v)
    (strict : Bool) : updateByExampleSelective.Agree
      ⟨strict, updateParameters u (some e), []⟩ ⟨strict, updateParameters v (some f), []⟩ :=
  ⟨text_agree _ _ _,
    ⟨text_agree _ _ _,
      ⟨id_test h rfl rfl, fun _ => agree_lit (agree_param rfl rfl (agree_lit (agree_nil _ _)))⟩,
      text_agree _ _ _,
      ⟨name_test h rfl rfl, fun _ => agree_lit (agree_param rfl rfl (agree_lit (agree_nil _ _)))⟩,
      text_agree _ _ _, trivial⟩,
    text_agree _ _ _, updateWhere_agree hex strict u v, text_agree _ _ _, trivial⟩

theorem updateByExample_agree {e f : UserExample} (hex : e.Alike f) (strict : Bool) (u v : User) :
    updateByExample.Agree
      ⟨strict, updateParameters u (some e), []⟩ ⟨strict, updateParameters v (some f), []⟩ :=
  ⟨agree_lit (agree_param rfl rfl (agree_lit (agree_param rfl rfl (agree_lit (agree_nil _ _))))),
    updateWhere_agree hex strict u v, text_agree _ _ _, trivial⟩

theorem updateByPrimaryKeySelective_agree (h : u.Alike v) (strict : Bool) :
    updateByPrimaryKeySelective.Agree ⟨strict, u.toObj, []⟩ ⟨strict, v.toObj, []⟩ :=
  ⟨text_agree _ _ _,
    ⟨text_agree _ _ _,
      ⟨name_test h rfl rfl, fun _ => agree_lit (agree_param rfl rfl (agree_lit (agree_nil _ _)))⟩,
      text_agree _ _ _, trivial⟩,
    agree_lit (agree_param rfl rfl (agree_lit (agree_nil _ _))), trivial⟩

theorem updateByPrimaryKey_agree (strict : Bool) (u v : User) :
    updateByPrimaryKey.Agree ⟨strict, u.toObj, []⟩ ⟨strict, v.toObj, []⟩ :=
  agree_lit (agree_param rfl rfl (agree_lit (agree_param rfl rfl (agree_lit (agree_nil _ _)))))

end Record

/-- The value of a bare placeholder when the parameter is an id, or null. -/
theorem ofInteger_paramValue (strict : Bool) (id : Option Int32) :
    ∃ v, Env.paramValue ⟨strict, ofInteger id, []⟩ (name "id") = .ok v := by
  cases id with
  | none => exact ⟨_, rfl⟩
  | some n => exact ⟨_, rfl⟩

theorem selectByPrimaryKey_agree (strict : Bool) (id₁ id₂ : Option Int32) :
    selectByPrimaryKey.Agree ⟨strict, ofInteger id₁, []⟩ ⟨strict, ofInteger id₂, []⟩ := by
  obtain ⟨v, hv⟩ := ofInteger_paramValue strict id₁
  obtain ⟨w, hw⟩ := ofInteger_paramValue strict id₂
  exact ⟨text_agree _ _ _, text_agree _ _ _,
    agree_lit (agree_param hv hw (agree_lit (agree_nil _ _))), trivial⟩

theorem deleteByPrimaryKey_agree (strict : Bool) (id₁ id₂ : Option Int32) :
    deleteByPrimaryKey.Agree ⟨strict, ofInteger id₁, []⟩ ⟨strict, ofInteger id₂, []⟩ := by
  obtain ⟨v, hv⟩ := ofInteger_paramValue strict id₁
  obtain ⟨w, hw⟩ := ofInteger_paramValue strict id₂
  exact agree_lit (agree_param hv hw (agree_lit (agree_nil _ _)))

/-! ## 5. Two runs -/

/-- The same method of the interface, on alike arguments. An id is only ever
bound. -/
inductive MapperCall.Alike : MapperCall → MapperCall → Prop where
  | countByExample {e f : UserExample} (h : e.Alike f) :
      Alike (.countByExample (some e)) (.countByExample (some f))
  | deleteByExample {e f : UserExample} (h : e.Alike f) :
      Alike (.deleteByExample (some e)) (.deleteByExample (some f))
  | deleteByPrimaryKey (id₁ id₂ : Option Int32) :
      Alike (.deleteByPrimaryKey id₁) (.deleteByPrimaryKey id₂)
  | insert (u v : User) : Alike (.insert u) (.insert v)
  | insertSelective {u v : User} (h : u.Alike v) : Alike (.insertSelective u) (.insertSelective v)
  | selectByExample {e f : UserExample} (h : e.Alike f) :
      Alike (.selectByExample (some e)) (.selectByExample (some f))
  | selectByPrimaryKey (id₁ id₂ : Option Int32) :
      Alike (.selectByPrimaryKey id₁) (.selectByPrimaryKey id₂)
  | updateByExampleSelective {u v : User} {e f : UserExample} (h : u.Alike v) (hex : e.Alike f) :
      Alike (.updateByExampleSelective u (some e)) (.updateByExampleSelective v (some f))
  | updateByExample (u v : User) {e f : UserExample} (hex : e.Alike f) :
      Alike (.updateByExample u (some e)) (.updateByExample v (some f))
  | updateByPrimaryKeySelective {u v : User} (h : u.Alike v) :
      Alike (.updateByPrimaryKeySelective u) (.updateByPrimaryKeySelective v)
  | updateByPrimaryKey (u v : User) : Alike (.updateByPrimaryKey u) (.updateByPrimaryKey v)

/-- Alike calls send the same text, or fail alike. -/
theorem MapperCall.Alike.sql_eq {a b : MapperCall} (h : a.Alike b) (strict : Bool) :
    (a.boundSql strict).map BoundSql.sql = (b.boundSql strict).map BoundSql.sql := by
  cases h with
  | countByExample h => exact getBoundSql_agree (countByExample_agree h strict)
  | deleteByExample h => exact getBoundSql_agree (deleteByExample_agree h strict)
  | deleteByPrimaryKey id₁ id₂ => exact getBoundSql_agree (deleteByPrimaryKey_agree strict id₁ id₂)
  | insert u v => exact getBoundSql_agree (insert_agree strict u v)
  | insertSelective h => exact getBoundSql_agree (insertSelective_agree h strict)
  | selectByExample h => exact getBoundSql_agree (selectByExample_agree h strict)
  | selectByPrimaryKey id₁ id₂ => exact getBoundSql_agree (selectByPrimaryKey_agree strict id₁ id₂)
  | updateByExampleSelective h hex =>
      exact getBoundSql_agree (updateByExampleSelective_agree hex h strict)
  | updateByExample u v hex => exact getBoundSql_agree (updateByExample_agree hex strict u v)
  | updateByPrimaryKeySelective h =>
      exact getBoundSql_agree (updateByPrimaryKeySelective_agree h strict)
  | updateByPrimaryKey u v => exact getBoundSql_agree (updateByPrimaryKey_agree strict u v)

/-- The eleven methods of the interface. -/
inductive MapperMethod where
  | countByExample | deleteByExample | deleteByPrimaryKey | insert | insertSelective
  | selectByExample | selectByPrimaryKey | updateByExampleSelective | updateByExample
  | updateByPrimaryKeySelective | updateByPrimaryKey
  deriving DecidableEq, Repr

/-- A call of the method, with those of the arguments that it takes. -/
def MapperMethod.call (m : MapperMethod) (id : Option Int32) (record : User)
    (ex : Option UserExample) : MapperCall :=
  match m with
  | .countByExample => .countByExample ex
  | .deleteByExample => .deleteByExample ex
  | .deleteByPrimaryKey => .deleteByPrimaryKey id
  | .insert => .insert record
  | .insertSelective => .insertSelective record
  | .selectByExample => .selectByExample ex
  | .selectByPrimaryKey => .selectByPrimaryKey id
  | .updateByExampleSelective => .updateByExampleSelective record ex
  | .updateByExample => .updateByExample record ex
  | .updateByPrimaryKeySelective => .updateByPrimaryKeySelective record
  | .updateByPrimaryKey => .updateByPrimaryKey record

theorem MapperMethod.call_alike (m : MapperMethod) (id₁ id₂ : Option Int32) {u v : User}
    (h : u.Alike v) {e f : UserExample} (hex : e.Alike f) :
    (m.call id₁ u (some e)).Alike (m.call id₂ v (some f)) := by
  cases m with
  | countByExample => exact .countByExample hex
  | deleteByExample => exact .deleteByExample hex
  | deleteByPrimaryKey => exact .deleteByPrimaryKey id₁ id₂
  | insert => exact .insert u v
  | insertSelective => exact .insertSelective h
  | selectByExample => exact .selectByExample hex
  | selectByPrimaryKey => exact .selectByPrimaryKey id₁ id₂
  | updateByExampleSelective => exact .updateByExampleSelective h hex
  | updateByExample => exact .updateByExample u v hex
  | updateByPrimaryKeySelective => exact .updateByPrimaryKeySelective h
  | updateByPrimaryKey => exact .updateByPrimaryKey u v

/-- **No value reaches the SQL text.** Two runs of calls on an example that
differ only in the values of `and*` methods, and two records with the same
fields null, give each statement one text. -/
theorem sqlText_valueFree {calls₁ calls₂ : List ExampleCall}
    (hcalls : List.Forall₂ ExampleCall.Alike calls₁ calls₂) {record₁ record₂ : User}
    (hrecord : record₁.Alike record₂) (id₁ id₂ : Option Int32) (m : MapperMethod) (strict : Bool) :
    ((m.call id₁ record₁ (some (Session.run calls₁).toExample)).boundSql strict).map BoundSql.sql =
      ((m.call id₂ record₂ (some (Session.run calls₂).toExample)).boundSql strict).map
        BoundSql.sql :=
  (m.call_alike id₁ id₂ hrecord (Session.run_alike hcalls).toExample).sql_eq strict

/-- One criteria: ids to choose from, and a name. -/
def idsAndName (ids : List (Option Int32)) (name : String) : List ExampleCall :=
  [.createCriteria, .and 0 (.integers .andIdIn (some ids)),
    .and 0 (.string .andNameEqualTo (some name))]

/-- A name that looks like SQL is as good as any other. -/
theorem sqlText_quoted_name :
    ((MapperMethod.deleteByExample.call none ⟨none, none⟩ (some (Session.run
        (idsAndName [some 1, some 2] "ann")).toExample)).boundSql true).map BoundSql.sql =
      ((MapperMethod.deleteByExample.call none ⟨none, none⟩ (some (Session.run
        (idsAndName [some 7, none] "' or 1 = 1 --")).toExample)).boundSql true).map
          BoundSql.sql := by
  have hcalls : List.Forall₂ ExampleCall.Alike (idsAndName [some 1, some 2] "ann")
      (idsAndName [some 7, none] "' or 1 = 1 --") :=
    .cons (.refl _) (.cons (.and 0 (.integers .andIdIn rfl))
      (.cons (.and 0 (.string .andNameEqualTo "ann" "' or 1 = 1 --")) .nil))
  exact sqlText_valueFree hcalls ⟨rfl, rfl⟩ none none .deleteByExample true

end SpringDome.Mapper
