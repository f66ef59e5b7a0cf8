/-
SpringDome.Mapper.UserTableTheorems — every history of calls is one of the
table.

§1 and §2 are about rows: what an assignment stores, and which rows a condition
keeps. §3 has the calls that answer a number, §4 the two selects. `performs_iff`
puts them together, and `history_iff` is the run.

How the proofs go. On the left stands what the program does: a template is
rendered, the text is read by the server with its parameters in place, and the
statement is executed by a `Server`. On the right stands the command on a list
of users. Between the two there are always the same three steps.

  - From the call to the text. The modules before this one say which tokens a
    template renders to (`renders_...`) or, where criteria are in it, which
    statement the text is read as (`sent_...`). Here they are only used.
  - From the statement to the rows. `settle` turns the outcome of a statement
    into an answer and a table, so a call that answers a number is one equation
    (`performs_of_parse`, `performs_of_renders`); a call that sends none fails.
  - From the server's own words to users. Values go into a row and come out of
    it as they were (`store_id`, `store_name`), and the conditions keep the rows
    that the criteria select (`keeps_keyCondition`, `keeps_selection`).

Why the side conditions are there. `filled` is the one thing that makes a text
with criteria unreadable: a list of values without values is rendered to `in`
with nothing behind it. It is a condition on the example and not on the table,
and it decides between the statement and a failure in each case below. `Plain`
is about the selects alone: an order clause goes into the text unchecked, so it
has to be text that the server reads as an order, and limit and offset have to
be what the clause behind it can say. A select has no single answer. The server
is free in the order of its rows and, with `distinct`, in the choice among rows
it cannot tell apart; so §4 is about relations, and both sides have the same
answers.
-/
import SpringDome.Mapper.UserTable

namespace SpringDome.Mapper

open SpringDome.Bean
open SpringDome.Lib
open SpringDome.Lib.DynamicSql
open SpringDome.Lib.Sql

variable {m : Mysql} {table table' : List User} {strict : Bool} {answer : Answer}

/-! ## 1. Rows that are written

A value is sent as an object, stored as a cell and read back as a field. For an
`Int32` and a string nothing is lost on the way, `null` included. -/

@[simp] theorem toInteger_ofInteger (id : Option Int32) : toInteger (ofInteger id) = some id := by
  cases id <;> simp [toInteger, ofInteger]

@[simp] theorem toText_ofString (name : Option String) : toText (ofString name) = some name := by
  cases name <;> rfl

theorem store_id (id : Option Int32) (u : User) :
    m.database.store "id" (ofInteger id) u = some { u with id := id } := by
  show ((toInteger (ofInteger id)).map fun id => { u with id := id }) = _
  rw [toInteger_ofInteger]
  rfl

theorem store_name (name : Option String) (u : User) :
    m.database.store "name" (ofString name) u = some { u with name := name } := by
  show ((toText (ofString name)).map fun name => { u with name := name }) = _
  rw [toText_ofString]
  rfl

theorem assign_name (name : Option String) (u : User) :
    m.database.assign [("name", .value (ofString name))] u = some { u with name := name } := by
  simp only [Database.assign, Operand.eval, store_name, Option.bind_some]

/-- Both columns are assigned, so nothing is left of the row. -/
theorem assign_assignments (record u : User) :
    m.database.assign (assignments record) u = some record := by
  simp only [assignments, Database.assign, Operand.eval, store_id, store_name, Option.bind_some]

/-- Only what the record has is assigned; the rest is the row's. Four cases, one
for each choice of the two columns. -/
theorem assign_nonNullAssignments (record u : User) :
    m.database.assign (nonNullAssignments record) u = some (overlay record u) := by
  obtain ⟨id, name⟩ := record
  have hid := fun id : Int32 => store_id (m := m) (some id)
  have hname := fun name : String => store_name (m := m) (some name)
  cases id with
  | none =>
      cases name with
      | none => rfl
      | some name =>
          show (m.database.store "name" (ofString (some name)) u).bind some = _
          rw [hname]
          rfl
  | some id =>
      cases name with
      | none =>
          show (m.database.store "id" (ofInteger (some id)) u).bind some = _
          rw [hid]
          rfl
      | some name =>
          show (m.database.store "id" (ofInteger (some id)) u).bind
            (fun u => (m.database.store "name" (ofString (some name)) u).bind some) = _
          rw [hid, Option.bind_some, hname]
          rfl

/-! ## 2. Rows that are kept -/

/-- `id = ?`. -/
def keyCondition (id : Option Int32) : Condition Obj :=
  .atom (.compare .eq (.column "id") (.value (ofInteger id)))

/-- A comparison with `null` holds for no row: `hasKey none` is nobody. -/
theorem keeps_keyCondition (m : Mysql) (id : Option Int32) :
    m.database.keeps (some (keyCondition id)) = hasKey id := by
  refine m.database.keeps_eq fun u => ?_
  show comparing m.dialect .eq (ofInteger u.id) (ofInteger id) = .holds ↔ _
  unfold comparing hasKey
  rw [m.isNull_eq]
  cases id with
  | none => simp [ofInteger, Obj.isNull]
  | some key =>
      cases hid : u.id with
      | none => simp [ofInteger, Obj.isNull]
      | some id =>
          simp only [ofInteger, Obj.isNull, m.compare_int, Comparison.accepts, Truth.ofBool,
            Bool.or_self, Bool.false_eq_true, if_false, Option.isSome_some, Bool.true_and,
            Option.some_beq_some, beq_iff_eq, ← Int32.toInt_inj]
          rw [← Int.compare_eq_eq]
          cases compare id.toInt key.toInt <;> simp

/-- The criterions of an example have all their values, if their lists have.
From right to left this is `allComplete_build`. From left to right, a list
without values makes a predicate that is not complete, and its criteria become
a block of the clause, for they are not empty. -/
theorem allComplete_iff (s : Selection) :
    AllComplete ((s.ored.map predicates).filterMap toBlock) ↔ s.filled = true := by
  constructor
  · intro h
    rw [Selection.filled, List.all_eq_true]
    intro calls hcalls
    rw [List.all_eq_true]
    intro call hcall
    by_contra hempty
    have hbad : call.accepted = true ∧ ¬ call.predicate.Complete := by
      cases call with
      | integers _ values =>
          obtain _ | (_ | ⟨v, values⟩) := values
          · exact absurd rfl hempty
          · exact ⟨rfl, fun hcomplete => hcomplete rfl⟩
          · exact absurd rfl hempty
      | strings _ values =>
          obtain _ | (_ | ⟨v, values⟩) := values
          · exact absurd rfl hempty
          · exact ⟨rfl, fun hcomplete => hcomplete rfl⟩
          · exact absurd rfl hempty
      | nullary _ | integer _ _ | integerPair _ _ _ | string _ _ | stringPair _ _ _ =>
          exact absurd rfl hempty
    have hmem : call.predicate ∈ predicates calls := mem_predicates.mpr ⟨call, hcall, hbad.1, rfl⟩
    obtain ⟨p, ps, hps⟩ := List.exists_cons_of_ne_nil (List.ne_nil_of_mem hmem)
    have hblock : (p, ps) ∈ (s.ored.map predicates).filterMap toBlock :=
      mem_blocks.mpr (List.mem_map.mpr ⟨calls, hcalls, hps⟩)
    refine hbad.2 (h _ hblock _ ?_)
    show call.predicate ∈ p :: ps
    rw [← hps]
    exact hmem
  · intro h
    refine allComplete_build fun calls hcalls call hcall => ?_
    exact List.all_eq_true.mp (List.all_eq_true.mp h calls hcalls) call hcall

/-- The clause of an example is read as its filter, or is not read. -/
theorem lastWhere_selection (s : Selection) :
    lastWhere (whereTokens (s.ored.map predicates)) =
      if s.filled then some (filterOf ((s.ored.map predicates).filterMap toBlock)) else none := by
  by_cases hfilled : s.filled = true
  · rw [if_pos hfilled]
    exact lastWhere_complete ((allComplete_iff s).mpr hfilled)
  · rw [if_neg hfilled]
    refine lastWhere_incomplete (exists_incomplete fun hcomplete => ?_)
    exact hfilled ((allComplete_iff s).mp hcomplete)

theorem keeps_selection (m : Mysql) (s : Selection) :
    m.database.keeps (filterOf ((s.ored.map predicates).filterMap toBlock)) = s.selects m := by
  refine m.database.keeps_eq fun u => ?_
  rw [Selection.selects, decide_eq_true_iff]
  exact keeps_iff_selects m.dialect (userCell u) s.ored

/-! ## 3. Calls that answer a number -/

/-! A template renders to tokens, the tokens are read as a statement, and the
statement is executed. The lemmas that follow are these three steps, without
the call that takes them. -/

/-- A call that is no select. -/
def MapperCall.answersNumber : MapperCall → Bool
  | .selectByExample _ | .selectByPrimaryKey _ => false
  | _ => true

theorem performs_of_parse {call : MapperCall} (hcall : call.answersNumber = true)
    {b : BoundSql Obj} (hb : call.boundSql strict = .ok b) {st : Option (Statement Obj)}
    (hparse : b.parse = st) : Performs strict m table call answer table' ↔
      (answer, table') = settle table (st.bind (m.database.execute table)) := by
  unfold Performs
  rw [hb, ← hparse]
  cases call with
  | selectByExample ex => cases hcall
  | selectByPrimaryKey id => cases hcall
  | _ => exact Iff.rfl

/-- A template that renders. -/
theorem performs_of_renders (call : MapperCall) (hcall : call.answersNumber = true)
    {ts : List (Token Obj)} (h : Renders call.template ⟨strict, call.parameter, []⟩ ts)
    {st : Option (Statement Obj)} (hst : statement ts = st) :
    Performs strict m table call answer table' ↔
      (answer, table') = settle table (st.bind (m.database.execute table)) := by
  obtain ⟨b, hb, hparse⟩ := h.getBoundSql
  exact performs_of_parse hcall hb (hparse.trans hst)

/-- A call that sends no statement fails. -/
theorem performs_of_not_sends {call : MapperCall} (hcall : call.answersNumber = true)
    (h : ¬ Sends strict call) : Performs strict m table call answer table' ↔
      (answer, table') = settle table none := by
  cases hb : call.boundSql strict with
  | error failure =>
      unfold Performs
      rw [hb]
      rfl
  | ok b =>
      have hnone : b.parse = none := by
        cases hparse : b.parse with
        | none => rfl
        | some st => exact absurd ⟨b, hb, st, hparse⟩ h
      exact performs_of_parse hcall hb hnone

theorem execute_count (filter : Option (Condition Obj)) :
    m.database.execute table (.count "t_user" filter) =
      some (table.countP (m.database.keeps filter), table) := rfl

theorem execute_delete (filter : Option (Condition Obj)) :
    m.database.execute table (.delete "t_user" filter) =
      removed m table (m.database.keeps filter) := rfl

theorem execute_update {as : List (String × Operand Obj)} {f : User → User}
    (h : ∀ u, m.database.assign as u = some (f u)) (filter : Option (Condition Obj)) :
    m.database.execute table (.update "t_user" as filter) =
      changed m table (m.database.keeps filter) f := m.database.execute_update h filter

theorem keeps_none (m : Mysql) : m.database.keeps none = fun _ => true :=
  m.database.keeps_eq fun _ => iff_of_true trivial rfl

theorem selection_criteria (s : Selection) :
    s.toExample.oredCriteria = (s.ored.map Criteria.build).map some := by
  rw [List.map_map]
  rfl

/-! The calls with an example. A null example leaves the clause out: `_parameter`
is then `null`, and the statement is about all rows. -/

theorem performs_countByExample (s : Option Selection) :
    Performs strict m table (.countByExample (s.map Selection.toExample)) answer table' ↔
      (answer, table') = settle table ((Command.countByExample s).apply m table) := by
  cases s with
  | none =>
      have hfront := renders_text "\n    select count(*) from t_user\n    " countFront rfl rfl
      have hall := (hfront ⟨strict, .null, []⟩).seq
        ((renders_noParameter strict exampleWhereClause).seq
          ((renders_blank "\n  " (by decide) _).seq .skip))
      have hsettle : Performs strict m table (.countByExample none) answer table' ↔
          (answer, table') =
            settle table (m.database.execute table (.count "t_user" none)) :=
        performs_of_renders (.countByExample none) rfl hall rfl
      rw [Option.map_none, hsettle, execute_count, keeps_none]
      rfl
  | some s =>
      obtain ⟨b, hb, hparse⟩ :=
        sent_countByExample (allPrint_build s.ored) (selection_criteria s) strict
      rw [Option.map_some, performs_of_parse rfl hb hparse, lastWhere_selection]
      by_cases hfilled : s.filled = true
      · rw [if_pos hfilled, Option.map_some, Option.bind_some, execute_count, keeps_selection,
          Command.apply, if_pos (show (some s).all Selection.filled = true from hfilled)]
        rfl
      · rw [if_neg hfilled, Option.map_none, Option.bind_none, Command.apply,
          if_neg (show ¬ (some s).all Selection.filled = true from hfilled)]

theorem performs_deleteByExample (s : Option Selection) :
    Performs strict m table (.deleteByExample (s.map Selection.toExample)) answer table' ↔
      (answer, table') = settle table ((Command.deleteByExample s).apply m table) := by
  cases s with
  | none =>
      have hfront := renders_text "\n    delete from t_user\n    " deleteFront rfl rfl
      have hall := (hfront ⟨strict, .null, []⟩).seq
        ((renders_noParameter strict exampleWhereClause).seq
          ((renders_blank "\n  " (by decide) _).seq .skip))
      have hsettle : Performs strict m table (.deleteByExample none) answer table' ↔
          (answer, table') =
            settle table (m.database.execute table (.delete "t_user" none)) :=
        performs_of_renders (.deleteByExample none) rfl hall rfl
      rw [Option.map_none, hsettle, execute_delete, keeps_none]
      rfl
  | some s =>
      obtain ⟨b, hb, hparse⟩ :=
        sent_deleteByExample (allPrint_build s.ored) (selection_criteria s) strict
      rw [Option.map_some, performs_of_parse rfl hb hparse, lastWhere_selection]
      by_cases hfilled : s.filled = true
      · rw [if_pos hfilled, Option.map_some, Option.bind_some, execute_delete, keeps_selection,
          Command.apply, if_pos (show (some s).all Selection.filled = true from hfilled)]
        rfl
      · rw [if_neg hfilled, Option.map_none, Option.bind_none, Command.apply,
          if_neg (show ¬ (some s).all Selection.filled = true from hfilled)]

/-- Its parameter is a map with the record and the example, never `null`, and
so a null example fails where the clause asks it for its criteria. -/
theorem performs_updateByExample (record : User) (s : Option Selection) :
    Performs strict m table (.updateByExample record (s.map Selection.toExample)) answer table' ↔
      (answer, table') = settle table ((Command.updateByExample record s).apply m table) := by
  cases s with
  | none => exact performs_of_not_sends rfl (not_sends_update_null strict record).1
  | some s =>
      obtain ⟨b, hb, hparse⟩ :=
        sent_updateByExample (allPrint_build s.ored) (selection_criteria s) strict record
      rw [Option.map_some, performs_of_parse rfl hb hparse, lastWhere_selection]
      by_cases hfilled : s.filled = true
      · rw [if_pos hfilled, Option.map_some, Option.bind_some,
          execute_update (assign_assignments record), keeps_selection, Command.apply,
          if_pos (show (some s).any Selection.filled = true from hfilled)]
        rfl
      · rw [if_neg hfilled, Option.map_none, Option.bind_none, Command.apply,
          if_neg (show ¬ (some s).any Selection.filled = true from hfilled)]

theorem performs_updateByExampleSelective (record : User) (s : Option Selection) :
    Performs strict m table (.updateByExampleSelective record (s.map Selection.toExample)) answer
        table' ↔
      (answer, table') = settle table ((Command.updateByExampleSelective record s).apply m table) := by
  cases s with
  | none =>
      rw [Command.apply, Option.any_none, Bool.and_false, if_neg Bool.false_ne_true]
      exact performs_of_not_sends rfl (not_sends_update_null strict record).2
  | some s =>
      obtain ⟨b, hb, hparse⟩ := sent_updateByExampleSelective (allPrint_build s.ored)
        (selection_criteria s) strict record
      rw [Option.map_some, performs_of_parse rfl hb hparse, lastWhere_selection, Command.apply,
        Option.any_some]
      cases hasField record with
      | false =>
          -- nothing to set: the text has no assignment and is not read
          rfl
      | true =>
          rw [if_pos rfl, Bool.true_and]
          by_cases hfilled : s.filled = true
          · rw [if_pos hfilled, if_pos hfilled, Option.map_some, Option.bind_some,
              execute_update (assign_nonNullAssignments record), keeps_selection]
            rfl
          · rw [if_neg hfilled, if_neg hfilled]
            rfl

/-! The calls without an example. Their texts have no choice but which columns
of the record there are. -/

theorem performs_insert (record : User) :
    Performs strict m table (.insert record) answer table' ↔
      (answer, table') = settle table ((Command.insert record).apply m table) := by
  have hsettle : Performs strict m table (.insert record) answer table' ↔
      (answer, table') = settle table (m.database.execute table
        (.insert "t_user" ["id", "name"]
          [.value (ofInteger record.id), .value (ofString record.name)])) :=
    performs_of_renders (.insert record) rfl (renders_insert strict record) rfl
  have hinsert : m.database.execute table (.insert "t_user" ["id", "name"]
      [.value (ofInteger record.id), .value (ofString record.name)]) =
        (m.database.assign (assignments record) (m.blank table)).bind fun u =>
          written m 1 (table ++ [u]) := rfl
  rw [hsettle, hinsert, assign_assignments]
  rfl

/-- Columns and values are rendered by two `trim`s that ask the same questions,
so that they match; a record without fields leaves both lists empty, and the
text cannot be read. -/
theorem performs_insertSelective (record : User) :
    Performs strict m table (.insertSelective record) answer table' ↔
      (answer, table') = settle table ((Command.insertSelective record).apply m table) := by
  have hrenders := renders_insertSelective strict record
  have hinsert : ∀ columns values, columns.zip values = nonNullAssignments record →
      m.database.execute table (.insert "t_user" columns values) =
        written m 1 (table ++ [overlay record (m.blank table)]) := by
    intro columns values hzip
    have hassign : m.database.execute table (.insert "t_user" columns values) =
        (m.database.assign (columns.zip values) (m.blank table)).bind fun u =>
          written m 1 (table ++ [u]) := rfl
    rw [hassign, hzip, assign_nonNullAssignments]
    rfl
  have hsettle : ∀ {columns : List String} {values : List (Operand Obj)},
      hasField record = true →
      statement ([.keyword .insert, .keyword .into, .ident "t_user"] ++
        (selectiveColumns record ++ selectiveValues record)) =
          some (.insert "t_user" columns values) →
      columns.zip values = nonNullAssignments record →
      (Performs strict m table (.insertSelective record) answer table' ↔
        (answer, table') = settle table ((Command.insertSelective record).apply m table)) := by
    intro columns values hfield hst hzip
    rw [performs_of_renders (.insertSelective record) rfl hrenders hst, Option.bind_some,
      hinsert columns values hzip, Command.apply, if_pos hfield]
  obtain ⟨id, name⟩ := record
  cases id with
  | none =>
      cases name with
      | none => exact performs_of_renders (.insertSelective _) rfl hrenders rfl
      | some name => exact hsettle rfl rfl rfl
  | some id =>
      cases name with
      | none => exact hsettle rfl rfl rfl
      | some name => exact hsettle rfl rfl rfl

theorem performs_deleteByPrimaryKey (id : Option Int32) :
    Performs strict m table (.deleteByPrimaryKey id) answer table' ↔
      (answer, table') = settle table ((Command.deleteByPrimaryKey id).apply m table) := by
  have hsettle : Performs strict m table (.deleteByPrimaryKey id) answer table' ↔
      (answer, table') = settle table (m.database.execute table
        (.delete "t_user" (some (keyCondition id)))) :=
    performs_of_renders (.deleteByPrimaryKey id) rfl (renders_deleteByPrimaryKey strict id) rfl
  rw [hsettle, execute_delete, keeps_keyCondition]
  rfl

/-- The key is compared and not assigned. -/
theorem execute_updateName (record : User) :
    m.database.execute table (.update "t_user" [("name", .value (ofString record.name))]
      (some (keyCondition record.id))) =
        changed m table (hasKey record.id) fun u => { u with name := record.name } := by
  rw [execute_update (assign_name record.name), keeps_keyCondition]

theorem performs_updateByPrimaryKey (record : User) :
    Performs strict m table (.updateByPrimaryKey record) answer table' ↔
      (answer, table') = settle table ((Command.updateByPrimaryKey record).apply m table) := by
  have hsettle : Performs strict m table (.updateByPrimaryKey record) answer table' ↔
      (answer, table') = settle table (m.database.execute table
        (.update "t_user" [("name", .value (ofString record.name))]
          (some (keyCondition record.id)))) :=
    performs_of_renders (.updateByPrimaryKey record) rfl
      (renders_updateByPrimaryKey strict record) rfl
  rw [hsettle, execute_updateName]
  rfl

/-- With the name as the only column that may be left out, `set` is empty or has
one assignment. -/
theorem performs_updateByPrimaryKeySelective (record : User) :
    Performs strict m table (.updateByPrimaryKeySelective record) answer table' ↔
      (answer, table') =
        settle table ((Command.updateByPrimaryKeySelective record).apply m table) := by
  have hrenders := renders_updateByPrimaryKeySelective strict record
  obtain ⟨id, name⟩ := record
  cases name with
  | none => exact performs_of_renders (.updateByPrimaryKeySelective _) rfl hrenders rfl
  | some name =>
      have hsettle : Performs strict m table (.updateByPrimaryKeySelective ⟨id, some name⟩) answer
          table' ↔ (answer, table') = settle table (m.database.execute table
            (.update "t_user" [("name", .value (ofString (some name)))]
              (some (keyCondition id)))) :=
        performs_of_renders (.updateByPrimaryKeySelective _) rfl hrenders rfl
      rw [hsettle]
      exact Eq.congr_right (congrArg (settle table) (execute_updateName ⟨id, some name⟩))

/-! ## 4. Selects

The text is taken apart from the front: columns and table, the clause of the
example, the order and the window. `orderText_spliced` and `limitClause_spliced`
say for the last two that a part ends where the next begins. -/

/-- A select without criteria. -/
theorem query_of_renders (call : MapperCall) {ts : List (Token Obj)}
    (h : Renders call.template ⟨strict, call.parameter, []⟩ ts) :
    ∃ b, call.boundSql strict = .ok b ∧ b.query = selectQuery ts := by
  obtain ⟨chunks, hchunks, hreads⟩ := h
  refine ⟨toBoundSql (joinChunks chunks), ?_, ?_⟩
  · rw [MapperCall.boundSql, getBoundSql, hchunks]
    rfl
  · rw [BoundSql.query, hreads.readSql, Option.bind_some]

/-- The query of an example. -/
def Selection.query (s : Selection) : SelectQuery Obj where
  distinct := s.distinct
  columns := ["id", "name"]
  table := "t_user"
  filter := filterOf ((s.ored.map predicates).filterMap toBlock)
  order := s.orderByClause.map fixedTokens
  window := windowOf s.limit s.offset

/-- A select goes on with an order, if there is one, and a window. -/
theorem orderText_spliced {order : Option String} (h : ∀ clause ∈ order, IsOrderText clause)
    {ls : List (Token Obj)} (hends : EndsOrder ls) : ∃ os, Splices (orderLex order) os ∧
      EndsFilter (os ++ ls) ∧ orderText (os ++ ls) = (order.map fixedTokens, ls) := by
  cases order with
  | none =>
      refine ⟨[], ⟨rfl, rfl⟩, fun t ht => .inr (hends t ht), ?_⟩
      cases ls with
      | nil => rfl
      | cons t ls =>
          obtain rfl := hends t rfl
          rfl
  | some clause =>
      obtain ⟨htext, hvalues, hnoLimit⟩ := fixedTokens_erase (V := Obj) (h clause rfl)
      refine ⟨.keyword .order :: .keyword .by :: fixedTokens clause,
        ⟨congrArg (fun us => Token.keyword .order :: .keyword .by :: us) htext, hvalues⟩, ?_, ?_⟩
      · intro t ht
        exact .inl (Option.some.inj ht).symm
      · exact orderText_order hnoLimit hends

/-- Behind the front, the reader of selects is the readers of its parts. -/
theorem selectQuery_front (distinct : Bool) (us : List (Token Obj)) :
    selectQuery (selectFront distinct ++ us) = (whereClause us).bind fun x =>
      ((limitClause (orderText x.2).2).bind ended).bind fun window =>
        some ⟨distinct, ["id", "name"], "t_user", x.1, (orderText x.2).1, window⟩ := by
  cases distinct <;> rfl

/-- What the text of a select reads as. The bindings of the window come behind
those of the clause, in the order in which the marks stand in the text. -/
theorem query_selection {s : Selection} (hs : s.Plain) (strict : Bool) :
    ∃ b, (MapperCall.selectByExample (some s.toExample)).boundSql strict = .ok b ∧
      b.query = if s.filled then some s.query else none := by
  obtain ⟨b, hb, hlex, hbindings⟩ :=
    getBoundSql_selectByExample (allPrint_build s.ored) (selection_criteria s) strict
  obtain ⟨ls, hls, hends, hwindow⟩ := limitClause_spliced hs.limit hs.offset
  obtain ⟨os, hos, hrest, horder⟩ := orderText_spliced hs.orderByClause hends
  refine ⟨b, hb, ?_⟩
  rw [BoundSql.query, readSql_of_lex hlex hbindings]
  change ((bindTokens (orderLex s.orderByClause ++ windowLex s.limit s.offset) []).map
    (selectFront s.distinct ++ whereTokens (s.ored.map predicates) ++ ·)).bind selectQuery = _
  rw [(hos.append hls).bind, Option.map_some, Option.bind_some, List.append_assoc,
    selectQuery_front]
  by_cases hfilled : s.filled = true
  · rw [if_pos hfilled, whereTokens,
      whereClause_filterTokens ((allComplete_iff s).mpr hfilled) hrest, Option.bind_some, horder]
    dsimp only
    rw [hwindow]
    rfl
  · have hbad := exists_incomplete fun hcomplete => hfilled ((allComplete_iff s).mp hcomplete)
    rw [if_neg hfilled, whereTokens, whereClause_incomplete hbad]
    rfl

/-- What is fetched by a query for users: nothing if the order is refused, else
rows that may be chosen, sorted, cut to the window and read as users. The rows
are chosen before the window is cut, and a row without a value is read as
`null` after it, where it still counts as a row. -/
theorem fetches_iff {b : BoundSql Obj} {q : SelectQuery Obj} (hq : b.query = some q)
    (hcolumns : q.columns = ["id", "name"]) (htable : q.table = "t_user")
    {r : Option (List (Option User))} : Fetches m table b r ↔
      m.database.order q = none ∧ r = none ∨
        ∃ le users, m.database.order q = some le ∧
          (if q.distinct then Distinct (SameRow m.dialect) (m.database.passing q table) users
            else users.Perm (m.database.passing q table)) ∧
          users.Pairwise (fun a b => le a b = true) ∧
          r = some ((windowed q.window users).map rowValue) := by
  have hcells : ∀ u : User, m.database.values q u = [ofInteger u.id, ofString u.name] := by
    intro u
    rw [Server.values, hcolumns]
    rfl
  have hmapped : ∀ users : List User,
      (users.map (m.database.values q)).mapM baseResultMap = some (users.map rowValue) := by
    intro users
    rw [funext hcells]
    exact mapM_baseResultMap users
  -- two rows are one for `distinct` if the server cannot tell their cells apart
  have hsame : m.database.Same q = SameRow m.dialect := by
    funext u v
    rw [Server.Same, hcolumns, List.forall_mem_cons, List.forall_mem_singleton]
    rfl
  have hpicks : ∀ users, m.database.Picks q table users ↔
      if q.distinct then Distinct (SameRow m.dialect) (m.database.passing q table) users
        else users.Perm (m.database.passing q table) := by
    intro users
    rw [Server.Picks, hsame]
  cases r with
  | none =>
      constructor
      · intro hnone
        have horder := (hnone q hq).resolve_left fun hother => hother htable
        exact .inl ⟨horder, rfl⟩
      · rintro (⟨horder, -⟩ | ⟨le, users, -, -, -, hr⟩)
        · intro q' hq'
          obtain rfl := Option.some.inj (hq.symm.trans hq')
          exact .inr horder
        · cases hr
  | some result =>
      constructor
      · rintro ⟨q', answer, hq', -, ⟨le, users, horder, hchosen, hsorted, rfl⟩, hresult⟩
        obtain rfl := Option.some.inj (hq.symm.trans hq')
        rw [hmapped] at hresult
        exact .inr ⟨le, users, horder, (hpicks users).mp hchosen, hsorted, hresult.symm⟩
      · rintro (⟨-, hr⟩ | ⟨le, users, horder, hchosen, hsorted, hr⟩)
        · cases hr
        · exact ⟨q, _, hq, htable, ⟨le, users, horder, (hpicks users).mpr hchosen, hsorted, rfl⟩,
            by rw [hmapped, hr]⟩

/-- A text that is no query. -/
theorem fetches_of_none {b : BoundSql Obj} (hq : b.query = none)
    {r : Option (List (Option User))} :
    Fetches m table b r ↔ r = none := by
  cases r with
  | none =>
      refine iff_of_true (fun q hq' => ?_) rfl
      rw [hq] at hq'
      cases hq'
  | some users =>
      refine iff_of_false ?_ fun heq => nomatch heq
      rintro ⟨q, answer, hq', -⟩
      rw [hq] at hq'
      cases hq'

theorem passing_eq (m : Mysql) (q : SelectQuery Obj) :
    m.database.passing q table = table.filter (m.database.keeps q.filter) := rfl

/-- The order of the query is the one that is named, and its filter the one of
the criteria; the rest is the lemma above. -/
theorem fetches_selection {s : Selection} {b : BoundSql Obj}
    (hq : b.query = if s.filled then some s.query else none) {r : Option (List (Option User))} :
    Fetches m table b r ↔ Selected m table strict (some s) r := by
  by_cases hfilled : s.filled = true
  · rw [if_pos hfilled] at hq
    have horder : m.database.order s.query = ordering m s := by
      unfold Server.order ordering Selection.query
      cases s.orderByClause <;> rfl
    rw [fetches_iff hq rfl rfl, horder, passing_eq]
    change _ ↔ if s.filled then _ else _
    rw [if_pos hfilled, ← keeps_selection]
    rfl
  · rw [if_neg hfilled] at hq
    rw [fetches_of_none hq]
    change _ ↔ if s.filled then _ else _
    rw [if_neg hfilled]

/-- All rows, in any order. -/
theorem fetches_all {b : BoundSql Obj}
    (hq : b.query = some ⟨false, ["id", "name"], "t_user", none, none, none⟩)
    {r : Option (List (Option User))} :
    Fetches m table b r ↔
      ∃ users : List User, users.Perm table ∧ r = some (users.map rowValue) := by
  have hall : m.database.passing ⟨false, ["id", "name"], "t_user", none, none, none⟩ table =
      table := by
    rw [passing_eq, keeps_none, List.filter_true]
  rw [fetches_iff hq rfl rfl, hall]
  constructor
  · rintro (⟨horder, -⟩ | ⟨le, users, -, hperm, -, hr⟩)
    · cases horder
    · exact ⟨users, hperm, hr⟩
  · rintro ⟨users, hperm, hr⟩
    exact .inr ⟨fun _ _ => true, users, rfl, hperm, List.pairwise_of_forall fun _ _ => rfl, hr⟩

/-- A null example has neither criteria nor an order, if it is read at all. -/
theorem renders_selectByExample_null : Renders selectByExample ⟨false, .null, []⟩
    [.keyword .select, .ident "id", .comma, .ident "name", .keyword .from, .ident "t_user"] := by
  have hblank := fun e => renders_blank "\n    " (by decide) e
  have htail : Renders selectTail ⟨false, .null, []⟩ [] :=
    (hblank _).seq ((Renders.ifFalse (.notNull (name "orderByClause")) rfl _).seq
      ((hblank _).seq ((Renders.ifFalse (.notNull (name "limit")) rfl _).seq
        ((renders_blank "\n  " (by decide) _).seq .skip))))
  have hselect := renders_text "\n    select\n    " [.keyword .select] rfl rfl
  have hfrom := renders_text "\n    from t_user\n    " [.keyword .from, .ident "t_user"] rfl rfl
  exact (hselect _).seq ((Renders.ifFalse (.truthy (name "distinct")) rfl _).seq
    ((hblank _).seq ((renders_baseColumnList _).seq ((hfrom _).seq
      ((renders_noParameter false exampleWhereClause).seq htail)))))

/-- A null example is where the two ways to read a parameter differ: with the
strict one its properties cannot be asked for, and the call fails. -/
theorem performs_selectByExample {s : Option Selection} (hs : ∀ x ∈ s, x.Plain) :
    Performs strict m table (.selectByExample (s.map Selection.toExample)) answer table' ↔
      (Command.selectByExample s).Step m table strict answer table' := by
  have hstep : ∀ b, (MapperCall.selectByExample (s.map Selection.toExample)).boundSql strict =
      .ok b → (∀ r, Fetches m table b r ↔ Selected m table strict s r) →
      (Performs strict m table (.selectByExample (s.map Selection.toExample)) answer table' ↔
        (Command.selectByExample s).Step m table strict answer table') := by
    intro b hb hfetches
    unfold Performs
    rw [hb]
    exact exists_congr fun r => and_congr (hfetches r) Iff.rfl
  cases s with
  | some s =>
      obtain ⟨b, hb, hq⟩ := query_selection (hs s rfl) strict
      exact hstep b hb fun r => fetches_selection hq
  | none =>
      cases strict with
      | false =>
          obtain ⟨b, hb, hq⟩ := query_of_renders (.selectByExample none)
            renders_selectByExample_null
          exact hstep b hb fun r => fetches_all hq
      | true =>
          have hb : (MapperCall.selectByExample none).boundSql true =
              .error (.sourceIsNull "distinct") := rfl
          have hnone : Performs true m table (.selectByExample none) answer table' ↔
              (answer, table') = (.failed, table) := by
            unfold Performs
            rw [hb]
          rw [Option.map_none, hnone]
          constructor
          · exact fun heq => ⟨none, rfl, heq⟩
          · rintro ⟨r, rfl, heq⟩
            exact heq

/-- `selectOne` gives the row if there is one, `null` for none and fails for
more, so the order of the rows does not matter. -/
theorem oneOf_perm {users users' : List (Option User)} (h : users.Perm users') :
    oneOf (some users) = oneOf (some users') := by
  have hlength := h.length_eq
  cases users with
  | nil => rw [List.nil_perm.mp h]
  | cons u users =>
      cases users with
      | nil => rw [List.singleton_perm.mp h]
      | cons v users =>
          cases users' with
          | nil => cases hlength
          | cons u' users' =>
              cases users' with
              | nil => cases hlength
              | cons v' users' => rfl

/-- Rows with a number are users. -/
theorem map_rowValue {users : List User} (h : ∀ u ∈ users, u.id ≠ none) :
    users.map rowValue = users.map some := by
  refine List.map_congr_left fun u hu => ?_
  simp [rowValue, h u hu]

theorem id_of_hasKey {id : Option Int32} {u : User} (h : hasKey id u = true) : u.id ≠ none := by
  unfold hasKey at h
  rw [Bool.and_eq_true, beq_iff_eq] at h
  obtain ⟨hsome, rfl⟩ := h
  exact Option.isSome_iff_ne_none.mp hsome

/-- All rows with the key are fetched and `selectOne` is left with them. They
have a number, so none of them is read as `null`. -/
theorem performs_selectByPrimaryKey (id : Option Int32) :
    Performs strict m table (.selectByPrimaryKey id) answer table' ↔
      (Command.selectByPrimaryKey id).Step m table strict answer table' := by
  obtain ⟨b, hb, hq⟩ := query_of_renders (.selectByPrimaryKey id)
    (renders_selectByPrimaryKey strict id)
  have hquery : b.query = some ⟨false, ["id", "name"], "t_user", some (keyCondition id), none,
    none⟩ := hq
  have hfetches : ∀ r, Fetches m table b r ↔ _ := fun r => fetches_iff hquery rfl rfl
  rw [passing_eq, keeps_keyCondition] at hfetches
  have hkeys : (table.filter (hasKey id)).map rowValue = (table.filter (hasKey id)).map some :=
    map_rowValue fun u hu => id_of_hasKey (List.mem_filter.mp hu).2
  unfold Performs
  rw [hb]
  constructor
  · rintro ⟨r, hr, heq⟩
    rcases (hfetches r).mp hr with ⟨horder, -⟩ | ⟨le, users, -, hperm, -, rfl⟩
    · cases horder
    · refine heq.trans (congrArg (·, table) ?_)
      rw [← hkeys]
      exact oneOf_perm (List.Perm.map rowValue hperm)
  · intro heq
    refine ⟨some ((table.filter (hasKey id)).map some), (hfetches _).mpr (.inr ?_), heq⟩
    rw [← hkeys]
    exact ⟨fun _ _ => true, table.filter (hasKey id), rfl, .refl _,
      List.pairwise_of_forall fun _ _ => rfl, rfl⟩

/-! ## 5. All calls -/

theorem performs_iff {c : Command} (hc : ∀ s ∈ c.selection?, s.Plain) :
    Performs strict m table c.toCall answer table' ↔ c.Step m table strict answer table' := by
  cases c with
  | countByExample s => exact performs_countByExample s
  | deleteByExample s => exact performs_deleteByExample s
  | deleteByPrimaryKey id => exact performs_deleteByPrimaryKey id
  | insert record => exact performs_insert record
  | insertSelective record => exact performs_insertSelective record
  | selectByExample s => exact performs_selectByExample hc
  | selectByPrimaryKey id => exact performs_selectByPrimaryKey id
  | updateByExampleSelective record s => exact performs_updateByExampleSelective record s
  | updateByExample record s => exact performs_updateByExample record s
  | updateByPrimaryKeySelective record => exact performs_updateByPrimaryKeySelective record
  | updateByPrimaryKey record => exact performs_updateByPrimaryKey record

/-- **The mapper is a table of users.** Whatever calls are made, one after
another, through texts that are rendered, sent and read: what they answer, and
the table in the end, is what the commands can answer and leave on a table of
users, and nothing else. -/
theorem history_iff {history : List (Command × Answer)}
    (hplain : ∀ x ∈ history, ∀ s ∈ x.1.selection?, s.Plain) :
    History (fun table c => Performs strict m table c.toCall) table history table' ↔
      History (fun table c => c.Step m table strict) table history table' :=
  History.congr (P := fun c => ∀ s ∈ c.selection?, s.Plain)
    (fun _ _ _ _ hc => performs_iff hc) hplain

/-- A server whose constraints are those of `admits`. -/
def cellMysql (admits : List User → Bool) : Mysql where
  dialect := cellDialect
  isNull_eq := rfl
  compare_int := fun _ _ => rfl
  orderBy := columnOrder cellDialect userCell
  blank := fun _ => ⟨none, none⟩
  admits := admits

def annHistory : List (Command × Answer) :=
  [(.insert ann, .rows 1), (.insert ann, .failed),
    (.updateByPrimaryKeySelective ⟨some 1, some "eve"⟩, .rows 1),
    (.selectByPrimaryKey (some 1), .user (some ⟨some 1, some "eve"⟩)),
    (.deleteByExample (some ⟨[], none, true, none, none⟩), .rows 1)]

/-- Ann is inserted once, renamed, found and removed. -/
theorem history_ann :
    History (fun table (c : Command) => Performs true
      (cellMysql fun rows => (rows.map User.id).Nodup) table c.toCall) [] annHistory [] :=
  (history_iff (by
    have hall : Selection.Plain ⟨[], none, true, none, none⟩ := by
      constructor <;> intro _ hnone <;> cases hnone
    simpa [annHistory, Command.selection?] using hall)).mpr
    (.cons rfl (.cons rfl (.cons rfl (.cons rfl (.cons rfl (.nil []))))))

end SpringDome.Mapper
