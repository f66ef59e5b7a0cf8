/-
SpringDome.Mapper.StatementTheorems — the eleven statements, read back.

§1 to §3 say what each template renders to, as a list of tokens. Ten of them
render to tokens that are known; `selectByExample` ends with whatever order
and window the example has, spliced in as text, so of its tail only the tokens
are known and that it has no values (`LexesTo`).

§4 parses these tokens. A statement with an example is complete when every IN
has a list, and no statement otherwise. §5 puts both together for the calls
with an example: what is sent, and what it parses to.

How the proofs go. A template is a sequence of texts, tests and loops. A text
renders to its tokens wherever it stands (`renders_text`, `renders_blank`), and
a sequence to those of its parts (`Renders.seq`), because the parts are joined
by a space. A test is evaluated in the environment of the call, so there is one
case for each of the record's fields and one for the example. What is known of
the criteria is `AllPrint`: every criterion of a criteria prints the tokens of
its predicate.

The parser is asked for the same tokens back. It reads a clause to its end and
then wants nothing, or the order and the window of a select; a clause with an
empty list stops it before that, whatever stands behind.
-/
import SpringDome.Mapper.WhereTheorems

namespace SpringDome.Mapper

open SpringDome.Bean
open SpringDome.Lib.DynamicSql
open SpringDome.Lib.Sql

/-! ## 1. Where clauses in statements -/

theorem renders_text (s : String) (ts : List (Token Obj)) (h : lex s.toList = ts.map Token.erase)
    (hvalues : ts.filterMap Token.value? = []) (e : Env) : Renders (text s) e ts := by
  refine .chunk (c := chars s ++ []) rfl ?_
  rw [List.append_nil]
  exact .chars h hvalues

/-- Line breaks and indentation. -/
theorem renders_blank (s : String) (h : s.toList.all Lib.Sql.isBlank = true) (e : Env) :
    Renders (text s) e [] := by
  refine .chunk (c := chars s ++ []) rfl ?_
  rw [List.append_nil]
  exact (allBlank_chars h).reads

/-- The criterions of the criteria of a list. -/
def AllPrint (cs : List Criteria) (pss : List (List (Predicate Obj))) : Prop :=
  List.Forall₂ (fun c ps => List.Forall₂ Criterion.Prints c.criteria ps) cs pss

/-- The tokens of the where clause over such a list. -/
def whereTokens (pss : List (List (Predicate Obj))) : List (Token Obj) :=
  filterTokens (pss.filterMap toBlock)

section Where

variable {cs : List Criteria} {pss : List (List (Predicate Obj))}

theorem renders_where (h : AllPrint cs pss) {e : Env} {collection : Path}
    (htest : (Test.notNull (name "_parameter")).eval e = .ok true)
    (hcollection : e.eval collection = .ok (.list (cs.map fun c => criteriaObj (some c)))) :
    Renders (unlessParameterNull (whereFragment collection)) e (whereTokens pss) := by
  obtain ⟨chunks, hrender, hchunks⟩ := whereFragment_render h
  have hfragment : Renders (whereFragment collection) e (whereTokens pss) :=
    .of_render (hrender e collection hcollection) hchunks
  have hbody := (renders_blank "\n      " (by decide) e).seq
    (hfragment.seq ((renders_blank "\n    " (by decide) e).seq .skip))
  simp only [List.append_nil, List.nil_append] at hbody
  exact .ifTrue _ htest hbody

/-- The list of criteria of an example without null ones. -/
theorem oredCriteria_obj {ored : List (Option Criteria)} (hored : ored = cs.map some) :
    ored.map (fun c => (c.map Criteria.toObj).getD .null) =
      cs.map fun c => criteriaObj (some c) := by
  rw [hored, List.map_map]
  rfl

theorem renders_exampleWhere (h : AllPrint cs pss) {ex : UserExample}
    (hored : ex.oredCriteria = cs.map some) (strict : Bool) :
    Renders (unlessParameterNull exampleWhereClause) ⟨strict, ex.toObj, []⟩ (whereTokens pss) := by
  refine renders_where h rfl ?_
  rw [← oredCriteria_obj hored]
  rfl

theorem renders_updateWhere (h : AllPrint cs pss) {ex : UserExample}
    (hored : ex.oredCriteria = cs.map some) (strict : Bool) (record : User) :
    Renders (unlessParameterNull updateByExampleWhereClause)
      ⟨strict, updateParameters record (some ex), []⟩ (whereTokens pss) := by
  refine renders_where h rfl ?_
  rw [← oredCriteria_obj hored]
  rfl

/-! Count, delete and the two updates. -/

/-- `select count(*) from t_user`. -/
def countFront : List (Token Obj) :=
  [.keyword .select, .keyword .count, .lparen, .star, .rparen, .keyword .from, .ident "t_user"]

theorem renders_countByExample (h : AllPrint cs pss) {ex : UserExample}
    (hored : ex.oredCriteria = cs.map some) (strict : Bool) :
    Renders countByExample ⟨strict, ex.toObj, []⟩ (countFront ++ whereTokens pss) := by
  have hfront := renders_text "\n    select count(*) from t_user\n    " countFront rfl rfl
  have hall := (hfront _).seq ((renders_exampleWhere h hored strict).seq
    ((renders_blank "\n  " (by decide) _).seq .skip))
  rw [List.append_nil, List.append_nil] at hall
  exact hall

/-- `delete from t_user`. -/
def deleteFront : List (Token Obj) := [.keyword .delete, .keyword .from, .ident "t_user"]

theorem renders_deleteByExample (h : AllPrint cs pss) {ex : UserExample}
    (hored : ex.oredCriteria = cs.map some) (strict : Bool) :
    Renders deleteByExample ⟨strict, ex.toObj, []⟩ (deleteFront ++ whereTokens pss) := by
  have hfront := renders_text "\n    delete from t_user\n    " deleteFront rfl rfl
  have hall := (hfront _).seq ((renders_exampleWhere h hored strict).seq
    ((renders_blank "\n  " (by decide) _).seq .skip))
  rw [List.append_nil, List.append_nil] at hall
  exact hall

/-- An assignment of a column. -/
def assignTokens (column : String) (v : Obj) : List (Token Obj) :=
  [.ident column, .comparison .eq, .param v]

/-- `update t_user set id = ?, name = ?`. -/
def updateFront (assignments : List (Token Obj)) : List (Token Obj) :=
  [.keyword .update, .ident "t_user", .keyword .set] ++ assignments

def bothAssigned (record : User) : List (Token Obj) :=
  assignTokens "id" (ofInteger record.id) ++ .comma ::
    assignTokens "name" (ofString record.name)

theorem renders_updateByExample (h : AllPrint cs pss) {ex : UserExample}
    (hored : ex.oredCriteria = cs.map some) (strict : Bool) (record : User) :
    Renders updateByExample ⟨strict, updateParameters record (some ex), []⟩
      (updateFront (bothAssigned record) ++ whereTokens pss) := by
  have hfront : Renders (.text [.lit "\n    update t_user\n    set id = ",
      .param (property "record" "id"), .lit ",\n      name = ",
      .param (property "record" "name"), .lit "\n    "])
      ⟨strict, updateParameters record (some ex), []⟩ (updateFront (bothAssigned record)) :=
    .chunk rfl ⟨rfl, rfl⟩
  have hall := hfront.seq ((renders_updateWhere h hored strict record).seq
    ((renders_blank "\n  " (by decide) _).seq .skip))
  rw [List.append_nil, List.append_nil] at hall
  exact hall

/-- `update t_user`, before a `set` of its own. -/
theorem renders_updateTable (e : Env) :
    Renders (text "\n    update t_user\n    ") e [.keyword .update, .ident "t_user"] :=
  renders_text _ _ rfl rfl e

/-- The record has a field to write. -/
def hasField (record : User) : Bool := record.id.isSome || record.name.isSome

/-- The assignments of the fields that are not null. -/
def selectiveAssignments (record : User) : List (Token Obj) :=
  match record.id, record.name with
  | none, none => []
  | some _, none => assignTokens "id" (ofInteger record.id)
  | none, some _ => assignTokens "name" (ofString record.name)
  | some _, some _ => bothAssigned record

/-- `set`, unless there is nothing to assign. -/
def setTokens (assignments : List (Token Obj)) : List (Token Obj) :=
  if assignments.isEmpty then [] else .keyword .set :: assignments

theorem renders_updateByExampleSelective (h : AllPrint cs pss) {ex : UserExample}
    (hored : ex.oredCriteria = cs.map some) (strict : Bool) (record : User) :
    Renders updateByExampleSelective ⟨strict, updateParameters record (some ex), []⟩
      ([.keyword .update, .ident "t_user"] ++ (setTokens (selectiveAssignments record) ++
        whereTokens pss)) := by
  have hset : Renders (.set_ (.block [text "\n      ",
      .ifTest (.notNull (property "record" "id"))
        (.text [.lit "\n        id = ", .param (property "record" "id"), .lit ",\n      "]),
      text "\n      ",
      .ifTest (.notNull (property "record" "name"))
        (.text [.lit "\n        name = ", .param (property "record" "name"), .lit ",\n      "]),
      text "\n    "])) ⟨strict, updateParameters record (some ex), []⟩
      (setTokens (selectiveAssignments record)) := by
    obtain ⟨id, name⟩ := record
    cases id with
    | none =>
        cases name with
        | none => exact .chunk (c := []) rfl .nil
        | some name =>
            exact .chunk (c := chars "SET name = " ++ [.param (.str name)]) rfl ⟨rfl, rfl⟩
    | some id =>
        cases name with
        | none => exact .chunk (c := chars "SET id = " ++ [.param (.int id.toInt)]) rfl ⟨rfl, rfl⟩
        | some name =>
            exact .chunk (c := chars "SET id = " ++ .param (.int id.toInt) ::
              (chars ",\n      \n      \n        name = " ++ [.param (.str name)])) rfl ⟨rfl, rfl⟩
  have hall := (renders_updateTable _).seq (hset.seq
    ((renders_blank "\n    " (by decide) _).seq
      ((renders_updateWhere h hored strict record).seq
        ((renders_blank "\n  " (by decide) _).seq .skip))))
  simp only [List.append_nil, List.nil_append] at hall
  exact hall

end Where

/-! ## 2. The order and the window of a select -/

/-- The window with an offset, and without. -/
def offsetWindow : SqlNode :=
  .text [.lit "\n        limit ", .splice (name "offset"), .lit ", ", .splice (name "limit"),
    .lit "\n      "]

def limitWindow : SqlNode :=
  .text [.lit "\n        limit ", .splice (name "limit"), .lit "\n      "]

/-- What `selectByExample` has behind its where clause. -/
def selectTail : SqlNode :=
  .block [text "\n    ",
    .ifTest (.notNull (name "orderByClause"))
      (.text [.lit "\n      order by ", .splice (name "orderByClause"), .lit "\n    "]),
    text "\n    ",
    .ifTest (.notNull (name "limit"))
      (.block [text "\n      ", .ifTest (.notNull (name "offset")) offsetWindow,
        text "\n      ", .ifTest (.isNull (name "offset")) limitWindow, text "\n    "]),
    text "\n  "]

/-- The order, as it is spliced in. -/
def orderLex : Option String → List (Token Unit)
  | none => []
  | some clause => .keyword .order :: .keyword .by :: lex clause.toList

/-- The window, as it is spliced in; an offset without a limit is left out. -/
def windowLex : Option Int32 → Option Int32 → List (Token Unit)
  | none, _ => []
  | some limit, none => .keyword .limit :: lex (toString limit.toInt).toList
  | some limit, some offset =>
      .keyword .limit :: lex (toString offset.toInt).toList ++
        .comma :: lex (toString limit.toInt).toList

/-- Chunks without values, by their tokens. -/
def LexesTo (n : SqlNode) (e : Env) (us : List (Token Unit)) : Prop :=
  ∃ cs, n.render e = .ok cs ∧ lexChunks cs = us ∧ cs.flatMap valuesOf = []

theorem LexesTo.seq {a b : SqlNode} {e : Env} {us vs : List (Token Unit)} (ha : LexesTo a e us)
    (hb : LexesTo b e vs) : LexesTo (.seq a b) e (us ++ vs) := by
  obtain ⟨as, has, rfl, hvaluesA⟩ := ha
  obtain ⟨bs, hbs, rfl, hvaluesB⟩ := hb
  refine ⟨as ++ bs, render_seq has hbs, List.flatMap_append, ?_⟩
  rw [List.flatMap_append, hvaluesA, hvaluesB]
  rfl

theorem LexesTo.blank (s : String) (h : s.toList.all Lib.Sql.isBlank = true) (e : Env) :
    LexesTo (text s) e [] := by
  refine ⟨[chars s ++ []], rfl, ?_, ?_⟩
  · simpa [lexChunks] using (allBlank_chars (V := Obj) h).reads.text
  · simp

theorem LexesTo.skip (e : Env) : LexesTo .skip e [] := ⟨[], rfl, rfl, rfl⟩

/-- A keyword, a spliced text, and blanks. -/
theorem lex_spliced {s t : String} {us : List (Token Unit)} (hs : lex s.toList = us)
    (hends : (s.toList.getLast?.all fun c => !isSticky c) = true)
    (ht : t.toList.all Lib.Sql.isBlank = true) (clause : String) :
    lex (textOf (chars s ++ (chars clause ++ (chars t ++ [])) : Chunk Obj)) =
      us ++ lex clause.toList := by
  have hblank : AllBlank (chars t : Chunk Obj) := allBlank_chars ht
  rw [textOf_append, lex_append ((endsLoose_chars hends).apart _), textOf_chars, hs,
    List.append_nil, lex_append_blank hblank, textOf_chars]

theorem LexesTo.ifTrue (test : Test) {n : SqlNode} {e : Env} {us : List (Token Unit)}
    (h : test.eval e = .ok true) (hn : LexesTo n e us) : LexesTo (.ifTest test n) e us := by
  obtain ⟨cs, hcs, hlex, hvalues⟩ := hn
  exact ⟨cs, by rw [render_ifTest _ h, if_pos rfl, hcs], hlex, hvalues⟩

theorem LexesTo.ifFalse (test : Test) {e : Env} (h : test.eval e = .ok false) (n : SqlNode) :
    LexesTo (.ifTest test n) e [] :=
  ⟨[], by rw [render_ifTest _ h, if_neg Bool.false_ne_true], rfl, rfl⟩

theorem LexesTo.chunk {n : SqlNode} {e : Env} {c : Chunk Obj} {us : List (Token Unit)}
    (h : n.render e = .ok [c]) (hlex : lex (textOf c) = us) (hvalues : valuesOf c = []) :
    LexesTo n e us :=
  ⟨[c], h, by rw [lexChunks, List.flatMap_singleton, hlex], by rw [List.flatMap_singleton, hvalues]⟩

theorem order_lexesTo (strict : Bool) (ex : UserExample) :
    LexesTo (.ifTest (.notNull (name "orderByClause"))
      (.text [.lit "\n      order by ", .splice (name "orderByClause"), .lit "\n    "]))
      ⟨strict, ex.toObj, []⟩ (orderLex ex.orderByClause) := by
  obtain ⟨orderByClause, distinct, ored, limit, offset⟩ := ex
  cases orderByClause with
  | none => exact .ifFalse _ rfl _
  | some clause =>
      refine .ifTrue _ rfl (.chunk (c := chars "\n      order by " ++ (chars clause ++
        (chars "\n    " ++ []))) rfl ?_ (by simp))
      exact lex_spliced rfl (by decide) (by decide) clause

/-- An offset comes before the limit, a comma between them. -/
theorem window_lexesTo (strict : Bool) (ex : UserExample) :
    LexesTo (.ifTest (.notNull (name "limit"))
      (.block [text "\n      ", .ifTest (.notNull (name "offset")) offsetWindow,
        text "\n      ", .ifTest (.isNull (name "offset")) limitWindow, text "\n    "]))
      ⟨strict, ex.toObj, []⟩ (windowLex ex.limit ex.offset) := by
  obtain ⟨orderByClause, distinct, ored, limit, offset⟩ := ex
  have hblank := fun e => LexesTo.blank "\n      " (by decide) e
  have hclose := fun e => (LexesTo.blank "\n    " (by decide) e).seq (.skip e)
  cases limit with
  | none => exact .ifFalse _ rfl _
  | some limit =>
      have hlimit := lex_spliced (s := "\n        limit ") (t := "\n      ") rfl (by decide)
        (by decide) (toString limit.toInt)
      cases offset with
      | none =>
          have hchunk : LexesTo limitWindow ⟨strict,
              UserExample.toObj ⟨orderByClause, distinct, ored, some limit, none⟩, []⟩ _ :=
            .chunk rfl hlimit (by simp)
          have hoffset : LexesTo (.ifTest (.notNull (name "offset")) offsetWindow) ⟨strict,
              UserExample.toObj ⟨orderByClause, distinct, ored, some limit, none⟩, []⟩ [] :=
            .ifFalse _ rfl _
          have hall := (hblank _).seq (hoffset.seq ((hblank _).seq
            ((LexesTo.ifTrue (.isNull (name "offset")) rfl hchunk).seq (hclose _))))
          simp only [List.append_nil, List.nil_append] at hall
          exact .ifTrue _ rfl hall
      | some offset =>
          have hcomma : lex (textOf (chars ", " ++ (chars (toString limit.toInt) ++
              (chars "\n      " ++ [])) : Chunk Obj)) =
                .comma :: lex (toString limit.toInt).toList :=
            lex_spliced rfl (by decide) (by decide) _
          have hloose : StartsLoose (chars ", " : Chunk Obj) := startsLoose_chars (by decide)
          have hoffset : lex (textOf (chars "\n        limit " ++ (chars (toString offset.toInt) ++
              (chars ", " ++ (chars (toString limit.toInt) ++ (chars "\n      " ++ [])))) :
                Chunk Obj)) = .keyword .limit :: lex (toString offset.toInt).toList ++
              .comma :: lex (toString limit.toInt).toList := by
            rw [textOf_append, lex_append ((endsLoose_chars (by decide)).apart _), textOf_append,
              lex_append ((hloose.append_left (List.cons_ne_nil _ _) _).apart _), hcomma,
              textOf_chars, textOf_chars]
            rfl
          have hchunk : LexesTo offsetWindow ⟨strict,
              UserExample.toObj ⟨orderByClause, distinct, ored, some limit, some offset⟩, []⟩ _ :=
            .chunk rfl hoffset (by simp)
          have hlimitOnly : LexesTo (.ifTest (.isNull (name "offset")) limitWindow) ⟨strict,
              UserExample.toObj ⟨orderByClause, distinct, ored, some limit, some offset⟩, []⟩ [] :=
            .ifFalse _ rfl _
          have hall := (hblank _).seq ((LexesTo.ifTrue (.notNull (name "offset")) rfl hchunk).seq
            ((hblank _).seq (hlimitOnly.seq (hclose _))))
          simp only [List.append_nil, List.nil_append] at hall
          exact .ifTrue _ rfl hall

theorem selectTail_lexesTo (strict : Bool) (ex : UserExample) :
    LexesTo selectTail ⟨strict, ex.toObj, []⟩
      (orderLex ex.orderByClause ++ windowLex ex.limit ex.offset) := by
  have hall := (LexesTo.blank "\n    " (by decide) _).seq
    ((order_lexesTo strict ex).seq ((LexesTo.blank "\n    " (by decide) _).seq
      ((window_lexesTo strict ex).seq ((LexesTo.blank "\n  " (by decide) _).seq
        (.skip _)))))
  simp only [List.append_nil, List.nil_append] at hall
  exact hall

theorem renders_baseColumnList (e : Env) :
    Renders baseColumnList e [.ident "id", .comma, .ident "name"] :=
  renders_text _ _ rfl rfl e

/-- `select id, name from t_user`, or `select distinct`. -/
def selectFront (distinct : Bool) : List (Token Obj) :=
  .keyword .select :: ((if distinct then [.keyword .distinct] else []) ++
    [.ident "id", .comma, .ident "name", .keyword .from, .ident "t_user"])

/-- What `selectByExample` sends: the columns and the where clause, then
whatever order and window were spliced in. -/
theorem getBoundSql_selectByExample {cs : List Criteria} {pss : List (List (Predicate Obj))}
    (h : AllPrint cs pss) {ex : UserExample} (hored : ex.oredCriteria = cs.map some)
    (strict : Bool) : ∃ b, getBoundSql strict selectByExample ex.toObj = .ok b ∧
      lex b.sql.toList = (selectFront ex.distinct ++ whereTokens pss).map Token.erase ++
        (orderLex ex.orderByClause ++ windowLex ex.limit ex.offset) ∧
      b.bindings = (selectFront ex.distinct ++ whereTokens pss).filterMap Token.value? := by
  obtain ⟨tail, htail, hlex, hvalues⟩ := selectTail_lexesTo strict ex
  have hdistinct : Renders (.ifTest (.truthy (name "distinct")) (text "\n      distinct\n    "))
      ⟨strict, ex.toObj, []⟩ (if ex.distinct then [.keyword .distinct] else []) := by
    obtain ⟨orderByClause, distinct, ored, limit, offset⟩ := ex
    cases distinct with
    | false => exact .ifFalse _ rfl _
    | true => exact .ifTrue _ rfl (renders_text _ _ rfl rfl _)
  have hselect := renders_text "\n    select\n    " [.keyword .select] rfl rfl
  have hfrom := renders_text "\n    from t_user\n    " [.keyword .from, .ident "t_user"] rfl rfl
  have hall := RendersThen.seq (hselect _) (RendersThen.seq hdistinct
    (RendersThen.seq (renders_blank "\n    " (by decide) _)
    (RendersThen.seq (renders_baseColumnList _) (RendersThen.seq (hfrom _)
    (RendersThen.seq (renders_exampleWhere h hored strict) (RendersThen.of_render htail))))))
  have hfront : [.keyword .select] ++ ((if ex.distinct then [.keyword .distinct] else []) ++
      ([] ++ ([.ident "id", .comma, .ident "name"] ++ ([.keyword .from, .ident "t_user"] ++
        (whereTokens pss ++ []))))) = selectFront ex.distinct ++ whereTokens pss := by
    cases ex.distinct with
    | false => simp [selectFront]
    | true => simp [selectFront]
  rw [hfront] at hall
  obtain ⟨b, hb, htext, hbindings⟩ := RendersThen.sent hall hvalues
  exact ⟨b, hb, by rw [htext, hlex], hbindings⟩

/-! ## 3. Statements without an example -/

/-- `where id = ?`. -/
def keyTokens (v : Obj) : List (Token Obj) :=
  [.keyword .where, .ident "id", .comparison .eq, .param v]

/-- The values in parentheses of an INSERT, and before them the columns. -/
def insertTokens (columns values : List (Token Obj)) : List (Token Obj) :=
  [.keyword .insert, .keyword .into, .ident "t_user", .lparen] ++ columns ++
    [.rparen, .keyword .values, .lparen] ++ values ++ [.rparen]

theorem renders_selectByPrimaryKey (strict : Bool) (id : Option Int32) :
    Renders selectByPrimaryKey ⟨strict, ofInteger id, []⟩
      ([.keyword .select, .ident "id", .comma, .ident "name", .keyword .from, .ident "t_user"] ++
        keyTokens (ofInteger id)) := by
  have hkey : Renders (.text [.lit "\n    from t_user\n    where id = ", .param (name "id"),
      .lit "\n  "]) ⟨strict, ofInteger id, []⟩
      ([.keyword .from, .ident "t_user"] ++ keyTokens (ofInteger id)) := by
    cases id with
    | none => exact .chunk rfl ⟨rfl, rfl⟩
    | some n => exact .chunk rfl ⟨rfl, rfl⟩
  exact (renders_text "\n    select \n    " [.keyword .select] rfl rfl _).seq
    ((renders_baseColumnList _).seq (hkey.seq .skip))

theorem renders_deleteByPrimaryKey (strict : Bool) (id : Option Int32) :
    Renders deleteByPrimaryKey ⟨strict, ofInteger id, []⟩
      (deleteFront ++ keyTokens (ofInteger id)) := by
  cases id with
  | none => exact .chunk rfl ⟨rfl, rfl⟩
  | some n => exact .chunk rfl ⟨rfl, rfl⟩

theorem renders_insert (strict : Bool) (record : User) :
    Renders insert ⟨strict, record.toObj, []⟩
      (insertTokens [.ident "id", .comma, .ident "name"]
        [.param (ofInteger record.id), .comma, .param (ofString record.name)]) :=
  .chunk rfl ⟨rfl, rfl⟩

theorem renders_updateByPrimaryKey (strict : Bool) (record : User) :
    Renders updateByPrimaryKey ⟨strict, record.toObj, []⟩
      (updateFront (assignTokens "name" (ofString record.name)) ++
        keyTokens (ofInteger record.id)) :=
  .chunk rfl ⟨rfl, rfl⟩

/-- Without a name there is no `set`. -/
theorem renders_updateByPrimaryKeySelective (strict : Bool) (record : User) :
    Renders updateByPrimaryKeySelective ⟨strict, record.toObj, []⟩
      ([.keyword .update, .ident "t_user"] ++
        (setTokens (if record.name.isSome then assignTokens "name" (ofString record.name)
            else []) ++ keyTokens (ofInteger record.id))) := by
  have hset : Renders (.set_ (.block [text "\n      ",
      .ifTest (.notNull (name "name"))
        (.text [.lit "\n        name = ", .param (name "name"), .lit ",\n      "]),
      text "\n    "])) ⟨strict, record.toObj, []⟩
      (setTokens (if record.name.isSome then assignTokens "name" (ofString record.name)
        else [])) := by
    obtain ⟨id, name⟩ := record
    cases name with
    | none => exact .chunk (c := []) rfl .nil
    | some name =>
        exact .chunk (c := chars "SET name = " ++ [.param (.str name)]) rfl ⟨rfl, rfl⟩
  have hkey : Renders (.text [.lit "\n    where id = ", .param (name "id"), .lit "\n  "])
      ⟨strict, record.toObj, []⟩ (keyTokens (ofInteger record.id)) := .chunk rfl ⟨rfl, rfl⟩
  have hall := (renders_updateTable _).seq (hset.seq (hkey.seq .skip))
  rw [List.append_nil] at hall
  exact hall

/-- The columns of the fields that are not null, in parentheses if any. -/
def selectiveColumns (record : User) : List (Token Obj) :=
  match record.id, record.name with
  | none, none => []
  | some _, none => [.lparen, .ident "id", .rparen]
  | none, some _ => [.lparen, .ident "name", .rparen]
  | some _, some _ => [.lparen, .ident "id", .comma, .ident "name", .rparen]

/-- Their values. -/
def selectiveValues (record : User) : List (Token Obj) :=
  match record.id, record.name with
  | none, none => []
  | some _, none => [.keyword .values, .lparen, .param (ofInteger record.id), .rparen]
  | none, some _ => [.keyword .values, .lparen, .param (ofString record.name), .rparen]
  | some _, some _ => [.keyword .values, .lparen, .param (ofInteger record.id), .comma,
      .param (ofString record.name), .rparen]

theorem renders_insertSelective (strict : Bool) (record : User) :
    Renders insertSelective ⟨strict, record.toObj, []⟩
      ([.keyword .insert, .keyword .into, .ident "t_user"] ++
        (selectiveColumns record ++ selectiveValues record)) := by
  have hcolumns : Renders (.trim ⟨some "(", some ")", [], [","]⟩
      (.block [text "\n      ",
        .ifTest (.notNull (name "id")) (text "\n        id,\n      "),
        text "\n      ",
        .ifTest (.notNull (name "name")) (text "\n        name,\n      "),
        text "\n    "])) ⟨strict, record.toObj, []⟩ (selectiveColumns record) := by
    obtain ⟨id, name⟩ := record
    cases id with
    | none =>
        cases name with
        | none => exact .chunk (c := []) rfl .nil
        | some name => exact .chunk (c := chars "( name )") rfl ⟨rfl, rfl⟩
    | some id =>
        cases name with
        | none => exact .chunk (c := chars "( id )") rfl ⟨rfl, rfl⟩
        | some name =>
            exact .chunk (c := chars "( id,\n      \n      \n        name )") rfl ⟨rfl, rfl⟩
  have hvalues : Renders (.trim ⟨some "values (", some ")", [], [","]⟩
      (.block [text "\n      ",
        .ifTest (.notNull (name "id"))
          (.text [.lit "\n        ", .param (name "id"), .lit ",\n      "]),
        text "\n      ",
        .ifTest (.notNull (name "name"))
          (.text [.lit "\n        ", .param (name "name"), .lit ",\n      "]),
        text "\n    "])) ⟨strict, record.toObj, []⟩ (selectiveValues record) := by
    obtain ⟨id, name⟩ := record
    cases id with
    | none =>
        cases name with
        | none => exact .chunk (c := []) rfl .nil
        | some name =>
            exact .chunk (c := chars "values ( " ++ .param (.str name) :: chars " )") rfl ⟨rfl, rfl⟩
    | some id =>
        cases name with
        | none =>
            exact .chunk (c := chars "values ( " ++ .param (.int id.toInt) :: chars " )") rfl
              ⟨rfl, rfl⟩
        | some name =>
            exact .chunk (c := chars "values ( " ++ .param (.int id.toInt) ::
              (chars ",\n      \n      \n        " ++ .param (.str name) :: chars " )")) rfl
              ⟨rfl, rfl⟩
  have hfront := renders_text "\n    insert into t_user\n    "
    [.keyword .insert, .keyword .into, .ident "t_user"] rfl rfl
  have hall := (hfront _).seq (hcolumns.seq ((renders_blank "\n    " (by decide) _).seq
    (hvalues.seq ((renders_blank "\n  " (by decide) _).seq .skip))))
  simp only [List.append_nil, List.nil_append] at hall
  exact hall

/-! ## 4. What the statements parse to -/

/-- A where clause that ends the statement. -/
def lastWhere (r : List (Token Obj)) : Option (Option (Condition Obj)) := (whereClause r).bind ended

theorem statement_count (r : List (Token Obj)) :
    statement (countFront ++ r) = (lastWhere r).map (.count "t_user") := rfl

theorem statement_delete (r : List (Token Obj)) :
    statement (deleteFront ++ r) = (lastWhere r).map (.delete "t_user") := rfl

/-- Behind the columns: the where clause, the order and the window. -/
def selectRest (distinct : Bool) (r : List (Token Obj)) : Option (Statement Obj) := do
  let (filter, r) ← whereClause r
  let (order, r) ← orderClause r
  let window ← (limitClause r).bind ended
  some (.select distinct ["id", "name"] "t_user" filter order window)

theorem statement_select (distinct : Bool) (r : List (Token Obj)) :
    statement (selectFront distinct ++ r) = selectRest distinct r := by
  cases distinct <;> rfl

/-- What an update assigns. -/
def assignments (record : User) : List (String × Operand Obj) :=
  [("id", .value (ofInteger record.id)), ("name", .value (ofString record.name))]

/-- A parser that only wraps what another one found. -/
theorem bind_some {α β : Type} (x : Option α) (f : α → β) :
    (x >>= fun a => some (f a)) = x.map f := by
  cases x <;> rfl

theorem statement_update (record : User) (bs : List (Block Obj)) :
    statement (updateFront (bothAssigned record) ++ filterTokens bs) =
      (lastWhere (filterTokens bs)).map (.update "t_user" (assignments record)) := by
  cases bs with
  | nil => rfl
  | cons b bs => exact bind_some (lastWhere (filterTokens (b :: bs))) _

/-- What a selective update assigns. -/
def nonNullAssignments (record : User) : List (String × Operand Obj) :=
  (assignments record).filter fun a =>
    match a.2 with
    | .value v => !v.isNull
    | .column _ => true

theorem statement_updateSelective {record : User} (h : hasField record = true)
    (bs : List (Block Obj)) :
    statement ([.keyword .update, .ident "t_user"] ++ (setTokens (selectiveAssignments record) ++
      filterTokens bs)) =
      (lastWhere (filterTokens bs)).map (.update "t_user" (nonNullAssignments record)) := by
  obtain ⟨id, name⟩ := record
  cases bs with
  | nil =>
      cases id with
      | none =>
          cases name with
          | none => cases h
          | some name => rfl
      | some id => cases name <;> rfl
  | cons b bs =>
      cases id with
      | none =>
          cases name with
          | none => cases h
          | some name => exact bind_some (lastWhere (filterTokens (b :: bs))) _
      | some id => cases name <;> exact bind_some (lastWhere (filterTokens (b :: bs))) _

/-- An update that assigns nothing is no statement. -/
theorem statement_updateNothing (bs : List (Block Obj)) :
    statement ([.keyword .update, .ident "t_user"] ++ filterTokens bs) = none := by
  cases bs <;> rfl

/-- Every IN of the criteria has a list. -/
def AllComplete (bs : List (Block Obj)) : Prop := ∀ c ∈ bs, ∀ q ∈ c.predicates, q.Complete

theorem lastWhere_complete {bs : List (Block Obj)} (h : AllComplete bs) :
    lastWhere (filterTokens bs) = some (filterOf bs) := by
  have hends : EndsFilter ([] : List (Token Obj)) := fun t ht => by cases ht
  have hwhere := whereClause_filterTokens h hends
  rw [List.append_nil] at hwhere
  rw [lastWhere, hwhere]
  rfl

theorem lastWhere_incomplete {bs : List (Block Obj)}
    (h : ∃ c ∈ bs, ∃ q ∈ c.predicates, ¬ q.Complete) : lastWhere (filterTokens bs) = none := by
  have hwhere := whereClause_incomplete h []
  rw [List.append_nil] at hwhere
  rw [lastWhere, hwhere]
  rfl

/-- A keyword stays in front. -/
theorem bindTokens_keyword {k : Keyword} {r : List (Token Unit)} {us : List (Token Obj)}
    (h : bindTokens (.keyword k :: r) [] = some us) : ∃ us', us = .keyword k :: us' := by
  have hmap : (bindTokens r []).map (Token.keyword k :: ·) = some us := h
  obtain ⟨us', -, rfl⟩ := Option.map_eq_some_iff.mp hmap
  exact ⟨us', rfl⟩

/-- Whatever order and window were spliced in, the where clause ends before
them. -/
theorem endsFilter_spliced {order : Option String} {limit offset : Option Int32}
    {us : List (Token Obj)}
    (h : bindTokens (orderLex order ++ windowLex limit offset) [] = some us) : EndsFilter us := by
  cases order with
  | some clause =>
      obtain ⟨us', rfl⟩ := bindTokens_keyword h
      intro t ht
      exact .inl (Option.some.inj ht).symm
  | none =>
      cases limit with
      | none =>
          obtain rfl := Option.some.inj h
          intro t ht
          cases ht
      | some limit =>
          have hkeyword : ∃ us', us = .keyword .limit :: us' := by
            cases offset with
            | none => exact bindTokens_keyword h
            | some offset => exact bindTokens_keyword h
          obtain ⟨us', rfl⟩ := hkeyword
          intro t ht
          exact .inr (Option.some.inj ht).symm

theorem selectRest_filter {distinct : Bool} {bs : List (Block Obj)} (h : AllComplete bs)
    {us : List (Token Obj)} (hus : EndsFilter us) {st : Statement Obj}
    (hst : selectRest distinct (filterTokens bs ++ us) = some st) : st.filter = filterOf bs := by
  rw [selectRest, whereClause_filterTokens h hus, Option.bind_eq_bind, Option.bind_some] at hst
  obtain ⟨⟨order, r⟩, -, hst⟩ := Option.bind_eq_some_iff.mp hst
  obtain ⟨window, -, hst⟩ := Option.bind_eq_some_iff.mp hst
  obtain rfl := Option.some.inj hst
  rfl

theorem selectRest_incomplete {distinct : Bool} {bs : List (Block Obj)}
    (h : ∃ c ∈ bs, ∃ q ∈ c.predicates, ¬ q.Complete) (us : List (Token Obj)) :
    selectRest distinct (filterTokens bs ++ us) = none := by
  rw [selectRest, whereClause_incomplete h]
  rfl

/-- Tokens without values, behind which an order may end. -/
structure Splices (us : List (Token Unit)) (ts : List (Token Obj)) : Prop where
  text : us = ts.map Token.erase
  values : ts.filterMap Token.value? = []

theorem Splices.append {us vs : List (Token Unit)} {ts ss : List (Token Obj)} (h : Splices us ts)
    (h' : Splices vs ss) : Splices (us ++ vs) (ts ++ ss) :=
  ⟨by rw [h.text, h'.text, List.map_append], by
    rw [List.filterMap_append, h.values, h'.values]
    rfl⟩

theorem Splices.bind {us : List (Token Unit)} {ts : List (Token Obj)} (h : Splices us ts) :
    bindTokens us [] = some ts := by
  rw [h.text, ← h.values]
  exact bindTokens_erase ts

/-- A valid order. -/
theorem orderClause_spliced {order : Option String} (h : ∀ clause ∈ order, IsOrderList clause) :
    ∃ ts items, Splices (orderLex order) ts ∧
      ∀ r, EndsOrder r → orderClause (ts ++ r) = some (items, r) := by
  cases order with
  | none =>
      refine ⟨[], [], ⟨rfl, rfl⟩, ?_⟩
      intro r hr
      cases r with
      | nil => rfl
      | cons t r =>
          obtain rfl := hr t rfl
          rfl
  | some clause =>
      obtain ⟨i, is, hlex⟩ := h clause rfl
      have hreads := reads_orderList (V := Obj) hlex
      have htext : lex clause.toList = (orderTokens i is : List (Token Obj)).map Token.erase := by
        rw [← hreads.text, textOf_chars]
      have hvalues := hreads.values
      rw [valuesOf_chars] at hvalues
      refine ⟨.keyword .order :: .keyword .by :: orderTokens i is, i :: is,
        ⟨congrArg (fun us => Token.keyword .order :: .keyword .by :: us) htext, hvalues.symm⟩, ?_⟩
      intro r hr
      exact orderList_orderTokens i is hr

/-- A number that is not negative. -/
theorem lex_nonneg {n : Int32} (h : 0 ≤ n) :
    lex (toString n.toInt).toList = [.number n.toInt.toNat] := by
  have hint : 0 ≤ n.toInt := Int32.le_iff_toInt_le.mp h
  obtain ⟨m, hm⟩ := Int.eq_ofNat_of_zero_le hint
  rw [hm]
  exact lex_repr m

/-- The window of an example: none without a limit, and an offset of 0 unless
there is another. -/
def windowOf (limit offset : Option Int32) : Option Window :=
  limit.map fun limit => ⟨(offset.getD 0).toInt.toNat, limit.toInt.toNat⟩

/-- A valid window. -/
theorem limitClause_spliced {limit offset : Option Int32} (hlimit : ∀ n ∈ limit, 0 ≤ n)
    (hoffset : ∀ n ∈ offset, 0 ≤ n) : ∃ ts, Splices (windowLex limit offset) ts ∧
      EndsOrder ts ∧ limitClause ts = some (windowOf limit offset, []) := by
  cases limit with
  | none => exact ⟨[], ⟨rfl, rfl⟩, (fun t ht => by cases ht), rfl⟩
  | some limit =>
      cases offset with
      | none =>
          refine ⟨[.keyword .limit, .number limit.toInt.toNat], ⟨?_, rfl⟩,
            fun t ht => (Option.some.inj ht).symm, rfl⟩
          rw [windowLex, lex_nonneg (hlimit limit rfl)]
          rfl
      | some offset =>
          refine ⟨[.keyword .limit, .number offset.toInt.toNat, .comma,
            .number limit.toInt.toNat], ⟨?_, rfl⟩, fun t ht => (Option.some.inj ht).symm, rfl⟩
          rw [windowLex, lex_nonneg (hlimit limit rfl), lex_nonneg (hoffset offset rfl)]
          rfl

/-- With a valid order and a valid window the statement is complete. -/
theorem selectRest_complete {distinct : Bool} {bs : List (Block Obj)} (h : AllComplete bs)
    {order : Option String} {limit offset : Option Int32}
    (horder : ∀ clause ∈ order, IsOrderList clause) (hlimit : ∀ n ∈ limit, 0 ≤ n)
    (hoffset : ∀ n ∈ offset, 0 ≤ n) : ∃ us st,
      bindTokens (orderLex order ++ windowLex limit offset) [] = some us ∧
        selectRest distinct (filterTokens bs ++ us) = some st := by
  obtain ⟨os, items, hos, horderClause⟩ := orderClause_spliced horder
  obtain ⟨ls, hls, hends, hlimitClause⟩ := limitClause_spliced hlimit hoffset
  have hbind := (hos.append hls).bind
  refine ⟨os ++ ls, .select distinct ["id", "name"] "t_user" (filterOf bs) items
    (windowOf limit offset), hbind, ?_⟩
  rw [selectRest, whereClause_filterTokens h (endsFilter_spliced hbind), Option.bind_eq_bind,
    Option.bind_some]
  simp only [horderClause ls hends, hlimitClause, Option.bind_eq_bind, Option.bind_some, ended]

/-! ## 5. What the calls with an example send -/

section Sent

variable {cs : List Criteria} {pss : List (List (Predicate Obj))} {ex : UserExample}

theorem sent_countByExample (h : AllPrint cs pss) (hored : ex.oredCriteria = cs.map some)
    (strict : Bool) : ∃ b, (MapperCall.countByExample (some ex)).boundSql strict = .ok b ∧
      b.parse = (lastWhere (whereTokens pss)).map (.count "t_user") := by
  obtain ⟨b, hb, hparse⟩ := (renders_countByExample h hored strict).getBoundSql
  exact ⟨b, hb, hparse.trans (statement_count _)⟩

theorem sent_deleteByExample (h : AllPrint cs pss) (hored : ex.oredCriteria = cs.map some)
    (strict : Bool) : ∃ b, (MapperCall.deleteByExample (some ex)).boundSql strict = .ok b ∧
      b.parse = (lastWhere (whereTokens pss)).map (.delete "t_user") := by
  obtain ⟨b, hb, hparse⟩ := (renders_deleteByExample h hored strict).getBoundSql
  exact ⟨b, hb, hparse.trans (statement_delete _)⟩

theorem sent_updateByExample (h : AllPrint cs pss) (hored : ex.oredCriteria = cs.map some)
    (strict : Bool) (record : User) :
    ∃ b, (MapperCall.updateByExample record (some ex)).boundSql strict = .ok b ∧
      b.parse = (lastWhere (whereTokens pss)).map (.update "t_user" (assignments record)) := by
  obtain ⟨b, hb, hparse⟩ := (renders_updateByExample h hored strict record).getBoundSql
  exact ⟨b, hb, hparse.trans (statement_update record _)⟩

theorem sent_updateByExampleSelective (h : AllPrint cs pss) (hored : ex.oredCriteria = cs.map some)
    (strict : Bool) (record : User) :
    ∃ b, (MapperCall.updateByExampleSelective record (some ex)).boundSql strict = .ok b ∧
      b.parse = if hasField record then
        (lastWhere (whereTokens pss)).map (.update "t_user" (nonNullAssignments record))
      else none := by
  obtain ⟨b, hb, hparse⟩ := (renders_updateByExampleSelective h hored strict record).getBoundSql
  refine ⟨b, hb, ?_⟩
  rw [hparse]
  split
  next hsome => exact statement_updateSelective hsome _
  next hnone =>
    obtain ⟨_ | id, _ | name⟩ := record
    · exact statement_updateNothing _
    all_goals exact absurd rfl hnone

theorem sent_selectByExample (h : AllPrint cs pss) (hored : ex.oredCriteria = cs.map some)
    (strict : Bool) : ∃ b, (MapperCall.selectByExample (some ex)).boundSql strict = .ok b ∧
      b.parse = (bindTokens (orderLex ex.orderByClause ++ windowLex ex.limit ex.offset) []).bind
        fun us => selectRest ex.distinct (whereTokens pss ++ us) := by
  obtain ⟨b, hb, hlex, hbindings⟩ := getBoundSql_selectByExample h hored strict
  refine ⟨b, hb, ?_⟩
  rw [BoundSql.parse, readSql_of_lex hlex hbindings, Option.bind_map]
  congr 1
  funext us
  rw [Function.comp_apply, List.append_assoc, statement_select]

end Sent

end SpringDome.Mapper
