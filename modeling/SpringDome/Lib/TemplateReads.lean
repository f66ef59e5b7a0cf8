/-
SpringDome.Lib.TemplateReads — what rendered chunks read as.

A template is written for the text it renders to, so its chunks are followed
by what they read as: blanks read as nothing, the rounds of a `foreach` read
as their tokens with the separator's token between those that are not blank,
and the outermost context keeps any two chunks apart.
-/
import SpringDome.Lib.DynamicSql
import Mathlib.Data.List.ReduceOption

namespace SpringDome.Lib.DynamicSql

open SpringDome.Lib.Sql

variable {V : Type}

/-! ## 1. Blanks -/

theorem isBlankChunk_iff {c : Chunk V} : isBlankChunk c = true ↔ AllBlank c := List.all_eq_true

theorem allBlank_append {a b : List (Glyph V)} (ha : AllBlank a) (hb : AllBlank b) :
    AllBlank (a ++ b) := fun x hx => (List.mem_append.mp hx).elim (ha x) (hb x)

theorem allBlank_flatten {cs : List (Chunk V)} (h : ∀ c ∈ cs, AllBlank c) :
    AllBlank cs.flatten := by
  intro x hx
  obtain ⟨c, hc, hxc⟩ := List.mem_flatten.mp hx
  exact h c hc x hxc

theorem trim_eq_nil {g : List (Glyph V)} (h : AllBlank g) : Sql.trim g = [] := by
  have hstart := trimStart_append h []
  rw [List.append_nil] at hstart
  rw [Sql.trim, hstart]
  rfl

/-- The text behind the blanks at the start begins where it did. -/
theorem trim_append {w : List (Glyph V)} (hw : AllBlank w) {x : Glyph V} (hx : x.isBlank = false)
    (g : List (Glyph V)) : Sql.trim (w ++ x :: g) = x :: trimEnd g := by
  rw [Sql.trim, trimStart_append hw, trimStart_cons hx, trimEnd_cons hx]

/-- Nothing comes of a blank body. -/
theorem Trim.apply_blank (t : Trim) {body : List (Glyph V)} (h : AllBlank body) :
    t.apply body = [] := by
  rw [Trim.apply, trim_eq_nil h]
  rfl

/-! ## 2. Separators -/

theorem insertChunk_append_blank (p : Chunk V) {cs : List (Chunk V)} (h : ∀ c ∈ cs, AllBlank c)
    (rest : List (Chunk V)) : insertChunk p (cs ++ rest) = cs ++ insertChunk p rest := by
  induction cs with
  | nil => rfl
  | cons c cs ih =>
      rw [List.cons_append, insertChunk, if_pos (isBlankChunk_iff.mpr (h c List.mem_cons_self)),
        ih fun d hd => h d (List.mem_cons_of_mem _ hd)]
      rfl

theorem insertChunk_cons {p c : Chunk V} (h : ¬ AllBlank c) (cs : List (Chunk V)) :
    insertChunk p (c :: cs) = p :: c :: cs := by
  rw [insertChunk, if_neg fun hblank => h (isBlankChunk_iff.mp hblank)]

/-- The chunks of one round of a loop: blanks only, or blanks around one
chunk that is some tokens. `P` is what else is known of that chunk. -/
inductive RoundReads (P : Chunk V → Prop) : List (Chunk V) → Option (List (Token V)) → Prop where
  | blank {cs : List (Chunk V)} (h : ∀ c ∈ cs, AllBlank c) : RoundReads P cs none
  | chunk {before after : List (Chunk V)} {c : Chunk V} {ts : List (Token V)}
      (hbefore : ∀ d ∈ before, AllBlank d) (hafter : ∀ d ∈ after, AllBlank d) (hP : P c)
      (hc : ¬ AllBlank c) (hclean : Clean c ts) : RoundReads P (before ++ c :: after) (some ts)

/-- A round of one chunk. -/
theorem RoundReads.single {P : Chunk V → Prop} {c : Chunk V} {ts : List (Token V)} (hP : P c)
    (hc : ¬ AllBlank c) (hclean : Clean c ts) : RoundReads P [c] (some ts) :=
  @chunk V P [] [] c ts (fun _ h => by cases h) (fun _ h => by cases h) hP hc hclean

section Rounds

variable {P : Chunk V → Prop} {sep : Chunk V} {t : Token V} {items : List (List (Chunk V))}
  {rounds : List (Option (List (Token V)))}

/-- Later rounds: a separator before each that is not blank. -/
theorem reads_joinItems_later (hsep : Reads sep [t])
    (h : List.Forall₂ (RoundReads P) items rounds) :
    Reads (joinItems sep false items).flatten (rounds.reduceOption.flatMap (t :: ·)) := by
  induction h with
  | nil => exact .nil
  | @cons item round items rounds hround _ ih =>
      rw [joinItems, Bool.false_and, List.flatten_append]
      cases hround with
      | blank hblank =>
          have hinsert := insertChunk_append_blank sep hblank []
          rw [List.append_nil] at hinsert
          rw [if_neg Bool.false_ne_true, hinsert, List.reduceOption_cons_of_none]
          simp only [insertChunk, List.append_nil]
          exact (reads_blank_append (allBlank_flatten hblank)).mpr ih
      | @chunk before after c ts hbefore hafter hP hc hclean =>
          rw [if_neg Bool.false_ne_true, insertChunk_append_blank sep hbefore,
            insertChunk_cons hc, List.reduceOption_cons_of_some, List.flatMap_cons]
          have hne : c ≠ [] := fun hnil => hc (by rw [hnil]; exact fun x hx => by cases hx)
          have hafterRest : Reads (after.flatten ++ (joinItems sep false items).flatten) _ :=
            (reads_blank_append (allBlank_flatten hafter)).mpr ih
          have hchunk := hclean.reads.append hafterRest (hclean.ends.apart _)
          have hall := hsep.append hchunk ((hclean.starts.append_left hne _).apart sep)
          simp only [List.flatten_append, List.flatten_cons, List.append_assoc]
          exact (reads_blank_append (allBlank_flatten hbefore)).mpr hall

/-- No round but blank ones. -/
theorem allBlank_joinItems (h : List.Forall₂ (RoundReads P) items rounds)
    (hrounds : rounds.reduceOption = []) (sep : Chunk V) :
    AllBlank (joinItems sep true items).flatten := by
  induction h with
  | nil => exact fun x hx => by cases hx
  | @cons item round items rounds hround _ ih =>
      cases hround with
      | chunk => simp [List.reduceOption_cons_of_some] at hrounds
      | blank hblank =>
          rw [List.reduceOption_cons_of_none] at hrounds
          have hinsert := insertChunk_append_blank ([] : Chunk V) hblank []
          rw [List.append_nil] at hinsert
          have hall : item.all isBlankChunk = true :=
            List.all_eq_true.mpr fun c hc => isBlankChunk_iff.mpr (hblank c hc)
          rw [joinItems, if_pos rfl, hinsert, hall, Bool.true_and, List.flatten_append]
          simp only [insertChunk, List.append_nil]
          exact allBlank_append (allBlank_flatten hblank) (ih hrounds)

/-- The first round that is not blank has no separator. -/
theorem exists_joinItems_first (hsep : Reads sep [t])
    (h : List.Forall₂ (RoundReads P) items rounds) {ts : List (Token V)}
    {tss : List (List (Token V))} (hrounds : rounds.reduceOption = ts :: tss) :
    ∃ w c rest, (joinItems sep true items).flatten = w ++ (c ++ rest) ∧ AllBlank w ∧ P c ∧
      ¬ AllBlank c ∧ Clean c ts ∧ Reads rest (tss.flatMap (t :: ·)) := by
  induction h with
  | nil => cases hrounds
  | @cons item round items rounds hround hlater ih =>
      cases hround with
      | blank hblank =>
          rw [List.reduceOption_cons_of_none] at hrounds
          obtain ⟨w, c, rest, heq, hw, hP, hc, hclean, hrest⟩ := ih hrounds
          have hinsert := insertChunk_append_blank ([] : Chunk V) hblank []
          rw [List.append_nil] at hinsert
          have hall : item.all isBlankChunk = true :=
            List.all_eq_true.mpr fun c hc => isBlankChunk_iff.mpr (hblank c hc)
          refine ⟨item.flatten ++ w, c, rest, ?_, allBlank_append (allBlank_flatten hblank) hw, hP,
            hc, hclean, hrest⟩
          rw [joinItems, if_pos rfl, hinsert, hall, Bool.true_and, List.flatten_append, heq]
          simp [insertChunk]
      | @chunk before after c ts' hbefore hafter hP hc hclean =>
          rw [List.reduceOption_cons_of_some, List.cons.injEq] at hrounds
          obtain ⟨rfl, rfl⟩ := hrounds
          have hall : (before ++ c :: after).all isBlankChunk = false := by
            rw [Bool.eq_false_iff]
            intro hblank
            exact hc (isBlankChunk_iff.mp (List.all_eq_true.mp hblank c (by simp)))
          refine ⟨before.flatten, c, after.flatten ++ (joinItems sep false items).flatten, ?_,
            allBlank_flatten hbefore, hP, hc, hclean,
            (reads_blank_append (allBlank_flatten hafter)).mpr (reads_joinItems_later hsep hlater)⟩
          rw [joinItems, if_pos rfl, insertChunk_append_blank [] hbefore, insertChunk_cons hc, hall,
            Bool.true_and]
          simp

/-- A loop with nothing around it. -/
theorem flatten_wrap (p : Path) (item : String) (s : Option String)
    (items : List (List (Chunk V))) : (ForEach.wrap ⟨p, item, none, none, s⟩ items).flatten =
      (joinItems (chars (s.getD "")) true items).flatten := by
  cases items with
  | nil => rfl
  | cons item items => simp [ForEach.wrap, optionalChunk]

/-- A loop with something open and something close around it. -/
theorem clean_wrap {p : Path} {item o c s : String} {open_ close : Token V}
    (ho : Clean (chars o) [open_]) (hone : (chars o : Chunk V) ≠ [])
    (hc : Clean (chars c) [close]) (hcne : (chars c : Chunk V) ≠ []) (hs : Reads (chars s) [t])
    (h : List.Forall₂ (RoundReads P) items rounds) {ts : List (Token V)}
    {tss : List (List (Token V))} (hrounds : rounds.reduceOption = ts :: tss) :
    Clean (ForEach.wrap ⟨p, item, some o, some c, some s⟩ items).flatten
      (open_ :: (ts ++ tss.flatMap (t :: ·) ++ [close])) := by
  obtain ⟨w, d, rest, heq, hw, -, -, hclean, hrest⟩ := exists_joinItems_first hs h hrounds
  have hbody : Reads (w ++ (d ++ rest)) (ts ++ tss.flatMap (t :: ·)) :=
    (reads_blank_append hw).mpr (hclean.reads.append hrest (hclean.ends.apart _))
  have hwrap : (ForEach.wrap ⟨p, item, some o, some c, some s⟩ items).flatten =
      chars o ++ (w ++ (d ++ rest) ++ chars c) := by
    cases h with
    | nil => cases hrounds
    | cons hround hlater =>
        rw [ForEach.wrap, List.flatten_append, List.flatten_append, Option.getD_some, heq]
        simp [optionalChunk]
  rw [hwrap]
  exact ⟨ho.reads.append (hbody.append hc.reads (hc.starts.apart _)) (ho.ends.apart _),
    ho.starts.append_left hone _,
    (hc.ends.append_right hcne _).append_right (List.append_ne_nil_of_right_ne_nil _ hcne) _⟩

/-- Without a separator a loop only strings its rounds together. -/
theorem flatten_joinItems_nil (first : Bool) (items : List (List (Chunk V))) :
    (joinItems [] first items).flatten = (items.map List.flatten).flatten := by
  have hinsert : ∀ cs : List (Chunk V), (insertChunk [] cs).flatten = cs.flatten := by
    intro cs
    induction cs with
    | nil => rfl
    | cons c cs ih =>
        rw [insertChunk]
        split <;> simp [ih]
  induction items generalizing first with
  | nil => rfl
  | cons item items ih => rw [joinItems, ite_self, List.flatten_append, hinsert, ih]; rfl

end Rounds

/-! ## 3. The outermost context -/

/-- The tokens of a context, chunk by chunk. -/
def lexChunks (cs : List (Chunk V)) : List (Token Unit) := cs.flatMap fun c => lex (textOf c)

theorem lex_joinChunks (cs : List (Chunk V)) : lex (textOf (joinChunks cs)) = lexChunks cs := by
  have hspace : AllBlank (chars " " : Chunk V) := allBlank_chars (by decide)
  rw [joinChunks, lex_trim, lexChunks]
  induction cs with
  | nil => rfl
  | cons c cs ih =>
      have hends : EndsLoose (c ++ chars " ") :=
        hspace.clean.ends.append_right (List.cons_ne_nil _ _) c
      rw [List.flatMap_cons, List.flatMap_cons, textOf_append, lex_append (hends.apart _), ih,
        lex_append_blank hspace]

theorem valuesOf_joinChunks (cs : List (Chunk V)) :
    valuesOf (joinChunks cs) = cs.flatMap valuesOf := by
  rw [joinChunks, valuesOf_trim]
  induction cs with
  | nil => rfl
  | cons c cs ih => simp [ih]

/-- The chunks read as the tokens, one after the other. -/
structure ChunksRead (cs : List (Chunk V)) (ts : List (Token V)) : Prop where
  text : lexChunks cs = ts.map Token.erase
  values : cs.flatMap valuesOf = ts.filterMap Token.value?

theorem ChunksRead.nil : ChunksRead ([] : List (Chunk V)) [] := ⟨rfl, rfl⟩

theorem ChunksRead.single {c : Chunk V} {ts : List (Token V)} (h : Reads c ts) :
    ChunksRead [c] ts := by
  constructor
  · rw [lexChunks, List.flatMap_singleton, h.text]
  · rw [List.flatMap_singleton, h.values]

theorem ChunksRead.append {as bs : List (Chunk V)} {ts us : List (Token V)}
    (ha : ChunksRead as ts) (hb : ChunksRead bs us) : ChunksRead (as ++ bs) (ts ++ us) := by
  have hlex : lexChunks (as ++ bs) = lexChunks as ++ lexChunks bs := List.flatMap_append
  constructor
  · rw [hlex, ha.text, hb.text, List.map_append]
  · rw [List.flatMap_append, ha.values, hb.values, List.filterMap_append]

/-- A statement that begins with chunks that are known, and ends with chunks
that are not, but have no values. -/
theorem sent_append {front tail : List (Chunk Obj)} {ts : List (Token Obj)}
    (h : ChunksRead front ts) (htail : tail.flatMap valuesOf = []) :
    lex (toBoundSql (joinChunks (front ++ tail))).sql.toList =
        ts.map Token.erase ++ lexChunks tail ∧
      (toBoundSql (joinChunks (front ++ tail))).bindings = ts.filterMap Token.value? := by
  have hlex : lexChunks (front ++ tail) = ts.map Token.erase ++ lexChunks tail := by
    rw [← h.text]
    exact List.flatMap_append
  constructor
  · rw [toBoundSql, String.toList_ofList, lex_joinChunks, hlex]
  · rw [toBoundSql, valuesOf_joinChunks, List.flatMap_append, h.values, htail, List.append_nil]

/-! ## 4. Nodes that succeed -/

section Nodes

variable {e : Env}

theorem render_trim {body : SqlNode} {cs : List (Chunk Obj)} (h : body.render e = .ok cs)
    (t : Trim) : (SqlNode.trim t body).render e = .ok [t.apply cs.flatten] := by
  rw [SqlNode.render, h]
  rfl

theorem render_seq {a b : SqlNode} {as bs : List (Chunk Obj)} (ha : a.render e = .ok as)
    (hb : b.render e = .ok bs) : (SqlNode.seq a b).render e = .ok (as ++ bs) := by
  rw [SqlNode.render, ha, hb]
  rfl

theorem render_ifTest (test : Test) {b : Bool} (h : test.eval e = .ok b) (body : SqlNode) :
    (SqlNode.ifTest test body).render e = if b then body.render e else .ok [] := by
  rw [SqlNode.render, h]
  rfl

theorem render_foreach {f : ForEach} {objs : List Obj} (h : f.iterable e = .ok objs)
    {body : SqlNode} {rounds : List (List (Chunk Obj))}
    (hrounds : (objs.mapM fun o => body.render (e.bind f.item o)) = .ok rounds) :
    (SqlNode.foreach f body).render e = .ok (f.wrap rounds) := by
  have hbody : ((objs.mapM fun o => body.render (e.bind f.item o)) >>= fun items =>
      .ok (f.wrap items)) = Except.ok (f.wrap rounds) := by
    rw [hrounds]
    rfl
  rw [SqlNode.render, h]
  exact hbody

end Nodes

/-- A loop whose rounds all succeed, and alike in every environment. -/
theorem exists_mapM_ok {α β γ ε E : Type} {f : E → α → Except ε β} {R : β → γ → Prop}
    {as : List α} {cs : List γ}
    (h : List.Forall₂ (fun a c => ∃ b, (∀ e, f e a = .ok b) ∧ R b c) as cs) :
    ∃ bs, (∀ e, as.mapM (f e) = .ok bs) ∧ List.Forall₂ R bs cs := by
  induction h with
  | nil => exact ⟨[], fun _ => rfl, .nil⟩
  | @cons a c as cs hac _ ih =>
      obtain ⟨b, hb, hbc⟩ := hac
      obtain ⟨bs, hbs, hrest⟩ := ih
      refine ⟨b :: bs, ?_, .cons hbc hrest⟩
      intro e
      rw [List.mapM_cons, hb, hbs]
      rfl

/-! ## 5. Templates -/

/-- The template renders to chunks that read as the tokens. -/
def Renders (n : SqlNode) (e : Env) (ts : List (Token Obj)) : Prop :=
  ∃ cs, n.render e = .ok cs ∧ ChunksRead cs ts

section Renders

variable {e : Env} {n a b : SqlNode} {ts us : List (Token Obj)}

theorem Renders.of_render {cs : List (Chunk Obj)} (h : n.render e = .ok cs)
    (hcs : ChunksRead cs ts) : Renders n e ts := ⟨cs, h, hcs⟩

theorem Renders.chunk {c : Chunk Obj} (h : n.render e = .ok [c]) (hc : Reads c ts) :
    Renders n e ts := ⟨[c], h, .single hc⟩

theorem Renders.skip : Renders .skip e [] := ⟨[], rfl, .nil⟩

theorem Renders.seq (ha : Renders a e ts) (hb : Renders b e us) :
    Renders (.seq a b) e (ts ++ us) := by
  obtain ⟨as, has, hreadsA⟩ := ha
  obtain ⟨bs, hbs, hreadsB⟩ := hb
  exact ⟨as ++ bs, render_seq has hbs, hreadsA.append hreadsB⟩

theorem Renders.ifTrue (test : Test) (h : test.eval e = .ok true) (hn : Renders n e ts) :
    Renders (.ifTest test n) e ts := by
  obtain ⟨cs, hcs, hreads⟩ := hn
  exact ⟨cs, by rw [render_ifTest _ h, if_pos rfl, hcs], hreads⟩

theorem Renders.ifFalse (test : Test) (h : test.eval e = .ok false) (n : SqlNode) :
    Renders (.ifTest test n) e [] :=
  ⟨[], by rw [render_ifTest _ h, if_neg Bool.false_ne_true], .nil⟩

/-- Chunks that read as the tokens, as a driver gets them. -/
theorem ChunksRead.readSql {cs : List (Chunk Obj)} (h : ChunksRead cs ts) :
    readSql (toBoundSql (joinChunks cs)).sql (toBoundSql (joinChunks cs)).bindings = some ts :=
  Reads.readSql ⟨(lex_joinChunks cs).trans h.text, (valuesOf_joinChunks cs).trans h.values⟩

/-- The statement sent for a template that renders. -/
theorem Renders.getBoundSql {strict : Bool} {p : Obj} (h : Renders n ⟨strict, p, []⟩ ts) :
    ∃ b, getBoundSql strict n p = .ok b ∧ b.parse = statement ts := by
  obtain ⟨cs, hcs, hreads⟩ := h
  refine ⟨toBoundSql (joinChunks cs), ?_, ?_⟩
  · rw [DynamicSql.getBoundSql, hcs]
    rfl
  · rw [BoundSql.parse, hreads.readSql, Option.bind_some]

end Renders

/-- The template renders to chunks that read as the tokens, and then to the
chunks of the tail. -/
def RendersThen (n : SqlNode) (e : Env) (ts : List (Token Obj)) (tail : List (Chunk Obj)) : Prop :=
  ∃ cs, n.render e = .ok (cs ++ tail) ∧ ChunksRead cs ts

section RendersThen

variable {e : Env} {n a b : SqlNode} {ts us : List (Token Obj)} {tail : List (Chunk Obj)}

theorem RendersThen.of_render (h : n.render e = .ok tail) : RendersThen n e [] tail :=
  ⟨[], h, .nil⟩

theorem RendersThen.seq (ha : Renders a e ts) (hb : RendersThen b e us tail) :
    RendersThen (.seq a b) e (ts ++ us) tail := by
  obtain ⟨as, has, hreadsA⟩ := ha
  obtain ⟨bs, hbs, hreadsB⟩ := hb
  refine ⟨as ++ bs, ?_, hreadsA.append hreadsB⟩
  rw [render_seq has hbs, List.append_assoc]

/-- The text and the values that are sent, when the tail has no values. -/
theorem RendersThen.sent {strict : Bool} {p : Obj}
    (h : RendersThen n ⟨strict, p, []⟩ ts tail) (htail : tail.flatMap valuesOf = []) :
    ∃ b, getBoundSql strict n p = .ok b ∧
      lex b.sql.toList = ts.map Token.erase ++ lexChunks tail ∧
      b.bindings = ts.filterMap Token.value? := by
  obtain ⟨cs, hcs, hreads⟩ := h
  refine ⟨toBoundSql (joinChunks (cs ++ tail)), ?_, sent_append hreads htail⟩
  rw [DynamicSql.getBoundSql, hcs]
  rfl

end RendersThen

/-- What is sent reads as the tokens and then whatever the text of the tail
reads as. -/
theorem readSql_of_lex {b : BoundSql Obj} {ts : List (Token Obj)} {us : List (Token Unit)}
    (hlex : lex b.sql.toList = ts.map Token.erase ++ us)
    (hbindings : b.bindings = ts.filterMap Token.value?) :
    readSql b.sql b.bindings = (bindTokens us []).map (ts ++ ·) := by
  rw [readSql, hlex, hbindings, ← List.append_nil (ts.filterMap Token.value?), bindTokens_append]

/-- The template raises. -/
def Raises (n : SqlNode) (e : Env) : Prop := ∃ failure, n.render e = .error failure

section Raises

variable {e : Env} {n a b : SqlNode}

theorem Raises.seqLeft (h : Raises a e) (b : SqlNode) : Raises (.seq a b) e := by
  obtain ⟨failure, h⟩ := h
  exact ⟨failure, by rw [SqlNode.render, h]; rfl⟩

/-- The part before it may raise too. -/
theorem Raises.seqRight (h : Raises b e) (a : SqlNode) : Raises (.seq a b) e := by
  obtain ⟨failure, h⟩ := h
  cases ha : a.render e with
  | error other => exact ⟨other, by rw [SqlNode.render, ha]; rfl⟩
  | ok as => exact ⟨failure, by rw [SqlNode.render, ha, h]; rfl⟩

theorem Raises.test {test : Test} {failure : RenderFailure} (h : test.eval e = .error failure)
    (n : SqlNode) : Raises (.ifTest test n) e := ⟨failure, by rw [SqlNode.render, h]; rfl⟩

theorem Raises.ifTrue {test : Test} (h : test.eval e = .ok true) (hn : Raises n e) :
    Raises (.ifTest test n) e := by
  obtain ⟨failure, hn⟩ := hn
  exact ⟨failure, by rw [render_ifTest _ h, if_pos rfl, hn]⟩

theorem Raises.trim (h : Raises n e) (t : Trim) : Raises (.trim t n) e := by
  obtain ⟨failure, h⟩ := h
  exact ⟨failure, by rw [SqlNode.render, h]; rfl⟩

theorem Raises.collection {f : ForEach} {failure : RenderFailure}
    (h : f.iterable e = .error failure) (body : SqlNode) : Raises (.foreach f body) e :=
  ⟨failure, by rw [SqlNode.render, h]; rfl⟩

/-- One round that raises is enough. -/
theorem Raises.round {f : ForEach} {objs : List Obj} (h : f.iterable e = .ok objs)
    {body : SqlNode} (hround : ∃ o ∈ objs, Raises body (e.bind f.item o)) :
    Raises (.foreach f body) e := by
  have hloop : ∀ objs : List Obj, (∃ o ∈ objs, Raises body (e.bind f.item o)) →
      ∃ failure, (objs.mapM fun o => body.render (e.bind f.item o)) = .error failure := by
    intro objs
    induction objs with
    | nil => rintro ⟨o, ho, -⟩; cases ho
    | cons first objs ih =>
        rintro ⟨o, ho, hraises⟩
        rw [List.mapM_cons]
        cases hfirst : body.render (e.bind f.item first) with
        | error other => exact ⟨other, rfl⟩
        | ok cs =>
            rcases List.mem_cons.mp ho with rfl | ho
            · obtain ⟨failure, hfailure⟩ := hraises
              rw [hfailure] at hfirst
              cases hfirst
            · obtain ⟨failure, hfailure⟩ := ih ⟨o, ho, hraises⟩
              exact ⟨failure, by rw [hfailure]; rfl⟩
  obtain ⟨failure, hfailure⟩ := hloop objs hround
  have hbody : ((objs.mapM fun o => body.render (e.bind f.item o)) >>= fun items =>
      .ok (f.wrap items)) = Except.error failure := by
    rw [hfailure]
    rfl
  exact ⟨failure, by rw [SqlNode.render, h]; exact hbody⟩

theorem Raises.getBoundSql {strict : Bool} {p : Obj} (h : Raises n ⟨strict, p, []⟩)
    (b : BoundSql Obj) : getBoundSql strict n p ≠ .ok b := by
  obtain ⟨failure, h⟩ := h
  rw [DynamicSql.getBoundSql, h]
  intro hok
  cases hok

end Raises

end SpringDome.Lib.DynamicSql
