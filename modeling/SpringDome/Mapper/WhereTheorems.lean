/-
SpringDome.Mapper.WhereTheorems — what the where fragments read as.

Bottom up along the template: a criterion renders to `and` and the tokens of
its predicate, a criteria to its conjunction in parentheses with the first
`and` taken off again, and a fragment to `where` and the disjunction of the
criteria that have a criterion. Each level is one lemma, and each says that
the chunks are the same in every environment, so that the two fragments of
the file cannot differ.
-/
import SpringDome.Bean.UserExampleTheorems
import SpringDome.Lib.TemplateReads
import SpringDome.Mapper.UserMapper

namespace SpringDome.Mapper

open SpringDome.Bean
open SpringDome.Lib.DynamicSql
open SpringDome.Lib.Sql

/-! ## 1. Criterions -/

/-- The text of one criterion: `and`, then something that reads as the
predicate. -/
def PrintsAnd (g : List (Glyph Obj)) (p : Predicate Obj) : Prop :=
  ∃ w t, AllBlank w ∧ g = w ++ (chars "and " ++ t) ∧ Reads t p.tokens ∧ EndsLoose t

/-- One round of the loop over the values of a criterion. -/
def listItemRound : SqlNode :=
  .text [.lit "\n                    ", .param (name "listItem"), .lit "\n                  "]

/-- A round of the loop over a list is the placeholder of its value. -/
theorem listItemRound_render (v : Obj) : ∃ cs : List (Chunk Obj),
    (∀ e : Env, listItemRound.render (e.bind "listItem" v) = .ok cs) ∧
      RoundReads (fun _ => True) cs (some [.param v]) := by
  refine ⟨_, fun e => rfl, ?_⟩
  have hopen : AllBlank (chars "\n                    " : Chunk Obj) := allBlank_chars (by decide)
  have hclose : AllBlank (chars "\n                  " : Chunk Obj) := allBlank_chars (by decide)
  refine .single trivial ?_
    (hopen.clean.append ((Clean.param v).append (hclose.clean.append .nil)))
  intro hblank
  have hparam := hblank (.param v) (by simp)
  cases hparam

/-- The loop over the values of a criterion. -/
def listLoop : ForEach := ⟨property "criterion" "value", "listItem", some "(", some ")", some ","⟩

/-- The chunks of a list of values: none at all for an empty one. -/
theorem listItems_render (condition : String) (items : List Obj) : ∃ cs : List (Chunk Obj),
    (∀ e : Env, listItems.render
      (e.bind "criterion" (Criterion.ofValue condition (.list items) none).toObj) = .ok cs) ∧
    Clean cs.flatten (listTokens (items.map .value)) := by
  have hrounds : List.Forall₂ (fun v ts => ∃ cs,
      (∀ e : Env, listItemRound.render (e.bind "listItem" v) = .ok cs) ∧
        RoundReads (fun _ => True) cs ts) items (items.map fun v => some [.param v]) := by
    rw [List.forall₂_map_right_iff]
    exact List.forall₂_same.mpr fun v _ => listItemRound_render v
  obtain ⟨rounds, hrender, hreads⟩ := exists_mapM_ok hrounds
  refine ⟨listLoop.wrap rounds, fun e => render_foreach rfl (hrender _), ?_⟩
  cases items with
  | nil =>
      cases hreads
      exact .nil
  | cons v items =>
      have hopen : Clean (chars "(" : Chunk Obj) [.lparen] := .chars rfl rfl (by decide) (by decide)
      have hclose : Clean (chars ")" : Chunk Obj) [.rparen] :=
        .chars rfl rfl (by decide) (by decide)
      have hcomma : Reads (chars "," : Chunk Obj) [.comma] := .chars rfl rfl
      have htokens : listTokens ((v :: items).map .value) = .lparen ::
          ([.param v] ++ (items.map fun v => [.param v]).flatMap (.comma :: ·) ++ [.rparen]) := by
        rw [List.map_cons, listTokens, itemTokens_eq]
        simp [Operand.token, List.flatMap_map]
      have hsome : ((v :: items).map fun v => some [Token.param v]).reduceOption =
          [.param v] :: items.map fun v => [.param v] := by
        simp [List.reduceOption, List.filterMap_map]
      rw [htokens]
      exact clean_wrap hopen (List.cons_ne_nil _ _) hclose (List.cons_ne_nil _ _) hcomma hreads
        hsome

/-- One round of the loop over the criterions. -/
def criterionRound : SqlNode :=
  .block [text "\n              ", criterionChoice, text "\n            "]

/-- The condition of a criterion, then its values, between the blanks of the
template. -/
theorem printsAnd {k : Criterion} {p : Predicate Obj} (h : k.Prints p) {u : List (Glyph Obj)}
    (hu : Clean u k.valueTokens) :
    PrintsAnd (chars "\n              " ++ (chars "\n                  and " ++
      (chars k.condition ++ (u ++ chars "\n            ")))) p := by
  obtain ⟨ts, hlex, hvalues, htokens⟩ := h.tokens
  have hopen : AllBlank (chars "\n              " ++ chars "\n                  " : Chunk Obj) :=
    allBlank_append (allBlank_chars (by decide)) (allBlank_chars (by decide))
  have hclose : AllBlank (chars "\n            " : Chunk Obj) := allBlank_chars (by decide)
  refine ⟨_, chars k.condition ++ (u ++ chars "\n            "), hopen, ?_, ?_, ?_⟩
  · rw [List.append_assoc]
    rfl
  · rw [htokens, ← List.append_assoc]
    exact (reads_append_blank hclose).mpr
      ((Reads.chars hlex hvalues).append hu.reads (hu.starts.apart _))
  · exact (hclose.clean.ends.append_right (List.cons_ne_nil _ _) u).append_right
      (List.append_ne_nil_of_right_ne_nil _ (List.cons_ne_nil _ _)) _

/-- One criterion of each kind. -/
theorem criterionRound_render {k : Criterion} {p : Predicate Obj} (h : k.Prints p) :
    ∃ cs : List (Chunk Obj),
      (∀ e : Env, criterionRound.render (e.bind "criterion" k.toObj) = .ok cs) ∧
        PrintsAnd cs.flatten p := by
  have hblank : AllBlank (chars "\n                " : Chunk Obj) := allBlank_chars (by decide)
  have hspace : AllBlank (chars " " : Chunk Obj) := allBlank_chars (by decide)
  cases h.kind with
  | noValue condition =>
      have hprints := printsAnd h hblank.clean
      refine ⟨_, fun e => rfl, ?_⟩
      simpa using hprints
  | singleValue condition v hv =>
      have hprints := printsAnd h (hspace.clean.append ((Clean.param v).append hblank.clean))
      refine ⟨_, fun e => rfl, ?_⟩
      simpa using hprints
  | betweenValue condition v w =>
      have hand : Clean (chars " and " : Chunk Obj) [.keyword .and] :=
        .chars rfl rfl (by decide) (by decide)
      have hprints := printsAnd h (hspace.clean.append ((Clean.param v).append
        (hand.append ((Clean.param w).append hblank.clean))))
      refine ⟨_, fun e => rfl, ?_⟩
      simpa [Criterion.ofBetween] using hprints
  | listValue condition items =>
      obtain ⟨list, hrender, hclean⟩ := listItems_render condition items
      have hopen : AllBlank (chars "\n                  " : Chunk Obj) := allBlank_chars (by decide)
      have hlist := hopen.clean.append (hclean.append hblank.clean)
      rw [List.nil_append, List.append_nil] at hlist
      have hprints := printsAnd h hlist
      -- the three other tests fail, and the body is left
      have hchoice : ∀ e : Env, (SqlNode.seq (.text [.lit "\n                  and ",
          .splice (property "criterion" "condition"), .lit "\n                  "])
          (.seq listItems (.seq (text "\n                ") .skip))).render
          (e.bind "criterion" (Criterion.ofValue condition (.list items) none).toObj) =
          .ok ([chars "\n                  and " ++ (chars condition ++
            (chars "\n                  " ++ []))] ++
              (list ++ [chars "\n                " ++ []])) :=
        fun e => render_seq rfl (render_seq (hrender e) rfl)
      refine ⟨_, fun e => render_seq rfl (render_seq (hchoice e) rfl), ?_⟩
      simpa [Criterion.ofValue] using hprints

/-! ## 2. One criteria -/

/-- Criterions behind the first predicate, each with its `and`. -/
theorem reads_criterions {t : List (Glyph Obj)} {p : Predicate Obj} (ht : Reads t p.tokens)
    (hends : EndsLoose t) {gs : List (List (Glyph Obj))} {ps : List (Predicate Obj)}
    (h : List.Forall₂ PrintsAnd gs ps) : Reads (t ++ gs.flatten) (conjTokens p ps) := by
  induction h generalizing t p with
  | nil => simpa [conjTokens] using ht
  | @cons g q gs ps hg _ ih =>
      obtain ⟨w, u, hw, rfl, hu, huends⟩ := hg
      have hand : Reads (chars "and " : Chunk Obj) [.keyword .and] := .chars rfl rfl
      have handEnds : EndsLoose (chars "and " : Chunk Obj) :=
        EndsLoose.append_right (b := chars " ") (allBlank_chars (by decide)).clean.ends
          (List.cons_ne_nil _ _) (chars "and")
      have hlater := hand.append (ih hu huends) (handEnds.apart _)
      rw [List.flatten_cons, conjTokens, List.append_assoc, List.append_assoc]
      exact ht.append ((reads_blank_append hw).mpr hlater) (hends.apart _)

/-- The trim of a criteria. -/
def parens : Trim := ⟨some "(", some ")", ["AND"], []⟩

/-- The first `and` is cut off, and parentheses are put around the rest. -/
theorem parens_apply {w v : List (Glyph Obj)} (hw : AllBlank w) (hv : AllBlank v)
    {gs : List (List (Glyph Obj))} {p : Predicate Obj} {ps : List (Predicate Obj)}
    (h : List.Forall₂ PrintsAnd gs (p :: ps)) :
    ∃ y, parens.apply (w ++ (gs.flatten ++ v)) = chars "(" ++ (chars " " ++ y) ++
        (chars " " ++ chars ")") ∧ Reads y (conjTokens p ps) := by
  cases h with
  | @cons g _ gs _ hg hrest =>
      obtain ⟨b, t, hb, rfl, ht, hends⟩ := hg
      have hbody : w ++ (((b ++ (chars "and " ++ t)) :: gs).flatten ++ v) =
          (w ++ b) ++ .char 'a' :: (chars "nd " ++ (t ++ (gs.flatten ++ v))) := by
        simp [chars]
      have htrim : Lib.Sql.trim (w ++ (((b ++ (chars "and " ++ t)) :: gs).flatten ++ v)) =
          .char 'a' :: .char 'n' :: .char 'd' ::
            trimEnd (chars " " ++ (t ++ (gs.flatten ++ v))) := by
        have hn := trimEnd_cons (x := (.char 'n' : Glyph Obj)) (by decide)
          (.char 'd' :: (chars " " ++ (t ++ (gs.flatten ++ v))))
        have hd := trimEnd_cons (x := (.char 'd' : Glyph Obj)) (by decide)
          (chars " " ++ (t ++ (gs.flatten ++ v)))
        rw [hbody, trim_append (allBlank_append hw hb) (by decide), ← hd, ← hn]
        rfl
      refine ⟨trimEnd (chars " " ++ (t ++ (gs.flatten ++ v))), ?_, ?_⟩
      · rw [Trim.apply, htrim]
        rfl
      · have hspace : AllBlank (chars " " : Chunk Obj) := allBlank_chars (by decide)
        refine Reads.trimEnd ((reads_blank_append hspace).mpr ?_)
        rw [← List.append_assoc]
        exact (reads_append_blank hv).mpr (reads_criterions ht hends hrest)

theorem clean_parens {y : List (Glyph Obj)} {ts : List (Token Obj)} (hy : Reads y ts) :
    Clean (chars "(" ++ (chars " " ++ y) ++ (chars " " ++ chars ")"))
      (.lparen :: ts ++ [.rparen]) := by
  have hopen : Clean (chars "(" : Chunk Obj) [.lparen] := .chars rfl rfl (by decide) (by decide)
  have hspace : AllBlank (chars " " : Chunk Obj) := allBlank_chars (by decide)
  have hclose : Clean (chars " " ++ chars ")" : Chunk Obj) [.rparen] :=
    hspace.clean.append (.chars rfl rfl (by decide) (by decide))
  have hinner := hopen.reads.append ((reads_blank_append hspace).mpr hy) (hopen.ends.apart _)
  exact ⟨hinner.append hclose.reads (hclose.starts.apart _),
    (hopen.starts.append_left (List.cons_ne_nil _ _) _).append_left (List.cons_ne_nil _ _) _,
    hclose.ends.append_right (List.cons_ne_nil _ _) _⟩

/-- A predicate and those behind it, if there is one. -/
def toBlock : List (Predicate Obj) → Option (Block Obj)
  | [] => none
  | p :: ps => some (p, ps)

/-- What starts with a parenthesis. -/
def StartsParen (g : List (Glyph Obj)) : Prop := g.head? = some (.char '(')

theorem startsParen (a b : List (Glyph Obj)) : StartsParen (chars "(" ++ a ++ b) := rfl

/-- The conjunction in its parentheses. -/
theorem criteriaTrim_render {c : Criteria} {p : Predicate Obj} {ps : List (Predicate Obj)}
    (h : List.Forall₂ Criterion.Prints c.criteria (p :: ps)) : ∃ g : List (Glyph Obj),
      (∀ e : Env, criteriaTrim.render (e.bind "criteria" c.toObj) = .ok [g]) ∧
        StartsParen g ∧ Clean g (Block.tokens (p, ps)) := by
  have hrounds : List.Forall₂ (fun o q => ∃ cs : List (Chunk Obj),
      (∀ e : Env, criterionRound.render (e.bind "criterion" o) = .ok cs) ∧ PrintsAnd cs.flatten q)
      (c.criteria.map Criterion.toObj) (p :: ps) := by
    rw [List.forall₂_map_left_iff]
    exact h.imp fun k q hk => criterionRound_render hk
  obtain ⟨rounds, hrender, hreads⟩ := exists_mapM_ok hrounds
  obtain ⟨y, happly, hy⟩ := parens_apply (w := chars "\n            ")
    (v := chars "\n          ") (allBlank_chars (by decide)) (allBlank_chars (by decide))
    (List.forall₂_map_left_iff.mpr hreads)
  have hloop : (ForEach.wrap ⟨property "criteria" "criteria", "criterion", none, none, none⟩
      rounds).flatten = (rounds.map List.flatten).flatten :=
    (flatten_wrap _ _ _ _).trans (flatten_joinItems_nil true rounds)
  refine ⟨chars "(" ++ (chars " " ++ y) ++ (chars " " ++ chars ")"), ?_,
    startsParen _ _, clean_parens hy⟩
  intro e
  have hforeach := render_foreach (e := e.bind "criteria" c.toObj)
    (f := ⟨property "criteria" "criteria", "criterion", none, none, none⟩) rfl (hrender _)
  have hbody := render_seq (a := text "\n            ") rfl (render_seq hforeach
    (render_seq (a := text "\n          ") rfl (rfl : SqlNode.skip.render _ = _)))
  rw [criteriaTrim, ← happly, ← hloop]
  exact (render_trim hbody parens).trans (by simp [parens])

/-- One round of the loop over the criteria: blanks for a criteria without
criterions. -/
theorem criteriaItem_render {c : Criteria} {ps : List (Predicate Obj)}
    (h : List.Forall₂ Criterion.Prints c.criteria ps) : ∃ cs : List (Chunk Obj),
      (∀ e : Env, criteriaItem.render (e.bind "criteria" (criteriaObj (some c))) = .ok cs) ∧
        RoundReads StartsParen cs ((toBlock ps).map Block.tokens) := by
  have houter : ∀ d ∈ [(chars "\n        " : Chunk Obj), chars "\n          "], AllBlank d := by
    simp only [List.forall_mem_cons]
    exact ⟨allBlank_chars (by decide), allBlank_chars (by decide), fun _ h => by cases h⟩
  have hinner : ∀ d ∈ [(chars "\n        " : Chunk Obj), chars "\n      "], AllBlank d := by
    simp only [List.forall_mem_cons]
    exact ⟨allBlank_chars (by decide), allBlank_chars (by decide), fun _ h => by cases h⟩
  obtain ⟨criteria⟩ := c
  cases h with
  | nil => exact ⟨[chars "\n        ", chars "\n      "], fun e => rfl, .blank hinner⟩
  | @cons k p ks ps hk hks =>
      obtain ⟨g, hrender, hparen, hclean⟩ := criteriaTrim_render (c := ⟨k :: ks⟩) (.cons hk hks)
      refine ⟨[chars "\n        ", chars "\n          "] ++ g :: [chars "\n        ",
        chars "\n      "], ?_, .chunk houter hinner hparen ?_ hclean⟩
      · intro e
        have hbody := render_seq (a := text "\n          ")
          (e := e.bind "criteria" (criteriaObj (some ⟨k :: ks⟩))) rfl
          (render_seq (hrender e) (b := .seq (text "\n        ") .skip) rfl)
        have hvalid := render_ifTest (.truthy (property "criteria" "valid"))
          (e := e.bind "criteria" (criteriaObj (some ⟨k :: ks⟩))) (b := true) rfl
          (.block [text "\n          ", criteriaTrim, text "\n        "])
        rw [if_pos rfl] at hvalid
        have hitem := render_seq (a := text "\n        ") rfl (render_seq (hvalid.trans hbody)
          (b := .seq (text "\n      ") .skip) rfl)
        exact hitem.trans rfl
      · intro hblank
        obtain ⟨x, g, rfl⟩ : ∃ x g', g = x :: g' := by
          cases g with
          | nil => cases hparen
          | cons x g => exact ⟨x, g, rfl⟩
        obtain rfl := Option.some.inj hparen
        have hx := hblank _ List.mem_cons_self
        cases hx

/-! ## 3. The fragments -/

/-- The trim of `<where>`. -/
def whereTrim : Trim :=
  ⟨some "WHERE", none, ["AND ", "OR ", "AND\n", "OR\n", "AND\r", "OR\r", "AND\t", "OR\t"], []⟩

/-- Nothing is cut off what starts with a parenthesis. -/
theorem whereTrim_apply {w c : List (Glyph Obj)} (hw : AllBlank w) (hc : StartsParen c)
    (rest : List (Glyph Obj)) : whereTrim.apply (w ++ (c ++ rest)) =
      chars "WHERE" ++ (chars " " ++ trimEnd (c ++ rest)) := by
  cases c with
  | nil => cases hc
  | cons x c =>
      obtain rfl := Option.some.inj hc
      rw [List.cons_append, Trim.apply, trim_append hw rfl, ← trimEnd_cons rfl, trimEnd_cons rfl]
      rfl

/-- One chunk between the blanks of the fragment. -/
theorem betweenBlanks {g : List (Glyph Obj)} {ts : List (Token Obj)} (h : Reads g ts) :
    ChunksRead [chars "\n    ", g, chars "\n  "] ts := by
  have hopen : Reads (chars "\n    " : Chunk Obj) [] := (allBlank_chars (by decide)).reads
  have hclose : Reads (chars "\n  " : Chunk Obj) [] := (allBlank_chars (by decide)).reads
  have hall := (ChunksRead.single hopen).append ((ChunksRead.single h).append (.single hclose))
  rw [List.append_nil, List.nil_append] at hall
  exact hall

/-- **The where fragments.** Wherever the list of criteria is found, the
fragment renders to the same chunks, which read as the WHERE clause of the
criteria that have a criterion. -/
theorem whereFragment_render {cs : List Criteria} {pss : List (List (Predicate Obj))}
    (h : List.Forall₂ (fun c ps => List.Forall₂ Criterion.Prints c.criteria ps) cs pss) :
    ∃ chunks : List (Chunk Obj), (∀ (e : Env) (collection : Path),
        e.eval collection = .ok (.list (cs.map fun c => criteriaObj (some c))) →
        (whereFragment collection).render e = .ok chunks) ∧
      ChunksRead chunks (filterTokens (pss.filterMap toBlock)) := by
  have hrounds : List.Forall₂ (fun o ts => ∃ chunks : List (Chunk Obj),
      (∀ e : Env, criteriaItem.render (e.bind "criteria" o) = .ok chunks) ∧
        RoundReads StartsParen chunks ts)
      (cs.map fun c => criteriaObj (some c)) (pss.map fun ps => (toBlock ps).map Block.tokens) := by
    rw [List.forall₂_map_left_iff, List.forall₂_map_right_iff]
    exact h.imp fun c ps hc => criteriaItem_render hc
  obtain ⟨rounds, hrender, hreads⟩ := exists_mapM_ok hrounds
  have hblocks : (pss.map fun ps => (toBlock ps).map Block.tokens).reduceOption =
      (pss.filterMap toBlock).map Block.tokens := by
    have hmap := List.reduceOption_map (l := pss.map toBlock) (f := Block.tokens)
    rw [List.map_map] at hmap
    exact hmap.trans (by simp [List.reduceOption, List.filterMap_map])
  have hopen : AllBlank (chars "\n      " : Chunk Obj) := allBlank_chars (by decide)
  have hclose : AllBlank (chars "\n    " : Chunk Obj) := allBlank_chars (by decide)
  have hbody : ∀ (e : Env) (collection : Path),
      e.eval collection = .ok (.list (cs.map fun c => criteriaObj (some c))) →
      (whereFragment collection).render e = .ok [chars "\n    ",
        whereTrim.apply (chars "\n      " ++ ((joinItems (chars "or") true rounds).flatten ++
          chars "\n    ")), chars "\n  "] := by
    intro e collection hcollection
    have hloop : ForEach.iterable e ⟨collection, "criteria", none, none, some "or"⟩ =
        .ok (cs.map fun c => criteriaObj (some c)) := by
      rw [ForEach.iterable, hcollection]
      rfl
    have hchildren := render_seq (a := text "\n      ") (e := e) rfl
      (render_seq (render_foreach hloop (hrender e)) (b := .seq (text "\n    ") .skip) rfl)
    have hwhere := render_seq (a := text "\n    ") (e := e) rfl
      (render_seq (render_trim hchildren whereTrim) (b := .seq (text "\n  ") .skip) rfl)
    refine hwhere.trans ?_
    simp [flatten_wrap]
  have hor : Reads (chars "or" : Chunk Obj) [.keyword .or] := .chars rfl rfl
  cases hcase : pss.filterMap toBlock with
  | nil =>
      rw [hcase, List.map_nil] at hblocks
      have hblank := allBlank_append hopen
        (allBlank_append (allBlank_joinItems hreads hblocks (chars "or")) hclose)
      refine ⟨[chars "\n    ", [], chars "\n  "], ?_, betweenBlanks .nil⟩
      intro e collection hcollection
      rw [hbody e collection hcollection, whereTrim.apply_blank hblank]
  | cons b bs =>
      rw [hcase, List.map_cons] at hblocks
      obtain ⟨w, c, rest, heq, hw, hparen, -, hclean, hrest⟩ :=
        exists_joinItems_first hor hreads hblocks
      have happly : whereTrim.apply (chars "\n      " ++
          ((joinItems (chars "or") true rounds).flatten ++ chars "\n    ")) =
          chars "WHERE" ++ (chars " " ++ trimEnd (c ++ (rest ++ chars "\n    "))) := by
        rw [heq, ← whereTrim_apply (allBlank_append hopen hw) hparen]
        simp
      refine ⟨[chars "\n    ", chars "WHERE" ++ (chars " " ++ trimEnd (c ++ (rest ++
        chars "\n    "))), chars "\n  "], ?_, betweenBlanks ?_⟩
      · intro e collection hcollection
        rw [hbody e collection hcollection, happly]
      · have hspace : AllBlank (chars " " : Chunk Obj) := allBlank_chars (by decide)
        have hword : Reads (chars "WHERE" : Chunk Obj) [.keyword .where] := .chars rfl rfl
        have hdnf : Reads (c ++ (rest ++ chars "\n    ")) (dnfTokens b bs) := by
          rw [dnfTokens_eq, ← List.append_assoc]
          have hall := hclean.reads.append hrest (hclean.ends.apart _)
          rw [List.flatMap_map] at hall
          exact (reads_append_blank hclose).mpr hall
        exact hword.append ((reads_blank_append hspace).mpr hdnf.trimEnd)
          ((hspace.clean.starts.append_left (List.cons_ne_nil _ _) _).apart _)

end SpringDome.Mapper
