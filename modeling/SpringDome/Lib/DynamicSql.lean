/-
SpringDome.Lib.DynamicSql — MyBatis' dynamic SQL (3.4.0) as a template
language.

A mapper statement is a tree of `SqlNode`s. Rendering it on a parameter
object appends chunks of SQL to a context, and the nodes differ in what they
do to the chunks of their body: `trim` collects them and adds or removes text
at the ends, `foreach` puts its separator before the first chunk of an item
that is not blank. `render` answers the chunks a node appends; `getBoundSql`
joins them as the outermost context does.

An expression is a property path. Reading a property of null raises, and so
does a loop over null. A bare property of a null parameter object is null in
MyBatis, because such a name is looked up in the context and not in the
object; `Env.strict` asks for the stricter reading, in which this raises too.

The last two sections are about two renderings: on environments that give the
same answers to every test and the same text to every raw substitution
(`SqlNode.Agree`), a template renders the same text, and it renders the same
altogether where they agree on the paths it reads (`SqlNode.freePaths`).
-/
import SpringDome.Lib.SqlStatement
import Mathlib.Data.List.Forall2

namespace SpringDome.Lib.DynamicSql

open SpringDome.Lib.Sql

/-! ## 1. Objects -/

/-- What a parameter object and its properties are. -/
inductive Obj where
  | null
  | bool (b : Bool)
  | int (n : Int)
  | str (s : String)
  | list (items : List Obj)
  | bean (fields : List (String × Obj))

inductive RenderFailure where
  /-- A property of null. -/
  | sourceIsNull (property : String)
  | noSuchProperty (property : String)
  /-- `foreach` over null. -/
  | evaluatedToNull
  | notIterable
  /-- An object without a text of its own in a raw substitution. -/
  | notText
  deriving DecidableEq, Repr

/-- OGNL: a property of an object. -/
def Obj.get (property : String) : Obj → Except RenderFailure Obj
  | .null => .error (.sourceIsNull property)
  | .bean fields =>
      match fields.lookup property with
      | some o => .ok o
      | none => .error (.noSuchProperty property)
  | _ => .error (.noSuchProperty property)

/-- A `MetaObject`: a property of null is null. -/
def Obj.metaGet (property : String) : Obj → Except RenderFailure Obj
  | .null => .ok .null
  | o => o.get property

/-- The value of a test. -/
def Obj.truthy : Obj → Bool
  | .null => false
  | .bool b => b
  | .int n => n != 0
  | _ => true

def Obj.isNull : Obj → Bool
  | .null => true
  | _ => false

/-- The text of an object in a raw substitution. -/
def Obj.text : Obj → Except RenderFailure String
  | .null => .ok ""
  | .bool b => .ok (toString b)
  | .int n => .ok (toString n)
  | .str s => .ok s
  | .list _ | .bean _ => .error .notText

/-! ## 2. Environments -/

/-- A property path `root.rest₁.rest₂…`. -/
structure Path where
  root : String
  rest : List String
  deriving DecidableEq, Repr

/-- The parameter object, and the items of the loops around. -/
structure Env where
  strict : Bool
  parameter : Obj
  items : List (String × Obj)

namespace Env

def bind (env : Env) (item : String) (o : Obj) : Env :=
  { env with items := (item, o) :: env.items }

/-- A bare name in an expression. -/
def lookup (env : Env) (name : String) : Except RenderFailure Obj :=
  match env.items.lookup name with
  | some o => .ok o
  | none =>
      if name = "_parameter" then .ok env.parameter
      else match env.parameter with
        | .null => if env.strict then .error (.sourceIsNull name) else .ok .null
        | o => o.get name

/-- An OGNL path. -/
def eval (env : Env) (p : Path) : Except RenderFailure Obj := do
  let root ← env.lookup p.root
  p.rest.foldlM (fun o property => o.get property) root

/-- The value of a placeholder: an item, or a parameter that is itself a
value, or a property. -/
def paramValue (env : Env) (p : Path) : Except RenderFailure Obj := do
  let root ← match env.items.lookup p.root with
    | some o => .ok o
    | none =>
        match env.parameter with
        | .int n => .ok (.int n)
        | .str s => .ok (.str s)
        | o => o.metaGet p.root
  p.rest.foldlM (fun o property => o.metaGet property) root

end Env

/-! ## 3. Templates -/

/-- A piece of a text node: literal text, `${path}` or `#{path}`. -/
inductive Piece where
  | lit (s : String)
  | splice (p : Path)
  | param (p : Path)

inductive Test where
  | truthy (p : Path)
  | isNull (p : Path)
  | notNull (p : Path)

/-- `<trim>`, in MyBatis' words. -/
structure Trim where
  prefixText : Option String
  suffixText : Option String
  prefixOverrides : List String
  suffixOverrides : List String

structure ForEach where
  collection : Path
  item : String
  openText : Option String
  closeText : Option String
  separator : Option String

/-- `seq` and `skip` make the list of children of an element; a `choose` is a
`when` with the rest of its siblings. -/
inductive SqlNode where
  | text (pieces : List Piece)
  | skip
  | seq (a b : SqlNode)
  | ifTest (test : Test) (body : SqlNode)
  | choose (test : Test) (body otherwise : SqlNode)
  | trim (t : Trim) (body : SqlNode)
  | foreach (f : ForEach) (body : SqlNode)

/-- The children of an element, in order. -/
def SqlNode.block : List SqlNode → SqlNode
  | [] => .skip
  | n :: ns => .seq n (block ns)

/-- `<where>`. -/
def SqlNode.where_ (body : SqlNode) : SqlNode :=
  .trim ⟨some "WHERE", none, ["AND ", "OR ", "AND\n", "OR\n", "AND\r", "OR\r", "AND\t", "OR\t"], []⟩
    body

/-- `<set>`. -/
def SqlNode.set_ (body : SqlNode) : SqlNode := .trim ⟨some "SET", none, [], [","]⟩ body

/-! ## 4. Rendering -/

section Text

variable {V W : Type}

/-- One call of `appendSql`. -/
abbrev Chunk (V : Type) := List (Glyph V)

/-- The upper-case text starts with the word. -/
def startsWith (word : List Char) (g : List (Glyph V)) : Bool :=
  match word, g with
  | [], _ => true
  | c :: word, .char d :: g => d.toUpper == c && startsWith word g
  | _, _ => false

/-- The upper-case text ends with the word. -/
def endsWith (word : List Char) (g : List (Glyph V)) : Bool :=
  startsWith word.reverse g.reverse

/-- A word without the blanks around it. -/
def trimWord (word : String) : List Char :=
  ((word.toList.dropWhile isBlank).reverse.dropWhile isBlank).reverse

/-- Remove the first override the text starts with. -/
def Trim.dropPrefix (t : Trim) (sql : List (Glyph V)) : List (Glyph V) :=
  match t.prefixOverrides.find? fun o => startsWith o.toList sql with
  | some o => sql.drop (trimWord o).length
  | none => sql

def Trim.addPrefix (t : Trim) (sql : List (Glyph V)) : List (Glyph V) :=
  match t.prefixText with
  | some p => chars p ++ (chars " " ++ sql)
  | none => sql

/-- Remove the first override the trimmed text `sql` ends with from `front`,
which ends with it too. -/
def Trim.dropSuffix (t : Trim) (sql front : List (Glyph V)) : List (Glyph V) :=
  match t.suffixOverrides.find? fun o =>
    endsWith o.toList sql || endsWith (trimWord o) sql with
  | some o => front.take (front.length - (trimWord o).length)
  | none => front

def Trim.addSuffix (t : Trim) (sql : List (Glyph V)) : List (Glyph V) :=
  match t.suffixText with
  | some s => sql ++ (chars " " ++ chars s)
  | none => sql

/-- `TrimSqlNode` on the text its body appended. Nothing is added to a blank
body. -/
def Trim.apply (t : Trim) (body : List (Glyph V)) : List (Glyph V) :=
  let sql := Sql.trim body
  if sql.isEmpty then []
  else t.addSuffix (t.dropSuffix sql (t.addPrefix (t.dropPrefix sql)))

def isBlankChunk (c : Chunk V) : Bool := c.all Glyph.isBlank

/-- Put a chunk before the first one that is not blank. -/
def insertChunk (p : Chunk V) : List (Chunk V) → List (Chunk V)
  | [] => []
  | c :: cs => if isBlankChunk c then c :: insertChunk p cs else p :: c :: cs

/-- The items of a `foreach`: none has its separator until one was not
blank. -/
def joinItems (separator : Chunk V) : Bool → List (List (Chunk V)) → List (Chunk V)
  | _, [] => []
  | first, item :: rest =>
      insertChunk (if first then [] else separator) item ++
        joinItems separator (first && item.all isBlankChunk) rest

end Text

def Piece.render (env : Env) : Piece → Except RenderFailure (List (Glyph Obj))
  | .lit s => .ok (chars s)
  | .splice p => do
      let o ← env.eval p
      let s ← o.text
      .ok (chars s)
  | .param p => do
      let v ← env.paramValue p
      .ok [.param v]

def Test.eval (env : Env) : Test → Except RenderFailure Bool
  | .truthy p => (env.eval p).map Obj.truthy
  | .isNull p => (env.eval p).map Obj.isNull
  | .notNull p => (env.eval p).map fun o => !o.isNull

def ForEach.iterable (env : Env) (f : ForEach) : Except RenderFailure (List Obj) := do
  match ← env.eval f.collection with
  | .list items => .ok items
  | .null => .error .evaluatedToNull
  | _ => .error .notIterable

/-- An optional text of a `foreach`, as the chunks it appends. -/
def optionalChunk {V : Type} (s : Option String) : List (Chunk V) := (s.map chars).toList

/-- The chunks of a `foreach` around its rendered items; an empty collection
appends nothing at all. -/
def ForEach.wrap {V : Type} (f : ForEach) : List (List (Chunk V)) → List (Chunk V)
  | [] => []
  | item :: items =>
      optionalChunk f.openText ++
        joinItems (chars (f.separator.getD "")) true (item :: items) ++ optionalChunk f.closeText

def SqlNode.render : SqlNode → Env → Except RenderFailure (List (Chunk Obj))
  | .text pieces, env => do
      let texts ← pieces.mapM fun p => p.render env
      .ok [texts.flatten]
  | .skip, _ => .ok []
  | .seq a b, env => do
      let as ← a.render env
      let bs ← b.render env
      .ok (as ++ bs)
  | .ifTest test body, env => do
      if ← test.eval env then body.render env else .ok []
  | .choose test body otherwise, env => do
      if ← test.eval env then body.render env else otherwise.render env
  | .trim t body, env => do
      let chunks ← body.render env
      .ok [t.apply chunks.flatten]
  | .foreach f body, env => do
      let objs ← f.iterable env
      let items ← objs.mapM fun o => body.render (env.bind f.item o)
      .ok (f.wrap items)

/-- The outermost context: a blank after every chunk, and no blanks around. -/
def joinChunks {V : Type} (chunks : List (Chunk V)) : List (Glyph V) :=
  Sql.trim (chunks.flatMap fun c => c ++ chars " ")

def toBoundSql (g : List (Glyph Obj)) : BoundSql Obj := ⟨String.ofList (textOf g), valuesOf g⟩

/-- The statement sent for a template and a parameter object. -/
def getBoundSql (strict : Bool) (template : SqlNode) (parameter : Obj) :
    Except RenderFailure (BoundSql Obj) := do
  let chunks ← template.render ⟨strict, parameter, []⟩
  .ok (toBoundSql (joinChunks chunks))

/-! ## 5. Values do not reach the text

Everything a node does to a text it does without looking at the values of
the placeholders, so it commutes with replacing them. -/

section Natural

variable {V W : Type} (f : V → W)

def mapGlyph : Glyph V → Glyph W
  | .char c => .char c
  | .param v => .param (f v)

/-- Replace the values of a text. -/
def mapValues (g : List (Glyph V)) : List (Glyph W) := g.map (mapGlyph f)

theorem isBlank_mapGlyph (x : Glyph V) : (mapGlyph f x).isBlank = x.isBlank := by
  cases x <;> rfl

theorem toChar_mapGlyph (x : Glyph V) : (mapGlyph f x).toChar = x.toChar := by
  cases x <;> rfl

@[simp] theorem textOf_mapValues (g : List (Glyph V)) : textOf (mapValues f g) = textOf g := by
  simp only [textOf, mapValues, List.map_map]
  exact List.map_congr_left fun x _ => toChar_mapGlyph f x

@[simp] theorem mapValues_append (a b : List (Glyph V)) :
    mapValues f (a ++ b) = mapValues f a ++ mapValues f b := List.map_append

@[simp] theorem mapValues_chars (s : String) : mapValues f (chars s) = chars s := by
  simp only [mapValues, chars, List.map_map]
  rfl

theorem trimStart_mapValues (g : List (Glyph V)) :
    trimStart (mapValues f g) = mapValues f (trimStart g) := by
  induction g with
  | nil => rfl
  | cons x g ih =>
      simp only [trimStart, mapValues, List.map_cons, List.dropWhile_cons, isBlank_mapGlyph] at ih ⊢
      split
      · exact ih
      · rfl

theorem trimEnd_mapValues (g : List (Glyph V)) :
    trimEnd (mapValues f g) = mapValues f (trimEnd g) := by
  induction g with
  | nil => rfl
  | cons x g ih =>
      simp only [mapValues, List.map_cons, trimEnd] at ih ⊢
      rw [ih, isBlank_mapGlyph]
      cases trimEnd g with
      | nil =>
          simp only [List.map_nil]
          split <;> rfl
      | cons y g' => rfl

theorem trim_mapValues (g : List (Glyph V)) :
    Sql.trim (mapValues f g) = mapValues f (Sql.trim g) := by
  rw [Sql.trim, trimStart_mapValues, trimEnd_mapValues, Sql.trim]

theorem startsWith_mapValues (word : List Char) (g : List (Glyph V)) :
    startsWith word (mapValues f g) = startsWith word g := by
  induction word generalizing g with
  | nil => simp [startsWith]
  | cons c word ih =>
      cases g with
      | nil => rfl
      | cons x g =>
          cases x with
          | param v => rfl
          | char d => exact congrArg _ (ih g)

theorem endsWith_mapValues (word : List Char) (g : List (Glyph V)) :
    endsWith word (mapValues f g) = endsWith word g := by
  rw [endsWith, endsWith, ← startsWith_mapValues f, mapValues, mapValues, List.map_reverse]

theorem Trim.dropPrefix_mapValues (t : Trim) (g : List (Glyph V)) :
    t.dropPrefix (mapValues f g) = mapValues f (t.dropPrefix g) := by
  simp only [Trim.dropPrefix, startsWith_mapValues]
  split
  · exact List.map_drop.symm
  · rfl

theorem Trim.addPrefix_mapValues (t : Trim) (g : List (Glyph V)) :
    t.addPrefix (mapValues f g) = mapValues f (t.addPrefix g) := by
  simp only [Trim.addPrefix]
  split <;> simp

theorem Trim.dropSuffix_mapValues (t : Trim) (g h : List (Glyph V)) :
    t.dropSuffix (mapValues f g) (mapValues f h) = mapValues f (t.dropSuffix g h) := by
  simp only [Trim.dropSuffix, endsWith_mapValues]
  split
  · rw [mapValues, List.length_map]
    exact List.map_take.symm
  · rfl

theorem Trim.addSuffix_mapValues (t : Trim) (g : List (Glyph V)) :
    t.addSuffix (mapValues f g) = mapValues f (t.addSuffix g) := by
  simp only [Trim.addSuffix]
  split <;> simp

theorem Trim.apply_mapValues (t : Trim) (g : List (Glyph V)) :
    t.apply (mapValues f g) = mapValues f (t.apply g) := by
  have hempty : (mapValues f (Sql.trim g)).isEmpty = (Sql.trim g).isEmpty := by
    cases Sql.trim g <;> rfl
  simp only [Trim.apply, trim_mapValues, hempty]
  split
  · rfl
  · rw [Trim.dropPrefix_mapValues, Trim.addPrefix_mapValues, Trim.dropSuffix_mapValues,
      Trim.addSuffix_mapValues]

/-- Replace the values of the chunks of a context. -/
def mapChunks (cs : List (Chunk V)) : List (Chunk W) := cs.map (mapValues f)

theorem isBlankChunk_mapValues (c : Chunk V) : isBlankChunk (mapValues f c) = isBlankChunk c := by
  simp only [isBlankChunk, mapValues, List.all_map]
  exact congrArg c.all (funext fun x => isBlank_mapGlyph f x)

theorem insertChunk_mapChunks (p : Chunk V) (cs : List (Chunk V)) :
    insertChunk (mapValues f p) (mapChunks f cs) = mapChunks f (insertChunk p cs) := by
  induction cs with
  | nil => rfl
  | cons c cs ih =>
      simp only [mapChunks, List.map_cons, insertChunk, isBlankChunk_mapValues] at ih ⊢
      split
      · rw [ih, List.map_cons]
      · rfl

theorem joinItems_mapChunks (separator : Chunk V) (first : Bool) (items : List (List (Chunk V))) :
    joinItems (mapValues f separator) first (items.map (mapChunks f)) =
      mapChunks f (joinItems separator first items) := by
  induction items generalizing first with
  | nil => rfl
  | cons item items ih =>
      have hsep : (if first then [] else mapValues f separator) =
          mapValues f (if first then [] else separator) := by
        cases first <;> rfl
      have hall : (mapChunks f item).all isBlankChunk = item.all isBlankChunk := by
        simp only [mapChunks, List.all_map]
        exact congrArg item.all (funext fun c => isBlankChunk_mapValues f c)
      simp only [List.map_cons, joinItems, hsep, insertChunk_mapChunks, hall, ih]
      exact List.map_append.symm

theorem ForEach.wrap_mapChunks (e : ForEach) (items : List (List (Chunk V))) :
    e.wrap (items.map (mapChunks f)) = mapChunks f (e.wrap items) := by
  have hoptional : ∀ s : Option String,
      (optionalChunk s : List (Chunk W)) = mapChunks f (optionalChunk s) := by
    intro s
    cases s with
    | none => rfl
    | some s => simp [optionalChunk, mapChunks]
  cases items with
  | nil => rfl
  | cons item items =>
      simp only [List.map_cons, ForEach.wrap]
      rw [← mapValues_chars f, ← List.map_cons, joinItems_mapChunks, hoptional e.openText,
        hoptional e.closeText]
      simp [mapChunks]

theorem joinChunks_mapChunks (cs : List (Chunk V)) :
    joinChunks (mapChunks f cs) = mapValues f (joinChunks cs) := by
  rw [joinChunks, joinChunks, ← trim_mapValues, mapChunks, List.flatMap_map]
  congr 1
  induction cs with
  | nil => rfl
  | cons c cs ih => simp [ih]

end Natural

/-! ## 6. Two renderings -/

/-- Both results are the same failure, or are related. -/
inductive SameResult {α : Type} (R : α → α → Prop) :
    Except RenderFailure α → Except RenderFailure α → Prop where
  | error (e : RenderFailure) : SameResult R (.error e) (.error e)
  | ok {a b : α} (h : R a b) : SameResult R (.ok a) (.ok b)

theorem SameResult.bind {α β : Type} {R : α → α → Prop} {Q : β → β → Prop}
    {x y : Except RenderFailure α} {f g : α → Except RenderFailure β} (h : SameResult R x y)
    (hfg : ∀ a b, R a b → SameResult Q (f a) (g b)) : SameResult Q (x >>= f) (y >>= g) := by
  cases h with
  | error e => exact .error e
  | ok hab => exact hfg _ _ hab

theorem SameResult.refl {α : Type} {R : α → α → Prop} (hR : ∀ a, R a a)
    (x : Except RenderFailure α) : SameResult R x x := by
  cases x with
  | error e => exact .error e
  | ok a => exact .ok (hR a)

/-- The same computation on related lists. -/
theorem SameResult.mapM {α β γ : Type} {Q : γ → γ → Prop} {f : α → Except RenderFailure γ}
    {g : β → Except RenderFailure γ} {as : List α} {bs : List β}
    (h : List.Forall₂ (fun a b => SameResult Q (f a) (g b)) as bs) :
    SameResult (List.Forall₂ Q) (as.mapM f) (bs.mapM g) := by
  induction h with
  | nil => exact .ok .nil
  | cons hab _ ih =>
      rw [List.mapM_cons, List.mapM_cons]
      exact hab.bind fun a b hab => ih.bind fun as bs hs => .ok (.cons hab hs)

/-- The same text, up to the values of the placeholders. -/
def SameText (g h : List (Glyph Obj)) : Prop :=
  mapValues (fun _ => ()) g = mapValues (fun _ => ()) h

def SameChunks (as bs : List (Chunk Obj)) : Prop :=
  mapChunks (fun _ => ()) as = mapChunks (fun _ => ()) bs

theorem SameText.append {a b c d : List (Glyph Obj)} (h : SameText a b) (h' : SameText c d) :
    SameText (a ++ c) (b ++ d) := by
  rw [SameText, mapValues_append, mapValues_append, h, h']

theorem SameText.flatten {as bs : List (List (Glyph Obj))} (h : List.Forall₂ SameText as bs) :
    SameText as.flatten bs.flatten := by
  induction h with
  | nil => exact rfl
  | cons hab _ ih => exact hab.append ih

theorem SameChunks.append {a b c d : List (Chunk Obj)} (h : SameChunks a b)
    (h' : SameChunks c d) : SameChunks (a ++ c) (b ++ d) := by
  simp only [SameChunks, mapChunks, List.map_append] at h h' ⊢
  rw [h, h']

theorem SameChunks.flatten {as bs : List (Chunk Obj)} (h : SameChunks as bs) :
    SameText as.flatten bs.flatten := by
  have hflatten : ∀ cs : List (Chunk Obj),
      mapValues (fun _ => ()) cs.flatten = (mapChunks (fun _ => ()) cs).flatten := fun cs =>
    List.map_flatten
  rw [SameText, hflatten, hflatten, h]

/-- Joined, the same chunks are the same SQL. -/
theorem SameChunks.sql_eq {as bs : List (Chunk Obj)} (h : SameChunks as bs) :
    (toBoundSql (joinChunks as)).sql = (toBoundSql (joinChunks bs)).sql := by
  have htext : ∀ cs : List (Chunk Obj),
      textOf (joinChunks cs) = textOf (joinChunks (mapChunks (fun _ => ()) cs)) := by
    intro cs
    rw [joinChunks_mapChunks, textOf_mapValues]
  rw [toBoundSql, toBoundSql, htext as, htext bs, h]

/-- The two environments give a piece the same text, and a value each. -/
def Piece.Agree (e₁ e₂ : Env) : Piece → Prop
  | .lit _ => True
  | .splice p => (e₁.eval p >>= Obj.text) = (e₂.eval p >>= Obj.text)
  | .param p => SameResult (fun _ _ => True) (e₁.paramValue p) (e₂.paramValue p)

/-- The two environments take a template the same way: every test has one
answer in both, and every loop as many rounds. -/
def SqlNode.Agree : SqlNode → Env → Env → Prop
  | .text pieces, e₁, e₂ => ∀ p ∈ pieces, p.Agree e₁ e₂
  | .skip, _, _ => True
  | .seq a b, e₁, e₂ => a.Agree e₁ e₂ ∧ b.Agree e₁ e₂
  | .ifTest test body, e₁, e₂ =>
      test.eval e₁ = test.eval e₂ ∧ (test.eval e₁ = .ok true → body.Agree e₁ e₂)
  | .choose test body otherwise, e₁, e₂ =>
      test.eval e₁ = test.eval e₂ ∧ (test.eval e₁ = .ok true → body.Agree e₁ e₂) ∧
        (test.eval e₁ = .ok false → otherwise.Agree e₁ e₂)
  | .trim _ body, e₁, e₂ => body.Agree e₁ e₂
  | .foreach f body, e₁, e₂ =>
      SameResult (List.Forall₂ fun a b => body.Agree (e₁.bind f.item a) (e₂.bind f.item b))
        (f.iterable e₁) (f.iterable e₂)

theorem Piece.Agree.render {e₁ e₂ : Env} {p : Piece} (h : p.Agree e₁ e₂) :
    SameResult SameText (p.render e₁) (p.render e₂) := by
  cases p with
  | lit s => exact .ok rfl
  | splice p =>
      have htext : ∀ e : Env, (Piece.splice p).render e =
          (e.eval p >>= Obj.text) >>= fun s => .ok (chars s) := by
        intro e
        simp only [Piece.render, bind_assoc]
      have hagree : (e₁.eval p >>= Obj.text) = (e₂.eval p >>= Obj.text) := h
      rw [htext, htext, hagree]
      exact SameResult.refl (fun g : List (Glyph Obj) => (rfl : SameText g g)) _
  | param p => exact SameResult.bind h fun _ _ _ => .ok rfl

/-- **Noninterference.** Where two environments agree on a template, they
render the same text. -/
theorem SqlNode.Agree.render {n : SqlNode} {e₁ e₂ : Env} (h : n.Agree e₁ e₂) :
    SameResult SameChunks (n.render e₁) (n.render e₂) := by
  induction n generalizing e₁ e₂ with
  | text pieces =>
      have hpieces : List.Forall₂ (fun p q => SameResult SameText (p.render e₁) (q.render e₂))
          pieces pieces := List.forall₂_same.mpr fun p hp => (h p hp).render
      refine (SameResult.mapM hpieces).bind fun as bs hs => .ok ?_
      have hflat : mapValues (fun _ => ()) as.flatten = mapValues (fun _ => ()) bs.flatten :=
        SameText.flatten hs
      simp only [SameChunks, mapChunks, List.map_cons, List.map_nil, hflat]
  | skip => exact .ok rfl
  | seq a b iha ihb =>
      exact (iha h.1).bind fun _ _ ha => (ihb h.2).bind fun _ _ hb => .ok (ha.append hb)
  | ifTest test body ih =>
      simp only [SqlNode.render, ← h.1]
      cases htest : test.eval e₁ with
      | error e => exact .error e
      | ok b =>
          cases b with
          | true => exact ih (h.2 htest)
          | false => exact .ok rfl
  | choose test body otherwise ih ihother =>
      simp only [SqlNode.render, ← h.1]
      cases htest : test.eval e₁ with
      | error e => exact .error e
      | ok b =>
          cases b with
          | true => exact ih (h.2.1 htest)
          | false => exact ihother (h.2.2 htest)
  | trim t body ih =>
      refine (ih h).bind fun as bs hs => .ok ?_
      have hflat : mapValues (fun _ => ()) as.flatten = mapValues (fun _ => ()) bs.flatten :=
        hs.flatten
      simp only [SameChunks, mapChunks, List.map_cons, List.map_nil, ← Trim.apply_mapValues, hflat]
  | foreach f body ih =>
      refine SameResult.bind h ?_
      intro as bs hs
      have hitems : List.Forall₂ (fun a b => SameResult SameChunks
          (body.render (e₁.bind f.item a)) (body.render (e₂.bind f.item b))) as bs :=
        hs.imp fun a b hab => ih hab
      refine (SameResult.mapM hitems).bind fun xs ys hxy => .ok ?_
      have hmap : xs.map (mapChunks fun _ => ()) = ys.map (mapChunks fun _ => ()) := by
        induction hxy with
        | nil => rfl
        | cons hab _ ih => rw [List.map_cons, List.map_cons, hab, ih]
      rw [SameChunks, ← ForEach.wrap_mapChunks, ← ForEach.wrap_mapChunks, hmap]

/-- What the statements of two parameter objects have in common. -/
theorem getBoundSql_agree {strict : Bool} {template : SqlNode} {p₁ p₂ : Obj}
    (h : template.Agree ⟨strict, p₁, []⟩ ⟨strict, p₂, []⟩) :
    (getBoundSql strict template p₁).map BoundSql.sql =
      (getBoundSql strict template p₂).map BoundSql.sql := by
  have hrender := h.render
  simp only [getBoundSql]
  generalize template.render ⟨strict, p₁, []⟩ = x at hrender ⊢
  generalize template.render ⟨strict, p₂, []⟩ = y at hrender ⊢
  cases hrender with
  | error e => rfl
  | ok hab => exact congrArg Except.ok hab.sql_eq

/-! ## 7. What a template reads -/

def Test.path : Test → Path
  | .truthy p | .isNull p | .notNull p => p

/-- The two environments give the path one value. -/
def Env.SameAt (e₁ e₂ : Env) (p : Path) : Prop :=
  e₁.eval p = e₂.eval p ∧ e₁.paramValue p = e₂.paramValue p

/-- An item hides what the environments say about its name. -/
theorem Env.SameAt.bind {e₁ e₂ : Env} {p : Path} {item : String}
    (h : p.root ≠ item → e₁.SameAt e₂ p) (o : Obj) :
    (e₁.bind item o).SameAt (e₂.bind item o) p := by
  by_cases hroot : p.root = item
  · subst hroot
    simp [Env.SameAt, Env.bind, Env.eval, Env.lookup, Env.paramValue]
  · have hlookup : ∀ e : Env, (e.bind item o).items.lookup p.root = e.items.lookup p.root := by
      intro e
      show List.lookup p.root ((item, o) :: e.items) = _
      rw [List.lookup_cons, beq_false_of_ne hroot]
    obtain ⟨heval, hvalue⟩ := h hroot
    constructor
    · unfold Env.eval Env.lookup at heval ⊢
      rw [hlookup, hlookup]
      exact heval
    · unfold Env.paramValue at hvalue ⊢
      rw [hlookup, hlookup]
      exact hvalue

end SpringDome.Lib.DynamicSql
