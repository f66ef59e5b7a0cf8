/-
SpringDome.Lib.SqlText — SQL text with bound values, and its tokens.

A prepared statement is a text with a `?` for every bound value. While it is
put together it is a list of `Glyph`s: characters, and placeholders that
still know their value. `textOf` and `valuesOf` are the two halves a driver
is sent, and `readSql` puts them together again: it lexes the text and binds
the values to the placeholders in order.

The lexer cuts the text into maximal runs of word characters and of
operator characters; every other character stands alone and blanks only
separate. So two texts lex independently wherever the last character of the
one does not stick to the first of the other (`runs_append`).

`Reads g ts` says that the glyphs `g` read back as the tokens `ts`.
-/
import Mathlib.Data.List.TakeWhile

namespace SpringDome.Lib.Sql

/-! ## 1. Glyphs -/

inductive Glyph (V : Type) where
  | char (c : Char)
  | param (v : V)
  deriving DecidableEq, Repr

variable {V W : Type}

def Glyph.toChar : Glyph V → Char
  | .char c => c
  | .param _ => '?'

def Glyph.value? : Glyph V → Option V
  | .char _ => none
  | .param v => some v

/-- A literal text. -/
def chars (s : String) : List (Glyph V) := s.toList.map .char

def textOf (g : List (Glyph V)) : List Char := g.map Glyph.toChar

def valuesOf (g : List (Glyph V)) : List V := g.filterMap Glyph.value?

@[simp] theorem textOf_append (a b : List (Glyph V)) : textOf (a ++ b) = textOf a ++ textOf b :=
  List.map_append

@[simp] theorem valuesOf_append (a b : List (Glyph V)) :
    valuesOf (a ++ b) = valuesOf a ++ valuesOf b := List.filterMap_append

@[simp] theorem textOf_chars (s : String) : textOf (chars s : List (Glyph V)) = s.toList := by
  simp only [textOf, chars, List.map_map]
  exact List.map_id _

@[simp] theorem valuesOf_chars (s : String) : valuesOf (chars s : List (Glyph V)) = [] := by
  simp [valuesOf, chars, List.filterMap_map, Glyph.value?, Function.comp_def]

/-! ## 2. Runs of characters -/

/-- What Java's `trim` removes and SQL skips. -/
def isBlank (c : Char) : Bool := c.toNat ≤ 32

def isWordChar (c : Char) : Bool := c.isAlphanum || c == '_' || c == '.'

def isOpChar (c : Char) : Bool := c == '<' || c == '>' || c == '=' || c == '!'

/-- Two neighbours of one run. -/
def glues (c d : Char) : Bool := (isWordChar c && isWordChar d) || (isOpChar c && isOpChar d)

/-- Put a character before the runs of what follows it. -/
def consRun (c : Char) (next : Option Char) (rs : List (List Char)) : List (List Char) :=
  match next, rs with
  | some d, r :: rs => if glues c d then (c :: r) :: rs else [c] :: r :: rs
  | _, rs => [c] :: rs

def runs : List Char → List (List Char)
  | [] => []
  | c :: cs => if isBlank c then runs cs else consRun c cs.head? (runs cs)

theorem isBlank_of_isWordChar {c : Char} (h : isWordChar c = true) : isBlank c = false := by
  have hupper : c.isUpper = true ↔ 65 ≤ c.toNat ∧ c.toNat ≤ 90 := by
    show decide ('A'.val ≤ c.val ∧ c.val ≤ 'Z'.val) = true ↔ _
    rw [decide_eq_true_iff, UInt32.le_iff_toNat_le, UInt32.le_iff_toNat_le]
    rfl
  have hlower : c.isLower = true ↔ 97 ≤ c.toNat ∧ c.toNat ≤ 122 := by
    show (decide ('a'.val ≤ c.val) && decide (c.val ≤ 'z'.val)) = true ↔ _
    rw [Bool.and_eq_true, decide_eq_true_iff, decide_eq_true_iff, UInt32.le_iff_toNat_le,
      UInt32.le_iff_toNat_le]
    rfl
  have hletter : c.isAlpha = true ↔ c.isUpper = true ∨ c.isLower = true := by
    show (c.isUpper || c.isLower) = true ↔ _
    rw [Bool.or_eq_true]
  simp only [isWordChar, Char.isAlphanum, hletter, hupper, hlower, Char.isDigit, Bool.or_eq_true,
    Bool.and_eq_true, decide_eq_true_eq, UInt32.le_iff_toNat_le, ge_iff_le, beq_iff_eq] at h
  change (((65 ≤ c.toNat ∧ c.toNat ≤ 90 ∨ 97 ≤ c.toNat ∧ c.toNat ≤ 122) ∨
    48 ≤ c.toNat ∧ c.toNat ≤ 57) ∨ c = '_') ∨ c = '.' at h
  rcases h with (h | rfl) | rfl
  · simp only [isBlank, decide_eq_false_iff_not]
    omega
  · decide
  · decide

theorem isBlank_of_isOpChar {c : Char} (h : isOpChar c = true) : isBlank c = false := by
  simp only [isOpChar, Bool.or_eq_true, beq_iff_eq] at h
  rcases h with ((rfl | rfl) | rfl) | rfl <;> decide

theorem isBlank_of_glues {c d : Char} (h : glues c d = true) : isBlank d = false := by
  simp only [glues, Bool.or_eq_true, Bool.and_eq_true] at h
  rcases h with ⟨-, h⟩ | ⟨-, h⟩
  · exact isBlank_of_isWordChar h
  · exact isBlank_of_isOpChar h

theorem consRun_ne_nil (c : Char) (next : Option Char) (rs : List (List Char)) :
    consRun c next rs ≠ [] := by
  cases next with
  | none => simp [consRun]
  | some d =>
      cases rs with
      | nil => simp [consRun]
      | cons r rs =>
          simp only [consRun]
          split <;> simp

theorem runs_ne_nil {c d : Char} (h : glues c d = true) (cs : List Char) : runs (d :: cs) ≠ [] := by
  rw [runs, if_neg (by simp [isBlank_of_glues h])]
  exact consRun_ne_nil _ _ _

/-- Texts that do not stick together lex independently. -/
theorem runs_append : ∀ (a b : List Char),
    (∀ c ∈ a.getLast?, ∀ d ∈ b.head?, glues c d = false) → runs (a ++ b) = runs a ++ runs b
  | [], _, _ => rfl
  | [c], b, h => by
      by_cases hblank : isBlank c = true
      · simp [runs, hblank]
      · cases b with
        | nil => simp [runs]
        | cons d b =>
            have hglue : glues c d = false := h c (by simp) d (by simp)
            simp only [List.cons_append, List.nil_append, runs.eq_2 c (d :: b), if_neg hblank,
              List.head?_cons]
            cases hr : runs (d :: b) with
            | nil => simp [consRun, runs, hblank]
            | cons r rs => simp [consRun, runs, hblank, hglue]
  | c :: c' :: a, b, h => by
      have ih := runs_append (c' :: a) b (by simpa using h)
      by_cases hblank : isBlank c = true
      · simpa [runs.eq_2 c, hblank] using ih
      · simp only [List.cons_append] at ih ⊢
        simp only [runs.eq_2 c, if_neg hblank, List.head?_cons, ih]
        by_cases hglue : glues c c' = true
        · obtain ⟨r, rs, hr⟩ := List.exists_cons_of_ne_nil (runs_ne_nil hglue a)
          simp [consRun, hr, hglue]
        · cases runs (c' :: a) with
          | nil => cases runs b <;> simp [consRun, hglue]
          | cons r rs => simp [consRun, hglue]

/-! ## 3. Tokens -/

inductive Keyword where
  | select | distinct | count | from | where | order | by | asc | desc | limit
  | delete | insert | into | values | update | set
  | and | or | not | is | null | between | in | like
  deriving DecidableEq, Repr

def keywords : List (String × Keyword) :=
  [("select", .select), ("distinct", .distinct), ("count", .count), ("from", .from),
    ("where", .where), ("order", .order), ("by", .by), ("asc", .asc), ("desc", .desc),
    ("limit", .limit), ("delete", .delete), ("insert", .insert), ("into", .into),
    ("values", .values), ("update", .update), ("set", .set), ("and", .and), ("or", .or),
    ("not", .not), ("is", .is), ("null", .null), ("between", .between), ("in", .in),
    ("like", .like)]

inductive Comparison where
  | eq | ne | lt | le | gt | ge
  deriving DecidableEq, Repr

inductive Token (V : Type) where
  | keyword (k : Keyword)
  | ident (name : String)
  | number (n : Nat)
  | comparison (op : Comparison)
  | lparen
  | rparen
  | comma
  | star
  | param (v : V)
  | other (run : List Char)
  deriving DecidableEq, Repr

/-- Keywords are read in any case. -/
def classifyWord (run : List Char) : Token Unit :=
  match keywords.lookup (String.ofList (run.map Char.toLower)) with
  | some k => .keyword k
  | none =>
      if run.all Char.isDigit then .number (Nat.ofDigitChars 10 run 0)
      else .ident (String.ofList run)

/-- The token of a run; a `?` has no value yet. -/
def classify (run : List Char) : Token Unit :=
  if run = ['('] then .lparen
  else if run = [')'] then .rparen
  else if run = [','] then .comma
  else if run = ['*'] then .star
  else if run = ['?'] then .param ()
  else if run = ['='] then .comparison .eq
  else if run = ['<', '>'] ∨ run = ['!', '='] then .comparison .ne
  else if run = ['<'] then .comparison .lt
  else if run = ['<', '='] then .comparison .le
  else if run = ['>'] then .comparison .gt
  else if run = ['>', '='] then .comparison .ge
  else if run.all isWordChar then classifyWord run
  else .other run

def lex (text : List Char) : List (Token Unit) := (runs text).map classify

@[simp] theorem lex_nil : lex [] = [] := rfl

theorem lex_append {a b : List Char}
    (h : ∀ c ∈ a.getLast?, ∀ d ∈ b.head?, glues c d = false) : lex (a ++ b) = lex a ++ lex b := by
  rw [lex, runs_append a b h, List.map_append]
  rfl

theorem lex_cons_blank {c : Char} (h : isBlank c = true) (text : List Char) :
    lex (c :: text) = lex text := by
  rw [lex, runs, if_pos h, lex]

/-! Numbers read back. -/

theorem isWordChar_of_isDigit {c : Char} (h : c.isDigit = true) : isWordChar c = true := by
  simp [isWordChar, Char.isAlphanum, h]

/-- A word is one run. -/
theorem runs_word (c : Char) (cs : List Char) (h : ∀ d ∈ c :: cs, isWordChar d = true) :
    runs (c :: cs) = [c :: cs] := by
  induction cs generalizing c with
  | nil => simp [runs, consRun, isBlank_of_isWordChar (h c List.mem_cons_self)]
  | cons d cs ih =>
      have hc := h c List.mem_cons_self
      have hd := h d (by simp)
      have htail := ih d fun e he => h e (List.mem_cons_of_mem _ he)
      rw [runs, if_neg (by simp [isBlank_of_isWordChar hc]), htail]
      simp [consRun, glues, hc, hd]

/-- No keyword starts with a digit. -/
theorem lookup_keywords {c : Char} (hc : c.isDigit = true) (cs : List Char) :
    keywords.lookup (String.ofList ((c :: cs).map Char.toLower)) = none := by
  rw [List.lookup_eq_none_iff]
  have hfirst : ∀ p ∈ keywords, (p.1.toList.head?.all fun d => !d.isDigit) = true := by decide
  intro p hp
  have hnot := hfirst p hp
  rw [bne_iff_ne]
  intro heq
  have hlower : c.toLower = c := by
    have hnine : c.val ≤ '9'.val := by
      simp only [Char.isDigit, Bool.and_eq_true, decide_eq_true_eq] at hc
      exact hc.2
    refine dif_neg ?_
    rintro ⟨hupper, -⟩
    exact absurd (UInt32.le_trans hupper hnine) (by decide)
  rw [← heq, String.toList_ofList, List.map_cons, List.head?_cons, hlower, Option.all_some,
    hc] at hnot
  cases hnot

theorem classify_digits {c : Char} {cs : List Char} (h : ∀ d ∈ c :: cs, d.isDigit = true) :
    classify (c :: cs) = .number (Nat.ofDigitChars 10 (c :: cs) 0) := by
  have hc := h c List.mem_cons_self
  have hsymbol : ∀ (d : Char) (ds : List Char), d.isDigit = false → c :: cs ≠ d :: ds := by
    rintro d ds hd heq
    rw [(List.cons.inj heq).1, hd] at hc
    cases hc
  have hword : (c :: cs).all isWordChar = true :=
    List.all_eq_true.mpr fun d hd => isWordChar_of_isDigit (h d hd)
  have hdigits : (c :: cs).all Char.isDigit = true := List.all_eq_true.mpr h
  have hclassify : classify (c :: cs) = classifyWord (c :: cs) := by
    rw [classify, if_neg (hsymbol _ _ (by decide)), if_neg (hsymbol _ _ (by decide)),
      if_neg (hsymbol _ _ (by decide)), if_neg (hsymbol _ _ (by decide)),
      if_neg (hsymbol _ _ (by decide)), if_neg (hsymbol _ _ (by decide)),
      if_neg (not_or.mpr ⟨hsymbol _ _ (by decide), hsymbol _ _ (by decide)⟩),
      if_neg (hsymbol _ _ (by decide)), if_neg (hsymbol _ _ (by decide)),
      if_neg (hsymbol _ _ (by decide)), if_neg (hsymbol _ _ (by decide)), if_pos hword]
  rw [hclassify, classifyWord, lookup_keywords hc, if_pos hdigits]

/-- A number written out in decimals. -/
theorem lex_repr (n : Nat) : lex n.repr.toList = [.number n] := by
  rw [Nat.toList_repr]
  have hdigits : ∀ d ∈ Nat.toDigits 10 n, d.isDigit = true := fun d hd =>
    Nat.isDigit_of_mem_toDigits (by decide) (by decide) hd
  have hvalue : Nat.ofDigitChars 10 (Nat.toDigits 10 n) 0 = n := Nat.ofDigitChars_ten_toDigits
  obtain ⟨c, cs, heq⟩ := List.exists_cons_of_ne_nil (Nat.toDigits_ne_nil (n := n) (b := 10))
  rw [heq] at hdigits hvalue ⊢
  rw [lex, runs_word c cs fun d hd => isWordChar_of_isDigit (hdigits d hd), List.map_singleton,
    classify_digits hdigits, hvalue]

/-! ## 4. Binding -/

/-- A token that is no placeholder, for another type of values. -/
def Token.fixed? : Token V → Option (Token W)
  | .keyword k => some (.keyword k)
  | .ident name => some (.ident name)
  | .number n => some (.number n)
  | .comparison op => some (.comparison op)
  | .lparen => some .lparen
  | .rparen => some .rparen
  | .comma => some .comma
  | .star => some .star
  | .param _ => none
  | .other run => some (.other run)

/-- The token without its value. -/
def Token.erase (t : Token V) : Token Unit := t.fixed?.getD (.param ())

def Token.value? : Token V → Option V
  | .param v => some v
  | _ => none

/-- Bind the values to the placeholders, in order and one each. -/
def bindTokens : List (Token Unit) → List V → Option (List (Token V))
  | [], [] => some []
  | [], _ :: _ => none
  | t :: ts, vs =>
      match t.fixed?, vs with
      | some t, vs => (bindTokens ts vs).map (t :: ·)
      | none, v :: vs => (bindTokens ts vs).map (.param v :: ·)
      | none, [] => none

/-- Values are taken from the front. -/
theorem bindTokens_append (ts : List (Token V)) (us : List (Token Unit)) (vs : List V) :
    bindTokens (ts.map Token.erase ++ us) (ts.filterMap Token.value? ++ vs) =
      (bindTokens us vs).map (ts ++ ·) := by
  induction ts with
  | nil => simp
  | cons t ts ih =>
      have hcons : ∀ t' : Token V, (bindTokens (ts.map Token.erase ++ us)
          (ts.filterMap Token.value? ++ vs)).map (t' :: ·) =
            (bindTokens us vs).map (t' :: ts ++ ·) := by
        intro t'
        rw [ih, Option.map_map]
        rfl
      cases t with
      | param v => exact hcons (.param v)
      | keyword k => exact hcons (.keyword k)
      | ident name => exact hcons (.ident name)
      | number n => exact hcons (.number n)
      | comparison op => exact hcons (.comparison op)
      | lparen => exact hcons .lparen
      | rparen => exact hcons .rparen
      | comma => exact hcons .comma
      | star => exact hcons .star
      | other run => exact hcons (.other run)

theorem bindTokens_erase (ts : List (Token V)) :
    bindTokens (ts.map Token.erase) (ts.filterMap Token.value?) = some ts := by
  have happend := bindTokens_append ts [] []
  rw [List.append_nil, List.append_nil] at happend
  rw [happend]
  simp [bindTokens]

/-- The tokens of a prepared statement. -/
def readSql (sql : String) (bindings : List V) : Option (List (Token V)) :=
  bindTokens (lex sql.toList) bindings

/-! ## 5. Reading glyphs back -/

/-- The glyphs lex to the tokens, values included. -/
structure Reads (g : List (Glyph V)) (ts : List (Token V)) : Prop where
  text : lex (textOf g) = ts.map Token.erase
  values : valuesOf g = ts.filterMap Token.value?

theorem Reads.readSql {g : List (Glyph V)} {ts : List (Token V)} (h : Reads g ts) :
    readSql (String.ofList (textOf g)) (valuesOf g) = some ts := by
  rw [Sql.readSql, String.toList_ofList, h.text, h.values, bindTokens_erase]

theorem Reads.nil : Reads ([] : List (Glyph V)) [] := ⟨rfl, rfl⟩

/-- A placeholder alone. -/
theorem Reads.param (v : V) : Reads [.param v] [.param v] := ⟨rfl, rfl⟩

/-- A literal text. -/
theorem Reads.chars {s : String} {ts : List (Token V)} (h : lex s.toList = ts.map Token.erase)
    (hts : ts.filterMap Token.value? = []) : Reads (chars s) ts :=
  ⟨by rw [textOf_chars, h], by rw [valuesOf_chars, hts]⟩

/-- The last glyph of the one does not stick to the first of the other. -/
def Apart (a b : List (Glyph V)) : Prop :=
  ∀ c ∈ (textOf a).getLast?, ∀ d ∈ (textOf b).head?, glues c d = false

theorem Reads.append {a b : List (Glyph V)} {s t : List (Token V)} (ha : Reads a s)
    (hb : Reads b t) (h : Apart a b) : Reads (a ++ b) (s ++ t) where
  text := by rw [textOf_append, lex_append h, ha.text, hb.text, List.map_append]
  values := by rw [valuesOf_append, ha.values, hb.values, List.filterMap_append]

/-! ## 6. Loose ends -/

/-- The character may stick to a neighbour. -/
def isSticky (c : Char) : Bool := isWordChar c || isOpChar c

theorem glues_of_left {c : Char} (h : isSticky c = false) (d : Char) : glues c d = false := by
  simp only [isSticky, Bool.or_eq_false_iff] at h
  simp [glues, h.1, h.2]

theorem glues_of_right {d : Char} (h : isSticky d = false) (c : Char) : glues c d = false := by
  simp only [isSticky, Bool.or_eq_false_iff] at h
  simp [glues, h.1, h.2]

def StartsLoose (g : List (Glyph V)) : Prop := ∀ c ∈ (textOf g).head?, isSticky c = false

def EndsLoose (g : List (Glyph V)) : Prop := ∀ c ∈ (textOf g).getLast?, isSticky c = false

theorem EndsLoose.apart {a : List (Glyph V)} (h : EndsLoose a) (b : List (Glyph V)) :
    Apart a b := fun c hc d _ => glues_of_left (h c hc) d

theorem StartsLoose.apart {b : List (Glyph V)} (h : StartsLoose b) (a : List (Glyph V)) :
    Apart a b := fun c _ d hd => glues_of_right (h d hd) c

theorem StartsLoose.append {a b : List (Glyph V)} (ha : StartsLoose a) (hb : StartsLoose b) :
    StartsLoose (a ++ b) := by
  intro c hc
  rw [textOf_append, List.head?_append] at hc
  cases hfirst : (textOf a).head? with
  | some d => rw [hfirst] at hc; exact ha c (by rw [hfirst]; exact hc)
  | none => rw [hfirst] at hc; exact hb c hc

theorem EndsLoose.append {a b : List (Glyph V)} (ha : EndsLoose a) (hb : EndsLoose b) :
    EndsLoose (a ++ b) := by
  intro c hc
  rw [textOf_append, List.getLast?_append] at hc
  cases hlast : (textOf b).getLast? with
  | some d => rw [hlast] at hc; exact hb c (by rw [hlast]; exact hc)
  | none => rw [hlast] at hc; exact ha c hc

theorem StartsLoose.append_left {a : List (Glyph V)} (ha : StartsLoose a) (hne : a ≠ [])
    (b : List (Glyph V)) : StartsLoose (a ++ b) := by
  obtain ⟨x, a, rfl⟩ := List.exists_cons_of_ne_nil hne
  exact ha

theorem EndsLoose.append_right {b : List (Glyph V)} (hb : EndsLoose b) (hne : b ≠ [])
    (a : List (Glyph V)) : EndsLoose (a ++ b) := by
  intro c hc
  rw [textOf_append, List.getLast?_append] at hc
  cases hlast : (textOf b).getLast? with
  | some d => rw [hlast] at hc; exact hb c (by rw [hlast]; exact hc)
  | none => exact absurd (List.map_eq_nil_iff.mp (List.getLast?_eq_none_iff.mp hlast)) hne

/-- Glyphs that read as tokens wherever they stand. -/
structure Clean (g : List (Glyph V)) (ts : List (Token V)) : Prop where
  reads : Reads g ts
  starts : StartsLoose g
  ends : EndsLoose g

theorem Clean.nil : Clean ([] : List (Glyph V)) [] :=
  ⟨.nil, by simp [StartsLoose, textOf], by simp [EndsLoose, textOf]⟩

theorem Clean.append {a b : List (Glyph V)} {s t : List (Token V)} (ha : Clean a s)
    (hb : Clean b t) : Clean (a ++ b) (s ++ t) :=
  ⟨ha.reads.append hb.reads (ha.ends.apart b), ha.starts.append hb.starts, ha.ends.append hb.ends⟩

theorem Clean.param (v : V) : Clean [.param v] [.param v] :=
  ⟨.param v, by simp [StartsLoose, textOf, Glyph.toChar]; decide,
    by simp [EndsLoose, textOf, Glyph.toChar]; decide⟩

theorem startsLoose_chars {s : String}
    (h : (s.toList.head?.all fun c => !isSticky c) = true) :
    StartsLoose (chars s : List (Glyph V)) := by
  intro c hc
  rw [textOf_chars] at hc
  simpa [hc] using (Option.all_eq_true _ _).mp h c hc

theorem endsLoose_chars {s : String} (h : (s.toList.getLast?.all fun c => !isSticky c) = true) :
    EndsLoose (chars s : List (Glyph V)) := by
  intro c hc
  rw [textOf_chars] at hc
  simpa [hc] using (Option.all_eq_true _ _).mp h c hc

/-- A literal text is clean when its own characters say so. -/
theorem Clean.chars {s : String} {ts : List (Token V)} (h : lex s.toList = ts.map Token.erase)
    (hts : ts.filterMap Token.value? = [])
    (hstarts : (s.toList.head?.all fun c => !isSticky c) = true)
    (hends : (s.toList.getLast?.all fun c => !isSticky c) = true) : Clean (chars s) ts :=
  ⟨.chars h hts, startsLoose_chars hstarts, endsLoose_chars hends⟩

/-! ## 7. Trimming -/

def Glyph.isBlank : Glyph V → Bool
  | .char c => Sql.isBlank c
  | .param _ => false

def trimStart (g : List (Glyph V)) : List (Glyph V) := g.dropWhile Glyph.isBlank

def trimEnd : List (Glyph V) → List (Glyph V)
  | [] => []
  | x :: g =>
      match trimEnd g with
      | [] => if x.isBlank then [] else [x]
      | y :: g' => x :: y :: g'

/-- Java's `trim`. -/
def trim (g : List (Glyph V)) : List (Glyph V) := trimEnd (trimStart g)

theorem isBlank_toChar (x : Glyph V) : Sql.isBlank x.toChar = x.isBlank := by
  cases x with
  | char c => rfl
  | param v => rfl

/-- A text of blanks only. -/
def AllBlank (g : List (Glyph V)) : Prop := ∀ x ∈ g, x.isBlank = true

theorem trimStart_append {w : List (Glyph V)} (h : AllBlank w) (g : List (Glyph V)) :
    trimStart (w ++ g) = trimStart g := by
  induction w with
  | nil => rfl
  | cons x w ih =>
      have hx := h x List.mem_cons_self
      simp only [trimStart, List.cons_append, List.dropWhile_cons, hx, if_true]
      exact ih fun y hy => h y (List.mem_cons_of_mem _ hy)

theorem trimStart_cons {x : Glyph V} (h : x.isBlank = false) (g : List (Glyph V)) :
    trimStart (x :: g) = x :: g := by
  simp [trimStart, h]

theorem trimEnd_cons {x : Glyph V} (h : x.isBlank = false) (g : List (Glyph V)) :
    trimEnd (x :: g) = x :: trimEnd g := by
  rw [trimEnd]
  cases trimEnd g with
  | nil => simp [h]
  | cons y g' => rfl

theorem exists_trimStart (g : List (Glyph V)) : ∃ w, AllBlank w ∧ g = w ++ trimStart g :=
  ⟨g.takeWhile Glyph.isBlank, fun _ hx => List.mem_takeWhile_imp hx,
    (List.takeWhile_append_dropWhile).symm⟩

theorem exists_trimEnd (g : List (Glyph V)) : ∃ w, AllBlank w ∧ g = trimEnd g ++ w := by
  induction g with
  | nil => exact ⟨[], by simp [AllBlank], rfl⟩
  | cons x g ih =>
      obtain ⟨w, hw, hg⟩ := ih
      rw [trimEnd]
      cases htrim : trimEnd g with
      | nil =>
          rw [htrim, List.nil_append] at hg
          by_cases hx : x.isBlank = true
          · refine ⟨x :: w, ?_, by simp [hx, hg]⟩
            rintro y (_ | ⟨_, hy⟩)
            · exact hx
            · exact hw y hy
          · exact ⟨w, hw, by simp [hx, hg]⟩
      | cons y g' =>
          rw [htrim] at hg
          exact ⟨w, hw, by rw [hg]; rfl⟩

/-- Blanks read as nothing. -/
theorem AllBlank.reads {w : List (Glyph V)} (h : AllBlank w) : Reads w [] := by
  induction w with
  | nil => exact .nil
  | cons x w ih =>
      have hx := h x List.mem_cons_self
      have hw := ih fun y hy => h y (List.mem_cons_of_mem _ hy)
      cases x with
      | param v => simp [Glyph.isBlank] at hx
      | char c => exact ⟨(lex_cons_blank hx _).trans hw.text, hw.values⟩

theorem AllBlank.loose {w : List (Glyph V)} (h : AllBlank w) :
    ∀ c ∈ textOf w, isSticky c = false := by
  intro c hc
  obtain ⟨x, hx, rfl⟩ := List.mem_map.mp hc
  have hblank : Sql.isBlank x.toChar = true := (isBlank_toChar x).trans (h x hx)
  cases hsticky : isSticky x.toChar with
  | false => rfl
  | true =>
      simp only [isSticky, Bool.or_eq_true] at hsticky
      rcases hsticky with hword | hop
      · rw [isBlank_of_isWordChar hword] at hblank; cases hblank
      · rw [isBlank_of_isOpChar hop] at hblank; cases hblank

theorem AllBlank.clean {w : List (Glyph V)} (h : AllBlank w) : Clean w [] :=
  ⟨h.reads, fun c hc => h.loose c (List.mem_of_mem_head? hc),
    fun c hc => h.loose c (List.mem_of_mem_getLast? hc)⟩

theorem allBlank_chars {s : String} (h : (s.toList.all isBlank) = true) :
    AllBlank (chars s : List (Glyph V)) := by
  intro x hx
  obtain ⟨c, hc, rfl⟩ := List.mem_map.mp hx
  exact List.all_eq_true.mp h c hc

/-! Blanks at either end do not change the tokens. -/

section Blanks

variable {w : List (Glyph V)} (hw : AllBlank w) (g : List (Glyph V))
include hw

theorem lex_append_blank : lex (textOf (g ++ w)) = lex (textOf g) := by
  rw [textOf_append, lex_append (hw.clean.starts.apart g), hw.reads.text]
  exact List.append_nil _

theorem lex_blank_append : lex (textOf (w ++ g)) = lex (textOf g) := by
  rw [textOf_append, lex_append (hw.clean.ends.apart g), hw.reads.text]
  rfl

theorem valuesOf_append_blank : valuesOf (g ++ w) = valuesOf g := by
  rw [valuesOf_append, hw.reads.values]
  exact List.append_nil _

theorem valuesOf_blank_append : valuesOf (w ++ g) = valuesOf g := by
  rw [valuesOf_append, hw.reads.values]
  rfl

end Blanks

theorem reads_append_blank {w : List (Glyph V)} (hw : AllBlank w) {g : List (Glyph V)}
    {ts : List (Token V)} : Reads (g ++ w) ts ↔ Reads g ts := by
  have hlex := lex_append_blank hw g
  have hvalues := valuesOf_append_blank hw g
  exact ⟨fun h => ⟨hlex ▸ h.text, hvalues ▸ h.values⟩,
    fun h => ⟨hlex.trans h.text, hvalues.trans h.values⟩⟩

theorem reads_blank_append {w : List (Glyph V)} (hw : AllBlank w) {g : List (Glyph V)}
    {ts : List (Token V)} : Reads (w ++ g) ts ↔ Reads g ts := by
  have hlex := lex_blank_append hw g
  have hvalues := valuesOf_blank_append hw g
  exact ⟨fun h => ⟨hlex ▸ h.text, hvalues ▸ h.values⟩,
    fun h => ⟨hlex.trans h.text, hvalues.trans h.values⟩⟩

theorem lex_trim (g : List (Glyph V)) : lex (textOf (trim g)) = lex (textOf g) := by
  obtain ⟨w, hw, hg⟩ := exists_trimStart g
  obtain ⟨w', hw', hg'⟩ := exists_trimEnd (trimStart g)
  have hstart : lex (textOf g) = lex (textOf (trimStart g)) :=
    (congrArg (fun g => lex (textOf g)) hg).trans (lex_blank_append hw _)
  have hend : lex (textOf (trimStart g)) = lex (textOf (trim g)) :=
    (congrArg (fun g => lex (textOf g)) hg').trans (lex_append_blank hw' _)
  rw [hstart, hend]

theorem valuesOf_trim (g : List (Glyph V)) : valuesOf (trim g) = valuesOf g := by
  obtain ⟨w, hw, hg⟩ := exists_trimStart g
  obtain ⟨w', hw', hg'⟩ := exists_trimEnd (trimStart g)
  have hstart : valuesOf g = valuesOf (trimStart g) :=
    (congrArg valuesOf hg).trans (valuesOf_blank_append hw _)
  have hend : valuesOf (trimStart g) = valuesOf (trim g) :=
    (congrArg valuesOf hg').trans (valuesOf_append_blank hw' _)
  rw [hstart, hend]

theorem Reads.trimEnd {g : List (Glyph V)} {ts : List (Token V)} (h : Reads g ts) :
    Reads (trimEnd g) ts := by
  obtain ⟨w, hw, hg⟩ := exists_trimEnd g
  exact (reads_append_blank hw).mp (hg ▸ h)

end SpringDome.Lib.Sql
