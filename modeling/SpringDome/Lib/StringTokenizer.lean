/-
SpringDome.Lib.StringTokenizer — a text cut at its delimiters.

The words of a text are what stands between delimiters; two of them side by side,
or one at an end, enclose no word. So a text is not known by its words: what
follows the first of them may be a delimiter or nothing (`tokens_of_word`).
-/
import Mathlib.Data.List.Basic

namespace SpringDome.Lib.StringTokenizer

variable {α : Type} (delim : α → Bool)

/-- The words of a text, behind the letters of one that was begun. -/
def tokens : List α → List α → List (List α)
  | word, [] => if word.isEmpty then [] else [word]
  | word, c :: cs =>
      if delim c then (if word.isEmpty then [] else [word]) ++ tokens [] cs
      else tokens (word ++ [c]) cs

variable {delim} {word : List α}

/-- Letters go on with the word. -/
theorem tokens_append {w : List α} (h : ∀ c ∈ w, delim c = false) (word rest : List α) :
    tokens delim word (w ++ rest) = tokens delim (word ++ w) rest := by
  induction w generalizing word with
  | nil => rw [List.nil_append, List.append_nil]
  | cons c w ih =>
      obtain ⟨hc, hw⟩ := List.forall_mem_cons.mp h
      rw [List.cons_append, tokens, if_neg (by simp [hc]), ih hw, List.append_assoc]
      rfl

/-- A word that was begun goes on to the next delimiter. -/
theorem tokens_of_word (h : word ≠ []) (cs : List α) :
    tokens delim word cs = (word ++ cs.takeWhile fun c => !delim c) ::
      tokens delim [] (cs.dropWhile fun c => !delim c) := by
  induction cs generalizing word with
  | nil => simp [tokens, h]
  | cons c cs ih =>
      rw [tokens]
      cases hc : delim c with
      | true => simp [hc, h, tokens]
      | false =>
          rw [if_neg Bool.false_ne_true, ih (by simp)]
          simp [hc]

theorem tokens_cons {w : List α} (hne : w ≠ []) (h : ∀ c ∈ w, delim c = false) {c : α}
    (hc : delim c = true) (rest : List α) :
    tokens delim [] (w ++ c :: rest) = w :: tokens delim [] rest := by
  rw [tokens_append h, List.nil_append, tokens, if_pos hc, if_neg (by simpa using hne)]
  rfl

/-- There is no delimiter in a word. -/
theorem plain_of_mem_tokens (hword : ∀ c ∈ word, delim c = false) {cs t : List α}
    (ht : t ∈ tokens delim word cs) : ∀ c ∈ t, delim c = false := by
  have hended : ∀ {word : List α}, (∀ c ∈ word, delim c = false) →
      t ∈ (if word.isEmpty then [] else [word]) → ∀ c ∈ t, delim c = false := by
    intro word hword ht
    split at ht
    · cases ht
    · rw [List.mem_singleton.mp ht]
      exact hword
  induction cs generalizing word with
  | nil => exact hended hword ht
  | cons c cs ih =>
      rw [tokens] at ht
      cases hc : delim c with
      | true =>
          rw [if_pos hc] at ht
          rcases List.mem_append.mp ht with ht | ht
          · exact hended hword ht
          · exact ih (fun _ h => absurd h List.not_mem_nil) ht
      | false =>
          rw [if_neg (by simp [hc])] at ht
          refine ih (fun d hd => ?_) ht
          rcases List.mem_append.mp hd with hd | hd
          · exact hword d hd
          · rw [List.mem_singleton.mp hd]
            exact hc

end SpringDome.Lib.StringTokenizer
