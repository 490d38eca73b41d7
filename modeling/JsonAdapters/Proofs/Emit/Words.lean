import JsonAdapters.Emit.Words
import Mathlib.Tactic.Common

/-!
# Pieces of text

How pieces of emitted text are grouped has no say in the text that they make.

## Main statements

* `Emit.words_append`: the text of two lists of pieces is put together from their texts.
-/

namespace JsonAdapters.Emit

/-- Two texts with a space between them, unless one is empty. -/
def spaced (a b : String) : String := if a = "" then b else if b = "" then a else a ++ " " ++ b

theorem spaced_empty (a : String) : spaced a "" = a := by
  by_cases h : a = "" <;> simp [spaced, h]

theorem empty_spaced (b : String) : spaced "" b = b := if_pos rfl

theorem spaced_assoc (a b c : String) : spaced (spaced a b) c = spaced a (spaced b c) := by
  by_cases ha : a = ""
  · rw [ha, empty_spaced, empty_spaced]
  by_cases hb : b = ""
  · rw [hb, spaced_empty, empty_spaced]
  by_cases hc : c = ""
  · rw [hc, spaced_empty, spaced_empty]
  · simp [spaced, ha, hb, hc, String.append_assoc]

@[simp] theorem words_nil : words [] = "" := rfl

theorem intercalate_eq_empty {ws : List String} (h : ∀ w ∈ ws, w ≠ "") :
    " ".intercalate ws = "" ↔ ws = [] := by
  cases ws with
  | nil => simp
  | cons w ws =>
    have hw := h w List.mem_cons_self
    by_cases hnil : ws = []
    · simp [hnil, hw]
    · simp [String.intercalate_cons_of_ne_nil hnil, hw]

theorem words_cons (w : String) (ws : List String) : words (w :: ws) = spaced w (words ws) := by
  by_cases hw : w = ""
  · rw [hw, empty_spaced, words, List.filter_cons_of_neg (by simp), words]
  · have hne : ∀ v ∈ ws.filter (· ≠ ""), v ≠ "" := fun v hv => by
      simpa using (List.mem_filter.1 hv).2
    rw [words, List.filter_cons_of_pos (by simpa using hw), spaced, if_neg hw, words]
    by_cases hnil : ws.filter (· ≠ "") = []
    · rw [hnil, String.intercalate_singleton, if_pos String.intercalate_nil]
    · rw [String.intercalate_cons_of_ne_nil hnil, if_neg (mt (intercalate_eq_empty hne).1 hnil)]

@[simp] theorem words_singleton (w : String) : words [w] = w := by
  rw [words_cons, words_nil, spaced_empty]

theorem words_append (as bs : List String) :
    words (as ++ bs) = spaced (words as) (words bs) := by
  induction as with
  | nil => rw [List.nil_append, words_nil, empty_spaced]
  | cons a as ih => rw [List.cons_append, words_cons, words_cons, ih, spaced_assoc]

end JsonAdapters.Emit
