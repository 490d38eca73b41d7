import JsonAdapters.Text.SnakeCase
import Mathlib.Tactic.Common

/-!
# Letters of names in snake case

The characters of a name in snake case are the small forms of the name's characters, and underscores
between words. Small forms within ASCII come from ASCII, but for two characters beyond it. The words
of a name can therefore be read from an ASCII text that is the name in snake case.

## Main statements

* `mem_smallForm`: where ASCII characters come from.
* `mem_snakeCase`: the characters of a name in snake case.
* `words_of_snakeCase`: the words of a name whose snake case is known.
-/

namespace JsonAdapters

/-! ## Characters -/

/-- A number that is no code point gives the null character. -/
theorem toNat_ofNat_or (n : Nat) : (Char.ofNat n).toNat = n ∨ Char.ofNat n = '\x00' := by
  by_cases h : n.isValidChar
  · exact .inl (by rw [Char.ofNat, dif_pos h]; rfl)
  · exact .inr (dif_neg h)

/-- What holds of all characters of ASCII. -/
theorem ascii_induction {p : Char → Prop} (h : ∀ n < 0x80, p (Char.ofNat n)) {c : Char}
    (hc : c.toNat < 0x80) : p c := by
  rw [← Char.ofNat_toNat c]
  exact h _ hc

/-- What has no small form in ASCII is its own one. -/
theorem toLower_eq_self {c : Char} (hc : c.toNat < 0x80) (h : ¬ c.toLower.isLower) :
    c.toLower = c :=
  ascii_induction (p := fun c => ¬ c.toLower.isLower → c.toLower = c) (by decide) hc h

/-- Whether all characters are in ASCII, and none is NUL. -/
def IsPlainText (cs : List Char) : Prop := ∀ c ∈ cs, c.toNat < 0x80 ∧ c ≠ '\x00'

instance (cs : List Char) : Decidable (IsPlainText cs) :=
  List.decidableBAll (fun c : Char => c.toNat < 0x80 ∧ c ≠ '\x00') cs

/-! ## Small forms -/

/-- No run of letters has small forms within ASCII, but for that of the Kelvin sign. -/
theorem smallFormRuns_beyond : ∀ r ∈ smallFormRuns,
    (0x80 : Int) ≤ r.1.first + r.2 ∨ r = (⟨0x212a, 0x212a, 1⟩, -8383) := by
  decide +kernel

/-- An ASCII character is the small form of an ASCII character, or it comes from the dotted capital
I or from the Kelvin sign. -/
theorem mem_smallForm {c d : Char} (h : d ∈ smallForm c) (hd : d.toNat < 0x80) (hnul : d ≠ '\x00') :
    (c.toNat < 0x80 ∧ d = c.toLower) ∨ (c.toNat = 0x130 ∧ d = 'i') ∨
      (c.toNat = 0x212a ∧ d = 'k') := by
  unfold smallForm at h
  by_cases hc : c.toNat < 0x80
  · rw [if_pos hc] at h
    exact .inl ⟨hc, List.mem_singleton.1 h⟩
  rw [if_neg hc] at h
  -- the dotted capital I is the only one with two characters
  by_cases hdotted : c.toNat = 0x130
  · rw [if_pos hdotted] at h
    rcases List.mem_cons.1 h with hi | hmark
    · exact .inr (.inl ⟨hdotted, hi⟩)
    · rw [List.mem_singleton.1 hmark] at hd
      exact absurd hd (by decide)
  rw [if_neg hdotted] at h
  split at h
  · next r δ hfind =>
    -- all runs lead beyond ASCII, except for the Kelvin sign
    have hmem := List.mem_of_find?_eq_some hfind
    have hin := List.find?_some hfind
    simp only [Run.contains, Bool.and_eq_true, decide_eq_true_eq] at hin
    have hd' := List.mem_singleton.1 h
    rcases smallFormRuns_beyond _ hmem with hbeyond | hkelvin
    · exfalso
      have hn : 0x80 ≤ ((c.toNat : Int) + δ).toNat := by
        simp only at hbeyond
        omega
      rcases toNat_ofNat_or ((c.toNat : Int) + δ).toNat with hn' | hnul'
      · rw [hd', hn'] at hd
        omega
      · exact hnul (hd'.trans hnul')
    · cases hkelvin
      obtain ⟨⟨hlo, hhi⟩, -⟩ := hin
      have hc' : c.toNat = 0x212a := Nat.le_antisymm hhi hlo
      rw [hc'] at hd'
      exact .inr (.inr ⟨hc', hd'⟩)
  · rw [List.mem_singleton.1 h] at hd
    exact absurd hd hc

theorem smallForm_ascii {c : Char} (h : c.toNat < 0x80) : smallForm c = [c.toLower] := if_pos h

/-- Every character has a small form. -/
theorem smallForm_ne_nil (c : Char) : smallForm c ≠ [] := by
  unfold smallForm
  split
  · simp
  · split
    · simp
    · split <;> simp

/-- Characters of ASCII stand for themselves. -/
theorem extendsGrapheme_ascii {c : Char} (h : c.toNat < 0x80) : extendsGrapheme c = false := by
  rw [extendsGrapheme, extendBounds, inRanges, if_pos (by omega)]

/-- A character whose small form is plain is drawn onto no other one. -/
theorem extendsGrapheme_of_smallForm {c : Char} (h : IsPlainText (smallForm c)) :
    extendsGrapheme c = false := by
  obtain ⟨d, hd⟩ := List.exists_mem_of_ne_nil _ (smallForm_ne_nil c)
  rcases mem_smallForm hd (h d hd).1 (h d hd).2 with ⟨hascii, -⟩ | ⟨hdotted, -⟩ | ⟨hkelvin, -⟩
  · exact extendsGrapheme_ascii hascii
  · rw [extendsGrapheme, hdotted]
    decide
  · rw [extendsGrapheme, hkelvin]
    decide +kernel

/-- Plain small forms without the letters i and k come from ASCII. -/
theorem smallForm_of_plain {c : Char} (h : IsPlainText (smallForm c)) (hi : 'i' ∉ smallForm c)
    (hk : 'k' ∉ smallForm c) : c.toNat < 0x80 := by
  obtain ⟨d, hd⟩ := List.exists_mem_of_ne_nil _ (smallForm_ne_nil c)
  rcases mem_smallForm hd (h d hd).1 (h d hd).2 with ⟨hascii, -⟩ | ⟨-, rfl⟩ | ⟨-, rfl⟩
  · exact hascii
  · exact absurd hd hi
  · exact absurd hd hk

/-! ## Texts in lower case -/

/-- An ASCII character in a text in lower case is in the small form of a character. -/
theorem mem_lowerAfter {before cs : List Char} {d : Char} (h : d ∈ lowerAfter before cs)
    (hd : d.toNat < 0x80) : ∃ c ∈ cs, d ∈ smallForm c := by
  induction cs generalizing before with
  | nil => cases h
  | cons c cs ih =>
    rw [lowerAfter] at h
    rcases List.mem_append.1 h with h | h
    · split at h
      · exfalso
        rw [List.mem_singleton.1 h] at hd
        revert hd
        split <;> decide
      · exact ⟨c, List.mem_cons_self, h⟩
    · obtain ⟨c', hc', h⟩ := ih h
      exact ⟨c', List.mem_cons_of_mem c hc', h⟩

/-- A plain text in lower case has no sigma, whose small form depends on its neighbours. -/
theorem lowerAfter_eq {before cs : List Char} (h : IsPlainText (lowerAfter before cs)) :
    lowerAfter before cs = cs.flatMap smallForm := by
  induction cs generalizing before with
  | nil => rfl
  | cons c cs ih =>
    rw [lowerAfter] at h ⊢
    have hrest := ih fun d hd => h d (List.mem_append_right _ hd)
    have hsigma : c.toNat ≠ 0x3a3 := by
      intro hc
      rw [if_pos hc] at h
      have hlt := (h _ (List.mem_append_left _ (List.mem_singleton.2 rfl))).1
      revert hlt
      split <;> decide
    rw [if_neg hsigma, hrest, List.flatMap_cons]

/-- Small forms make no text shorter. -/
theorem length_le_flatMap_smallForm (cs : List Char) :
    cs.length ≤ (cs.flatMap smallForm).length := by
  induction cs with
  | nil => exact Nat.zero_le _
  | cons c cs ih =>
    have hpos := List.length_pos_iff.2 (smallForm_ne_nil c)
    rw [List.flatMap_cons, List.length_append, List.length_cons]
    omega

/-! ## Words -/

/-- Clusters make up the text. -/
theorem flatten_graphemes (cs : List Char) : (graphemes cs).flatten = cs := by
  induction cs with
  | nil => rfl
  | cons c cs ih =>
    rw [graphemes]
    split
    · next hnil => simpa [hnil] using ih
    · next g gs hcons =>
      rw [hcons] at ih
      split <;> simpa using ih

/-- Where no character extends another one, each is a cluster. -/
theorem graphemes_of_plain {cs : List Char} (h : ∀ c ∈ cs, extendsGrapheme c = false) :
    graphemes cs = cs.map ([·]) := by
  induction cs with
  | nil => rfl
  | cons c cs ih =>
    have hrest := ih fun c' hc' => h c' (List.mem_cons_of_mem c hc')
    rw [graphemes, hrest]
    cases cs with
    | nil => rfl
    | cons c' cs =>
      have hnext := h c' (List.mem_cons_of_mem c List.mem_cons_self)
      simp [hnext]

@[simp] theorem cutWords_nil (word : List Grapheme) : cutWords word [] = [word.reverse] := rfl

/-- A cluster is a separator, the last one of its word, or one within it. -/
theorem cutWords_cons (word : List Grapheme) (g : Grapheme) (gs : List Grapheme) :
    cutWords word (g :: gs) =
      if g = ['_'] then word.reverse :: cutWords [] gs
      else if endsWord g gs then (g :: word).reverse :: cutWords [] gs
      else cutWords (g :: word) gs := rfl

/-- There is at least one word. -/
theorem cutWords_ne_nil (word gs : List Grapheme) : cutWords word gs ≠ [] := by
  induction gs generalizing word with
  | nil => exact List.cons_ne_nil _ _
  | cons g gs ih =>
    rw [cutWords_cons]
    split
    · exact List.cons_ne_nil _ _
    · split
      · exact List.cons_ne_nil _ _
      · exact ih _

/-- The graphemes of all words are those of the name, without underscores. -/
theorem mem_flatten_cutWords {word gs : List Grapheme} {g : Grapheme} :
    g ∈ (cutWords word gs).flatten ↔ g ∈ word ∨ g ∈ gs ∧ g ≠ ['_'] := by
  induction gs generalizing word with
  | nil => simp
  | cons h gs ih =>
    rw [cutWords_cons]
    by_cases hmark : h = ['_']
    · rw [if_pos hmark, List.flatten_cons, List.mem_append, List.mem_reverse, ih, List.mem_cons,
        hmark]
      simp only [List.not_mem_nil, false_or]
      tauto
    · have hne : g = h → g ≠ ['_'] := fun heq => heq ▸ hmark
      rw [if_neg hmark]
      split
      · rw [List.flatten_cons, List.mem_append, List.mem_reverse, List.mem_cons, ih, List.mem_cons]
        simp only [List.not_mem_nil, false_or]
        tauto
      · rw [ih, List.mem_cons, List.mem_cons]
        tauto

/-- A text that is not cut is its only word. -/
theorem cutWords_eq_singleton {word gs : List Grapheme} {u : List Grapheme}
    (h : cutWords word gs = [u]) : u = word.reverse ++ gs := by
  induction gs generalizing word with
  | nil => simpa using h.symm
  | cons g gs ih =>
    rw [cutWords_cons] at h
    split at h
    · exact absurd (List.cons.inj h).2 (cutWords_ne_nil _ _)
    · split at h
      · exact absurd (List.cons.inj h).2 (cutWords_ne_nil _ _)
      · simpa using ih h

/-- Between two words stands an underscore, or nothing. -/
theorem cutWords_eq_pair {word gs : List Grapheme} {u v : List Grapheme}
    (h : cutWords word gs = [u, v]) :
    u ++ v = word.reverse ++ gs ∨ u ++ ['_'] :: v = word.reverse ++ gs := by
  induction gs generalizing word with
  | nil => simp at h
  | cons g gs ih =>
    rw [cutWords_cons] at h
    split at h
    · next hmark =>
      obtain ⟨rfl, hrest⟩ := List.cons.inj h
      have hv := cutWords_eq_singleton hrest
      rw [List.reverse_nil, List.nil_append] at hv
      exact .inr (by rw [hv, hmark])
    · split at h
      · obtain ⟨rfl, hrest⟩ := List.cons.inj h
        have hv := cutWords_eq_singleton hrest
        rw [List.reverse_nil, List.nil_append] at hv
        exact .inl (by simp [hv])
      · simpa using ih h

/-! ## Snake case -/

/-- What stands in a joined list comes from a part or is the separator. -/
theorem mem_intercalate {α : Type} {a x : α} {ls : List (List α)} (h : x ∈ [a].intercalate ls) :
    x = a ∨ ∃ l ∈ ls, x ∈ l := by
  induction ls with
  | nil => cases h
  | cons l ls ih =>
    cases ls with
    | nil => exact .inr ⟨l, List.mem_cons_self, by simpa using h⟩
    | cons l' ls =>
      rw [List.intercalate_cons_cons, List.append_assoc] at h
      rcases List.mem_append.1 h with h | h
      · exact .inr ⟨l, List.mem_cons_self, h⟩
      · rcases List.mem_cons.1 h with rfl | h
        · exact .inl rfl
        · refine (ih h).imp_right fun ⟨k, hk, hx⟩ => ⟨k, List.mem_cons_of_mem l hk, hx⟩

/-- A joined list has all of each part. -/
theorem subset_intercalate {α : Type} {a : α} {l : List α} {ls : List (List α)} (h : l ∈ ls) :
    l ⊆ [a].intercalate ls := by
  induction ls with
  | nil => cases h
  | cons k ls ih =>
    cases ls with
    | nil =>
      obtain rfl := List.mem_singleton.1 h
      simp
    | cons k' ls =>
      rw [List.intercalate_cons_cons, List.append_assoc]
      rcases List.mem_cons.1 h with rfl | h
      · exact List.subset_append_left _ _
      · intro x hx
        exact List.mem_append_right _ (List.mem_cons_of_mem a (ih h hx))

/-- The words in small letters, with underscores between them. -/
theorem toList_snakeCase (s : String) : (snakeCase s).toList =
    ['_'].intercalate
      ((cutWords [] (graphemes s.toList)).map fun w => lowerAfter [] w.flatten) := by
  rw [snakeCase, nameWords, String.toList_intercalate, List.map_map, List.map_map]
  simp [lowercase, Function.comp_def]

/-- Words have characters of the text only. -/
theorem mem_of_mem_word {s : String} {w : List Grapheme} (hw : w ∈ cutWords [] (graphemes s.toList))
    {c : Char} (hc : c ∈ w.flatten) : c ∈ s.toList := by
  obtain ⟨g, hg, hcg⟩ := List.mem_flatten.1 hc
  have hmem := mem_flatten_cutWords.1 (List.mem_flatten.2 ⟨w, hw, hg⟩)
  rw [← flatten_graphemes s.toList]
  exact List.mem_flatten.2 ⟨g, (hmem.resolve_left List.not_mem_nil).1, hcg⟩

/-- An ASCII character of a name in snake case is in the small form of one of the name, or it is an
underscore. -/
theorem mem_snakeCase {s : String} {d : Char} (h : d ∈ (snakeCase s).toList) (hd : d.toNat < 0x80) :
    d = '_' ∨ ∃ c ∈ s.toList, d ∈ smallForm c := by
  rw [toList_snakeCase] at h
  refine (mem_intercalate h).imp_right fun ⟨t, ht, hdt⟩ => ?_
  obtain ⟨w, hw, rfl⟩ := List.mem_map.1 ht
  obtain ⟨c, hc, hdc⟩ := mem_lowerAfter hdt hd
  exact ⟨c, mem_of_mem_word hw hc, hdc⟩

section Plain

variable {s : String} (h : IsPlainText (snakeCase s).toList)

include h

/-- If a name is plain in snake case, the small letters of its words are their small forms. -/
theorem lowerAfter_of_plain {w : List Grapheme} (hw : w ∈ cutWords [] (graphemes s.toList)) :
    lowerAfter [] w.flatten = w.flatten.flatMap smallForm := by
  rw [toList_snakeCase] at h
  exact lowerAfter_eq fun d hd => h d (subset_intercalate (List.mem_map.2 ⟨w, hw, rfl⟩) hd)

/-- If a name is plain in snake case, none of its characters is drawn onto another one. -/
theorem graphemes_of_plain_snakeCase : graphemes s.toList = s.toList.map ([·]) := by
  refine graphemes_of_plain fun c hc => ?_
  rw [← flatten_graphemes s.toList] at hc
  obtain ⟨g, hg, hcg⟩ := List.mem_flatten.1 hc
  by_cases hmark : g = ['_']
  · rw [hmark] at hcg
    obtain rfl := List.mem_singleton.1 hcg
    exact extendsGrapheme_ascii (by decide)
  · have hmem : g ∈ (cutWords [] (graphemes s.toList)).flatten :=
      mem_flatten_cutWords.2 (.inr ⟨hg, hmark⟩)
    obtain ⟨w, hw, hgw⟩ := List.mem_flatten.1 hmem
    have hcw : c ∈ w.flatten := List.mem_flatten.2 ⟨g, hgw, hcg⟩
    have hlower := lowerAfter_of_plain h hw
    rw [toList_snakeCase] at h
    refine extendsGrapheme_of_smallForm fun d hd => h d ?_
    refine subset_intercalate (List.mem_map.2 ⟨w, hw, rfl⟩) ?_
    rw [hlower]
    exact List.mem_flatMap.2 ⟨c, hcw, hd⟩

/-- The words of a name whose snake case is plain have no underscores. -/
theorem no_underscore_in_word {w : List Grapheme} (hw : w ∈ cutWords [] (graphemes s.toList)) :
    '_' ∉ lowerAfter [] w.flatten := by
  intro hmark
  obtain ⟨c, hc, hd⟩ := mem_lowerAfter hmark (by decide)
  obtain ⟨hascii, hlower⟩ | ⟨-, ⟨⟩⟩ | ⟨-, ⟨⟩⟩ := mem_smallForm hd (by decide) (by decide)
  have hc' : c = '_' := by
    rw [hlower, toLower_eq_self hascii]
    rw [← hlower]
    decide
  obtain ⟨g, hg, hcg⟩ := List.mem_flatten.1 hc
  have hmem := mem_flatten_cutWords.1 (List.mem_flatten.2 ⟨w, hw, hg⟩)
  obtain ⟨hgs, hne⟩ := hmem.resolve_left List.not_mem_nil
  rw [graphemes_of_plain_snakeCase h] at hgs
  obtain ⟨c', -, rfl⟩ := List.mem_map.1 hgs
  exact hne (by rw [← List.mem_singleton.1 hcg, hc'])

end Plain

/-- The words of a name can be read from its snake case, if that is plain. -/
theorem words_of_snakeCase {s : String} {ts : List (List Char)}
    (h : (snakeCase s).toList = ['_'].intercalate ts) (hne : ts ≠ [])
    (hplain : ∀ t ∈ ts, IsPlainText t ∧ '_' ∉ t) :
    (cutWords [] (graphemes s.toList)).map (fun w => w.flatten.flatMap smallForm) = ts := by
  have hsnake : IsPlainText (snakeCase s).toList := by
    intro d hd
    rw [h] at hd
    rcases mem_intercalate hd with rfl | ⟨t, ht, hd⟩
    · decide
    · exact (hplain t ht).1 d hd
  have hwords : (cutWords [] (graphemes s.toList)).map (fun w => lowerAfter [] w.flatten) =
      (cutWords [] (graphemes s.toList)).map (fun w => w.flatten.flatMap smallForm) :=
    List.map_congr_left fun w hw => lowerAfter_of_plain hsnake hw
  have hsplit : (['_'].intercalate ((cutWords [] (graphemes s.toList)).map
      fun w => lowerAfter [] w.flatten)).splitOn '_' = _ :=
    List.splitOn_intercalate '_'
      (by simpa using fun w hw => no_underscore_in_word hsnake hw)
      (by simpa using cutWords_ne_nil [] _)
  have hsplit' : (['_'].intercalate ts).splitOn '_' = ts :=
    List.splitOn_intercalate '_' (fun t ht => (hplain t ht).2) hne
  rw [← hwords, ← hsplit, ← toList_snakeCase, h, hsplit']

end JsonAdapters
