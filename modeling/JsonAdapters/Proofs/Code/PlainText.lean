import JsonAdapters.Proofs.Code.Printing
import JsonAdapters.Proofs.Derive.Idents

/-!
# Tokens of plain text

Text without quotes, slashes and digits has words, punctuation and brackets only. What is read from
it is spelled: its written form is read as the same tokens, even if the text has other gaps.

## Main definitions

* `Code.isPlainChar`: characters of plain text.
* `Code.Awaits`: tokens that were read in front of some characters.

## Main statements

* `Code.leaf_plain`: one token of plain text.
* `Code.isSpelled_of_tokens?`: the tokens of plain text are spelled.
-/

namespace JsonAdapters.Code

/-- Whether the character belongs to no literal, lifetime or comment. -/
def isPlainChar (c : Char) : Bool := c ∉ ['"', '\'', '/'] && !c.isDigit

variable {c : Char} {cs ds rest : List Char}

theorem isPlainChar_iff :
    isPlainChar c ↔ c ≠ '"' ∧ c ≠ '\'' ∧ c ≠ '/' ∧ c.isDigit = false := by
  simp [isPlainChar, and_assoc]

/-- No literal, lifetime or comment stands in the characters. -/
def IsPlain (cs : List Char) : Prop := ∀ c ∈ cs, isPlainChar c

namespace IsPlain

theorem head_ne (h : IsPlain (c :: cs)) : c ≠ '"' ∧ c ≠ '\'' ∧ c ≠ '/' ∧ c.isDigit = false :=
  isPlainChar_iff.1 (h c List.mem_cons_self)

theorem tail (h : IsPlain (c :: cs)) : IsPlain cs := fun d hd => h d (List.mem_cons_of_mem c hd)

theorem suffix (h : IsPlain cs) (hds : ds <:+ cs) : IsPlain ds := fun c hc => h c (hds.subset hc)

/-! ## Gaps -/

/-- Gaps in plain text are blanks. -/
theorem skipGapsWithin_suffix (h : IsPlain cs) (n : Nat) : skipGapsWithin n cs <:+ cs := by
  induction n generalizing cs with
  | zero => exact List.suffix_refl cs
  | succ n ih =>
    cases cs with
    | nil => exact List.suffix_refl []
    | cons c cs =>
      obtain ⟨-, -, hslash, -⟩ := h.head_ne
      rw [skipGapsWithin]
      simp only [startsLineComment, startsBlockComment, List.isPrefixOf,
        beq_eq_false_iff_ne.2 hslash.symm, Bool.false_and, Bool.false_eq_true, if_false]
      split
      · exact (ih h.tail).trans (List.suffix_cons c cs)
      · exact List.suffix_refl _

/-- Behind its gaps, plain text is plain. -/
theorem skipGaps_suffix (h : IsPlain cs) : skipGaps cs <:+ cs := h.skipGapsWithin_suffix _

/-- Plain text documents nothing. -/
theorem docComment (h : IsPlain cs) : docComment cs = none := by
  cases cs with
  | nil => rfl
  | cons c cs => exact docComment_cons h.head_ne.2.2.1

/-- Where punctuation stands in plain text, there is no gap, and the mark is joined to no name. -/
theorem of_atMark (h : IsPlain (c :: cs)) (hmark : atMark (c :: cs)) :
    c ∈ safeMarks ∧ c ≠ '\'' ∧ skipGaps (c :: cs) = c :: cs := by
  obtain ⟨-, hquote, hslash, -⟩ := h.head_ne
  have hmem : c ∈ marks := by
    unfold atMark at hmark
    split at hmark <;> simp_all
  have hsafe : c ∈ safeMarks := List.mem_filter.2 ⟨hmem, decide_eq_true hslash⟩
  have hstart := StartsLeaf.ofMark c (List.mem_cons_of_mem _ hsafe)
  exact ⟨hsafe, hquote, skipGaps_cons hstart.notGap hslash⟩

/-! ## One token -/

/-- Plain text has no string without escapes. -/
theorem rawEnd (h : IsPlain cs) (k : StringClass) : rawEnd k cs = none := by
  refine rawEnd_of_noQuote fun hquote => ?_
  have hmem := (List.dropWhile_suffix _).subset (List.mem_of_mem_head? hquote)
  exact (isPlainChar_iff.1 (h _ hmem)).1 rfl

/-- Plain text has no string. -/
theorem stringEnd (h : IsPlain cs) : stringEnd cs = none := by
  unfold Code.stringEnd
  split
  · exact absurd rfl h.head_ne.1
  · exact h.tail.rawEnd _
  · exact absurd rfl h.tail.head_ne.1
  · exact h.tail.tail.rawEnd _
  · exact absurd rfl h.tail.head_ne.1
  · exact h.tail.tail.rawEnd _
  · rfl

/-- Plain text has no literal. -/
theorem literalEnd (h : IsPlain cs) : literalEnd cs = none := by
  have hnumber : numberEnd cs = none := by
    cases cs with
    | nil => rfl
    | cons c cs => exact numberEnd_of_notDigit h.head_ne.2.2.2
  unfold Code.literalEnd
  rw [h.stringEnd, hnumber]
  split
  · exact absurd rfl h.tail.head_ne.2.1
  · exact absurd rfl h.head_ne.2.1
  · rfl

end IsPlain

/-- A word that is taken is an identifier. -/
theorem exists_of_plainWord (h : plainWord cs = some rest) :
    ∃ name, cs = name ++ rest ∧ isIdentWord name := by
  cases cs with
  | nil => cases h
  | cons c cs =>
    rw [plainWord] at h
    split at h
    · next hstart =>
      obtain rfl := Option.some.inj h
      refine ⟨c :: cs.takeWhile isIdentContinue, by simp, isIdentWord_cons.2 ⟨hstart, ?_⟩⟩
      exact fun d hd => List.all_eq_true.1 List.all_takeWhile d hd
    · cases h

/-- A word that is taken is an identifier, be it raw or not. -/
theorem isIdentifier_of_anyWord {name : String} (h : anyWord cs = some (name, rest)) :
    isIdentifier name ∧ rest <:+ cs := by
  unfold anyWord at h
  split at h
  · next r =>
    obtain ⟨rest', hword, hname⟩ := Option.bind_eq_some_iff.1 h
    obtain ⟨cs, rfl, hcs⟩ := exists_of_plainWord hword
    simp only [readUpTo_append] at hname
    split at hname
    · cases hname
    · next hfree =>
      obtain ⟨rfl, rfl⟩ := Prod.mk.inj (Option.some.inj hname)
      refine ⟨?_, (List.suffix_append cs _).trans ⟨['r', '#'], rfl⟩⟩
      simp [isIdentifier, hcs, hfree]
  · obtain ⟨rest', hword, hname⟩ := Option.bind_eq_some_iff.1 h
    obtain ⟨cs, rfl, hcs⟩ := exists_of_plainWord hword
    obtain ⟨rfl, rfl⟩ := Prod.mk.inj (Option.some.inj hname)
    rw [readUpTo_append]
    exact ⟨isIdentifier_of_isIdentWord (by rwa [String.toList_ofList]), List.suffix_append cs _⟩

/-- A token of plain text is a mark, which is joined to a mark behind it, or a word. -/
theorem leaf_plain {t : TokenTree} (h : IsPlain (c :: cs))
    (hleaf : leaf (c :: cs) = some (t, rest)) :
    (c ∈ safeMarks ∧ c ≠ '\'' ∧ t = .punct c (atMark cs) ∧ rest = cs) ∨
      ∃ name, atMark (c :: cs) = false ∧ t = .ident name ∧ isIdentifier name ∧
        rest <:+ c :: cs := by
  rw [leaf, h.literalEnd] at hleaf
  cases hmark : atMark (c :: cs) with
  | true =>
    obtain ⟨hsafe, hquote, -⟩ := h.of_atMark hmark
    simp only [punctuation, hmark, Bool.not_true, Bool.false_eq_true, if_false, if_neg hquote,
      Option.some_or] at hleaf
    obtain ⟨rfl, rfl⟩ := Prod.mk.inj (Option.some.inj hleaf)
    exact .inl ⟨hsafe, hquote, rfl, rfl⟩
  | false =>
    simp only [punctuation, hmark, Bool.not_false, if_true, Option.none_or] at hleaf
    obtain ⟨⟨name, rest'⟩, hword, htoken⟩ := Option.map_eq_some_iff.1 hleaf
    obtain ⟨rfl, rfl⟩ := Prod.mk.inj htoken
    have hany : anyWord (c :: cs) = some (name, rest') := by
      rw [word] at hword
      split at hword
      · cases hword
      · exact hword
    exact .inr ⟨name, rfl, rfl, isIdentifier_of_anyWord hany⟩

/-! ## Runs -/

/-- What was read in front of the characters is spelled with all that may stand behind it: where a
mark follows at once, the last token may be joined to it. -/
def Awaits (read : Tokens) (cs : List Char) : Prop :=
  ∀ ⦃us : Tokens⦄, IsSpelled us → (atMark cs → ∃ c joint vs, us = .punct c joint :: vs) →
    IsSpelled (read.reverse ++ us)

/-- No bracket is punctuation. -/
theorem atMark_of_opening {d : Delimiter} (h : opening? c = some d) : atMark (c :: cs) = false := by
  unfold opening? at h
  split at h <;> first | rfl | cases h

theorem atMark_of_closing {d : Delimiter} (h : closing? c = some d) : atMark (c :: cs) = false :=
  atMark_of_ends fun _ hc => Option.some.inj hc ▸ mem_tokenEnds_of_closing h

namespace Awaits

variable {read : Tokens} {outer : List (Delimiter × Tokens)} {n : Nat} {ts : Tokens}

/-- Complete tokens await nothing. -/
theorem of_spelled (h : IsSpelled read.reverse) : Awaits read cs := fun _ hus _ => h.append hus

theorem nil : Awaits [] cs := .of_spelled .nil

/-- Where no mark follows, what was read is complete. -/
theorem spelled (h : Awaits read cs) (hmark : atMark cs = false) : IsSpelled read.reverse := by
  have hall : IsSpelled (read.reverse ++ []) := h .nil (by simp [hmark])
  rwa [List.append_nil] at hall

/-- A token that is not joined completes what was read. -/
theorem cons {t : TokenTree} (h : Awaits read cs) (hmark : atMark cs = false)
    (ht : IsSpelled [t]) : Awaits (t :: read) ds := by
  refine .of_spelled ?_
  rw [List.reverse_cons]
  exact (h.spelled hmark).append ht

/-- Gaps do not matter: there is none where a mark follows. -/
theorem skipGaps (h : Awaits read cs) (hplain : IsPlain cs) : Awaits read (skipGaps cs) := by
  intro us hus hfollows
  refine h hus fun hmark => ?_
  cases cs with
  | nil => cases hmark
  | cons c cs =>
    obtain ⟨-, -, hskip⟩ := hplain.of_atMark hmark
    exact hfollows (by rwa [hskip])

/-- A mark is joined to the mark that follows, if there is one. -/
theorem mark (h : Awaits read (c :: cs)) (hc : c ∈ safeMarks) (hquote : c ≠ '\'') :
    Awaits (.punct c (atMark cs) :: read) cs := by
  intro us hus hfollows
  have hcons : IsSpelled (.punct c (atMark cs) :: us) := by
    refine IsSpelled.isSpelled_cons.2 ⟨decide_eq_true hc, ?_, hus⟩
    cases hmark : atMark cs with
    | false => exact decide_eq_true hquote
    | true =>
      obtain ⟨d, joint, vs, rfl⟩ := hfollows hmark
      exact decide_eq_true hquote
  rw [List.reverse_cons, List.append_assoc]
  exact h hcons fun _ => ⟨_, _, _, rfl⟩

/-- The tokens of plain text are spelled, if those in front of it are, within any brackets. -/
theorem spelled_of_scanTokens (h : Awaits read cs) (hplain : IsPlain cs)
    (houter : ∀ g ∈ outer, IsSpelled g.2.reverse) (hrun : scanTokens n outer read cs = some ts) :
    IsSpelled ts := by
  induction n generalizing outer read cs with
  | zero => cases hrun
  | succ n ih =>
    have hplain' := hplain.suffix hplain.skipGaps_suffix
    have hawaits := h.skipGaps hplain
    rw [scanTokens] at hrun
    simp only [hplain'.docComment] at hrun
    cases hskip : Code.skipGaps cs with
    | nil =>
      rw [hskip] at hawaits hrun
      dsimp only at hrun
      split at hrun
      · obtain rfl := Option.some.inj hrun
        exact hawaits.spelled rfl
      · cases hrun
    | cons c ds =>
      rw [hskip] at hplain' hawaits hrun
      dsimp only at hrun
      split at hrun
      · next hopening =>
        have hbefore := hawaits.spelled (atMark_of_opening hopening)
        exact ih .nil hplain'.tail (List.forall_mem_cons.2 ⟨hbefore, houter⟩) hrun
      · next d _ hclosing =>
        have hinner := hawaits.spelled (atMark_of_closing hclosing)
        split at hrun
        · next e before outer =>
          obtain ⟨hbefore, houter⟩ := List.forall_mem_cons.1 houter
          split at hrun
          · refine ih (.of_spelled ?_) hplain'.tail houter hrun
            rw [List.reverse_cons]
            exact hbefore.append (hinner.group d)
          · cases hrun
        · cases hrun
      · split at hrun
        · next t rest hleaf =>
          obtain ⟨hc, hquote, rfl, rfl⟩ | ⟨name, hmark, rfl, hname, hrest⟩ :=
            leaf_plain hplain' hleaf
          · exact ih (hawaits.mark hc hquote) hplain'.tail houter hrun
          · exact ih (hawaits.cons hmark (.ident hname)) (hplain'.suffix hrest) houter hrun
        · cases hrun

end Awaits

/-- The tokens of plain text are spelled. -/
theorem isSpelled_of_tokens? {ts : Tokens} (h : IsPlain cs)
    (hread : tokens? (String.ofList cs) = some ts) : IsSpelled ts := by
  have hsuffix : dropOrderMark cs <:+ cs := by
    unfold dropOrderMark
    split
    · split
      · exact List.suffix_cons _ _
      · exact List.suffix_refl _
    · exact List.suffix_refl []
  rw [tokens?, String.toList_ofList] at hread
  exact Awaits.nil.spelled_of_scanTokens (h.suffix hsuffix) (List.forall_mem_nil _) hread

end JsonAdapters.Code
