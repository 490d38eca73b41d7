import JsonAdapters.Code.Lexer
import JsonAdapters.Derive.GeneratedName
import JsonAdapters.Proofs.Code.Quoting
import JsonAdapters.Proofs.Text.Lowercase
import Mathlib.Data.Bool.AllAny

/-!
# Reading one token

A word, a punctuation character or a string is taken as a whole where something stands behind it
that cannot belong to it: a blank, a closing bracket, or the end of the text.

## Main definitions

* `Code.EndsToken`: what may stand behind a token.
* `Code.StartsLeaf`: characters with which a token other than a group starts.
* `Code.isRawText`: strings without escapes.

## Main statements

* `Code.leaf_identifier`, `Code.leaf_mark`, `Code.leaf_quoted`, `Code.leaf_rawText`: one token.
-/

namespace JsonAdapters.Code

/-! ## Ends of tokens -/

/-- Characters that may stand behind any token. -/
def tokenEnds : List Char := [' ', '\n', ')', ']', '}']

/-- Whether a token may end in front of the characters. -/
def EndsToken (cs : List Char) : Prop := ∀ c ∈ cs.head?, c ∈ tokenEnds

/-- Whether a word may end in front of the first of the characters that cannot belong to it. -/
def EndsWord (cs : List Char) : Prop := EndsToken (cs.dropWhile isIdentContinue)

/-- Marks that make a string or a byte out of letters in front of them. -/
def quoteMarks : List Char := ['"', '\'', '#']

/-- No word goes on with what may stand behind a token. -/
theorem tokenEnds_not_continue : ∀ c ∈ tokenEnds, isIdentContinue c = false :=
  List.all_iff_forall_prop.1 (by decide)

/-- No word goes on with a quote. -/
theorem quoteMarks_not_continue : ∀ c ∈ quoteMarks, isIdentContinue c = false :=
  List.all_iff_forall_prop.1 (by decide)

variable {c d : Char} {cs ds rest : List Char}

theorem EndsToken.dropWhile (h : EndsToken cs) : cs.dropWhile isIdentContinue = cs := by
  cases cs with
  | nil => rfl
  | cons c cs => simp [tokenEnds_not_continue c (h c rfl)]

theorem endsToken_nil : EndsToken [] := nofun

theorem endsToken_space (cs : List Char) : EndsToken (' ' :: cs) := by
  rintro c ⟨⟩
  decide

/-- A word may end where any token may. -/
theorem EndsToken.endsWord (h : EndsToken cs) : EndsWord cs := by rwa [EndsWord, h.dropWhile]

/-- The characters of a word are skipped up to its end. -/
theorem dropWhile_word (hcs : ∀ c ∈ cs, isIdentContinue c) (h : EndsToken rest) :
    (cs ++ rest).dropWhile isIdentContinue = rest := by
  rw [List.dropWhile_append_of_pos hcs, h.dropWhile]

/-- The characters of a word lead to its end. -/
theorem EndsWord.append (hcs : ∀ c ∈ cs, isIdentContinue c) (h : EndsToken rest) :
    EndsWord (cs ++ rest) := by
  rwa [EndsWord, dropWhile_word hcs h]

theorem EndsWord.tail (h : EndsWord (c :: cs)) (hc : isIdentContinue c) : EndsWord cs := by
  rwa [EndsWord, List.dropWhile_cons_of_pos hc] at h

/-- What goes on with a word has no quote at its start. -/
theorem EndsWord.notQuote (h : EndsWord (c :: cs)) : c ∉ quoteMarks := by
  intro hquote
  have hcontinue := quoteMarks_not_continue c hquote
  rw [EndsWord, List.dropWhile_cons_of_neg (by simp [hcontinue])] at h
  have hends : ∀ c ∈ tokenEnds, c ∉ quoteMarks := List.all_iff_forall_prop.1 (by decide)
  exact hends c (h c rfl) hquote

/-- No quote stands where a word goes on or ends. -/
theorem EndsWord.head_ne (h : EndsWord cs) (hd : d ∈ quoteMarks) : cs.head? ≠ some d := by
  cases cs with
  | nil => nofun
  | cons c cs => exact fun heq => h.notQuote (Option.some.inj heq ▸ hd)

/-- A literal has no suffix where a token may end. -/
theorem skipSuffix_of_ends (h : EndsToken rest) : skipSuffix rest = rest := by
  cases rest with
  | nil => rfl
  | cons c cs =>
    have hcontinue := tokenEnds_not_continue c (h c rfl)
    have hstart : isIdentStart c = false := by
      by_contra hc
      rw [isIdentContinue_of_start (by simpa using hc)] at hcontinue
      cases hcontinue
    simp [skipSuffix, plainWord, hstart]

/-! ## Starts of tokens -/

/-- Whether a token other than a group may start with the character, and no comment. -/
structure StartsLeaf (c : Char) : Prop where
  notGap : isGapChar c = false
  notSlash : c ≠ '/'
  notOpening : opening? c = none
  notClosing : closing? c = none

/-- No identifier starts with a blank. -/
theorem notStart_of_gap (h : isGapChar c) : isIdentStart c = false := by
  by_cases hc : c.toNat < 0x80
  · exact ascii_induction (p := fun c => isGapChar c → isIdentStart c = false)
      (by decide) hc h
  simp only [isGapChar, isBlank, if_neg hc, Bool.or_eq_true, decide_eq_true_eq, or_assoc] at h
  rw [isIdentStart, if_neg hc]
  obtain hblank | hmark := h
  · exact notInRanges_of_avoidsRanges (by decide +kernel) hblank
  · exact notInRanges_of_avoidsSpan (a := 0x200e) (b := 0x200f) (by decide +kernel)
      (by omega) (by omega)

/-- Words are no groups, gaps or comments. -/
theorem StartsLeaf.ofIdentStart (h : isIdentStart c) : StartsLeaf c := by
  have hne {d : Char} (hd : isIdentStart d = false) : c ≠ d := by
    rintro rfl
    rw [hd] at h
    cases h
  refine ⟨?_, hne (by decide), ?_, ?_⟩
  · by_contra hgap
    rw [notStart_of_gap (by simpa using hgap)] at h
    cases h
  · simp [opening?, hne (d := '(') (by decide), hne (d := '[') (by decide),
      hne (d := '{') (by decide)]
  · simp [closing?, hne (d := ')') (by decide), hne (d := ']') (by decide),
      hne (d := '}') (by decide)]

/-- Punctuation characters that start no comment. -/
def safeMarks : List Char := marks.filter (· ≠ '/')

/-- Strings and punctuation are no groups, gaps or comments. -/
theorem StartsLeaf.ofMark : ∀ c ∈ '"' :: safeMarks, StartsLeaf c := by
  have hmarks : ∀ c ∈ '"' :: safeMarks, isGapChar c = false ∧ c ≠ '/' ∧ opening? c = none ∧
      closing? c = none := List.all_iff_forall_prop.1 (by decide)
  exact fun c hc => ⟨(hmarks c hc).1, (hmarks c hc).2.1, (hmarks c hc).2.2.1, (hmarks c hc).2.2.2⟩

/-! ## Words -/

/-- Where no quote follows the marks of a string without escapes, there is none. -/
theorem rawEnd_of_noQuote {k : StringClass}
    (h : (cs.dropWhile fun c => decide (c = '#')).head? ≠ some '"') : rawEnd k cs = none := by
  have hdrop : cs.drop (cs.takeWhile fun c => decide (c = '#')).length =
      cs.dropWhile fun c => decide (c = '#') := by
    nth_rewrite 2 [← List.takeWhile_append_dropWhile (p := fun c => decide (c = '#')) (l := cs)]
    exact List.drop_left
  rw [rawEnd]
  simp only [hdrop]
  split
  · next heq => exact absurd (by rw [heq]; rfl) h
  · rfl

/-- No string without escapes stands where a word goes on. -/
theorem rawEnd_of_endsWord {k : StringClass} (h : EndsWord cs) : rawEnd k cs = none := by
  refine rawEnd_of_noQuote fun hquote => ?_
  cases cs with
  | nil => cases hquote
  | cons c cs =>
    have hhash : c ≠ '#' := fun heq => h.notQuote (heq ▸ by decide)
    rw [List.dropWhile_cons_of_neg (by simp [hhash])] at hquote
    exact h.notQuote (Option.some.inj hquote ▸ by decide)

/-- A word is no string. -/
theorem stringEnd_of_endsWord (hc : c ≠ '"') (h : EndsWord cs) : stringEnd (c :: cs) = none := by
  have hquote {cs : List Char} : ¬EndsWord ('"' :: cs) := fun hends => hends.notQuote (by decide)
  have hraw {k : StringClass} {cs : List Char} (hends : EndsWord ('r' :: cs)) :
      rawEnd k cs = none := rawEnd_of_endsWord (hends.tail (by decide))
  unfold stringEnd
  split
  · next heq => exact absurd (List.cons.inj heq).1 hc
  · next heq =>
    obtain ⟨rfl, rfl⟩ := List.cons.inj heq
    exact rawEnd_of_endsWord h
  · next heq => exact absurd ((List.cons.inj heq).2 ▸ h) hquote
  · next heq => exact hraw ((List.cons.inj heq).2 ▸ h)
  · next heq => exact absurd ((List.cons.inj heq).2 ▸ h) hquote
  · next heq => exact hraw ((List.cons.inj heq).2 ▸ h)
  · rfl

/-- A number starts with a digit. -/
theorem numberEnd_of_notDigit (hc : c.isDigit = false) : numberEnd (c :: cs) = none := by
  unfold numberEnd
  exact if_pos (by simp [hc])

/-- No identifier starts with a digit. -/
theorem notDigit_of_start (h : isIdentStart c) : c.isDigit = false := by
  by_cases hc : c.toNat < 0x80
  · exact ascii_induction (p := fun c => isIdentStart c → c.isDigit = false)
      (by decide) hc h
  · rw [Bool.eq_false_iff]
    intro hdigit
    have hle : c.toNat ≤ '9'.toNat := (Char.isDigit_iff_toNat.1 hdigit).2
    exact hc (Nat.lt_of_le_of_lt hle (by decide))

/-- A word is no literal. -/
theorem literalEnd_of_endsWord (hc : isIdentStart c) (h : EndsWord cs) :
    literalEnd (c :: cs) = none := by
  have hquote : c ≠ '"' := by
    rintro rfl
    cases hc
  unfold literalEnd
  rw [stringEnd_of_endsWord hquote h, numberEnd_of_notDigit (notDigit_of_start hc)]
  split
  · next heq =>
    obtain ⟨-, rfl⟩ := List.cons.inj heq
    exact absurd (by decide) h.notQuote
  · next heq =>
    obtain ⟨rfl, -⟩ := List.cons.inj heq
    cases hc
  · rfl

/-- A word is no punctuation. -/
theorem punctuation_of_start (hc : isIdentStart c) : punctuation (c :: cs) = none := by
  have hmarks : ∀ c ∈ marks, isIdentStart c = false := List.all_iff_forall_prop.1 (by decide)
  have hmark : c ∉ marks := fun hmem => by
    rw [hmarks c hmem] at hc
    cases hc
  have hat : atMark (c :: cs) = false := by
    unfold atMark
    split <;> simp_all
  rw [punctuation, hat]
  rfl

/-- No string opens where a word stands. -/
theorem opensString_of_endsWord (h : EndsWord cs) : opensString (c :: cs) = false := by
  have hquote {d : Char} {ds : List Char} (hd : d ∈ quoteMarks) : ¬EndsWord (d :: ds) :=
    fun hends => hends.notQuote hd
  have hraw {d : Char} {ds : List Char} (hd : d ∈ quoteMarks) : ¬EndsWord ('r' :: d :: ds) :=
    fun hends => hquote hd (hends.tail (by decide))
  rw [opensString, List.any_eq_false]
  intro p hp hprefix
  obtain ⟨ds, hds⟩ := List.isPrefixOf_iff_prefix.1 hprefix
  simp only [List.mem_cons, List.not_mem_nil, or_false] at hp
  -- behind its letters, each of the starts has a quote
  rcases hp with rfl | rfl | rfl | rfl | rfl | rfl | rfl | rfl | rfl | rfl <;>
    obtain ⟨-, rfl⟩ := List.cons.inj hds
  all_goals first
    | exact hquote (by decide) h
    | exact hraw (by decide) h

/-- What is taken up to the rest is what stands in front of the rest. -/
theorem readUpTo_append (cs rest : List Char) : readUpTo (cs ++ rest) rest = String.ofList cs := by
  simp [readUpTo]

/-- A word is taken up to its end. -/
theorem plainWord_word (h : isIdentWord cs) (hrest : EndsToken rest) :
    plainWord (cs ++ rest) = some rest := by
  obtain - | ⟨c, cs⟩ := cs
  · cases h
  obtain ⟨hstart, hcontinue⟩ := isIdentWord_cons.1 h
  rw [List.cons_append, plainWord, if_pos hstart, dropWhile_word hcontinue hrest]

theorem leaf_of_word {name : String} (hliteral : literalEnd cs = none)
    (hmark : punctuation cs = none) (hstring : opensString cs = false)
    (hword : anyWord cs = some (name, rest)) : leaf cs = some (.ident name, rest) := by
  rw [leaf, hliteral]
  simp only [hmark, word, hstring, hword]
  rfl

/-- A word without a mark is taken as it stands. -/
theorem anyWord_identWord (h : isIdentWord cs) (hrest : EndsToken rest) :
    anyWord (cs ++ rest) = some (String.ofList cs, rest) := by
  have hplain := plainWord_word h hrest
  have hread := readUpTo_append cs rest
  obtain - | ⟨c, cs⟩ := cs
  · cases h
  have hends : EndsWord (cs ++ rest) := .append (isIdentWord_cons.1 h).2 hrest
  unfold anyWord
  split
  · next heq =>
    obtain ⟨-, hhash⟩ := List.cons.inj heq
    have hhash : cs ++ rest = '#' :: _ := hhash
    exact absurd (by decide) (hhash ▸ hends).notQuote
  · rw [hplain, ← hread]
    rfl

/-- A plain word is taken. -/
theorem leaf_identWord (h : isIdentWord cs) (hrest : EndsToken rest) :
    leaf (cs ++ rest) = some (.ident (String.ofList cs), rest) := by
  have hword := anyWord_identWord h hrest
  obtain - | ⟨c, cs⟩ := cs
  · cases h
  obtain ⟨hstart, hcontinue⟩ := isIdentWord_cons.1 h
  have hends : EndsWord (cs ++ rest) := .append hcontinue hrest
  exact leaf_of_word (literalEnd_of_endsWord hstart hends) (punctuation_of_start hstart)
    (opensString_of_endsWord hends) hword

/-- A raw word is taken with its mark. -/
theorem leaf_rawWord (h : isIdentWord cs) (hname : String.ofList cs ∉ unmarkable)
    (hrest : EndsToken rest) :
    leaf ('r' :: '#' :: (cs ++ rest)) = some (.ident ("r#" ++ String.ofList cs), rest) := by
  have hword : anyWord ('r' :: '#' :: (cs ++ rest)) =
      some ("r#" ++ String.ofList cs, rest) := by
    rw [anyWord, plainWord_word h hrest]
    simp only [Option.bind_eq_bind, Option.bind_some, readUpTo_append, if_neg hname]
  obtain - | ⟨c, cs⟩ := cs
  · cases h
  obtain ⟨hstart, hcontinue⟩ := isIdentWord_cons.1 h
  have hquote : c ≠ '"' := by
    rintro rfl
    cases hstart
  have hhash : c ≠ '#' := by
    rintro rfl
    cases hstart
  have hraw : rawEnd .text ('#' :: (c :: cs ++ rest)) = none :=
    rawEnd_of_noQuote (by simp [hhash, hquote])
  have hliteral : literalEnd ('r' :: '#' :: (c :: cs ++ rest)) = none := by
    unfold literalEnd
    rw [stringEnd, hraw]
    rfl
  have hstring : opensString ('r' :: '#' :: (c :: cs ++ rest)) = false := by
    simp [opensString, List.isPrefixOf, hquote.symm, hhash.symm]
  exact leaf_of_word hliteral rfl hstring hword

/-- An identifier is taken, be it raw or not. -/
theorem leaf_identifier {name : String} (h : isIdentifier name) (hrest : EndsToken rest) :
    leaf (name.toList ++ rest) = some (.ident name, rest) := by
  unfold isIdentifier at h
  split at h
  · next cs hname =>
    obtain ⟨hword, hfree⟩ := Bool.and_eq_true_iff.1 h
    have htext : "r#" ++ String.ofList cs = name := by
      rw [← String.toList_inj, hname]
      simp
    rw [hname, ← htext]
    exact leaf_rawWord hword (of_decide_eq_true hfree) hrest
  · rw [leaf_identWord h hrest, String.ofList_toList]

/-! ## Punctuation -/

/-- A mark other than a quote is no literal. -/
theorem literalEnd_of_mark : ∀ c ∈ marks, c ≠ '\'' → ∀ cs, literalEnd (c :: cs) = none := by
  have hmarks : ∀ c ∈ marks, c ∉ ['"', 'r', 'b', 'c'] ∧ c.isDigit = false :=
    List.all_iff_forall_prop.1 (by decide)
  intro c hc hquote cs
  obtain ⟨hletters, hdigit⟩ := hmarks c hc
  simp only [List.mem_cons, List.not_mem_nil, or_false, not_or] at hletters
  simp [literalEnd, stringEnd, numberEnd_of_notDigit hdigit, hletters, hquote]

/-- Punctuation stands where one of its characters does. -/
theorem atMark_of_mem {c : Char} (hc : c ∈ safeMarks) (cs : List Char) : atMark (c :: cs) := by
  obtain ⟨hmark, hslash⟩ := List.mem_filter.1 hc
  have hslash : c ≠ '/' := of_decide_eq_true hslash
  unfold atMark
  split <;> simp_all

/-- No punctuation stands where a token may end. -/
theorem atMark_of_ends (h : EndsToken cs) : atMark cs = false := by
  have hends : ∀ c ∈ tokenEnds, c ∉ marks := List.all_iff_forall_prop.1 (by decide)
  unfold atMark
  split
  · rfl
  · rfl
  · rfl
  · next c cs _ _ => exact decide_eq_false (hends c (h c rfl))

/-- A mark is taken, and is joined to a mark behind it. -/
theorem leaf_mark (hc : c ∈ safeMarks) (hquote : c ≠ '\'') (cs : List Char) :
    leaf (c :: cs) = some (.punct c (atMark cs), cs) := by
  have hliteral := literalEnd_of_mark c (List.mem_filter.1 hc).1 hquote cs
  rw [leaf, hliteral]
  simp [punctuation, atMark_of_mem hc, hquote]

theorem literalEnd_quote (cs : List Char) : literalEnd ('\'' :: cs) = charEnd .text cs := by
  simp [literalEnd, stringEnd, numberEnd_of_notDigit]

/-- Without a second quote, there is no character literal. -/
theorem charEnd_of_head_ne (hc : c ≠ '\\') (hcs : cs.head? ≠ some '\'') :
    charEnd .text (c :: cs) = none := by
  cases cs with
  | nil => simp [charEnd, StringClass.allows]
  | cons d cs =>
    have hd : d ≠ '\'' := fun heq => hcs (congrArg some heq)
    simp [charEnd, StringClass.allows, hd]

/-- The quote of a lifetime is taken, and is joined to its name. -/
theorem leaf_lifetime (h : isIdentWord cs) (hrest : EndsToken rest) :
    leaf ('\'' :: (cs ++ rest)) = some (.punct '\'' true, cs ++ rest) := by
  have hword := anyWord_identWord h hrest
  obtain - | ⟨c, cs⟩ := cs
  · cases h
  obtain ⟨hstart, hcontinue⟩ := isIdentWord_cons.1 h
  have hends : EndsWord (cs ++ rest) := .append hcontinue hrest
  have hslash : c ≠ '\\' := by
    rintro rfl
    cases hstart
  -- where a character literal would have its second quote, the word goes on or ends
  have hchar : charEnd .text (c :: cs ++ rest) = none :=
    charEnd_of_head_ne hslash (hends.head_ne (by decide))
  rw [leaf, literalEnd_quote, hchar]
  have hat : atMark ('\'' :: (c :: cs ++ rest)) = true := rfl
  have hquote : rest.head? ≠ some '\'' := hrest.endsWord.head_ne (by decide)
  have hhash : rest.head? ≠ some '#' := hrest.endsWord.head_ne (by decide)
  simp only [punctuation, hat, hword]
  simp [hquote, hhash]

/-! ## Strings -/

/-- Digits of a braced number are taken up to its closing brace. -/
theorem bracedNumber_digits {read digits : List Char} {count : Nat} (r : List Char)
    (hdigits : ∀ c ∈ digits, (Json.hexValue? c).isSome) (hcount : count + digits.length ≤ 6)
    (hpos : 0 < count + digits.length) (hvalid : (hexNumber (read ++ digits)).isValidChar) :
    bracedNumber count (hexNumber read) (digits ++ '}' :: r) =
      some (hexNumber (read ++ digits), r) := by
  induction digits generalizing read count with
  | nil =>
    have hbrace : Json.hexValue? '}' = none := by decide
    have hne : count ≠ 0 := by simpa [Nat.pos_iff_ne_zero] using hpos
    rw [List.append_nil] at hvalid
    simp only [List.nil_append, bracedNumber, hbrace, List.append_nil, decide_eq_true hvalid]
    rw [if_neg hne, if_neg (by decide)]
    rfl
  | cons c digits ih =>
    obtain ⟨hc, hrest⟩ := List.forall_mem_cons.1 hdigits
    obtain ⟨d, hd⟩ := Option.isSome_iff_exists.1 hc
    rw [List.length_cons] at hcount
    have hne : count ≠ 6 := by omega
    rw [List.append_cons read] at hvalid ⊢
    rw [List.cons_append, bracedNumber]
    simp only [hd, if_neg hne, ← hexNumber_append read hd]
    exact ih hrest (by omega) (by omega) hvalid

/-- The number of a character is read in an escape. -/
theorem bracedNumber_hexText (c : Char) (r : List Char) :
    bracedNumber 0 0 (hexText c.toNat ++ '}' :: r) = some (c.toNat, r) := by
  have hvalid : c.toNat.isValidChar := c.valid
  have hlt : c.toNat < 16 ^ 6 := by
    obtain hlow | ⟨-, hhigh⟩ := hvalid <;> omega
  have hlength : (hexText c.toNat).length ≤ 6 :=
    (Nat.length_toDigits_le_iff (by omega) (by omega)).2 hlt
  have hpos : 0 < (hexText c.toNat).length := Nat.length_toDigits_pos
  have hdigits : bracedNumber 0 (hexNumber []) (hexText c.toNat ++ '}' :: r) =
      some (hexNumber ([] ++ hexText c.toNat), r) :=
    bracedNumber_digits r (fun _ => isSome_hexValue?_of_mem_hexText) (by omega) (by omega)
      ((hexNumber_hexText c.toNat).symm ▸ hvalid)
  rwa [List.nil_append, hexNumber_hexText] at hdigits

/-- An escaped character stands in a string. -/
theorem cookedEnd_escapeCodeChar (n : Nat) (c : Char) (next : Option Char) (r : List Char) :
    cookedEnd .text (n + 1) (escapeCodeChar c next ++ r) = cookedEnd .text n r := by
  have hnumber : cookedEnd .text (n + 1) (escapeByNumber c ++ r) = cookedEnd .text n r := by
    have hsplit : escapeByNumber c ++ r =
        '\\' :: 'u' :: '{' :: (hexText c.toNat ++ '}' :: r) := by
      simp [escapeByNumber]
    rw [hsplit]
    simp [cookedEnd, escapeEnd, bracedNumber_hexText]
  -- one case for each character with an escape of its own
  unfold escapeCodeChar
  split
  · split <;> rfl
  split
  · rfl
  split
  · rfl
  split
  · rfl
  split
  · rfl
  split
  · rfl
  split
  · exact hnumber
  split
  · next hreturn _ hquote hslash _ _ =>
    simp [cookedEnd, hreturn, hquote, hslash, StringClass.allows]
  · exact hnumber

/-- An escaped text is taken up to the closing quote. -/
theorem cookedEnd_escapeCodeText {n : Nat} {cs : List Char} (r : List Char)
    (hn : cs.length < n) :
    cookedEnd .text n (escapeCodeText cs ++ '"' :: r) = some (skipSuffix r) := by
  induction cs generalizing n with
  | nil =>
    obtain ⟨n, rfl⟩ := Nat.exists_eq_succ_of_ne_zero (Nat.ne_of_gt hn)
    simp [escapeCodeText, cookedEnd]
  | cons c cs ih =>
    obtain ⟨n, rfl⟩ := Nat.exists_eq_succ_of_ne_zero (Nat.ne_of_gt (Nat.zero_lt_of_lt hn))
    rw [escapeCodeText, List.append_assoc, cookedEnd_escapeCodeChar,
      ih (Nat.lt_of_succ_lt_succ hn)]

theorem leaf_of_string (h : stringEnd (cs ++ rest) = some rest) :
    leaf (cs ++ rest) = some (.literal (String.ofList cs), rest) := by
  have hliteral : literalEnd (cs ++ rest) = some rest := by
    unfold literalEnd
    rw [h]
    rfl
  rw [leaf, hliteral]
  simp only [readUpTo_append]

/-- A quoted text is taken. -/
theorem leaf_quoted (s : String) (hrest : EndsToken rest) :
    leaf ((quoted s).toList ++ rest) = some (.literal (quoted s), rest) := by
  have hlength := length_le_escapeCodeText s.toList
  have hend : stringEnd ((quoted s).toList ++ rest) = some rest := by
    rw [quoted, String.toList_ofList]
    simp only [List.cons_append, List.append_assoc, stringEnd]
    rw [List.nil_append, cookedEnd_escapeCodeText rest (by simp; omega), skipSuffix_of_ends hrest]
  rw [leaf_of_string hend, String.ofList_toList]

/-- Whether the text is a string without escapes that needs no marks. -/
def isRawText (text : String) : Bool :=
  match text.toList with
  | 'r' :: '"' :: cs =>
    cs.getLast? == some '"' && cs.dropLast.all fun c => c != '"' && c != '\r'
  | _ => false

/-- A text without quotes is taken up to the closing quote. -/
theorem rawBodyEnd_plain {body : List Char} (r : List Char)
    (h : ∀ c ∈ body, c ≠ '"' ∧ c ≠ '\r') :
    rawBodyEnd .text 0 (body ++ '"' :: r) = some (skipSuffix r) := by
  induction body with
  | nil => simp [rawBodyEnd]
  | cons c body ih =>
    obtain ⟨⟨hquote, hreturn⟩, hbody⟩ := List.forall_mem_cons.1 h
    simp [rawBodyEnd, hquote, hreturn, StringClass.allows, ih hbody]

/-- A string without escapes is taken. -/
theorem leaf_rawText {text : String} (h : isRawText text) (hrest : EndsToken rest) :
    leaf (text.toList ++ rest) = some (.literal text, rest) := by
  unfold isRawText at h
  split at h
  · next cs htext =>
    obtain ⟨hlast, hbody⟩ := Bool.and_eq_true_iff.1 h
    obtain ⟨body, hsplit⟩ := List.getLast?_eq_some_iff.1 (beq_iff_eq.1 hlast)
    subst hsplit
    simp only [List.dropLast_concat, List.all_eq_true, Bool.and_eq_true, bne_iff_ne] at hbody
    have hend : stringEnd (text.toList ++ rest) = some rest := by
      rw [htext]
      simp [stringEnd, rawEnd, rawBodyEnd_plain rest hbody, skipSuffix_of_ends hrest]
    rw [leaf_of_string hend, String.ofList_toList]
  · cases h

end JsonAdapters.Code
