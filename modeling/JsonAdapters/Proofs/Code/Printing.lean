import JsonAdapters.Proofs.Code.Lexing

/-!
# Written tokens are read again

The written form of tokens is read as these tokens if each of them has a form of its own: names are
identifiers, strings are quoted, and marks are joined to marks only. Reading goes through the
written form with any brackets open around it.

## Main definitions

* `Code.TokenTree.isSpelled`, `Code.IsSpelled`: tokens that their written form stands for.
* `Code.Scans`, `Code.Lexes`: characters that are read, whatever brackets are open around them.

## Main statements

* `Code.lexes_textOf`: the written form of tokens is read as these, within any brackets.
* `Code.tokens?_text`: a text of tokens has these tokens.
-/

namespace JsonAdapters.Code

/-! ## Tokens with a written form -/

/-- Whether the token may stand in front of the others: one that is joined to its successor has one,
and the quote of a lifetime has a name. -/
def TokenTree.isFollowed : TokenTree → List TokenTree → Bool
  | .punct c true, .punct _ _ :: _ => c ≠ '\''
  | .punct c true, .ident n :: _ => c = '\'' && isIdentWord n.toList
  | .punct _ true, _ => false
  | .punct c false, _ => c ≠ '\''
  | _, _ => true

mutual

/-- Whether the written form of the token stands for it, but for being joined. -/
def TokenTree.isSpelled : TokenTree → Bool
  | .ident n => isIdentifier n
  | .punct c _ => c ∈ safeMarks
  | .literal t => isRawText t || t == quoted (stringValue t)
  | .group _ ts => areSpelled ts

/-- Whether the written form of the tokens stands for them. -/
def areSpelled : List TokenTree → Bool
  | [] => true
  | t :: ts => t.isSpelled && t.isFollowed ts && areSpelled ts

end

/-- What a token may be followed by is seen from the next token. -/
theorem TokenTree.isFollowed_cons (t u : TokenTree) (ts us : List TokenTree) :
    t.isFollowed (u :: ts) = t.isFollowed (u :: us) := by
  cases t with
  | punct c joint => cases joint <;> cases u <;> rfl
  | _ => rfl

/-- A token that is not joined may be the last. -/
theorem TokenTree.isFollowed_nil {t : TokenTree} {ts : List TokenTree} (hjoint : t.isJoint = false)
    (h : t.isFollowed ts) : t.isFollowed [] := by
  match t with
  | .punct _ false => exact h
  | .ident _ | .literal _ | .group _ _ => rfl

/-- The written form of the tokens stands for them. -/
def IsSpelled (ts : Tokens) : Prop := areSpelled ts

instance (ts : Tokens) : Decidable (IsSpelled ts) := inferInstanceAs (Decidable (_ = true))

namespace IsSpelled

variable {t : TokenTree} {ts us : Tokens}

theorem nil : IsSpelled [] := rfl

theorem ident {name : String} (h : isIdentifier name) : IsSpelled [.ident name] := by
  simp [IsSpelled, areSpelled, TokenTree.isSpelled, TokenTree.isFollowed, h]

/-- Brackets around what is spelled. -/
theorem group (d : Delimiter) (h : IsSpelled ts) : IsSpelled [.group d ts] := by
  have hts : areSpelled ts = true := h
  simp [IsSpelled, areSpelled, TokenTree.isSpelled, TokenTree.isFollowed, hts]

theorem isSpelled_cons :
    IsSpelled (t :: ts) ↔ t.isSpelled ∧ t.isFollowed ts ∧ IsSpelled ts := by
  simp [IsSpelled, areSpelled, and_assoc]

/-- Spelled tokens in a row are spelled: none of them is joined to what follows all of them. -/
theorem append (hts : IsSpelled ts) (hus : IsSpelled us) : IsSpelled (ts ++ us) := by
  induction ts with
  | nil => exact hus
  | cons t ts ih =>
    obtain ⟨ht, hfollowed, hts⟩ := isSpelled_cons.1 hts
    refine isSpelled_cons.2 ⟨ht, ?_, ih hts⟩
    cases ts with
    | nil =>
      match t with
      | .punct _ false => exact hfollowed
      | .ident _ | .literal _ | .group _ _ => rfl
    | cons u ts => exact (t.isFollowed_cons u ts _).symm.trans hfollowed

end IsSpelled

/-! ## Steps -/

section Steps

variable {c : Char} {cs ds rest : List Char} {n : Nat} {outer : List (Delimiter × Tokens)}
  {read : Tokens} {t : TokenTree} {ts us : Tokens}

/-- What is no gap is not skipped. -/
theorem skipGaps_cons (hgap : isGapChar c = false) (hslash : c ≠ '/') :
    skipGaps (c :: cs) = c :: cs := by
  simp [skipGaps, skipGapsWithin, startsLineComment, startsBlockComment, hgap, hslash.symm]

/-- Documentation starts with a slash. -/
theorem docComment_cons (hslash : c ≠ '/') : docComment (c :: cs) = none := by
  unfold docComment
  split <;> simp_all

/-- Spaces are skipped. -/
theorem scanTokens_blank : scanTokens n outer read (' ' :: cs) = scanTokens n outer read cs := by
  cases n with
  | zero => rfl
  | succ n =>
    have hskip : skipGaps (' ' :: cs) = skipGaps cs := by
      rw [skipGaps, List.length_cons, skipGapsWithin]
      rfl
    rw [scanTokens, scanTokens, hskip]

/-- Reading ends where only gaps are left, and all brackets are closed. -/
theorem scanTokens_end (h : skipGaps cs = []) :
    scanTokens (n + 1) [] read cs = some read.reverse := by
  rw [scanTokens, h]
  rfl

/-- One token is read that is no group. -/
theorem scanTokens_leaf (hc : StartsLeaf c) (hleaf : leaf (c :: cs) = some (t, rest)) :
    scanTokens (n + 1) outer read (c :: cs) = scanTokens n outer (t :: read) rest := by
  rw [scanTokens, skipGaps_cons hc.notGap hc.notSlash, docComment_cons hc.notSlash]
  simp only [hc.notOpening, hc.notClosing, hleaf]

/-- A group is opened. -/
theorem scanTokens_opening {d : Delimiter} (hc : opening? c = some d) :
    scanTokens (n + 1) outer read (c :: cs) = scanTokens n ((d, read) :: outer) [] cs := by
  have hstart : isGapChar c = false ∧ c ≠ '/' := by
    unfold opening? at hc
    split at hc <;> first | decide | cases hc
  rw [scanTokens, skipGaps_cons hstart.1 hstart.2, docComment_cons hstart.2]
  simp only [hc]

/-- A token may end in front of a closing bracket. -/
theorem mem_tokenEnds_of_closing {d : Delimiter} (hc : closing? c = some d) : c ∈ tokenEnds := by
  unfold closing? at hc
  split at hc <;> first | decide | cases hc

/-- The innermost group is closed. -/
theorem scanTokens_closing {d : Delimiter} {before : Tokens} (hc : closing? c = some d) :
    scanTokens (n + 1) ((d, before) :: outer) read (c :: cs) =
      scanTokens n outer (.group d read.reverse :: before) cs := by
  have hstart : isGapChar c = false ∧ c ≠ '/' ∧ opening? c = none := by
    unfold closing? at hc
    split at hc <;> first | decide | cases hc
  rw [scanTokens, skipGaps_cons hstart.1 hstart.2.1, docComment_cons hstart.2.1]
  simp only [hstart.2.2, hc, if_true]

end Steps

/-! ## Reading through written forms -/

/-- The open brackets, each with the tokens in front of it, and the tokens behind the innermost one,
the last first. -/
abbrev ScanState := List (Delimiter × Tokens) × Tokens

/-- The characters lead from one state to another, whatever ends a token behind them. More steps are
left than characters. -/
def Scans (cs : List Char) (s t : ScanState) : Prop :=
  ∀ ⦃n : Nat⦄ ⦃rest : List Char⦄, EndsToken rest → (cs ++ rest).length < n →
    ∃ m, rest.length < m ∧ scanTokens n s.1 s.2 (cs ++ rest) = scanTokens m t.1 t.2 rest

/-- The characters are read as the tokens, whatever brackets are open. -/
def Lexes (cs : List Char) (ts : Tokens) : Prop :=
  ∀ outer read, Scans cs (outer, read) (outer, ts.reverse ++ read)

namespace Scans

variable {c d : Char} {cs ds : List Char} {s t u : ScanState} {outer : List (Delimiter × Tokens)}
  {read before : Tokens} {δ : Delimiter}

/-- No characters lead nowhere. -/
theorem nil (s : ScanState) : Scans [] s s := fun _ _ _ hn => ⟨_, hn, rfl⟩

/-- A space between characters is skipped. -/
theorem append (hcs : Scans cs s t) (hds : Scans ds t u) : Scans (cs ++ ' ' :: ds) s u := by
  intro n rest hrest hn
  rw [List.append_assoc, List.cons_append] at hn ⊢
  obtain ⟨m, hm, hfirst⟩ := hcs (endsToken_space _) hn
  obtain ⟨k, hk, hsecond⟩ := hds hrest (Nat.lt_of_succ_lt hm)
  exact ⟨k, hk, by rw [hfirst, scanTokens_blank, hsecond]⟩

/-- A bracket opens a group. -/
theorem opening (hc : opening? c = some δ) (hcs : Scans cs ((δ, read) :: outer, []) s) :
    Scans (c :: cs) (outer, read) s := by
  intro n rest hrest hn
  obtain ⟨n, rfl⟩ := Nat.exists_eq_succ_of_ne_zero (Nat.ne_of_gt (Nat.zero_lt_of_lt hn))
  rw [List.cons_append] at hn ⊢
  obtain ⟨m, hm, hrun⟩ := hcs hrest (Nat.lt_of_succ_lt_succ hn)
  exact ⟨m, hm, by rw [scanTokens_opening hc, hrun]⟩

/-- A bracket closes the group that was opened last. -/
theorem closing (hc : closing? c = some δ) (hcs : Scans cs s ((δ, before) :: outer, read)) :
    Scans (cs ++ [c]) s (outer, .group δ read.reverse :: before) := by
  intro n rest hrest hn
  rw [List.append_assoc, List.singleton_append] at hn ⊢
  have hends : EndsToken (c :: rest) := fun d hd =>
    Option.some.inj hd ▸ mem_tokenEnds_of_closing hc
  obtain ⟨m, hm, hrun⟩ := hcs hends hn
  obtain ⟨m, rfl⟩ := Nat.exists_eq_succ_of_ne_zero (Nat.ne_of_gt (Nat.zero_lt_of_lt hm))
  exact ⟨m, Nat.lt_of_succ_lt_succ hm, by rw [hrun, scanTokens_closing hc]⟩

end Scans

namespace Lexes

variable {c : Char} {cs ds : List Char} {t : TokenTree} {ts us : Tokens}

theorem nil : Lexes [] [] := fun _ _ => .nil _

/-- Tokens with a space between them. -/
theorem append (hcs : Lexes cs ts) (hds : Lexes ds us) : Lexes (cs ++ ' ' :: ds) (ts ++ us) := by
  intro outer read
  rw [List.reverse_append, List.append_assoc]
  exact (hcs outer read).append (hds outer _)

/-- Where tokens are read, there are characters. -/
theorem ne_nil (hcs : Lexes cs ts) (hts : ts ≠ []) : cs ≠ [] := by
  rintro rfl
  obtain ⟨m, hm, hrun⟩ := hcs [] [] endsToken_nil Nat.zero_lt_one
  obtain ⟨m, rfl⟩ := Nat.exists_eq_succ_of_ne_zero (Nat.ne_of_gt hm)
  rw [List.append_nil, scanTokens_end rfl, scanTokens_end rfl] at hrun
  exact hts (by simpa using hrun.symm)

/-- A token without a space behind it. -/
theorem cons (hc : StartsLeaf c)
    (hleaf : ∀ {rest}, EndsToken rest → leaf (c :: (cs ++ (ds ++ rest))) = some (t, ds ++ rest))
    (hds : Lexes ds us) : Lexes (c :: (cs ++ ds)) (t :: us) := by
  intro outer read n rest hrest hn
  obtain ⟨n, rfl⟩ := Nat.exists_eq_succ_of_ne_zero (Nat.ne_of_gt (Nat.zero_lt_of_lt hn))
  simp only [List.cons_append, List.append_assoc, List.length_cons, List.length_append] at hn ⊢
  obtain ⟨m, hm, hrun⟩ := hds outer (t :: read) (n := n) hrest (by simp; omega)
  refine ⟨m, hm, ?_⟩
  rw [scanTokens_leaf hc (hleaf hrest), hrun, List.reverse_cons, List.append_assoc]
  rfl

/-- A token of one character without a space behind it. -/
theorem single (hc : StartsLeaf c)
    (hleaf : ∀ {rest}, EndsToken rest → Code.leaf (c :: (ds ++ rest)) = some (t, ds ++ rest))
    (hds : Lexes ds us) : Lexes (c :: ds) (t :: us) := by
  have hrun : Lexes (c :: ([] ++ ds)) (t :: us) := cons hc hleaf hds
  exact hrun

/-- The last token. -/
theorem leaf (hc : StartsLeaf c)
    (hleaf : ∀ {rest}, EndsToken rest → Code.leaf (c :: cs ++ rest) = some (t, rest)) :
    Lexes (c :: cs) [t] := by
  have hrun : Lexes (c :: (cs ++ [])) [t] := cons hc hleaf nil
  rwa [List.append_nil] at hrun

/-- Tokens between brackets. -/
theorem group {d : Delimiter} {o e : Char} (ho : opening? o = some d) (he : closing? e = some d)
    (hcs : Lexes cs ts) : Lexes (o :: (cs ++ [e])) [.group d ts] := by
  intro outer read
  have hrun := Scans.closing he (.opening ho (hcs ((d, read) :: outer) []))
  rwa [List.append_nil, List.reverse_reverse] at hrun

/-- A blank in front of tokens, and one behind them. -/
theorem padded (hcs : Lexes cs ts) : Lexes (' ' :: (cs ++ [' '])) ts := by
  have hrun := nil.append (hcs.append nil)
  rwa [List.append_nil, List.nil_append] at hrun

end Lexes

/-! ## Written forms -/

variable {t : TokenTree} {ts : Tokens}

/-- An identifier starts with a character of words. -/
theorem head_identifier {name : String} (h : isIdentifier name) :
    ∃ c cs, name.toList = c :: cs ∧ isIdentStart c := by
  unfold isIdentifier at h
  split at h
  · next cs hname => exact ⟨'r', _, hname, by decide⟩
  · cases hname : name.toList with
    | nil => simp [hname, isIdentWord] at h
    | cons c cs => exact ⟨c, cs, rfl, (isIdentWord_cons.1 (hname ▸ h)).1⟩

/-- A string starts with a quote or a letter. -/
theorem head_literal {text : String} (h : isRawText text || text == quoted (stringValue text)) :
    ∃ c cs, text.toList = c :: cs ∧ c ∈ ['r', '"'] := by
  obtain hraw | hquoted := Bool.or_eq_true_iff.1 h
  · unfold isRawText at hraw
    split at hraw
    · next htext => exact ⟨'r', _, htext, by decide⟩
    · cases hraw
  · have htext := congrArg String.toList (beq_iff_eq.1 hquoted)
    exact ⟨'"', _, htext.trans String.toList_ofList, by decide⟩

/-- An identifier is read as a word. -/
theorem lexes_ident {name : String} (h : isIdentifier name) : Lexes name.toList [.ident name] := by
  have hleaf {rest : List Char} (hrest : EndsToken rest) := leaf_identifier h hrest
  obtain ⟨c, cs, hname, hc⟩ := head_identifier h
  rw [hname] at hleaf ⊢
  exact .leaf (.ofIdentStart hc) hleaf

/-- A string is read as a literal. -/
theorem lexes_literal {text : String} (h : isRawText text || text == quoted (stringValue text)) :
    Lexes text.toList [.literal text] := by
  have hleaf {rest : List Char} (hrest : EndsToken rest) :
      leaf (text.toList ++ rest) = some (.literal text, rest) := by
    obtain hraw | hquoted := Bool.or_eq_true_iff.1 h
    · exact leaf_rawText hraw hrest
    · rw [beq_iff_eq.1 hquoted]
      exact leaf_quoted _ hrest
  obtain ⟨c, cs, htext, hc⟩ := head_literal h
  have hstart : StartsLeaf c := by
    obtain rfl | rfl : c = 'r' ∨ c = '"' := by simpa using hc
    · exact .ofIdentStart (by decide)
    · exact .ofMark '"' List.mem_cons_self
  rw [htext] at hleaf ⊢
  exact .leaf hstart hleaf

/-- A mark is read as one that is not joined, unless another follows. -/
theorem lexes_mark {c : Char} (h : c ∈ safeMarks) (hquote : c ≠ '\'') :
    Lexes [c] [.punct c false] := by
  refine .leaf (.ofMark c (List.mem_cons_of_mem _ h)) fun hrest => ?_
  rw [List.cons_append, List.nil_append, leaf_mark h hquote, atMark_of_ends hrest]

/-- A mark is joined to the mark behind it. -/
theorem lexes_joined {c d : Char} {cs : List Char} (h : c ∈ safeMarks) (hquote : c ≠ '\'')
    (hd : d ∈ safeMarks) (hcs : Lexes (d :: cs) ts) :
    Lexes (c :: d :: cs) (.punct c true :: ts) := by
  have hc : StartsLeaf c := .ofMark c (List.mem_cons_of_mem _ h)
  refine .single hc (fun _ => ?_) hcs
  rw [leaf_mark h hquote, List.cons_append, atMark_of_mem hd]

/-- The quote of a lifetime is joined to the name behind it. -/
theorem lexes_lifetime (name : List Char) {cs : List Char} (hname : isIdentWord name)
    (hends : ∀ {rest}, EndsToken rest → EndsToken (cs ++ rest)) (hcs : Lexes (name ++ cs) ts) :
    Lexes ('\'' :: (name ++ cs)) (.punct '\'' true :: ts) := by
  refine .single (.ofMark '\'' (by decide)) (fun hrest => ?_) hcs
  have hleaf := leaf_lifetime hname (hends hrest)
  rwa [← List.append_assoc] at hleaf

theorem textOf_cons (t : TokenTree) (ts : Tokens) :
    (textOf (t :: ts)).toList =
      t.text.toList ++ if ts.isEmpty || t.isJoint then (textOf ts).toList
        else ' ' :: (textOf ts).toList := by
  rw [textOf]
  split <;> simp

/-- Tokens between brackets are read as a group. -/
theorem lexes_group (d : Delimiter) {inner : List TokenTree}
    (h : Lexes (textOf inner).toList inner) :
    Lexes (TokenTree.group d inner).text.toList [.group d inner] := by
  cases d with
  | paren => simpa [TokenTree.text] using Lexes.group (o := '(') (e := ')') rfl rfl h
  | bracket => simpa [TokenTree.text] using Lexes.group (o := '[') (e := ']') rfl rfl h
  -- braces have a space on the inside of each, and but one if there is nothing between them
  | brace =>
    have hspaced := Lexes.nil.append h
    cases inner with
    | nil => simpa [TokenTree.text] using Lexes.group (o := '{') (e := '}') rfl rfl hspaced
    | cons t ts => simpa [TokenTree.text] using Lexes.group (o := '{') (e := '}') rfl rfl h.padded

/-- A joined mark goes on in the token behind it. -/
theorem lexes_cons_joint (hjoint : t.isJoint) (ht : t.isSpelled) (hfollowed : t.isFollowed ts)
    (hts : areSpelled ts) (h : Lexes (textOf ts).toList ts) :
    Lexes (textOf (t :: ts)).toList (t :: ts) := by
  have htext : (textOf (t :: ts)).toList = t.text.toList ++ (textOf ts).toList := by
    simp [textOf_cons, hjoint]
  rw [htext]
  match t, ts with
  | .punct c true, .punct d joint :: us =>
    have hc : c ∈ safeMarks := of_decide_eq_true ht
    have hd : d ∈ safeMarks := by
      simp only [areSpelled, TokenTree.isSpelled, Bool.and_eq_true, decide_eq_true_eq] at hts
      exact hts.1.1
    simp only [textOf_cons, TokenTree.text, Char.toString, String.toList_singleton] at h ⊢
    exact lexes_joined hc (of_decide_eq_true hfollowed) hd h
  -- only the quote of a lifetime is joined to a name
  | .punct c true, .ident n :: us =>
    obtain ⟨hquote, hn⟩ := Bool.and_eq_true_iff.1 hfollowed
    obtain rfl : c = '\'' := of_decide_eq_true hquote
    simp only [textOf_cons, TokenTree.text, Char.toString, String.toList_singleton] at h ⊢
    refine lexes_lifetime n.toList hn (fun {rest} hrest => ?_) h
    cases us with
    | nil => exact hrest
    | cons u us => exact endsToken_space _

/-- A token that is not joined has a space behind it, unless it is the last. -/
theorem lexes_cons_apart (hjoint : t.isJoint = false) (ht : Lexes t.text.toList [t])
    (h : Lexes (textOf ts).toList ts) : Lexes (textOf (t :: ts)).toList (t :: ts) := by
  rw [textOf_cons, hjoint]
  cases ts with
  | nil => simpa [textOf] using ht
  | cons u us => exact ht.append h

mutual

/-- The written form of a token is read as the token. -/
theorem TokenTree.lexes_text : ∀ t : TokenTree, t.isSpelled → t.isJoint = false →
    t.isFollowed [] → Lexes t.text.toList [t]
  | .ident n, h, _, _ => lexes_ident h
  | .punct c false, h, _, hquote => by
    have hmark := lexes_mark (of_decide_eq_true h) (of_decide_eq_true hquote)
    simpa [TokenTree.text] using hmark
  | .literal t, h, _, _ => lexes_literal h
  | .group d inner, h, _, _ => lexes_group d (lexes_textOf inner h)

/-- The written form of tokens is read as these. -/
theorem lexes_textOf : ∀ ts : List TokenTree, areSpelled ts → Lexes (textOf ts).toList ts
  | [], _ => .nil
  | t :: ts, h => by
    simp only [areSpelled, Bool.and_eq_true] at h
    obtain ⟨⟨ht, hfollowed⟩, hts⟩ := h
    have hrest := lexes_textOf ts hts
    cases hjoint : t.isJoint with
    | true => exact lexes_cons_joint hjoint ht hfollowed hts hrest
    | false =>
      have hlast := TokenTree.isFollowed_nil hjoint hfollowed
      exact lexes_cons_apart hjoint (t.lexes_text ht hjoint hlast) hrest

end

/-- No token starts with a mark of byte order. -/
theorem TokenTree.head_text (h : t.isSpelled) :
    ∃ c cs, t.text.toList = c :: cs ∧ c.toNat ≠ 0xfeff := by
  match t with
  | .ident n =>
    obtain ⟨c, cs, hname, hc⟩ := head_identifier h
    refine ⟨c, cs, hname, fun hmark => ?_⟩
    have hstart : isIdentStart (Char.ofNat 0xfeff) = false := by decide +kernel
    rw [← hmark, Char.ofNat_toNat, hc] at hstart
    cases hstart
  | .punct c _ =>
    have hmarks : ∀ c ∈ safeMarks, c.toNat ≠ 0xfeff := List.all_iff_forall_prop.1 (by decide)
    exact ⟨c, [], by simp [TokenTree.text], hmarks c (of_decide_eq_true h)⟩
  | .literal t =>
    have hstarts : ∀ c ∈ ['r', '"'], c.toNat ≠ 0xfeff := List.all_iff_forall_prop.1 (by decide)
    obtain ⟨c, cs, htext, hc⟩ := head_literal h
    exact ⟨c, cs, htext, hstarts c hc⟩
  | .group d _ => cases d <;> simp [TokenTree.text]

/-- No text of tokens starts with a mark of byte order. -/
theorem dropOrderMark_textOf (h : areSpelled ts) :
    dropOrderMark (textOf ts).toList = (textOf ts).toList := by
  cases ts with
  | nil => rfl
  | cons t ts =>
    simp only [areSpelled, Bool.and_eq_true] at h
    obtain ⟨c, cs, htext, hc⟩ := t.head_text h.1.1
    rw [textOf_cons, htext, List.cons_append, dropOrderMark, if_neg hc]

/-- A text of tokens has these tokens. -/
theorem tokens?_text (h : IsSpelled ts) : tokens? ts.text = some ts := by
  obtain ⟨m, hm, hrun⟩ := lexes_textOf ts h [] [] endsToken_nil (Nat.lt_succ_self _)
  rw [List.append_nil] at hrun
  obtain ⟨m, rfl⟩ := Nat.exists_eq_succ_of_ne_zero (Nat.ne_of_gt (Nat.zero_lt_of_lt hm))
  rw [tokens?, Tokens.text, dropOrderMark_textOf h, hrun, scanTokens_end rfl]
  simp

end JsonAdapters.Code
