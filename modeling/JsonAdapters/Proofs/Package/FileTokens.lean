import JsonAdapters.Proofs.Emit.Spelling
import JsonAdapters.Proofs.Package.Mirroring

/-!
# Tokens of the file that holds all adapters

The file is read again. Between its braces stand the tokens of its pieces, in the modules that the
pieces open, and those of the factory. Reading goes through the text piece by piece: a piece that
opens a module leaves a brace open, and one that closes a module closes it.

## Main definitions

* `ScansWords`: texts of pieces that lead from one state of reading to another.
* `nestedTokens`: the tokens of pieces, those of a module between braces.
* `fileTokens`: the tokens of the file.
* `Legible`: all that is written in the file is spelled.

## Main statements

* `scansWords_pieces`: the text of pieces is read as their tokens.
* `tokens?_mirrorFile`: the file is read as its tokens.
* `adaptersFile_mirrors`: the file mirrors the modules of the records.
-/

namespace JsonAdapters

open Code Emit Outcome

/-! ## Texts in a row -/

/-- The texts, one space apart, lead from one state of reading to another. -/
inductive ScansWords : List String → ScanState → ScanState → Prop
  | nil (s : ScanState) : ScansWords [] s s
  | cons {w : String} {ws : List String} {s t u : ScanState} (hw : w ≠ "")
    (h : Scans w.toList s t) (hws : ScansWords ws t u) : ScansWords (w :: ws) s u

namespace ScansWords

variable {w : String} {ws vs : List String} {s t u : ScanState}

/-- Texts in a row, and more of them behind. -/
theorem append (hws : ScansWords ws s t) (hvs : ScansWords vs t u) : ScansWords (ws ++ vs) s u := by
  induction hws with
  | nil => exact hvs
  | cons hw h _ ih => exact .cons hw h (ih hvs)

/-- Where there are texts, there is something written. -/
theorem words_ne (h : ScansWords (w :: ws) s t) : words (w :: ws) ≠ "" := by
  cases h with
  | cons hw _ _ =>
    rw [words_cons, spaced, if_neg hw]
    split
    · exact hw
    · simp

/-- Where nothing is written, nothing is read. -/
theorem eq_of_empty (h : ScansWords ws s t) (hempty : words ws = "") : s = t := by
  cases ws with
  | nil =>
    cases h
    rfl
  | cons w ws => exact absurd hempty h.words_ne

/-- Texts are read one after the other. -/
theorem scans (h : ScansWords ws s t) : Scans (words ws).toList s t := by
  induction h with
  | nil s => exact .nil s
  | @cons w ws s t u hw hscan hws ih =>
    rw [words_cons, spaced, if_neg hw]
    split
    · next hempty => exact hws.eq_of_empty hempty ▸ hscan
    · have htext : (w ++ " " ++ words ws).toList = w.toList ++ ' ' :: (words ws).toList := by simp
      rw [htext]
      exact hscan.append ih

end ScansWords

/-- Words in a block stand between its braces. -/
theorem words_braced (ws vs : List String) :
    words (ws ++ (["\x7b"] ++ vs ++ ["\x7d"])) = words (ws ++ [braced vs]) := by
  rw [words_append, words_append ws [braced vs], words_singleton, braced]

/-- Fixed text in front of modules and imports. -/
def headTexts : List String :=
  ["# [allow (unused_imports , clippy :: all , clippy :: pedantic , clippy :: nursery)]", "pub mod",
    "pub (crate) mod", "pub (crate)"]

/-- Text in front of modules and imports is written as its tokens, so it is read as these. -/
theorem lexes_headText {text : String} (h : text ∈ headTexts) :
    Lexes text.toList (verbatim text) ∧ verbatim text ≠ [] := by
  have hall : ∀ text ∈ headTexts,
      IsSpelled (verbatim text) ∧ (verbatim text).text = text ∧ verbatim text ≠ [] := by
    decide +kernel
  obtain ⟨hspelled, htext, hne⟩ := hall text h
  have hlexes : Lexes (verbatim text).text.toList (verbatim text) := lexes_textOf _ hspelled
  rw [htext] at hlexes
  exact ⟨hlexes, hne⟩

/-! ## Tokens of pieces -/

namespace Piece

/-- Tokens of the piece, but for the brace with which it opens or closes a module. -/
def tokens : Piece → Tokens
  | use u => u.tokens
  | reexport s => verbatim "pub (crate)" ++ s.glob.tokens
  | unit r => r.publicAdapter
  | opens name => verbatim "pub (crate) mod" ++ word name
  | closes => []

/-- Reading on over the piece: `outer` has the tokens in front of each open module, the innermost
first, and `here` those that stand in it. -/
def extend : List Tokens × Tokens → Piece → Option (List Tokens × Tokens)
  | (outer, here), opens name => some ((here ++ (opens name).tokens) :: outer, [])
  | (before :: outer, here), closes => some (outer, before ++ Emit.block here)
  | ([], _), closes => none
  | (outer, here), p => some (outer, here ++ p.tokens)

/-- The import that the piece repeats. -/
def use? : Piece → Option UseItem
  | use u => some u
  | _ => none

/-- What the piece introduces is spelled. -/
def IsSpelled : Piece → Prop
  | use u => Code.IsSpelled u.tokens
  | reexport s => ∀ n ∈ s.path, isIdentifier n
  | unit r => r.IsSpelled
  | opens name => isIdentifier name
  | closes => True

end Piece

/-- The tokens of pieces, those in a module between its braces. -/
def nestedTokens (ps : List Piece) : Option Tokens := do
  let (outer, here) ← ps.foldlM Piece.extend ([], [])
  if outer.isEmpty then some here else none

/-- A piece that leads from one module to another can be read on over. -/
theorem exists_extend_piece {m m' : List String} {p : Piece} {outer : List Tokens} (here : Tokens)
    (h : p.leadsFrom m = some m') (hlength : outer.length = m.length) :
    ∃ outer' here', p.extend (outer, here) = some (outer', here') ∧ outer'.length = m'.length := by
  cases p with
  | use _ | reexport _ | unit _ =>
    obtain rfl : m = m' := Option.some.inj h
    exact ⟨outer, _, rfl, hlength⟩
  | opens name =>
    obtain rfl := Option.some.inj h
    exact ⟨_, _, rfl, by simp [hlength]⟩
  | closes =>
    rw [Piece.leadsFrom] at h
    split at h
    · cases h
    · next hne =>
      obtain rfl := Option.some.inj h
      cases outer with
      | nil => exact absurd (List.eq_nil_of_length_eq_zero hlength.symm) hne
      | cons before outer => exact ⟨outer, _, rfl, by simp [← hlength]⟩

/-- As many modules are open in the tokens as in the names. -/
theorem exists_extend {m m' : List String} {ps : List Piece}
    (h : ps.foldlM Piece.leadsFrom m = some m') {outer : List Tokens} (here : Tokens)
    (hlength : outer.length = m.length) :
    ∃ outer' here', ps.foldlM Piece.extend (outer, here) = some (outer', here') ∧
      outer'.length = m'.length := by
  induction ps generalizing m outer here with
  | nil =>
    obtain rfl : m = m' := Option.some.inj h
    exact ⟨outer, here, rfl, hlength⟩
  | cons p ps ih =>
    rw [List.foldlM_cons] at h
    obtain ⟨m₁, hp, hps⟩ := Option.bind_eq_some_iff.1 h
    obtain ⟨outer₁, here₁, hstep, hlength₁⟩ := exists_extend_piece here hp hlength
    obtain ⟨outer', here', hrun, hlength'⟩ := ih hps here₁ hlength₁
    exact ⟨outer', here', by rw [List.foldlM_cons, hstep]; exact hrun, hlength'⟩

/-- Pieces whose modules are all closed have tokens. -/
theorem exists_nestedTokens {ps : List Piece} (h : Closed [] ps) :
    ∃ here, nestedTokens ps = some here := by
  obtain ⟨outer, here, hrun, hlength⟩ := exists_extend h [] (Eq.refl ([] : List Tokens).length)
  obtain rfl := List.eq_nil_of_length_eq_zero hlength
  exact ⟨here, by simp [nestedTokens, hrun]⟩

/-- Pieces that have tokens leave no module open. -/
theorem foldlM_of_nestedTokens {ps : List Piece} {here : Tokens}
    (h : nestedTokens ps = some here) : ps.foldlM Piece.extend ([], []) = some ([], here) := by
  obtain ⟨⟨outer, inner⟩, hrun, hclosed⟩ := Option.bind_eq_some_iff.1 h
  cases outer with
  | nil =>
    obtain rfl : inner = here := Option.some.inj hclosed
    exact hrun
  | cons _ _ => cases hclosed

/-! ## Reading pieces -/

/-- The path to all that a module declares is read as it is meant. -/
theorem isSpelled_pathTree {names : List String} (h : ∀ n ∈ names, isIdentifier n) :
    Code.IsSpelled (names.foldr UseTree.path .glob).tokens := by
  induction names with
  | nil => decide
  | cons n names ih =>
    obtain ⟨hn, hnames⟩ := List.forall_mem_cons.1 h
    have hsep : Code.IsSpelled pathSep := by decide
    exact (IsSpelled.word hn).append (hsep.append (ih hnames))

/-- The import of all that a module declares is read as it is meant. -/
theorem isSpelled_glob {s : Scope} (h : ∀ n ∈ s.path, isIdentifier n) :
    Code.IsSpelled s.glob.tokens := by
  have hroot : Code.IsSpelled (.ident "use" :: .ident "crate" :: pathSep) := by decide
  have hend : Code.IsSpelled [.punct ';' false] := by decide
  exact (hroot.append (isSpelled_pathTree h)).append hend

/-- The adapter in the file is read as it is meant. -/
theorem isSpelled_publicAdapter {r : RecordPlan} (h : r.IsSpelled) :
    Code.IsSpelled r.publicAdapter := by
  have hvisibility : Code.IsSpelled [.ident "pub"] := by decide
  exact AdapterCode.isSpelled_items (u := ⟨r, [.ident "pub"], []⟩) .nil hvisibility h

theorem publicAdapter_ne_nil (r : RecordPlan) : r.publicAdapter ≠ [] := by
  simp [RecordPlan.publicAdapter, AdapterCode.items, AdapterCode.structureCode]

/-- The state of reading in the modules that are open, within some brackets around all of them. -/
def scanState (around : List (Delimiter × Tokens)) (s : List Tokens × Tokens) : ScanState :=
  (s.1.map (fun before => (.brace, before.reverse)) ++ around, s.2.reverse)

section Reading

variable {around : List (Delimiter × Tokens)} {outer : List Tokens} {here ts : Tokens}
  {text : String} {ws : List String} {t : ScanState}

/-- Tokens are read in the innermost module. -/
theorem scans_lexed (h : Lexes text.toList ts) :
    Scans text.toList (scanState around (outer, here)) (scanState around (outer, here ++ ts)) := by
  have hrun := h (outer.map (fun before => (.brace, before.reverse)) ++ around) here.reverse
  rwa [← List.reverse_append] at hrun

/-- Where tokens are read, something is written. -/
theorem ne_empty_of_lexes (h : Lexes text.toList ts) (hts : ts ≠ []) : text ≠ "" := by
  rintro rfl
  exact h.ne_nil hts rfl

/-- A text that is read as tokens, in front of other texts. -/
theorem ScansWords.lexed (h : Lexes text.toList ts) (hts : ts ≠ [])
    (hws : ScansWords ws (scanState around (outer, here ++ ts)) t) :
    ScansWords (text :: ws) (scanState around (outer, here)) t :=
  .cons (ne_empty_of_lexes h hts) (scans_lexed h) hws

/-- Text in front of modules and imports, in front of other texts. -/
theorem ScansWords.headed (h : text ∈ headTexts)
    (hws : ScansWords ws (scanState around (outer, here ++ verbatim text)) t) :
    ScansWords (text :: ws) (scanState around (outer, here)) t :=
  .lexed (lexes_headText h).1 (lexes_headText h).2 hws

/-- A brace opens a module. -/
theorem scans_brace (around : List (Delimiter × Tokens)) (outer : List Tokens) (here : Tokens) :
    Scans "\x7b".toList (scanState around (outer, here)) (scanState around (here :: outer, [])) :=
  .opening rfl (.nil _)

/-- A brace closes the innermost module. -/
theorem scans_closingBrace (around : List (Delimiter × Tokens)) (outer : List Tokens)
    (before here : Tokens) :
    Scans "\x7d".toList (scanState around (before :: outer, here))
      (scanState around (outer, before ++ Emit.block here)) := by
  have hbrace := Scans.closing (c := '}') rfl (.nil (scanState around (before :: outer, here)))
  simpa [scanState, Emit.block] using hbrace

/-- The text of a piece is read as its tokens, and opens and closes the modules that the piece opens
and closes. -/
theorem scans_piece {p : Piece} {s s' : List Tokens × Tokens} (h : p.IsSpelled)
    (hstep : p.extend s = some s') :
    p.text ≠ "" ∧ Scans p.text.toList (scanState around s) (scanState around s') := by
  obtain ⟨outer, here⟩ := s
  cases p with
  | use u =>
    obtain rfl := Option.some.inj hstep
    have hlexes : Lexes u.tokens.text.toList u.tokens := lexes_textOf _ h
    exact ⟨ne_empty_of_lexes hlexes (by simp [UseItem.tokens]), scans_lexed hlexes⟩
  | reexport s =>
    obtain rfl := Option.some.inj hstep
    have hglob : Lexes s.glob.tokens.text.toList s.glob.tokens :=
      lexes_textOf _ (isSpelled_glob h)
    have hwords : ScansWords ["pub (crate)", s.glob.tokens.text]
        (scanState around (outer, here)) _ :=
      .headed (by simp [headTexts]) (.lexed hglob (by simp [UseItem.tokens]) (.nil _))
    rw [List.append_assoc] at hwords
    exact ⟨hwords.words_ne, hwords.scans⟩
  | unit r =>
    obtain rfl := Option.some.inj hstep
    have hlexes : Lexes r.publicAdapter.text.toList r.publicAdapter :=
      lexes_textOf _ (isSpelled_publicAdapter h)
    exact ⟨ne_empty_of_lexes hlexes (publicAdapter_ne_nil r), scans_lexed hlexes⟩
  | opens name =>
    obtain rfl := Option.some.inj hstep
    have hwords : ScansWords ["pub (crate) mod", name, "\x7b"] (scanState around (outer, here)) _ :=
      .headed (by simp [headTexts]) (.lexed (lexes_ident h) (List.cons_ne_nil _ _)
        (.cons (by decide) (scans_brace around outer _) (.nil _)))
    -- the brace stands behind the name, so that both belong to the tokens in front of the module
    rw [List.append_assoc here] at hwords
    exact ⟨hwords.words_ne, hwords.scans⟩
  | closes =>
    cases outer with
    | nil => cases hstep
    | cons before outer =>
      obtain rfl := Option.some.inj hstep
      exact ⟨by decide, scans_closingBrace around outer before here⟩

/-- The texts of pieces are read as their tokens, if all that they introduce is spelled. -/
theorem scansWords_pieces (around : List (Delimiter × Tokens)) {ps : List Piece}
    {s s' : List Tokens × Tokens}
    (h : ∀ p ∈ ps, p.IsSpelled) (hrun : ps.foldlM Piece.extend s = some s') :
    ScansWords (ps.map (·.text)) (scanState around s) (scanState around s') := by
  induction ps generalizing s with
  | nil =>
    obtain rfl : s = s' := Option.some.inj hrun
    exact .nil _
  | cons p ps ih =>
    obtain ⟨hp, hps⟩ := List.forall_mem_cons.1 h
    rw [List.foldlM_cons] at hrun
    obtain ⟨s₁, hstep, hrest⟩ := Option.bind_eq_some_iff.1 hrun
    obtain ⟨hne, hscan⟩ := scans_piece hp hstep
    exact .cons hne hscan (ih hps hrest)

end Reading

/-! ## The file -/

/-- What stands in front of the braces of the module around all adapters. -/
def fileHead (module : String) : Tokens :=
  verbatim "# [allow (unused_imports , clippy :: all , clippy :: pedantic , clippy :: nursery)]" ++
    verbatim "pub mod" ++ word module

/-- The tokens of the file that has the given ones in its module, in front of the factory. -/
def fileTokens (module : String) (inner : Tokens) (rs : List RecordPlan) : Tokens :=
  fileHead module ++ Emit.block (inner ++ (adaptersFactory rs).code)

/-- All that is written in the file is spelled. -/
structure Legible (module : String) (scopes : Scopes) (rs : List RecordPlan) : Prop where
  nameable : Nameable module scopes rs
  records : ∀ r ∈ rs, r.IsSpelled
  uses : ∀ u ∈ ((AdapterModule.ofRecords rs).pieces scopes []).filterMap Piece.use?,
    Code.IsSpelled u.tokens

section File

variable {module : String} {scopes : Scopes} {rs : List RecordPlan}

/-- What the pieces of the file introduce is spelled. -/
theorem Legible.pieces (h : Legible module scopes rs) :
    ∀ p ∈ (AdapterModule.ofRecords rs).pieces scopes [], p.IsSpelled := by
  have hnamed := (nameable_iff.1 h.nameable).2
  intro p hp
  cases p with
  | use u => exact h.uses u (List.mem_filterMap.2 ⟨_, hp, rfl⟩)
  | unit r => exact h.records r (unit_mem_pieces.1 hp)
  | reexport s => exact hnamed _ hp
  | opens name => exact hnamed _ hp
  | closes => trivial

/-- The factory is read as it is meant. -/
theorem Legible.factory (h : Legible module scopes rs) :
    Code.IsSpelled (adaptersFactory rs).code := by
  have hname : isIdentifier adaptersFactoryName := by decide
  have hcrate : isIdentifier "crate" := by decide
  refine FactoryCode.isSpelled_code hname (List.forall_mem_map.2 fun r hr => ?_)
  refine isSpelled_plainPath false (List.forall_mem_cons.2 ⟨hcrate, ?_⟩)
  exact List.forall_mem_append.2
    ⟨h.nameable.modules r hr, List.forall_mem_singleton.2 (h.records r hr).name⟩

/-- The words in front of the braces lead to the head of the file. -/
theorem scansWords_fileHead (h : isIdentifier module) :
    ScansWords
      ["# [allow (unused_imports , clippy :: all , clippy :: pedantic , clippy :: nursery)]",
        "pub mod", module]
      (scanState [] ([], [])) (scanState [] ([], fileHead module)) :=
  .headed (by simp [headTexts]) (.headed (by simp [headTexts])
    (.lexed (lexes_ident h) (List.cons_ne_nil _ _) (.nil _)))

/-- The words of the file lead to its tokens. -/
theorem scansWords_mirrorFile (h : Legible module scopes rs) {inner : Tokens}
    (hinner : nestedTokens ((AdapterModule.ofRecords rs).pieces scopes []) = some inner) :
    ScansWords
      (["# [allow (unused_imports , clippy :: all , clippy :: pedantic , clippy :: nursery)]",
        "pub mod", module] ++ (["\x7b"] ++
          (((AdapterModule.ofRecords rs).pieces scopes []).map (·.text) ++
            [(adaptersFactory rs).code.text]) ++ ["\x7d"]))
      (scanState [] ([], [])) (scanState [] ([], fileTokens module inner rs)) := by
  have hopening : ScansWords ["\x7b"] (scanState [] ([], fileHead module)) _ :=
    .cons (by decide) (scans_brace [] [] _) (.nil _)
  -- the pieces stand within the braces of the module around them
  have hpieces : ScansWords _ (scanState [] ([fileHead module], []))
      (scanState [] ([fileHead module], inner)) :=
    scansWords_pieces [(.brace, (fileHead module).reverse)] h.pieces
      (foldlM_of_nestedTokens hinner)
  have hfactory : ScansWords [(adaptersFactory rs).code.text] _
      (scanState [] ([fileHead module], inner ++ (adaptersFactory rs).code)) :=
    .lexed (lexes_textOf _ h.factory) (by simp [FactoryCode.code, Emit.word]) (.nil _)
  have hclosing : ScansWords ["\x7d"] _ (scanState [] ([], fileTokens module inner rs)) :=
    .cons (by decide) (scans_closingBrace [] [] (fileHead module) _) (.nil _)
  exact (scansWords_fileHead h.nameable.wrapper).append
    ((hopening.append (hpieces.append hfactory)).append hclosing)

/-- Characters are read alike if they differ in gaps only. -/
theorem scanTokens_of_skipGaps {cs ds : List Char} (h : skipGaps cs = skipGaps ds) (n : Nat)
    (s : ScanState) : scanTokens (n + 1) s.1 s.2 cs = scanTokens (n + 1) s.1 s.2 ds := by
  rw [scanTokens, scanTokens, h]

/-- Behind its first line, the file has the given tokens. -/
theorem tokens?_ofCode {name text : String} {ts : Tokens}
    (hscan : Scans text.toList ([], []) ([], ts.reverse)) (hhead : text.toList.head? = some '#') :
    tokens? (OutputFile.ofCode name text).contents = some ts := by
  obtain ⟨r, hr⟩ : ∃ r, text.toList = '#' :: r := List.head?_eq_some_iff.1 hhead
  have hcontents : (OutputFile.ofCode name text).contents.toList =
      "// @generated by kson-codegen, do not edit\n".toList ++ (text.toList ++ ['\n']) := by
    simp [OutputFile.ofCode]
  -- the first line is a comment, which is skipped with the blank behind it
  have hskip : skipGaps ("// @generated by kson-codegen, do not edit\n".toList ++
      (text.toList ++ ['\n'])) = skipGaps (text.toList ++ ['\n']) := by
    rw [hr]
    rfl
  have hmark : dropOrderMark (OutputFile.ofCode name text).contents.toList =
      (OutputFile.ofCode name text).contents.toList := by
    rw [hcontents]
    rfl
  have hends : EndsToken ['\n'] := by
    rintro c ⟨⟩
    decide
  obtain ⟨m, hm, hrun⟩ := hscan (n := ("// @generated by kson-codegen, do not edit\n".toList ++
      (text.toList ++ ['\n'])).length + 1) hends (by simp)
  obtain ⟨m, rfl⟩ := Nat.exists_eq_succ_of_ne_zero (Nat.ne_of_gt (Nat.zero_lt_of_lt hm))
  have hend : scanTokens (m + 1) [] ts.reverse ['\n'] = some ts := by
    rw [scanTokens_end rfl, List.reverse_reverse]
  rw [tokens?, hmark, hcontents]
  exact (scanTokens_of_skipGaps hskip _ ([], [])).trans (hrun.trans hend)

/-- The file is read as its tokens. -/
theorem tokens?_mirrorFile (h : Legible module scopes rs) :
    ∃ inner, nestedTokens ((AdapterModule.ofRecords rs).pieces scopes []) = some inner ∧
      tokens? (mirrorFile module ((AdapterModule.ofRecords rs).pieces scopes []) rs).contents =
        some (fileTokens module inner rs) := by
  obtain ⟨inner, hinner⟩ := exists_nestedTokens (mirrors_ofRecords scopes rs).closed
  have hwords := scansWords_mirrorFile h hinner
  refine ⟨inner, hinner, tokens?_ofCode ?_ ?_⟩
  · have hscans := hwords.scans
    rw [words_braced] at hscans
    exact hscans
  · rw [words_cons, spaced, if_neg (by decide)]
    split
    · rfl
    · simp

/-- The file that holds all adapters has one module for each start of a path of a record. Each
module holds the adapters of its own records, in their order, whose code says what it is meant to
say. The table of the factory has the paths of all records, in their order. If all that is written
in the file is spelled, the text of the file is read as just these tokens. -/
theorem adaptersFile_mirrors (module : String) (scopes : Scopes) (rs : List RecordPlan) :
    Mirrors rs ((AdapterModule.ofRecords rs).pieces scopes []) ∧
      (∀ r ∈ rs, Contents.ofTokens? r.publicAdapter = some (.ofRecord r)) ∧
      factoryParser.runAll? (adaptersFactory rs).code =
        some (adaptersFactoryName, rs.map (·.crateNames)) ∧
      Gives (adaptersFile module scopes rs) (Nameable module scopes rs)
        (mirrorFile module ((AdapterModule.ofRecords rs).pieces scopes []) rs) ∧
      (Legible module scopes rs →
        ∃ inner, nestedTokens ((AdapterModule.ofRecords rs).pieces scopes []) = some inner ∧
          tokens? (mirrorFile module ((AdapterModule.ofRecords rs).pieces scopes []) rs).contents =
            some (fileTokens module inner rs)) :=
  ⟨mirrors_ofRecords scopes rs, fun _ _ => AdapterCode.ofTokens?_items _,
    factoryParser_adaptersFactory rs, adaptersFile_gives module scopes rs, tokens?_mirrorFile⟩

end File

namespace Samples

/-- A record without fields. -/
def emptyRecord (module : List String) (name : String) : RecordPlan :=
  { name, visibility := [.ident "pub"], module, fields := [], skipped := [], default := none,
    extending := none }

/-- A record with one field, `id: i32`. -/
def taggedRecord (module : List String) (name : String) : RecordPlan :=
  { emptyRecord module name with
    fields := [{ name := "id", key := "id", aliases := [], type := .simple ⟨false, ["i32"]⟩,
                 nullable := false }] }

/-- Records of one name in two modules, one of them in the other, and none in the module around
both. -/
def scattered : List RecordPlan :=
  [emptyRecord ["a", "b"] "User", emptyRecord ["a", "b", "c"] "User", taggedRecord ["a", "b"] "Tag",
    emptyRecord [] "Root"]

/-- Scopes of three modules, one of which holds records and the import `use std::fmt;`. -/
def scatteredScopes : Scopes :=
  [(["a"], { path := ["a"] }), (["z"], { path := ["z"] }),
    (["a", "b"], { path := ["a", "b"], uses := [⟨[], false, .path "std" (.name "fmt")⟩] })]

theorem nameable_scattered : Nameable "kson_generated" scatteredScopes scattered where
  wrapper := by decide
  modules := by decide
  parts := by decide
  scopes := by
    intro path s _ hs
    obtain ⟨front, rest, hscopes, -⟩ := List.lookup_eq_some_iff.1 hs
    have hmem : (path, s) ∈ scatteredScopes := by simp [hscopes]
    have hall : ∀ x ∈ scatteredScopes, ∀ n ∈ x.2.path, isIdentifier n := by decide
    exact hall _ hmem

theorem isSpelled_emptyRecord {module : List String} {name : String} (h : isIdentifier name) :
    (emptyRecord module name).IsSpelled where
  name := h
  fields := nofun
  parts := nofun
  types := nofun
  skipped := nofun
  default := nofun

theorem isSpelled_taggedRecord {module : List String} {name : String} (h : isIdentifier name) :
    (taggedRecord module name).IsSpelled where
  name := h
  fields := List.forall_mem_singleton.2 (by decide)
  parts := List.forall_mem_singleton.2 (by decide)
  types := List.forall_mem_singleton.2
    (List.forall_mem_singleton.2 ⟨List.cons_ne_nil _ _, by decide⟩)
  skipped := nofun
  default := nofun

theorem legible_scattered : Legible "kson_generated" scatteredScopes scattered where
  nameable := nameable_scattered
  records := by
    have huser {module : List String} : (emptyRecord module "User").IsSpelled :=
      isSpelled_emptyRecord (by decide)
    simp only [scattered, List.forall_mem_cons]
    exact ⟨huser, huser, isSpelled_taggedRecord (by decide),
      isSpelled_emptyRecord (by decide), List.forall_mem_nil _⟩
  uses := by decide

theorem adaptersFile_mirrors_scattered :
    Mirrors scattered ((AdapterModule.ofRecords scattered).pieces scatteredScopes []) ∧
      factoryParser.runAll? (adaptersFactory scattered).code = some (adaptersFactoryName,
        [["crate", "a", "b", "User"], ["crate", "a", "b", "c", "User"],
          ["crate", "a", "b", "Tag"], ["crate", "Root"]]) ∧
      adaptersFile "kson_generated" scatteredScopes scattered =
        .ok (mirrorFile "kson_generated"
          ((AdapterModule.ofRecords scattered).pieces scatteredScopes []) scattered) ∧
      ∃ inner, nestedTokens ((AdapterModule.ofRecords scattered).pieces scatteredScopes []) =
          some inner ∧
        tokens? (mirrorFile "kson_generated"
          ((AdapterModule.ofRecords scattered).pieces scatteredScopes []) scattered).contents =
            some (fileTokens "kson_generated" inner scattered) := by
  obtain ⟨hmirrors, -, hfactory, hgives, hread⟩ :=
    adaptersFile_mirrors "kson_generated" scatteredScopes scattered
  exact ⟨hmirrors, hfactory, (hgives _).2 ⟨nameable_scattered, rfl⟩, hread legible_scattered⟩

end Samples

end JsonAdapters
