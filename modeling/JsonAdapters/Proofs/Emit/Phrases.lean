import JsonAdapters.Derive.FieldType
import JsonAdapters.Emit.Fragment
import JsonAdapters.Proofs.Code.Quoting
import JsonAdapters.Proofs.Code.Reads
import Mathlib.Data.List.Basic

/-!
# Phrases

Emitted code is fixed text around names, literals, types and blocks. A parser of such code takes the
fixed text as it stands, and takes the rest apart. What is between angle brackets ends at the
bracket that closes it, since brackets in a type come in pairs.

## Main definitions

* `Code.phrase`, `Code.startsPhrase`, `Code.phraseIf`: fixed text.
* `Code.textLiteral`: the text that a literal stands for.
* `Code.upToClose`: tokens up to the angle bracket that closes them.
* `Code.blocks`: what is between braces.

## Main statements

* `Code.Parser.Reads.phrase`, `Code.Parser.Reads.text`, `Code.Parser.Reads.within`: one fragment of
  emitted code.
* `FieldType.reads_upToClose`: a type between angle brackets.
* `Code.Parser.ReadsRow.flatMap`: fragments in a row.
-/

namespace JsonAdapters.Code

open Emit

/-! ## Sameness of tokens -/

mutual

def TokenTree.same : TokenTree → TokenTree → Bool
  | .ident a, .ident b => a == b
  | .punct c joint, .punct d joint' => c == d && joint == joint'
  | .literal a, .literal b => a == b
  | .group d ts, .group e us => d == e && sameAll ts us
  | _, _ => false

def sameAll : List TokenTree → List TokenTree → Bool
  | [], [] => true
  | t :: ts, u :: us => t.same u && sameAll ts us
  | _, _ => false

end

instance : BEq TokenTree := ⟨TokenTree.same⟩

mutual

/-- A token is the same as itself. -/
theorem TokenTree.same_self : ∀ t : TokenTree, t.same t = true
  | .ident _ | .punct _ _ | .literal _ => by simp [TokenTree.same]
  | .group _ ts => by simp [TokenTree.same, sameAll_self ts]

/-- Tokens are the same as themselves. -/
theorem sameAll_self : ∀ ts : List TokenTree, sameAll ts ts = true
  | [] => rfl
  | t :: ts => by rw [sameAll, t.same_self, sameAll_self ts, Bool.and_self]

end

instance : ReflBEq TokenTree := ⟨fun {t} => t.same_self⟩

/-! ## Parsers of fragments -/

/-- Take tokens that are known. -/
def exactly (expected : Tokens) : Parser Unit := fun s => do
  let rest ← s.ahead.dropPrefix? expected
  return ((), ⟨rest, expected.reverse ++ s.taken⟩)

/-- Take fixed text. -/
def phrase (text : String) : Parser Unit := exactly (verbatim text)

/-- Whether fixed text stands ahead. -/
def startsPhrase (text : String) : Sight := fun ts => (ts.dropPrefix? (verbatim text)).isSome

def phraseIf (text : String) : Parser Bool := do
  if ← sees (startsPhrase text) then phrase text; return true else return false

/-- Take a literal for the text that it stands for. -/
def textLiteral : Parser String := fun s =>
  match s.ahead with
  | .literal t :: r => some (stringValue t, ⟨r, .literal t :: s.taken⟩)
  | _ => none

/-- The tokens in front of the angle bracket that closes what is open, and those behind it. Besides,
`depth` brackets have been opened. -/
def splitClose : Nat → Tokens → Option (Tokens × Tokens)
  | _, [] => none
  | depth, .punct '<' joint :: r => do
    let (inner, rest) ← splitClose (depth + 1) r
    return (.punct '<' joint :: inner, rest)
  | 0, .punct '>' _ :: r => some ([], r)
  | depth + 1, .punct '>' joint :: r => do
    let (inner, rest) ← splitClose depth r
    return (.punct '>' joint :: inner, rest)
  | depth, t :: r => do
    let (inner, rest) ← splitClose depth r
    return (t :: inner, rest)

/-- Take tokens up to the angle bracket that closes them, and that bracket. -/
def upToClose : Parser Tokens := fun s => do
  let (inner, rest) ← splitClose 0 s.ahead
  return (inner, ⟨rest, .punct '>' false :: inner.reverse ++ s.taken⟩)

/-- What is between the braces that stand in no other brackets. -/
def blocks (ts : Tokens) : List Tokens :=
  ts.filterMap fun
    | .group .brace inner => some inner
    | _ => none

/-! ## Other text -/

/-- Whether the tokens differ at a place that both lists have. -/
def differ : Tokens → Tokens → Bool
  | t :: ts, u :: us => !(t == u) || differ ts us
  | _, _ => false

/-- No phrase is found where other tokens stand. -/
theorem dropPrefix?_of_differ {ts expected : Tokens} (h : differ ts expected) (us : Tokens) :
    (ts ++ us).dropPrefix? expected = none := by
  induction ts generalizing expected with
  | nil => cases h
  | cons t ts ih =>
    cases expected with
    | nil => cases h
    | cons u expected =>
      rw [List.cons_append, List.dropPrefix?]
      split
      · next hsame => exact ih (by simpa [differ, hsame] using h)
      · rfl

/-- Where other text stands, a phrase does not. -/
theorem startsPhrase_of_differ {text : String} {ts : Tokens} (h : differ ts (verbatim text))
    (us : Tokens) : startsPhrase text (ts ++ us) = false := by
  rw [startsPhrase, dropPrefix?_of_differ h, Option.isSome_none]

/-- Fixed texts of emitted code, each with another one for which it is not taken. -/
def distinctTexts : List (String × String) :=
  [(":: kson :: LazyAdapter :: new (kson)", ":: kson :: LazyAdapter :: with_token"),
    (":: core :: option :: Option :: Some", "obj ."),
    ("writer . end_object ()", "writer . name"),
    ("reader . next_name () ? ; reader . skip_value () ? ;",
      "let name = reader . next_name () ? ;"),
    (":", "= false ;"),
    (",", ". ok_or_else"),
    ("reader . begin_object () ? ;", "let mut"),
    (":: kson :: TypeToken :: parameterized :: <", "<")]

/-- Where the first of the texts stands, the second does not. -/
theorem startsPhrase_distinct {a b : String} (h : (a, b) ∈ distinctTexts) (us : Tokens) :
    startsPhrase b (verbatim a ++ us) = false := by
  have hall : ∀ p ∈ distinctTexts, differ (verbatim p.1) (verbatim p.2) := by decide +kernel
  exact startsPhrase_of_differ (hall (a, b) h) us

/-- A phrase starts with itself. -/
theorem startsPhrase_verbatim (text : String) (us : Tokens) :
    startsPhrase text (verbatim text ++ us) = true := by
  have hdrop : (verbatim text ++ us).dropPrefix? (verbatim text) = some us :=
    List.dropPrefix?_append_of_beq us (BEq.refl _)
  rw [startsPhrase, hdrop, Option.isSome_some]

/-! ## Fragments -/

namespace Parser.Reads

variable {α : Type} {p : Parser α} {a : α} {ts us : Tokens}

/-- Nothing needs to stand behind what is read last. -/
theorem last (h : p.Reads (ts ++ []) a us) : p.Reads ts a us := by
  rwa [List.append_nil] at h

theorem phrase (text : String) (us : Tokens) :
    (Code.phrase text).Reads (verbatim text ++ us) () us := by
  intro taken
  have hdrop : (verbatim text ++ us).dropPrefix? (verbatim text) = some us :=
    List.dropPrefix?_append_of_beq us (BEq.refl _)
  exact ⟨_, by simp only [Code.phrase, exactly, hdrop]; rfl⟩

/-- An optional phrase that was written is read. -/
theorem phraseIf_true (text : String) (us : Tokens) :
    (phraseIf text).Reads (verbatim text ++ us) true us :=
  (sees _ _).bind (.ite_pos (startsPhrase_verbatim text us)
    ((phrase text us).bind (.pure true us)))

/-- An optional phrase is not read where none starts. -/
theorem phraseIf_false {text : String} (h : startsPhrase text ts = false) :
    (phraseIf text).Reads ts false ts :=
  (sees _ ts).bind (.ite_neg (by simp [h]) (.pure false ts))

/-- A name that was written is read. -/
theorem name (n : String) (us : Tokens) : anyIdent.Reads (Emit.word n ++ us) n us :=
  wordWith rfl us

/-- A text between quotes is read as the text. -/
theorem text (t : String) (us : Tokens) : textLiteral.Reads (Emit.literal t ++ us) t us := by
  intro taken
  refine ⟨.literal (quoted t) :: taken, ?_⟩
  simp only [textLiteral, Emit.literal, List.singleton_append, stringValue_quoted]

/-- A group is read by what reads all that is in it. -/
theorem within {d : Delimiter} (hp : p.Reads ts a []) (us : Tokens) :
    (Code.within d p).Reads (.group d ts :: us) a us := by
  intro taken
  obtain ⟨inner, hp⟩ := hp []
  exact ⟨_, by simp only [Code.within, hp, if_true]; rfl⟩

/-- What stands in parentheses is read. -/
theorem parens (hp : p.Reads ts a []) (us : Tokens) :
    (Code.within .paren p).Reads (Emit.parens ts ++ us) a us :=
  within hp us

/-- A block is read. -/
theorem block (hp : p.Reads ts a []) (us : Tokens) :
    (Code.within .brace p).Reads (Emit.block ts ++ us) a us :=
  within hp us

theorem everything (ts : Tokens) : Code.everything.Reads ts ts [] := fun _ => ⟨_, rfl⟩

end Parser.Reads

/-! ## Fragments in a row -/

section Row

variable {α β : Type} {p : Parser α} {go : Sight} {us : Tokens} {code : β → Tokens} {value : β → α}

/-- Fragments in a row are read one after the other, if what is behind them starts no other one. -/
theorem Parser.ReadsRow.flatMap {bs : List β} (hnil : go [] = false)
    (hgo : ∀ b ∈ bs, ∀ vs, go (code b ++ vs) = true)
    (hp : ∀ b ∈ bs, ∀ vs, p.Reads (code b ++ vs) (value b) vs) (hend : go us = false) :
    ReadsRow go p (bs.flatMap code ++ us) (bs.map value) us := by
  induction bs with
  | nil => exact .stop hend
  | cons b bs ih =>
    obtain ⟨hgo, hgos⟩ := List.forall_mem_cons.1 hgo
    obtain ⟨hp, hps⟩ := List.forall_mem_cons.1 hp
    have hne : code b ≠ [] := fun h => by simpa [h, hnil] using hgo []
    have hlt := List.length_pos_iff.2 hne
    rw [List.flatMap_cons, List.append_assoc]
    exact .next (hgo _) (hp _) (by simp; omega) (ih hgos hps)

/-- The fragments of the values that are read. -/
theorem Parser.Reads.manyWhile {as : List α} {code : α → Tokens} (hnil : go [] = false)
    (hgo : ∀ a ∈ as, ∀ vs, go (code a ++ vs) = true)
    (hp : ∀ a ∈ as, ∀ vs, p.Reads (code a ++ vs) a vs) (hend : go us = false) :
    (Code.manyWhile go p).Reads (as.flatMap code ++ us) as us := by
  have hrow : ReadsRow go p (as.flatMap code ++ us) (as.map id) us := .flatMap hnil hgo hp hend
  rw [List.map_id] at hrow
  exact hrow.manyWhile

/-- Fragments that make up all that is there. -/
theorem Parser.Reads.manyToEnd {bs : List β} (hne : ∀ b ∈ bs, code b ≠ [])
    (hp : ∀ b ∈ bs, ∀ vs, p.Reads (code b ++ vs) (value b) vs) :
    (Code.manyToEnd p).Reads (bs.flatMap code) (bs.map value) [] := by
  have hgo : ∀ b ∈ bs, ∀ vs, (!atEnd (code b ++ vs)) = true := fun b hb vs => by
    obtain ⟨t, ts, hcode⟩ := List.exists_cons_of_ne_nil (hne b hb)
    rw [hcode]
    rfl
  have hrow : ReadsRow (fun ts => !atEnd ts) p (bs.flatMap code ++ []) (bs.map value) [] :=
    .flatMap rfl hgo hp rfl
  rw [List.append_nil] at hrow
  exact hrow.manyWhile

end Row

/-! ## Angle brackets -/

/-- In the tokens, angle brackets come in pairs. -/
def Level (ts : Tokens) : Prop :=
  ∀ depth us, splitClose depth (ts ++ us) =
    (splitClose depth us).map fun (inner, rest) => (ts ++ inner, rest)

namespace Level

variable {ts us : Tokens} {t : TokenTree}

theorem nil : Level [] := fun depth us => by cases h : splitClose depth us <;> simp [h]

/-- Balanced tokens after balanced ones are balanced. -/
theorem append (hts : Level ts) (hus : Level us) : Level (ts ++ us) := by
  intro depth vs
  rw [List.append_assoc, hts, hus, Option.map_map]
  simp [Function.comp_def]

/-- A token that is no angle bracket is balanced. -/
theorem single (ho : ∀ joint, t ≠ .punct '<' joint) (hc : ∀ joint, t ≠ .punct '>' joint) :
    Level [t] := by
  intro depth us
  rw [List.singleton_append, splitClose]
  · cases splitClose depth us <;> rfl
  all_goals grind

theorem ident (n : String) : Level [.ident n] := single nofun nofun

theorem comma : Level [.punct ',' false] := single (by simp) (by simp)

/-- A separator of a path is balanced. -/
theorem pathSep : Level pathSep := by
  have hfirst : Level [.punct ':' true] := single (by simp) (by simp)
  exact hfirst.append (single (by simp) (by simp))

/-- Balanced tokens in angle brackets are balanced. -/
theorem angled (hts : Level ts) : Level (.punct '<' false :: ts ++ [.punct '>' false]) := by
  intro depth us
  have hclose : splitClose (depth + 1) (.punct '>' false :: us) =
      (splitClose depth us).map fun (inner, rest) => (.punct '>' false :: inner, rest) := by
    rw [splitClose]
    cases splitClose depth us <;> rfl
  rw [List.cons_append, List.cons_append, List.append_assoc, splitClose, hts,
    List.singleton_append, hclose]
  cases splitClose depth us <;> simp

/-- Balanced tokens with commas between them are balanced. -/
theorem commaSeparated {tss : List Tokens} (h : ∀ ts ∈ tss, Level ts) :
    Level (commaSeparated tss) := by
  induction tss with
  | nil => exact nil
  | cons ts tss ih =>
    obtain ⟨hts, htss⟩ := List.forall_mem_cons.1 h
    cases tss with
    | nil => exact hts
    | cons ts' tss => exact append hts (append comma (ih htss))

/-- What is between angle brackets ends at the one that closes it. -/
theorem reads (h : Level ts) (joint : Bool) (us : Tokens) :
    upToClose.Reads (ts ++ .punct '>' joint :: us) ts us := by
  intro taken
  have hsplit : splitClose 0 (ts ++ .punct '>' joint :: us) = some (ts, us) := by
    rw [h, splitClose]
    simp
  exact ⟨_, by simp only [upToClose, hsplit]; rfl⟩

end Level

/-- A path of plain names is balanced. -/
theorem level_path {absolute : Bool} (names : List String) :
    Level (Path.mk absolute (names.map .plain)).tokens := by
  have hnames : Level (segmentTokens (names.map .plain)) := by
    induction names with
    | nil => exact .nil
    | cons n names ih =>
      rw [List.map_cons, segmentTokens, Segment.tokens]
      refine ((Level.ident n).append ?_).append ih
      split
      · exact .nil
      · exact .pathSep
  rw [Path.tokens]
  refine Level.append ?_ hnames
  cases absolute
  · exact .nil
  · exact .pathSep

end JsonAdapters.Code

namespace JsonAdapters.FieldType

open Code

mutual

/-- A field type opens and closes its angle brackets. -/
theorem level : ∀ t : FieldType, Level t.tokens
  | simple n => level_path n.segments
  | applied n as => by
    rw [tokens, List.append_assoc]
    exact (level_path n.segments).append (Level.angled (.commaSeparated (levels as)))

/-- Arguments of a type are balanced. -/
theorem levels : ∀ as : List FieldType, ∀ ts ∈ tokensOf as, Level ts
  | [] => List.forall_mem_nil _
  | a :: as => List.forall_mem_cons.2 ⟨a.level, levels as⟩

end

/-- The tokens of a type are read up to the bracket that closes it. -/
theorem reads_upToClose (t : FieldType) (joint : Bool) (us : Tokens) :
    upToClose.Reads (t.tokens ++ .punct '>' joint :: us) t.tokens us :=
  t.level.reads joint us

end JsonAdapters.FieldType
