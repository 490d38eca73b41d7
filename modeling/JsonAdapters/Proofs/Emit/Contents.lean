import JsonAdapters.Emit.Adapter
import JsonAdapters.Proofs.Emit.Phrases

/-!
# Contents of emitted adapters

The code of an adapter is read again: which parts are declared and how they are made, what is
written, and what is read into which variable. Each parser takes one form of code, and what it reads
is what the code was emitted for.

Visibility and attributes are not read. They stand in front of the items, whose contents are the
last four blocks of the code.

## Main definitions

* `Emit.Contents`, `Emit.Contents.ofTokens?`: what the code of an adapter says.
* `Emit.Contents.ofRecord`: what the code of a record's adapter is meant to say.

## Main statements

* `Emit.WriteStep.reads_code`, `Emit.ReadArm.reads_code`, `Emit.reads_memberCode`: one form of code.
* `Emit.reads_writeBody`, `Emit.reads_readBody`: the routines.
* `Emit.AdapterCode.ofTokens?_items`: the code of an adapter says what it is meant to say.
-/

namespace JsonAdapters.Emit

open Code

/-! ## Parsers -/

/-- The name of a part, and the type of the values that it serves. -/
def declarationParser : Parser (String × Tokens) := do
  let name ← anyIdent
  phrase ": :: kson :: LazyAdapter <"
  return (name, ← upToClose)

/-- The name of a part, and the expression of the token with which it is made, if there is one. -/
def initialParser : Parser (String × Option Tokens) := do
  let name ← anyIdent
  phrase ":"
  if ← phraseIf ":: kson :: LazyAdapter :: with_token" then
    let token ← within .paren (do phrase "kson ,"; everything)
    return (name, some token)
  else
    phrase ":: kson :: LazyAdapter :: new (kson)"
    return (name, none)

/-- What a parser reads, and a comma. -/
def entry {α : Type} (p : Parser α) : Parser α := do
  let a ← p
  phrase ","
  return a

def constructorParser : Parser (List (String × Option Tokens)) := do
  phrase "# [must_use] pub fn new"
  let _ ← within .paren everything
  phrase "-> Self"
  within .brace (do phrase "Self"; within .brace (manyToEnd (entry initialParser)))

/-- The field that is written, and whether it may be absent. -/
def valueParser : Parser (String × Bool) := do
  if ← phraseIf "obj ." then
    let field ← anyIdent
    phrase ". as_ref ()"
    return (field, true)
  else
    phrase ":: core :: option :: Option :: Some"
    let field ← within .paren (do phrase "& obj ."; anyIdent)
    return (field, false)

def writeStepParser : Parser WriteStep := do
  phrase "writer . name"
  let key ← within .paren textLiteral
  phrase "? ; self ."
  let part ← anyIdent
  phrase ". get () ? . write"
  let (field, nullable) ← within .paren (do phrase "writer ,"; valueParser)
  phrase "? ;"
  return ⟨key, part, field, nullable⟩

def writeBodyParser : Parser (List WriteStep) := do
  phrase "let"
  phrase ":: core :: option :: Option :: Some"
  let _ ← within .paren anyIdent
  phrase "= obj else { return writer . null_value () ; } ; writer . begin_object () ? ;"
  let steps ← manyWhile (startsPhrase "writer . name") writeStepParser
  phrase "writer . end_object ()"
  return steps

/-- The variable that takes a value, the part that reads it, and the variable that notes its
presence. -/
def armBodyParser : Parser (String × String × Option String) := do
  let slot ← anyIdent
  phrase "= self ."
  let part ← anyIdent
  phrase ". get () ? . read (reader) ? ;"
  if ← sees startsAnyWord then
    let assigned ← anyIdent
    phrase "= true ;"
    return (slot, part, some assigned)
  else return (slot, part, none)

def readArmParser : Parser ReadArm := do
  let key ← textLiteral
  let others ← manyWhile (startsMark "|") (do mark "|"; textLiteral)
  phrase "=>"
  let (slot, part, assigned) ← within .brace armBodyParser
  return ⟨key :: others, part, slot, assigned⟩

def nullGuardParser (onNull : Parser Unit) : Parser Unit := do
  phrase "if reader . peek () ? == :: kson :: ValueKind :: Null"
  within .brace (do phrase "reader . next_null () ? ;"; onNull)

def memberLoopParser : Parser (List ReadArm) := do
  phrase "while reader . has_next () ?"
  within .brace do
    if ← phraseIf "let name = reader . next_name () ? ;" then
      nullGuardParser (phrase "continue ;")
      phrase "match name . as_str ()"
      within .brace do
        let arms ← manyWhile startsLiteral readArmParser
        phrase "_ => reader . skip_value () ? ,"
        return arms
    else
      phrase "reader . next_name () ? ; reader . skip_value () ? ;"
      return []

/-- A variable of a routine, and the type of its value if it is one of a field. -/
def localParser : Parser (String × Option Tokens) := do
  phrase "let mut"
  let name ← anyIdent
  if ← phraseIf "= false ;" then return (name, none)
  else
    phrase ":"
    phrase ":: core :: option :: Option <"
    let type ← upToClose
    phrase "="
    phrase ":: core :: option :: Option :: None"
    phrase ";"
    return (name, some type)

/-- Where a field comes from when there is no default instance. -/
def ownSourceParser : Parser MemberSource := do
  let slot ← anyIdent
  if ← phraseIf ". ok_or_else" then
    let (record, field) ← within .paren do
      phrase "|| :: kson :: KsonError :: missing_field"
      within .paren do
        let record ← textLiteral
        phrase ","
        return (record, ← textLiteral)
    phrase "?"
    return .required slot record field
  else return .optional slot

def memberSourceParser : Parser MemberSource := do
  if ← sees startsAnyWord then
    if ← sees (startsWord "default") then
      phrase "default ."
      return .fromDefault (← anyIdent)
    else if ← sees (startsWord "if") then
      phrase "if"
      let assigned ← anyIdent
      let source ← within .brace ownSourceParser
      phrase "else"
      return .ifAssigned assigned source (← within .brace (do phrase "default ."; anyIdent))
    else ownSourceParser
  else
    phrase ":: core :: default :: Default :: default ()"
    return .empty

def memberParser : Parser (String × MemberSource) := do
  let field ← anyIdent
  phrase ":"
  return (field, ← memberSourceParser)

/-- The record that is put together, and where each of its fields comes from. -/
def recordParser : Parser (String × List (String × MemberSource)) := do
  phrase ":: core :: option :: Option :: Some"
  within .paren do
    let record ← anyIdent
    return (record, ← within .brace (manyToEnd (entry memberParser)))

/-- What stands in the last brackets. -/
def inLastBrackets {α : Type} (p : Parser α) : Parser α := do
  match (← everything).getLast? with
  | some (.group _ inner) =>
    match p.runAll? inner with
    | some a => return a
    | none => failure
  | _ => failure

/-- What the routine that reads says: its local variables, what is read into them, and the record
that is put together. -/
structure Reading where
  locals : List (String × Option Tokens)
  arms : List ReadArm
  record : String
  members : List (String × MemberSource)

def readBodyParser : Parser Reading := do
  nullGuardParser do
    phrase "return"
    phrase ":: core :: result :: Result :: Ok"
    within .paren (phrase ":: core :: option :: Option :: None")
    phrase ";"
  let locals ← manyWhile (startsPhrase "let mut") localParser
  phrase "reader . begin_object () ? ;"
  let arms ← memberLoopParser
  phrase "reader . end_object () ? ;"
  let (record, members) ← inLastBrackets recordParser
  return ⟨locals, arms, record, members⟩

/-! ## Parts -/

theorem verbatim_close : verbatim ">" = [.punct '>' false] := rfl

theorem verbatim_comma : verbatim "," = [.punct ',' false] := rfl

/-- The declaration of a part is read back as its name and its type. -/
theorem Part.reads_declaration (p : Part) (us : Tokens) :
    declarationParser.Reads (p.declaration ++ us) (p.name, p.type.tokens) us := by
  simp only [Part.declaration, verbatim_close, List.append_assoc, List.singleton_append]
  refine .bind (.name p.name _) (.bind (.phrase _ _) ?_)
  exact .bind (p.type.reads_upToClose false us) (.pure _ us)

/-- The expression of the token with which the part is made, if there is one. -/
def Part.tokenCode? (p : Part) : Option Tokens :=
  if p.type.isApplied then some (TokenCode.ofType p.type).code else none

/-- The expression that makes a part is read back as its name and its token. -/
theorem Part.reads_initial (p : Part) (us : Tokens) :
    initialParser.Reads (p.initial ++ us) (p.name, p.tokenCode?) us := by
  simp only [Part.initial, Part.tokenCode?, List.append_assoc]
  refine .bind (.name p.name _) (.bind (.phrase _ _) ?_)
  split
  · rw [List.append_assoc]
    refine .bind (.phraseIf_true _ _) (.bind (.parens ?_ us) (.pure _ us))
    exact .bind (.phrase _ _) (.everything _)
  · have hother : startsPhrase ":: kson :: LazyAdapter :: with_token"
        (verbatim ":: kson :: LazyAdapter :: new (kson)" ++ us) = false :=
      startsPhrase_distinct (by simp [distinctTexts]) us
    have hno := Parser.Reads.phraseIf_false hother
    exact .bind hno (.bind (.phrase _ us) (.pure _ us))

section Entries

variable {α β : Type} {p : Parser α} {code : β → Tokens} {value : β → α}

/-- Fragments with a comma behind each are read one after the other. -/
theorem reads_listed {bs : List β} (hp : ∀ b ∈ bs, ∀ us,
    p.Reads (code b ++ (verbatim "," ++ us)) (value b) (verbatim "," ++ us)) :
    (manyToEnd (entry p)).Reads (listed (bs.map code)) (bs.map value) [] := by
  rw [listed, List.flatMap_map, ← verbatim_comma]
  refine .manyToEnd (fun b _ => by simp [verbatim_comma]) fun b hb us => ?_
  rw [List.append_assoc]
  exact .bind (hp b hb us) (.bind (.phrase "," us) (.pure _ us))

end Entries

/-- The constructor makes all parts, in their order. -/
theorem AdapterCode.reads_constructor (u : AdapterCode) :
    constructorParser.Reads u.constructor (u.parts.map fun p => (p.name, p.tokenCode?)) [] := by
  have hparts : (manyToEnd (entry initialParser)).Reads (listed (u.parts.map (·.initial)))
      (u.parts.map fun p => (p.name, p.tokenCode?)) [] :=
    reads_listed fun p _ us => p.reads_initial _
  simp only [constructor, List.append_assoc]
  refine .bind (.phrase _ _) (.bind (.parens (.everything _) _) ?_)
  refine .bind (.phrase _ _) (.last (.block (.bind (.phrase _ _) ?_) []))
  exact .last (.block hparts [])

/-! ## Writing -/

/-- The value that a step writes is read back as its field, with or without a wrapper. -/
theorem WriteStep.reads_value (s : WriteStep) :
    valueParser.Reads s.value (s.field, s.nullable) [] := by
  obtain ⟨key, part, field, nullable⟩ := s
  cases nullable with
  | true =>
    have hvalue : value ⟨key, part, field, true⟩ =
        verbatim "obj ." ++ (word field ++ (verbatim ". as_ref ()" ++ [])) := by
      simp [value]
    rw [hvalue]
    exact .bind (.phraseIf_true _ _) (.bind (.name field _) (.bind (.phrase _ _) (.pure _ _)))
  | false =>
    have hvalue : value ⟨key, part, field, false⟩ =
        verbatim ":: core :: option :: Option :: Some" ++
        (parens (verbatim "& obj ." ++ (word field ++ [])) ++ []) := by
      simp [value, present]
    -- the first word tells a nullable field from another one
    have hother (ts : Tokens) : startsPhrase "obj ."
        (verbatim ":: core :: option :: Option :: Some" ++ ts) = false :=
      startsPhrase_distinct (by simp [distinctTexts]) ts
    rw [hvalue]
    refine .bind (.phraseIf_false (hother _)) ?_
    refine .bind (.phrase _ _) (.bind (.parens ?_ _) (.pure _ _))
    exact .bind (.phrase _ _) (.name field _)

/-- A step that writes a field is read back. -/
theorem WriteStep.reads_code (s : WriteStep) (us : Tokens) :
    writeStepParser.Reads (s.code ++ us) s us := by
  simp only [WriteStep.code, List.append_assoc]
  refine .bind (.phrase _ _) (.bind (.parens (.last (.text s.key [])) _) ?_)
  refine .bind (.phrase _ _) (.bind (.name s.part _) (.bind (.phrase _ _) ?_))
  have hvalue : Parser.Reads (do phrase "writer ,"; valueParser)
      (verbatim "writer ," ++ s.value) (s.field, s.nullable) [] :=
    .bind (.phrase _ _) s.reads_value
  exact .bind (.parens hvalue _) (.bind (.phrase _ us) (.pure s us))

/-- The body of the routine that writes has the steps of the record. -/
theorem reads_writeBody (r : RecordPlan) :
    writeBodyParser.Reads (writeBody r) (writeSteps r) [] := by
  -- after the steps, the object is closed
  have hends : startsPhrase "writer . name" (verbatim "writer . end_object ()" ++ []) = false :=
    startsPhrase_distinct (by simp [distinctTexts]) []
  have hnil : startsPhrase "writer . name" [] = false := by decide
  have hsteps : (manyWhile (startsPhrase "writer . name") writeStepParser).Reads
      ((writeSteps r).flatMap (·.code) ++ (verbatim "writer . end_object ()" ++ []))
      (writeSteps r) (verbatim "writer . end_object ()" ++ []) := by
    refine .manyWhile hnil (fun s _ us => ?_) (fun s _ => s.reads_code)
      hends
    simp only [WriteStep.code, List.append_assoc]
    exact startsPhrase_verbatim _ _
  have hbody : writeBody r = verbatim "let" ++ (verbatim ":: core :: option :: Option :: Some" ++
      (parens (word (if r.fields.isEmpty then "_" else "obj")) ++ (verbatim
        "= obj else { return writer . null_value () ; } ; writer . begin_object () ? ;" ++
        ((writeSteps r).flatMap (·.code) ++ (verbatim "writer . end_object ()" ++ []))))) := by
    simp only [writeBody, present, List.append_assoc, List.append_nil]
  rw [hbody]
  refine .bind (.phrase _ _) (.bind (.phrase _ _) ?_)
  refine .bind (.parens (.last (.name _ [])) _) (.bind (.phrase _ _) ?_)
  exact .bind hsteps (.bind (.phrase _ []) (.pure _ []))

/-! ## Reading -/

/-- Alternatives behind the first one follow a bar each. -/
theorem alternatives_cons (ts : Tokens) (tss : List Tokens) :
    alternatives (ts :: tss) = ts ++ tss.flatMap (.punct '|' false :: ·) := by
  induction tss generalizing ts with
  | nil => simp [alternatives]
  | cons us tss ih => rw [alternatives, ih] <;> simp

theorem verbatim_arrow : verbatim "=>" = [.punct '=' true, .punct '>' false] := rfl

/-- The keys behind the first one are read up to the arrow. -/
theorem reads_keys (keys : List String) (us : Tokens) :
    Parser.Reads (manyWhile (startsMark "|") (do mark "|"; textLiteral))
      (keys.flatMap (fun key => .punct '|' false :: literal key) ++ (verbatim "=>" ++ us)) keys
      (verbatim "=>" ++ us) := by
  refine .manyWhile rfl (fun _ _ _ => rfl) (fun key _ us => ?_) (by rw [verbatim_arrow]; rfl)
  exact .bind (.mark_single rfl (by decide) false _) (.text key us)

/-- The body of an arm names the slot, the part, and the flag. -/
theorem ReadArm.reads_body (a : ReadArm) :
    armBodyParser.Reads a.body (a.slot, a.part, a.assigned) [] := by
  obtain ⟨keys, part, slot, assigned⟩ := a
  simp only [body, List.append_assoc]
  refine .bind (.name slot _) (.bind (.phrase _ _) (.bind (.name part _) (.bind (.phrase _ _) ?_)))
  cases assigned with
  | none => exact .bind (.sees _ _) (.ite_neg (by decide) (.pure _ _))
  | some v =>
    refine .bind (.sees _ _) (.ite_pos rfl (.bind (.name v _) ?_))
    exact .bind (.last (.phrase _ [])) (.pure _ _)

/-- An arm is read back with all its keys. -/
theorem ReadArm.reads_code {a : ReadArm} (hkeys : a.keys ≠ []) (us : Tokens) :
    readArmParser.Reads (a.code ++ us) a us := by
  obtain ⟨keys, part, slot, assigned⟩ := a
  obtain ⟨key, others, rfl⟩ := List.exists_cons_of_ne_nil hkeys
  simp only [code, List.map_cons, alternatives_cons, List.flatMap_map, List.append_assoc]
  refine .bind (.text key _) (.bind (reads_keys others _) (.bind (.phrase _ _) ?_))
  exact .bind (.block (reads_body _) us) (.pure _ us)

/-- What is done on `null` is read, and then what follows. -/
theorem reads_nullGuard {onNull : Parser Unit} {ts : Tokens} (h : onNull.Reads ts () [])
    (us : Tokens) : (nullGuardParser onNull).Reads (nullGuard ts ++ us) () us := by
  rw [nullGuard, List.append_assoc]
  exact .bind (.phrase _ _) (.block (.bind (.phrase _ _) h) us)

theorem keys_ne_nil (r : RecordPlan) : ∀ a ∈ readArms r, a.keys ≠ [] := by
  simp [readArms, ReadArm.ofField, FieldPlan.keys]

/-- Each arm starts with a key, which tells it from the last arm. -/
theorem startsLiteral_code {a : ReadArm} (hkeys : a.keys ≠ []) (us : Tokens) :
    startsLiteral (a.code ++ us) = true := by
  obtain ⟨key, others, hcons⟩ := List.exists_cons_of_ne_nil hkeys
  rw [ReadArm.code, hcons, List.map_cons, alternatives_cons]
  rfl

/-- The loop over members has the arms that it was emitted for. -/
theorem reads_memberLoop {arms : List ReadArm} (hkeys : ∀ a ∈ arms, a.keys ≠ []) (us : Tokens) :
    memberLoopParser.Reads (memberLoop arms ++ us) arms us := by
  rw [memberLoop, List.append_assoc]
  refine .bind (.phrase _ _) (.block ?_ us)
  cases arms with
  | nil =>
    have hother : startsPhrase "let name = reader . next_name () ? ;"
        (verbatim "reader . next_name () ? ; reader . skip_value () ? ;" ++ []) = false :=
      startsPhrase_distinct (by simp [distinctTexts]) []
    refine .last (.bind (.phraseIf_false hother) ?_)
    exact .bind (.phrase _ []) (.pure _ _)
  | cons a arms =>
    have hends : startsLiteral (verbatim "_ => reader . skip_value () ? ," ++ []) = false := by
      decide
    have harms := Parser.Reads.manyWhile rfl (fun a ha => startsLiteral_code (hkeys a ha))
      (fun a ha => ReadArm.reads_code (hkeys a ha)) hends
    -- arms follow a look for `null`
    have hcontinue := reads_nullGuard (.last (.phrase "continue ;" []))
    simp only [memberBody, List.isEmpty_cons, Bool.false_eq_true, if_false, List.append_assoc]
    refine .bind (.phraseIf_true _ _) (.bind (hcontinue _) (.bind (.phrase _ _) (.last ?_)))
    refine .block (.last ?_) []
    rw [List.append_assoc]
    exact .bind harms (.bind (.phrase _ _) (.pure _ _))

/-- Local variables for a field, with the type of its value. -/
def localsOf (r : RecordPlan) (f : FieldPlan) : List (String × Option Tokens) :=
  (f.slot, some f.type.tokens) :: r.default.toList.map fun _ => (f.assigned, none)

/-- A variable for a value is read back as its name and type. -/
theorem reads_local (name : String) (type : FieldType) (us : Tokens) :
    localParser.Reads (verbatim "let mut" ++ (word name ++ (verbatim ":" ++
      (optionOf type.tokens ++ (verbatim "=" ++ (absent ++ (verbatim ";" ++ us)))))))
      (name, some type.tokens) us := by
  have hother (ts : Tokens) : startsPhrase "= false ;" (verbatim ":" ++ ts) = false :=
    startsPhrase_distinct (by simp [distinctTexts]) ts
  simp only [optionOf, absent, verbatim_close, List.append_assoc, List.singleton_append]
  refine .bind (.phrase _ _) (.bind (.name name _) ?_)
  refine .bind (.phraseIf_false (hother _)) (.bind (.phrase _ _) ?_)
  refine .bind (.phrase _ _) (.bind (type.reads_upToClose false _) (.bind (.phrase _ _) ?_))
  exact .bind (.phrase _ _) (.bind (.phrase _ _) (.pure _ us))

/-- A variable that is a flag has no type. -/
theorem reads_flag (name : String) (us : Tokens) :
    localParser.Reads (verbatim "let mut" ++ (word name ++ (verbatim "= false ;" ++ us)))
      (name, none) us :=
  .bind (.phrase _ _) (.bind (.name name _) (.bind (.phraseIf_true _ us) (.pure _ us)))

/-- All variables are read, up to the first statement that is no declaration. -/
theorem reads_locals (r : RecordPlan) {us : Tokens} (hend : startsPhrase "let mut" us = false)
    (fields : List FieldPlan) : (manyWhile (startsPhrase "let mut") localParser).Reads
      (fields.flatMap (locals r) ++ us) (fields.flatMap (localsOf r)) us := by
  have hrow : Parser.ReadsRow (startsPhrase "let mut") localParser
      (fields.flatMap (locals r) ++ us) (fields.flatMap (localsOf r)) us := by
    induction fields with
    | nil => exact .stop hend
    | cons f fields ih =>
      rw [List.flatMap_cons, List.flatMap_cons, locals, localsOf]
      simp only [List.append_assoc]
      refine .next (startsPhrase_verbatim _ _) (reads_local f.slot f.type _) ?_ ?_
      · simp [word]
        omega
      -- with a default, each field also has a flag
      · cases r.default with
        | none => exact ih
        | some d =>
          simp only [List.append_assoc]
          exact .next (startsPhrase_verbatim _ _) (reads_flag f.assigned _)
            (by simp [word]; omega) ih
  exact hrow.manyWhile

/-! ## Putting a record together -/

/-- A name is no other word. -/
theorem startsWord_word {w n : String} (h : n ≠ w) (us : Tokens) :
    startsWord w (word n ++ us) = false := beq_false_of_ne h

/-- The variable that holds a value is no keyword. -/
theorem slot_ne {f : FieldPlan} {w : String} (h : ¬['s', 'l', 'o', 't', '_'] <+: w.toList) :
    f.slot ≠ w := by
  rintro rfl
  exact h ⟨(unmarked f.name).toList, by simp [FieldPlan.slot]⟩

variable {r : RecordPlan} {f : FieldPlan}

/-- What a field gets of its own is read back, with the complaint if it must be given. -/
theorem reads_ownSource (r : RecordPlan) (f : FieldPlan) {us : Tokens}
    (hend : startsPhrase ". ok_or_else" us = false) :
    ownSourceParser.Reads ((ownSource r f).code ++ us) (ownSource r f) us := by
  unfold ownSource
  split
  · refine .bind (.name f.slot _) (.bind (.phraseIf_false hend) (.pure _ us))
  · simp only [MemberSource.code, List.append_assoc]
    refine .bind (.name f.slot _) (.bind (.phraseIf_true _ _) ?_)
    refine .bind (a := (r.name, f.name)) (.parens ?_ _) ?_
    · refine .bind (.phrase _ _) (.last (.parens ?_ []))
      refine .bind (.text r.name _) (.bind (.phrase _ _) (.bind (.last (.text f.name [])) ?_))
      exact .pure _ []
    · exact .bind (.phrase _ us) (.pure _ us)

theorem reads_ofDefault (field : String) (us : Tokens) :
    Parser.Reads (do phrase "default ."; anyIdent) (ofDefault field ++ us) field us := by
  rw [ofDefault, List.append_assoc]
  exact .bind (.phrase _ _) (.name field us)

/-- Whether a text starts with a name is told by its first token. -/
theorem startsAnyWord_append {ts : Tokens} (h : ts.isEmpty = false) (us : Tokens) :
    startsAnyWord (ts ++ us) = startsAnyWord ts := by
  cases ts with
  | nil => cases h
  | cons t ts => cases t <;> rfl

theorem verbatim_default : verbatim "default ." = [.ident "default", .punct '.' false] := by rfl

/-- A field of its own source, by itself or in a condition. -/
theorem reads_source_own (r : RecordPlan) (f : FieldPlan) {us : Tokens}
    (hend : startsPhrase ". ok_or_else" us = false) :
    memberSourceParser.Reads ((ownSource r f).code ++ us) (ownSource r f) us := by
  have hword : ∃ ts, (ownSource r f).code ++ us = word f.slot ++ ts := by
    unfold ownSource
    split <;> simp only [MemberSource.code, List.append_assoc] <;> exact ⟨_, rfl⟩
  have hdefault : f.slot ≠ "default" := slot_ne (by decide)
  have hif : f.slot ≠ "if" := slot_ne (by decide)
  have hown := reads_ownSource r f hend
  obtain ⟨ts, hts⟩ := hword
  rw [hts] at hown ⊢
  refine .bind (.sees _ _) (.ite_pos rfl (.bind (.sees _ _) (.ite_neg ?_ ?_)))
  · simp [startsWord_word hdefault]
  · exact .bind (.sees _ _) (.ite_neg (by simp [startsWord_word hif]) hown)

/-- A field with a default is read back with its flag. -/
theorem reads_source_assigned (r : RecordPlan) (f : FieldPlan) (us : Tokens) :
    memberSourceParser.Reads
      ((MemberSource.ifAssigned f.assigned (ownSource r f) f.name).code ++ us)
      (.ifAssigned f.assigned (ownSource r f) f.name) us := by
  have hword : verbatim "if" = word "if" := by rfl
  have hend : startsPhrase ". ok_or_else" [] = false := by decide
  have hown := (reads_ownSource r f hend).last
  simp only [MemberSource.code, List.append_assoc]
  refine .bind (.sees _ _) (.ite_pos (by rw [hword]; rfl) (.bind (.sees _ _) (.ite_neg ?_ ?_)))
  · rw [hword, startsWord_word (by decide)]
    decide
  · refine .bind (.sees _ _) (.ite_pos (by rw [hword]; rfl) (.bind (.phrase _ _) ?_))
    refine .bind (.name f.assigned _) (.bind (.block hown _) (.bind (.phrase _ _) ?_))
    exact .bind (.block (.last (reads_ofDefault f.name [])) us) (.pure _ us)

/-- A field that keeps its default is read back. -/
theorem reads_source_default (field : String) (us : Tokens) :
    memberSourceParser.Reads ((MemberSource.fromDefault field).code ++ us) (.fromDefault field)
      us := by
  rw [MemberSource.code, ofDefault, List.append_assoc]
  refine .bind (.sees _ _) (.ite_pos (by rw [verbatim_default]; rfl) (.bind (.sees _ _) ?_))
  refine .ite_pos (by rw [verbatim_default]; rfl) (.bind (.phrase _ _) ?_)
  exact .bind (.name field us) (.pure _ us)

/-- A field that is never read is read back. -/
theorem reads_source_empty (us : Tokens) :
    memberSourceParser.Reads (MemberSource.empty.code ++ us) .empty us := by
  have hmark : startsAnyWord (MemberSource.empty.code ++ us) = false := by
    have hempty : (verbatim ":: core :: default :: Default :: default ()").isEmpty = false := by
      decide
    rw [MemberSource.code, startsAnyWord_append hempty]
    decide
  exact .bind (.sees _ _) (.ite_neg (by simp [hmark]) (.bind (.phrase _ us) (.pure _ us)))

/-- Whatever a field of the record comes from. -/
theorem reads_memberSource {m : String × MemberSource} (hm : m ∈ memberSources r) {us : Tokens}
    (hend : startsPhrase ". ok_or_else" us = false) :
    memberSourceParser.Reads (m.2.code ++ us) m.2 us := by
  unfold memberSources at hm
  split at hm
  · rcases List.mem_append.1 hm with hm | hm
    · obtain ⟨f, -, rfl⟩ := List.mem_map.1 hm
      exact reads_source_own r f hend
    · obtain ⟨s, -, rfl⟩ := List.mem_map.1 hm
      exact reads_source_empty us
  · rcases List.mem_append.1 hm with hm | hm
    · obtain ⟨f, -, rfl⟩ := List.mem_map.1 hm
      exact reads_source_assigned r f us
    · obtain ⟨s, -, rfl⟩ := List.mem_map.1 hm
      exact reads_source_default s us

/-- The record that is built is read back, with the source of each of its fields. -/
theorem reads_record (r : RecordPlan) :
    recordParser.Reads (present (recordExpression r)) (r.name, memberSources r) [] := by
  have hcomma (us : Tokens) : startsPhrase ". ok_or_else" (verbatim "," ++ us) = false :=
    startsPhrase_distinct (by simp [distinctTexts]) us
  have hmembers : (manyToEnd (entry memberParser)).Reads
      (listed ((memberSources r).map memberCode)) ((memberSources r).map id) [] := by
    refine reads_listed fun m hm us => ?_
    rw [memberCode, List.append_assoc, List.append_assoc]
    refine .bind (.name m.1 _) (.bind (.phrase _ _) ?_)
    exact .bind (reads_memberSource hm (hcomma us)) (.pure _ _)
  rw [List.map_id] at hmembers
  rw [present, recordExpression]
  refine .bind (.phrase _ _) (.last (.parens ?_ []))
  exact .bind (.name r.name _) (.bind (.last (.block hmembers [])) (.pure _ []))

/-- What the routine that reads a record is meant to say. -/
def Reading.ofRecord (r : RecordPlan) : Reading where
  locals := r.fields.flatMap (localsOf r)
  arms := readArms r
  record := r.name
  members := memberSources r

/-- What stands in the last brackets is read, whatever stands before them. -/
theorem reads_inLastBrackets {α : Type} {p : Parser α} {a : α} {d : Delimiter} {inner : Tokens}
    (h : p.Reads inner a []) (ts : Tokens) :
    (inLastBrackets p).Reads (ts ++ [.group d inner]) a [] := by
  refine .bind (.everything _) ?_
  rw [List.getLast?_concat]
  dsimp only
  rw [h.runAll?]
  exact .pure a []

/-- The body of the routine that reads is read back as a whole. -/
theorem reads_readBody (r : RecordPlan) :
    readBodyParser.Reads (readBody r) (.ofRecord r) [] := by
  have hreturn : Parser.Reads (do
      phrase "return"
      phrase ":: core :: result :: Result :: Ok"
      within .paren (phrase ":: core :: option :: Option :: None")
      phrase ";") (verbatim "return" ++ success absent ++ verbatim ";") () [] := by
    simp only [success, List.append_assoc]
    refine .bind (.phrase _ _) (.bind (.phrase _ _) ?_)
    exact .bind (.parens (.last (.phrase _ [])) _) (.last (.phrase _ []))
  have hends (ts : Tokens) : startsPhrase "let mut"
      (verbatim "reader . begin_object () ? ;" ++ ts) = false :=
    startsPhrase_distinct (by simp [distinctTexts]) ts
  have hlocals := reads_locals r (hends (memberLoop (readArms r) ++
    (verbatim "reader . end_object () ? ;" ++ (defaultStatement r ++
      success (present (recordExpression r)))))) r.fields
  -- the record is in the last brackets of what is left
  have hlast := reads_inLastBrackets (d := .paren) (reads_record r)
    (defaultStatement r ++ verbatim ":: core :: result :: Result :: Ok")
  simp only [readBody, List.append_assoc]
  refine .bind (reads_nullGuard hreturn _) (.bind hlocals (.bind (.phrase _ _) ?_))
  refine .bind (reads_memberLoop (keys_ne_nil r) _) (.bind (.phrase _ _) ?_)
  refine .bind (a := (r.name, memberSources r)) ?_ (.pure _ [])
  rw [success, parens, ← List.append_assoc]
  exact hlast

/-! ## Items -/

/-- What the code of an adapter says. -/
structure Contents where
  declared : List (String × Tokens)
  made : List (String × Option Tokens)
  steps : List WriteStep
  reading : Reading

namespace Contents

/-- What is said by the last four blocks of the code: the parts are declared and made, then come the
two routines, and the statement that this is the adapter of the record. -/
def ofTokens? (ts : Tokens) : Option Contents :=
  match (blocks ts).reverse with
  | _ :: routines :: making :: parts :: _ => do
    let [writing, reading] := blocks routines | none
    return {
      declared := ← (manyToEnd (entry declarationParser)).runAll? parts
      made := ← constructorParser.runAll? making
      steps := ← writeBodyParser.runAll? writing
      reading := ← readBodyParser.runAll? reading }
  | _ => none

/-- What the code of a record's adapter is meant to say. -/
def ofRecord (r : RecordPlan) : Contents where
  declared := (partsOf r.fields).map fun p => (p.name, p.type.tokens)
  made := (partsOf r.fields).map fun p => (p.name, p.tokenCode?)
  steps := writeSteps r
  reading := .ofRecord r

end Contents

/-- Blocks of a text are those of its pieces. -/
theorem blocks_append (ts us : Tokens) : blocks (ts ++ us) = blocks ts ++ blocks us :=
  List.filterMap_append ..

theorem blocks_block (ts : Tokens) : blocks (block ts) = [ts] := rfl

theorem blocks_word (n : String) : blocks (word n) = [] := rfl

/-- Fixed text outside of the blocks of an adapter. -/
def outerTexts : List String :=
  ["struct", "impl", "# [automatically_derived] impl :: kson :: TypeAdapter <", "> for",
    "# [automatically_derived] impl :: kson :: KsonRecord for", "fn write", "->", "()",
    "fn read (& self , reader : & mut dyn :: kson :: JsonRead ,) ->",
    ":: core :: result :: Result <", ", :: kson :: KsonError >", ":: core :: option :: Option <",
    ">"]

/-- The texts between the items of an adapter have no blocks. -/
theorem blocks_outer {text : String} (h : text ∈ outerTexts) : blocks (verbatim text) = [] := by
  have hall : ∀ text ∈ outerTexts, (blocks (verbatim text)).isEmpty := by decide +kernel
  exact List.isEmpty_iff.1 (hall text h)

/-- The two routines have one block each. -/
theorem blocks_routines (r : RecordPlan) :
    blocks (writeRoutine r ++ readRoutine r) = [writeBody r, readBody r] := by
  have hparens (ts : Tokens) : blocks (parens ts) = [] := rfl
  simp (disch := decide) only [writeRoutine, writeHead, readRoutine, readHead, resultOf, optionOf,
    blocks_append, blocks_block, blocks_outer, blocks_word, hparens, List.nil_append,
    List.append_nil, List.cons_append]

namespace AdapterCode

variable (u : AdapterCode)

/-- Attributes have no blocks. -/
theorem blocks_attributeCode : blocks u.attributeCode = [] := by
  unfold attributeCode
  induction u.attributes with
  | nil => rfl
  | cons a attributes ih =>
    rw [List.flatMap_cons, blocks_append, ih]
    rfl

/-- The parts stand in the last block of the structure; there may be other ones in its
visibility. -/
theorem blocks_structureCode : ∃ front, blocks u.structureCode =
    front ++ [listed (u.parts.map (·.declaration))] := by
  rw [structureCode, blocks_append, blocks_block]
  exact ⟨_, rfl⟩

/-- The block of the constructor is its body. -/
theorem blocks_constructorCode : blocks u.constructorCode = [u.constructor] := by
  simp (disch := decide) only [constructorCode, blocks_append, blocks_block, blocks_outer,
    blocks_word, blocks_attributeCode, List.nil_append]

/-- The block of the adapter's implementation has both routines. -/
theorem blocks_routineCode :
    blocks u.routineCode = [writeRoutine u.record ++ readRoutine u.record] := by
  simp (disch := decide) only [routineCode, blocks_append, blocks_block, blocks_outer,
    blocks_word, blocks_attributeCode, List.nil_append]

/-- The block that ties a record to its adapter is the last one. -/
theorem blocks_recordCode : ∃ links, blocks u.recordCode = [links] := by
  simp (disch := decide) only [recordCode, blocks_append, blocks_block, blocks_outer,
    blocks_word, blocks_attributeCode, List.nil_append]
  exact ⟨_, rfl⟩

/-- The code of an adapter says what it is meant to say. -/
theorem ofTokens?_items : Contents.ofTokens? u.items = some (.ofRecord u.record) := by
  obtain ⟨front, hparts⟩ := u.blocks_structureCode
  obtain ⟨links, hlinks⟩ := u.blocks_recordCode
  have hblocks : (blocks u.items).reverse = links :: (writeRoutine u.record ++
      readRoutine u.record) :: u.constructor :: listed (u.parts.map (·.declaration)) ::
        front.reverse := by
    rw [items, blocks_append, blocks_append, blocks_append, hparts, hlinks,
      blocks_constructorCode, blocks_routineCode]
    simp
  have hdeclared : (manyToEnd (entry declarationParser)).Reads
      (listed (u.parts.map (·.declaration))) (u.parts.map fun p => (p.name, p.type.tokens)) [] :=
    reads_listed fun p _ us => p.reads_declaration _
  rw [Contents.ofTokens?, hblocks]
  simp only [blocks_routines, hdeclared.runAll?, u.reads_constructor.runAll?,
    (reads_writeBody _).runAll?, (reads_readBody _).runAll?]
  rfl

end AdapterCode

end JsonAdapters.Emit
