import JsonAdapters.Emit.Adapter
import JsonAdapters.Emit.Factory
import JsonAdapters.Proofs.Code.PlainText
import JsonAdapters.Proofs.Derive.TypeTexts
import JsonAdapters.Proofs.Emit.Parts

/-!
# Emitted code is read as it was meant

Emitted code is put together from fixed text, names, literals, types and brackets. If the names are
identifiers, its written form is read as its tokens. The proofs follow the code fragment by
fragment. Most fixed text is plain, so that only its characters are looked at.

## Main definitions

* `RecordPlan.IsSpelled`: all names in a record are identifiers.

## Main statements

* `Emit.AdapterCode.isSpelled_items`: the adapter of such a record is spelled.
* `Emit.FactoryCode.isSpelled_code`: so is a factory whose records have identifiers in their paths.
-/

namespace JsonAdapters

open Code Emit

/-! ## Fragments -/

namespace Code.IsSpelled

variable {α : Type} {ts : Tokens} {tss : List Tokens} {name : String}

/-- Fixed text without literals is read as it is meant. -/
theorem plain {cs : List Char} (h : cs.all isPlainChar) :
    IsSpelled (verbatim (String.ofList cs)) := by
  cases hread : tokens? (String.ofList cs) with
  | none => simp [verbatim, hread, nil]
  | some ts =>
    simp only [verbatim, hread, Option.getD_some]
    exact isSpelled_of_tokens? (List.all_eq_true.1 h) hread

/-- An identifier is read as a word. -/
theorem word (h : isIdentifier name) : IsSpelled (Emit.word name) := .ident h

/-- A quoted text is read as the literal. -/
theorem literal (text : String) : IsSpelled (Emit.literal text) := by
  simp [IsSpelled, Emit.literal, areSpelled, TokenTree.isSpelled, TokenTree.isFollowed,
    stringValue_quoted]

theorem parens (h : IsSpelled ts) : IsSpelled (Emit.parens ts) := h.group .paren

theorem block (h : IsSpelled ts) : IsSpelled (Emit.block ts) := h.group .brace

theorem comma : IsSpelled [.punct ',' false] := by decide

theorem bar : IsSpelled [.punct '|' false] := by decide

/-- Fragments in a row. -/
theorem flatten (h : ∀ ts ∈ tss, IsSpelled ts) : IsSpelled tss.flatten := by
  induction tss with
  | nil => exact nil
  | cons ts tss ih =>
    obtain ⟨hts, htss⟩ := List.forall_mem_cons.1 h
    exact hts.append (ih htss)

theorem flatMap {f : α → Tokens} {as : List α} (h : ∀ a ∈ as, IsSpelled (f a)) :
    IsSpelled (as.flatMap f) :=
  flatten (List.forall_mem_map.2 h)

/-- Fragments, each with a comma behind it. -/
theorem listed (h : ∀ ts ∈ tss, IsSpelled ts) : IsSpelled (Emit.listed tss) :=
  flatMap fun ts hts => (h ts hts).append comma

/-- Fragments with commas between them. -/
theorem commaSeparated (h : ∀ ts ∈ tss, IsSpelled ts) : IsSpelled (commaSeparated tss) := by
  induction tss with
  | nil => exact nil
  | cons ts tss ih =>
    obtain ⟨hts, htss⟩ := List.forall_mem_cons.1 h
    cases tss with
    | nil => exact hts
    | cons us tss => exact hts.append (comma.append (ih htss))

/-- Fragments with bars between them. -/
theorem alternatives (h : ∀ ts ∈ tss, IsSpelled ts) : IsSpelled (Emit.alternatives tss) := by
  induction tss with
  | nil => exact nil
  | cons ts tss ih =>
    obtain ⟨hts, htss⟩ := List.forall_mem_cons.1 h
    cases tss with
    | nil => exact hts
    | cons us tss => exact hts.append (bar.append (ih htss))

theorem optionOf (h : IsSpelled ts) : IsSpelled (Emit.optionOf ts) :=
  .append (.append (.plain (by decide)) h) (.plain (by decide))

theorem resultOf (h : IsSpelled ts) : IsSpelled (Emit.resultOf ts) :=
  .append (.append (.plain (by decide)) h) (.plain (by decide))

theorem absent : IsSpelled Emit.absent := .plain (by decide)

theorem present (h : IsSpelled ts) : IsSpelled (Emit.present ts) :=
  .append (.plain (by decide)) h.parens

theorem success (h : IsSpelled ts) : IsSpelled (Emit.success ts) :=
  .append (.plain (by decide)) h.parens

end Code.IsSpelled

/-! ## Paths and types -/

/-- The written path of plain names is read as the path. -/
theorem isSpelled_plainSegments {names : List String} (h : ∀ n ∈ names, isIdentifier n) :
    IsSpelled (segmentTokens (names.map .plain)) := by
  induction names with
  | nil => exact .nil
  | cons n names ih =>
    obtain ⟨hn, hnames⟩ := List.forall_mem_cons.1 h
    have hsep : IsSpelled (if (names.map Segment.plain).isEmpty then [] else pathSep) := by
      split
      · exact .nil
      · decide
    exact ((IsSpelled.word hn).append hsep).append (ih hnames)

/-- A path of plain names may start with a separator. -/
theorem isSpelled_plainPath (absolute : Bool) {names : List String}
    (h : ∀ n ∈ names, isIdentifier n) :
    IsSpelled (Code.Path.mk absolute (names.map .plain)).tokens := by
  refine .append ?_ (isSpelled_plainSegments h)
  cases absolute <;> decide

namespace FieldType

/-- All names in the type are identifiers. -/
def IsLexed (t : FieldType) : Prop := ∀ u ∈ t.within, u.name.IsLexed

mutual

/-- The written form of a type is read as the type. -/
theorem IsLexed.isSpelled_tokens : ∀ {t : FieldType}, t.IsLexed → IsSpelled t.tokens
  | .simple n, h => isSpelled_plainPath _ (h _ (mem_within _)).idents
  | .applied n as, h => by
    have hname : IsSpelled n.path.tokens := isSpelled_plainPath _ (h _ (mem_within _)).idents
    have hargs := isSpelled_tokensOf fun u hu => h u (List.mem_cons_of_mem _ hu)
    have hcommas : IsSpelled (commaSeparated (tokensOf as)) := .commaSeparated hargs
    have hopen : IsSpelled [.punct '<' false] := by decide
    have hclose : IsSpelled [.punct '>' false] := by decide
    exact (hname.append (hopen.append hcommas)).append hclose

theorem isSpelled_tokensOf : ∀ {as : List FieldType}, (∀ u ∈ withinAll as, u.name.IsLexed) →
    ∀ ts ∈ tokensOf as, IsSpelled ts
  | [], _ => nofun
  | a :: as, h => by
    obtain ⟨ha, has⟩ := List.forall_mem_append.1 h
    exact List.forall_mem_cons.2 ⟨IsLexed.isSpelled_tokens ha, isSpelled_tokensOf has⟩

end

end FieldType

namespace Emit

/-! ## Parts -/

section Parts

variable {t : FieldType} {p : Part}

theorem isSpelled_ownToken {ts : Tokens} (h : IsSpelled ts) : IsSpelled (TokenCode.ownToken ts) :=
  .append (.append (.plain (by decide)) h) (.plain (by decide))

mutual

/-- A token expression is read as it is meant. -/
theorem TokenCode.isSpelled_code : ∀ {t : FieldType}, t.IsLexed →
    IsSpelled (TokenCode.ofType t).code
  | .simple _, h => isSpelled_ownToken h.isSpelled_tokens
  | .applied n as, h => by
    have htype : IsSpelled (FieldType.applied n as).tokens := h.isSpelled_tokens
    have hargs := isSpelled_codes fun u hu => h u (List.mem_cons_of_mem _ hu)
    have hlist : IsSpelled [.group .bracket (commaSeparated (codes (ofTypes as)))] :=
      (IsSpelled.commaSeparated hargs).group .bracket
    refine .append (.append (.append (.plain (by decide)) htype) (.plain (by decide))) (.parens ?_)
    exact .append (.append (.literal _) (.plain (by decide))) hlist

theorem TokenCode.isSpelled_codes : ∀ {as : List FieldType},
    (∀ u ∈ FieldType.withinAll as, u.name.IsLexed) →
      ∀ ts ∈ TokenCode.codes (TokenCode.ofTypes as), IsSpelled ts
  | [], _ => nofun
  | a :: as, h => by
    obtain ⟨ha, has⟩ := List.forall_mem_append.1 h
    exact List.forall_mem_cons.2 ⟨isSpelled_code ha, isSpelled_codes has⟩

end

/-- So are the declaration of a part and its initial value. -/
theorem Part.isSpelled_declaration (hname : isIdentifier p.name) (htype : p.type.IsLexed) :
    IsSpelled p.declaration :=
  .append (.append (.append (.word hname) (.plain (by decide))) htype.isSpelled_tokens)
    (.plain (by decide))

theorem Part.isSpelled_initial (hname : isIdentifier p.name) (htype : p.type.IsLexed) :
    IsSpelled p.initial := by
  refine .append (.append (.word hname) (.plain (by decide))) ?_
  split
  · exact .append (.plain (by decide))
      (.parens (.append (.plain (by decide)) (TokenCode.isSpelled_code htype)))
  · exact .plain (by decide)

end Parts

end Emit

/-! ## Records -/

namespace RecordPlan

/-- All names in the record are identifiers, those of the parts of its adapter included. -/
structure IsSpelled (r : RecordPlan) : Prop where
  name : isIdentifier r.name
  fields : ∀ f ∈ r.fields, isIdentifier f.name
  parts : ∀ f ∈ r.fields, isIdentWord f.adapter.toList
  types : ∀ f ∈ r.fields, f.type.IsLexed
  skipped : ∀ n ∈ r.skipped, isIdentifier n
  default : ∀ p, r.default = some (.function p) → Code.IsSpelled p.tokens

end RecordPlan

/-- What is put in front of an identifier without its mark makes another one. -/
theorem isIdentifier_prefixed {front n : String} (hfront : isIdentWord front.toList)
    (h : isIdentifier n) : isIdentifier (front ++ unmarked n) := by
  refine isIdentifier_of_isIdentWord ?_
  rw [String.toList_append]
  exact isIdentWord_append hfront (isIdentContinue_of_word (isIdentWord_unmarked h))

/-- The local for a value that was read has an identifier for its name. -/
theorem isIdentifier_slot {f : FieldPlan} (h : isIdentifier f.name) : isIdentifier f.slot :=
  isIdentifier_prefixed (by decide) h

/-- So has the local that says whether there was one. -/
theorem isIdentifier_assigned {f : FieldPlan} (h : isIdentifier f.name) :
    isIdentifier f.assigned :=
  isIdentifier_prefixed (by decide) h

/-- The type of the adapter of a record has an identifier for its name. -/
theorem isIdentifier_adapterTypeName {n : String} (h : isIdentifier n) :
    isIdentifier (adapterTypeName n) := by
  refine isIdentifier_of_isIdentWord ?_
  rw [adapterTypeName, String.toList_append]
  exact isIdentWord_append (isIdentWord_unmarked h) (isIdentContinue_of_word (by decide))

namespace Emit

variable {r : RecordPlan} {f : FieldPlan}

/-! ## Writing -/

/-- A step that writes a member is read as it is meant. -/
theorem isSpelled_writeStep (hname : isIdentifier f.name) (hpart : isIdentWord f.adapter.toList) :
    IsSpelled (WriteStep.ofField f).code := by
  have hvalue : IsSpelled (WriteStep.ofField f).value := by
    unfold WriteStep.value
    split
    · exact .append (.append (.plain (by decide)) (.word hname)) (.plain (by decide))
    · exact .present (.append (.plain (by decide)) (.word hname))
  have hcall : IsSpelled (parens (verbatim "writer ," ++ (WriteStep.ofField f).value)) :=
    .parens (.append (.plain (by decide)) hvalue)
  have hkey : IsSpelled (verbatim "writer . name" ++ parens (literal f.key)) :=
    .append (.plain (by decide)) (.parens (.literal _))
  have hword : IsSpelled (word f.adapter) := .word (isIdentifier_of_isIdentWord hpart)
  exact .append (.append (.append (.append (.append hkey (.plain (by decide))) hword)
    (.plain (by decide))) hcall) (.plain (by decide))

/-- The routine that writes a record is read as it is meant. -/
theorem isSpelled_writeRoutine (h : r.IsSpelled) : IsSpelled (writeRoutine r) := by
  have hobject : IsSpelled (optionOf (verbatim "&" ++ word r.name)) :=
    .optionOf (.append (.plain (by decide)) (.word h.name))
  have hhead : IsSpelled (writeHead r) := by
    refine .append (.append (.append (.plain (by decide)) (.parens ?_)) (.plain (by decide)))
      (.resultOf (.plain (by decide)))
    exact .append (.append (.plain (by decide)) hobject) (.plain (by decide))
  have hsteps : IsSpelled ((writeSteps r).flatMap (·.code)) :=
    .flatMap (List.forall_mem_map.2 fun f hf =>
      isSpelled_writeStep (h.fields f hf) (h.parts f hf))
  have hbinder : IsSpelled (word (if r.fields.isEmpty then "_" else "obj")) := by
    split <;> exact .word (by decide)
  have hbody : IsSpelled (writeBody r) :=
    .append (.append (.append (.append (.plain (by decide)) (.present hbinder))
      (.plain (by decide))) hsteps) (.plain (by decide))
  exact hhead.append hbody.block

/-! ## Reading -/

/-- An arm for a member is read as it is meant. -/
theorem isSpelled_readArm (hname : isIdentifier f.name) (hpart : isIdentWord f.adapter.toList) :
    IsSpelled (ReadArm.ofField r f).code := by
  have hslot : IsSpelled (word f.slot) := .word (isIdentifier_slot hname)
  have hword : IsSpelled (word f.adapter) := .word (isIdentifier_of_isIdentWord hpart)
  have hbody : IsSpelled (ReadArm.ofField r f).body := by
    refine .append (.append (.append (.append hslot (.plain (by decide))) hword)
      (.plain (by decide))) ?_
    split
    -- records with a default note that the member was there
    · next v hv =>
      obtain ⟨-, -, rfl⟩ := Option.map_eq_some_iff.1 hv
      exact .append (.word (isIdentifier_assigned hname)) (.plain (by decide))
    · exact .nil
  have hkeys : IsSpelled (alternatives (f.keys.map literal)) :=
    .alternatives (List.forall_mem_map.2 fun key _ => .literal key)
  exact .append (.append hkeys (.plain (by decide))) hbody.block

/-- The locals of a field are read as they are meant. -/
theorem isSpelled_locals (hname : isIdentifier f.name) (htype : f.type.IsLexed) :
    IsSpelled (locals r f) := by
  have hslot : IsSpelled (word f.slot) := .word (isIdentifier_slot hname)
  have htype : IsSpelled (optionOf f.type.tokens) := .optionOf htype.isSpelled_tokens
  have hdeclared : IsSpelled (verbatim "let mut" ++ word f.slot ++ verbatim ":") :=
    .append (.append (.plain (by decide)) hslot) (.plain (by decide))
  refine .append (.append (.append (.append (.append hdeclared htype) (.plain (by decide)))
    .absent) (.plain (by decide))) ?_
  split
  · exact .append (.append (.plain (by decide)) (.word (isIdentifier_assigned hname)))
      (.plain (by decide))
  · exact .nil

theorem isSpelled_nullGuard {ts : Tokens} (h : IsSpelled ts) : IsSpelled (nullGuard ts) :=
  .append (.plain (by decide)) (.block (.append (.plain (by decide)) h))

/-- The loop over the members is read as it is meant. -/
theorem isSpelled_memberLoop (h : r.IsSpelled) : IsSpelled (memberLoop (readArms r)) := by
  have harms : IsSpelled ((readArms r).flatMap (·.code)) :=
    .flatMap (List.forall_mem_map.2 fun f hf =>
      isSpelled_readArm (h.fields f hf) (h.parts f hf))
  have hbody : IsSpelled (memberBody (readArms r)) := by
    unfold memberBody
    split
    · exact .plain (by decide)
    · refine .append (.append (.append (.plain (by decide)) ?_) (.plain (by decide)))
        (.block (.append harms (.plain (by decide))))
      exact isSpelled_nullGuard (.plain (by decide))
  exact .append (.plain (by decide)) hbody.block

/-! ## Putting a record together -/

theorem isSpelled_ofDefault {field : String} (h : isIdentifier field) :
    IsSpelled (ofDefault field) :=
  .append (.plain (by decide)) (.word h)

/-- The value of a field that was read, or the error that it is missing. -/
theorem isSpelled_ownSource (hname : isIdentifier f.name) : IsSpelled (ownSource r f).code := by
  have hslot : IsSpelled (word f.slot) := .word (isIdentifier_slot hname)
  unfold ownSource
  split
  · exact hslot
  · refine .append (.append (.append hslot (.plain (by decide))) (.parens ?_)) (.plain (by decide))
    exact .append (.plain (by decide))
      (.parens (.append (.append (.literal _) (.plain (by decide))) (.literal _)))

/-- The members of the record have identifiers for names and values that are spelled. -/
theorem isSpelled_memberSources (h : r.IsSpelled) :
    ∀ m ∈ memberSources r, isIdentifier m.1 ∧ IsSpelled m.2.code := by
  unfold memberSources
  split
  · simp only [List.forall_mem_append, List.forall_mem_map]
    refine ⟨fun f hf => ⟨h.fields f hf, isSpelled_ownSource (h.fields f hf)⟩, fun n hn => ?_⟩
    exact ⟨h.skipped n hn, by decide +kernel⟩
  · simp only [List.forall_mem_append, List.forall_mem_map]
    refine ⟨fun f hf => ⟨h.fields f hf, ?_⟩, fun n hn => ?_⟩
    · have hname := h.fields f hf
      have hassigned : IsSpelled (word f.assigned) := .word (isIdentifier_assigned hname)
      exact .append (.append (.append (.append (.plain (by decide)) hassigned)
        (isSpelled_ownSource hname).block) (.plain (by decide))) (isSpelled_ofDefault hname).block
    · exact ⟨h.skipped n hn, isSpelled_ofDefault (h.skipped n hn)⟩

/-- The default that is made in front of the record is spelled. -/
theorem isSpelled_defaultStatement (h : r.IsSpelled) : IsSpelled (defaultStatement r) := by
  have hname : IsSpelled (word r.name) := .word h.name
  unfold defaultStatement
  split
  · next d hd =>
    have hdefault : r.default = some d := by
      unfold usedDefault at hd
      split at hd
      · cases hd
      · exact hd
    -- a call of the trait's function has the name of the record, any other the path that is given
    have hcall : IsSpelled (defaultCall r.name d) := by
      cases d with
      | type => exact .append (.append (.plain (by decide)) hname) (.plain (by decide))
      | function p => exact (h.default p hdefault).append (.plain (by decide))
    exact .append (.append (.append (.append (.plain (by decide)) hname) (.plain (by decide)))
      hcall) (.plain (by decide))
  · exact .nil

/-- The routine that reads a record is read as it is meant. -/
theorem isSpelled_readRoutine (h : r.IsSpelled) : IsSpelled (readRoutine r) := by
  have hname : IsSpelled (word r.name) := .word h.name
  have hhead : IsSpelled (readHead r) := .append (.plain (by decide)) (.resultOf hname.optionOf)
  have hmembers : IsSpelled (recordExpression r) := by
    refine hname.append (.block (.listed (List.forall_mem_map.2 fun m hm => ?_)))
    obtain ⟨hfield, hsource⟩ := isSpelled_memberSources h m hm
    exact .append (.append (.word hfield) (.plain (by decide))) hsource
  have hguard : IsSpelled (nullGuard (verbatim "return" ++ success absent ++ verbatim ";")) :=
    isSpelled_nullGuard
      (.append (.append (.plain (by decide)) (.success .absent)) (.plain (by decide)))
  have hlocals : IsSpelled (r.fields.flatMap (locals r)) :=
    .flatMap fun f hf => isSpelled_locals (h.fields f hf) (h.types f hf)
  have hbody : IsSpelled (readBody r) := by
    refine .append (.append (.append (.append (.append (hguard.append hlocals)
      (.plain (by decide))) (isSpelled_memberLoop h)) (.plain (by decide)))
      (isSpelled_defaultStatement h)) ?_
    exact .success (.present hmembers)
  exact hhead.append hbody.block

/-! ## Adapters -/

/-- Each part belongs to a field. -/
theorem exists_field_of_mem_partsOf {fields : List FieldPlan} {p : Part}
    (h : p ∈ partsOf fields) : ∃ f ∈ fields, p = ⟨f.adapter, f.type⟩ := by
  induction fields using List.reverseRecOn with
  | nil => cases h
  | append_singleton fields f ih =>
    rw [partsOf_append] at h
    have hnew : p ∈ partsOf fields ∨ p = ⟨f.adapter, f.type⟩ := by
      unfold addPart at h
      split at h
      · exact .inl h
      · simpa using h
    obtain hold | rfl := hnew
    · obtain ⟨g, hg, hp⟩ := ih hold
      exact ⟨g, List.mem_append_left _ hg, hp⟩
    · exact ⟨f, by simp, rfl⟩

namespace AdapterCode

variable {u : AdapterCode} (hattributes : IsSpelled u.attributeCode)
  (hvisibility : IsSpelled u.visibility) (h : u.record.IsSpelled)

include h in
/-- Parts have identifiers for names, and their types have such names too. -/
theorem part_named : ∀ p ∈ u.parts, isIdentifier p.name ∧ p.type.IsLexed := by
  intro p hp
  obtain ⟨f, hf, rfl⟩ := exists_field_of_mem_partsOf hp
  exact ⟨isIdentifier_of_isIdentWord (h.parts f hf), h.types f hf⟩

include h in
theorem isSpelled_name : IsSpelled (word u.name) := .word (isIdentifier_adapterTypeName h.name)

include hattributes hvisibility h in
theorem isSpelled_structureCode : IsSpelled u.structureCode := by
  have hdoc (doc : String) : IsSpelled [.group .bracket (verbatim "doc =" ++ literal doc)] :=
    .group .bracket (.append (.plain (by decide)) (.literal doc))
  have hhash : IsSpelled [.punct '#' false] := by decide
  have hparts : IsSpelled (listed (u.parts.map (·.declaration))) :=
    .listed (List.forall_mem_map.2 fun p hp =>
      Part.isSpelled_declaration (part_named h p hp).1 (part_named h p hp).2)
  exact ((((hhash.append ((hdoc _).append hattributes)).append hvisibility).append
    (.plain (by decide))).append (isSpelled_name h)).append hparts.block

include hattributes h in
theorem isSpelled_constructorCode : IsSpelled u.constructorCode := by
  -- the context is named as unused if no part asks it
  have hargument : IsSpelled (word (if u.parts.isEmpty then "_kson" else "kson")) := by
    split <;> exact .word (by decide)
  have hparts : IsSpelled (listed (u.parts.map (·.initial))) :=
    .listed (List.forall_mem_map.2 fun p hp =>
      Part.isSpelled_initial (part_named h p hp).1 (part_named h p hp).2)
  have hconstructor : IsSpelled u.constructor := by
    refine .append (.append (.append (.plain (by decide)) (.parens ?_)) (.plain (by decide)))
      (.block (.append (.plain (by decide)) hparts.block))
    exact hargument.append (.plain (by decide))
  exact ((hattributes.append (.plain (by decide))).append (isSpelled_name h)).append
    hconstructor.block

include hattributes h in
theorem isSpelled_routineCode : IsSpelled u.routineCode :=
  .append (.append (.append (.append (hattributes.append (.plain (by decide))) (.word h.name))
    (.plain (by decide))) (isSpelled_name h))
    (.block ((isSpelled_writeRoutine h).append (isSpelled_readRoutine h)))

include hattributes h in
theorem isSpelled_recordCode : IsSpelled u.recordCode := by
  have hname := isSpelled_name h
  refine ((hattributes.append (.plain (by decide))).append (.word h.name)).append (.block ?_)
  exact .append (.append (.append (.plain (by decide)) hname) (.plain (by decide)))
    (.block (hname.append (.plain (by decide))))

include hattributes hvisibility h in
/-- The written form of an adapter is read as its tokens. -/
theorem isSpelled_items : IsSpelled u.items :=
  (((isSpelled_structureCode hattributes hvisibility h).append
    (isSpelled_constructorCode hattributes h)).append (isSpelled_routineCode hattributes h)).append
      (isSpelled_recordCode hattributes h)

end AdapterCode

/-! ## Factories -/

namespace FactoryCode

variable {u : FactoryCode}

/-- The written form of a factory is read as its tokens. -/
theorem isSpelled_code (hname : isIdentifier u.name) (h : ∀ p ∈ u.entries, IsSpelled p.tokens) :
    IsSpelled u.code := by
  have hword : IsSpelled (word u.name) := .word hname
  -- a lifetime and documentation are no plain text
  have hslice : IsSpelled
      (verbatim "const ENTRIES : & 'static [:: kson :: DispatchEntry] = &") := by
    decide +kernel
  have hserved : IsSpelled
      (verbatim "; # [doc = r\" Served records, in discovery order.\"] pub const TABLE") := by
    decide +kernel
  have hdoc : IsSpelled (verbatim "# [doc = r\" Generated type adapter factory.\"]") := by
    decide +kernel
  have hentries : IsSpelled [.group .bracket (listed (u.entries.map entryCode))] :=
    .group .bracket (.listed (List.forall_mem_map.2 fun p hp =>
      .append (.append (.plain (by decide)) (h p hp)) (.plain (by decide))))
  have htable : IsSpelled u.tableCode :=
    .append (.append hslice (hentries.append hserved)) (.plain (by decide))
  have hcreate : IsSpelled
      (verbatim
          "fn create (& self , kson : & :: kson :: Kson , token : & :: kson :: TypeToken ,)" ++
        verbatim "->" ++ optionOf (verbatim ":: kson :: ErasedAdapter") ++
        verbatim "{ Self :: TABLE . create (kson , token) }") :=
    .append (.append (.append (.plain (by decide)) (.plain (by decide)))
      (.optionOf (.plain (by decide)))) (.plain (by decide))
  have hstructure : IsSpelled
      (verbatim "# [doc = r\" Generated type adapter factory.\"]" ++
        verbatim "# [derive (Clone , Copy , Debug , Default)] pub struct" ++ word u.name ++
        verbatim "; impl" ++ word u.name ++ block u.tableCode) :=
    .append (.append (.append (.append (.append hdoc (.plain (by decide))) hword)
      (.plain (by decide))) hword) htable.block
  exact .append (.append (.append hstructure (.plain (by decide))) hword) hcreate.block

end FactoryCode

end Emit

end JsonAdapters
