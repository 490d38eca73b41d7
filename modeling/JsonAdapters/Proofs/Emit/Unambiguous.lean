import JsonAdapters.Proofs.Derive.Keys
import JsonAdapters.Proofs.Derive.TypeGrammar
import JsonAdapters.Proofs.Emit.Contents
import JsonAdapters.Proofs.Emit.Parts

/-!
# Unambiguous adapters

The adapter of an accepted record cannot mix up its fields. This is stated of what the emitted code
says. Each key of a field is a pattern of one arm only, and what this arm reads ends up in that
field; so what is written for a field is read into it again. The parts of the adapter are named once
each, and the part of a field has the field's type, although names of parts forget the modules of
types: the check of a declaration compares each field with the first one of its part, whose type the
part has.

## Main definitions

* `Emit.takingArm?`: the arm that reads a member of some name.
* `Emit.Contents.Unambiguous`: what the code of an adapter fulfils.

## Main statements

* `Emit.takingArm?_of_nodup`: a key is taken by the arm of its field.
* `Emit.Contents.unambiguous_ofRecord`: what the code of an adapter is meant to say is unambiguous.
* `RecordPlan.unambiguous_of_accepted`: the code of adapters of accepted records says such things.
-/

namespace JsonAdapters

namespace Emit

open Code

/-! ## Arms -/

/-- Position of the arm that reads a member of some name: the first one that has the name. -/
def takingArm? (arms : List ReadArm) (name : String) : Option Nat :=
  arms.findIdx? (·.keys.contains name)

/-- The variable that a value comes from, if it is not only one of a default instance. -/
def MemberSource.slot? : MemberSource → Option String
  | required slot _ _ | optional slot => some slot
  | ifAssigned _ source _ => source.slot?
  | fromDefault _ | empty => none

/-- The code of an adapter keeps the fields apart. -/
structure Contents.Unambiguous (c : Contents) (fields : List FieldPlan) : Prop where
  /-- Each key stands in one place of all arms. -/
  key_once : ∀ f ∈ fields, ∀ key ∈ f.keys, (c.reading.arms.flatMap (·.keys)).count key = 1
  /-- There are no arms and no members to be written besides those of the fields. -/
  arms_length : c.reading.arms.length = fields.length
  steps_length : c.steps.length = fields.length
  /-- A member that has a key of a field is read by the arm of the field, with its part, into a
  variable of its type, from which the field is taken. -/
  key_arm : ∀ (i : Nat) (f : FieldPlan), fields[i]? = some f → ∃ arm source,
    c.reading.arms[i]? = some arm ∧ arm.keys = f.keys ∧ arm.part = f.adapter ∧
      (∀ key ∈ f.keys, takingArm? c.reading.arms key = some i) ∧
      (arm.slot, some f.type.tokens) ∈ c.reading.locals ∧
      c.reading.members[i]? = some (f.name, source) ∧ source.slot? = some arm.slot
  /-- The name that is written for a field is read by the arm of the field. -/
  written_arm : ∀ (i : Nat) (f : FieldPlan), fields[i]? = some f → ∃ step,
    c.steps[i]? = some step ∧ step.field = f.name ∧ step.part = f.adapter ∧
      takingArm? c.reading.arms step.key = some i
  /-- The parts are those that fields ask for, in the order of first use. -/
  parts_first_use : c.declared.map (·.1) = (fields.map (·.adapter)).eraseDups
  parts_nodup : (c.declared.map (·.1)).Nodup
  parts_made : c.made.map (·.1) = c.declared.map (·.1)
  /-- Each part that is used to write is there. -/
  written_part : ∀ step ∈ c.steps, step.part ∈ c.declared.map (·.1)
  /-- Each part that is used to read is there. -/
  read_part : ∀ arm ∈ c.reading.arms, arm.part ∈ c.declared.map (·.1)
  /-- The part of a field has the type of the field. -/
  part_type : ∀ f ∈ fields, ∃ type : FieldType,
    c.declared.lookup f.adapter = some type.tokens ∧ type.agrees f.type = true

variable {r : RecordPlan}

theorem keys_readArms (r : RecordPlan) :
    (readArms r).flatMap (·.keys) = r.fields.flatMap (·.keys) := by
  rw [readArms, List.flatMap_map]
  rfl

/-- A key is taken by the arm of its field when no other field has it. -/
theorem takingArm?_of_nodup (h : (r.fields.flatMap (·.keys)).Nodup) {i : Nat} {f : FieldPlan}
    (hf : r.fields[i]? = some f) {key : String} (hkey : key ∈ f.keys) :
    takingArm? (readArms r) key = some i := by
  obtain ⟨hi, rfl⟩ := List.getElem?_eq_some_iff.1 hf
  have hdisjoint := List.pairwise_iff_getElem.1 (List.nodup_flatMap.1 h).2
  rw [takingArm?, List.findIdx?_eq_some_iff_getElem]
  refine ⟨by simpa [readArms] using hi, ?_, fun j hji htakes => ?_⟩
  · simpa [readArms, ReadArm.ofField] using hkey
  · have hj : key ∈ r.fields[j].keys := by simpa [readArms, ReadArm.ofField] using htakes
    exact hdisjoint j i (by omega) hi hji hj hkey

/-- Each field is taken from the variable that its arm reads into. -/
theorem member_of_field {i : Nat} {f : FieldPlan} (hf : r.fields[i]? = some f) :
    ∃ source, (memberSources r)[i]? = some (f.name, source) ∧ source.slot? = some f.slot := by
  obtain ⟨hi, rfl⟩ := List.getElem?_eq_some_iff.1 hf
  generalize hfield : r.fields[i] = f
  have hown : (ownSource r f).slot? = some f.slot := by
    unfold ownSource
    split <;> rfl
  unfold memberSources
  split
  · exact ⟨ownSource r f, by simp [List.getElem?_append_left, hi, hfield], hown⟩
  · exact ⟨.ifAssigned f.assigned (ownSource r f) f.name,
      by simp [List.getElem?_append_left, hi, hfield], hown⟩

/-- The code keeps the fields apart when no key stands twice and all fields of one part have types
that agree. -/
theorem Contents.unambiguous_ofRecord (hkeys : (r.fields.flatMap (·.keys)).Nodup)
    (hshapes : shapeFaults r.fields = []) : (Contents.ofRecord r).Unambiguous r.fields where
  key_once f hf key hkey := by
    have hmem : key ∈ r.fields.flatMap (·.keys) := List.mem_flatMap.2 ⟨f, hf, hkey⟩
    simpa [ofRecord, Reading.ofRecord, keys_readArms] using List.count_eq_one_of_mem hkeys hmem
  arms_length := by simp [ofRecord, Reading.ofRecord, readArms]
  steps_length := by simp [ofRecord, writeSteps]
  key_arm i f hf := by
    obtain ⟨source, hsource, hslot⟩ := member_of_field hf
    have hlocal : (f.slot, some f.type.tokens) ∈ r.fields.flatMap (localsOf r) :=
      List.mem_flatMap.2 ⟨f, List.mem_of_getElem? hf, List.mem_cons_self⟩
    exact ⟨.ofField r f, source, by simp [ofRecord, Reading.ofRecord, readArms, hf], rfl, rfl,
      fun key hkey => takingArm?_of_nodup hkeys hf hkey, hlocal, hsource, hslot⟩
  written_arm i f hf := ⟨.ofField f, by simp [ofRecord, writeSteps, hf], rfl, rfl,
    takingArm?_of_nodup hkeys hf List.mem_cons_self⟩
  parts_first_use := by
    rw [← partsOf_names]
    simp [ofRecord, Function.comp_def]
  parts_nodup := by
    simpa [ofRecord, Function.comp_def] using partsOf_names_nodup r.fields
  parts_made := by simp [ofRecord, Function.comp_def]
  written_part step hstep := by
    obtain ⟨f, hf, rfl⟩ := List.mem_map.1 hstep
    simpa [ofRecord, WriteStep.ofField] using adapter_mem_partsOf hf
  read_part arm harm := by
    obtain ⟨f, hf, rfl⟩ := List.mem_map.1 harm
    simpa [ofRecord, ReadArm.ofField] using adapter_mem_partsOf hf
  part_type f hf := by
    obtain ⟨part, hpart, hagrees⟩ := part_agrees hshapes f hf
    exact ⟨part.type, by simp [ofRecord, lookup_parts, hpart], hagrees⟩

end Emit

/-- The adapter of an accepted record is unambiguous, wherever it is emitted: its code can be read
again, and no key and no part of a field is taken for that of another one. -/
theorem RecordPlan.unambiguous_of_accepted {d : Code.Declaration} {r : RecordPlan}
    (h : RecordPlan.ofDeclaration d = .ok r) (module : List String)
    (visibility : Code.Visibility) (attributes : List Code.Attribute) :
    ∃ c, Emit.Contents.ofTokens?
        (Emit.AdapterCode.mk (r.placedIn module) visibility attributes).items = some c ∧
      c.Unambiguous r.fields := by
  obtain ⟨_, _, _, _, hshapes⟩ := ofDeclaration_eq_ok h
  refine ⟨.ofRecord (r.placedIn module), Emit.AdapterCode.ofTokens?_items _, ?_⟩
  have hkeys : (r.fields.flatMap (·.keys)).Nodup := nodup_keys_of_accepted h
  exact Emit.Contents.unambiguous_ofRecord hkeys hshapes

namespace Samples

open Code

/-- Four fields, of which the first has two keys; two fields each ask for one part, in different
spellings. -/
def sharingDeclaration : Declaration where
  attributes := []
  visibility := []
  name := "Sharing"
  generic := false
  shape := .named [
    { attributes := [{
        path := .ofName "kson"
        body := .list .paren [.ident "rename", .punct '=' false, .literal "\"idVal\"",
          .punct ',' false, .ident "alias", .punct '=' false, .literal "\"id\""] }]
      name := "key"
      type := namedType ["String"] },
    { attributes := [], name := "note", type := .path (.mk false
        [.applied "Option" false [.type (namedType ["std", "string", "String"])] false]) },
    { attributes := [], name := "tags", type := .path (.mk false
        [.applied "Vec" false [.type (namedType ["String"])] false]) },
    { attributes := [], name := "old", type := .path (.mk false [.plain "std", .plain "vec",
        .applied "Vec" false [.type (namedType ["std", "string", "String"])] false]) }]

def shortText : FieldType := .simple ⟨false, ["String"]⟩

def longText : FieldType := .simple ⟨false, ["std", "string", "String"]⟩

def sharing : RecordPlan where
  name := "Sharing"
  visibility := []
  module := []
  fields := [
    { name := "key", key := "idVal", aliases := ["id"], type := shortText, nullable := false },
    { name := "note", key := "note", aliases := [], type := longText, nullable := true },
    { name := "tags", key := "tags", aliases := [], type := .applied ⟨false, ["Vec"]⟩ [shortText],
      nullable := false },
    { name := "old", key := "old", aliases := [],
      type := .applied ⟨false, ["std", "vec", "Vec"]⟩ [longText], nullable := false }]
  skipped := []
  default := none
  extending := none

/-- Four fields share two parts, and an alias leads to the arm of its field. -/
theorem unambiguous_sharing :
    RecordPlan.ofDeclaration sharingDeclaration = .ok sharing ∧
      ∃ c, Emit.Contents.ofTokens? (Emit.AdapterCode.ofRecord sharing []).items = some c ∧
        c.Unambiguous sharing.fields ∧ Emit.takingArm? c.reading.arms "id" = some 0 ∧
        c.declared.map (·.1) = ["string_adapter", "vec_string_adapter"] := by
  have haccepted : RecordPlan.ofDeclaration sharingDeclaration = .ok sharing := rfl
  obtain ⟨c, hc, hunambiguous⟩ := RecordPlan.unambiguous_of_accepted haccepted [] [] []
  refine ⟨haccepted, c, hc, hunambiguous, ?_, ?_⟩
  · obtain ⟨arm, source, -, -, -, htakes, -, -⟩ := hunambiguous.key_arm 0 _ rfl
    exact htakes "id" (by decide)
  · rw [hunambiguous.parts_first_use]
    decide

end Samples

end JsonAdapters
