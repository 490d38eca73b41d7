import JsonAdapters.Emit.Part
import JsonAdapters.Proofs.Derive.Agreement
import Mathlib.Data.List.Induction
import Mathlib.Data.List.Nodup

/-!
# Parts and the fields that they serve

The parts of an adapter are named once each, in the order in which fields first ask for them, and a
part has the type of the first field that asks for it. The check of types walks over the fields and
remembers the parts: it compares each field with the first one of its part. Since agreement is an
equivalence, it finds nothing exactly if all fields of one part have types that agree.

## Main definitions

* `firstOfPart?`, `differs`: the first field with a part, and whether its type is another one.
* `shapeFault?`: what is reported about the part of a field.

## Main statements

* `Emit.partsOf_names`: parts stand in the order of first use.
* `Emit.find?_partsOf`: a part has the type of the first field that asks for it.
* `shapeFaults_eq`, `shapeFaults_eq_nil_iff`: what the check of types finds.
* `Emit.part_agrees`: the part of a field has its type.
-/

namespace JsonAdapters

/-! ## Names at their first use -/

section FirstUse

variable {names : List String} {name : String}

/-- A name that was there before adds nothing. -/
theorem eraseDups_concat_of_mem (h : name ∈ names) :
    (names ++ [name]).eraseDups = names.eraseDups := by
  have hgone : [name].removeAll names = [] := List.filter_eq_nil_iff.2 (by simpa using h)
  rw [List.eraseDups_append, hgone, List.eraseDups_nil, List.append_nil]

/-- A new name comes last. -/
theorem eraseDups_concat_of_notMem (h : name ∉ names) :
    (names ++ [name]).eraseDups = names.eraseDups ++ [name] := by
  have hstays : [name].removeAll names = [name] := List.filter_eq_self.2 (by simpa using h)
  rw [List.eraseDups_append, hstays]
  rfl

end FirstUse

namespace Emit

/-! ## Parts -/

/-- The part as an entry of the table of types that are served. -/
def Part.entry (p : Part) : String × FieldType := (p.name, p.type)

variable {ps : List Part} {f : FieldPlan} {fields : List FieldPlan} {name : String}

theorem Part.isNamed_iff {p : Part} : p.isNamed name = true ↔ p.name = name := by simp [isNamed]

/-- A part has a name if the name is one of the parts. -/
theorem any_isNamed_iff : ps.any (·.isNamed name) = true ↔ name ∈ ps.map (·.name) := by
  simp [Part.isNamed]

/-- A part that is found by name has this name. -/
theorem name_of_find? {p : Part} (h : ps.find? (·.isNamed name) = some p) : p.name = name := by
  have hnamed := List.find?_some h
  exact Part.isNamed_iff.1 hnamed

/-- A name for which no part is found is none of the parts. -/
theorem notMem_of_find? (h : ps.find? (·.isNamed name) = none) : name ∉ ps.map (·.name) :=
  fun hmem => by
    obtain ⟨p, hp, hname⟩ := List.mem_map.1 hmem
    exact List.find?_eq_none.1 h p hp (Part.isNamed_iff.2 hname)

/-- Parts are looked up by their names, whatever is kept of them. -/
theorem lookup_parts {α : Type} (kept : Part → α) (ps : List Part) (name : String) :
    (ps.map fun p => (p.name, kept p)).lookup name =
      (ps.find? (·.isNamed name)).map kept := by
  induction ps with
  | nil => rfl
  | cons p ps ih =>
    by_cases h : p.name = name
    · simp [Part.isNamed, h]
    · have hne : name ≠ p.name := Ne.symm h
      simpa [Part.isNamed, h, hne, List.lookup_cons, beq_false_of_ne hne] using ih

/-- Parts are looked up by their names. -/
theorem lookup_entries (ps : List Part) (name : String) :
    (ps.map Part.entry).lookup name = (ps.find? (·.isNamed name)).map (·.type) :=
  lookup_parts (·.type) ps name

/-- A part that was there before is not added. -/
theorem addPart_of_mem (h : f.adapter ∈ ps.map (·.name)) : addPart ps f = ps :=
  if_pos (any_isNamed_iff.2 h)

/-- A new part comes last. -/
theorem addPart_of_notMem (h : f.adapter ∉ ps.map (·.name)) :
    addPart ps f = ps ++ [⟨f.adapter, f.type⟩] :=
  if_neg fun hany => h (any_isNamed_iff.1 hany)

/-- A further field adds at most its part. -/
theorem partsOf_append (fields : List FieldPlan) (f : FieldPlan) :
    partsOf (fields ++ [f]) = addPart (partsOf fields) f := by
  simp [partsOf]

/-- The names of the parts are those that the fields ask for, each at its first use. -/
theorem partsOf_names (fields : List FieldPlan) :
    (partsOf fields).map (·.name) = (fields.map (·.adapter)).eraseDups := by
  induction fields using List.reverseRecOn with
  | nil => rfl
  | append_singleton fields f ih =>
    rw [partsOf_append, List.map_append, List.map_singleton]
    by_cases h : f.adapter ∈ (partsOf fields).map (·.name)
    · have hmem : f.adapter ∈ fields.map (·.adapter) := List.mem_eraseDups.1 (ih ▸ h)
      rw [addPart_of_mem h, eraseDups_concat_of_mem hmem, ih]
    · have hnot : f.adapter ∉ fields.map (·.adapter) := fun hmem =>
        h (ih ▸ List.mem_eraseDups.2 hmem)
      rw [addPart_of_notMem h, List.map_append, List.map_singleton,
        eraseDups_concat_of_notMem hnot, ih]

/-- Parts have different names. -/
theorem partsOf_names_nodup (fields : List FieldPlan) :
    ((partsOf fields).map (·.name)).Nodup := by
  induction fields using List.reverseRecOn with
  | nil => exact List.nodup_nil
  | append_singleton fields f ih =>
    rw [partsOf_append]
    by_cases h : f.adapter ∈ (partsOf fields).map (·.name)
    · rwa [addPart_of_mem h]
    · rw [addPart_of_notMem h, List.map_append, List.nodup_append]
      exact ⟨ih, by simp, fun n hn m hm hnm => h (by simp_all)⟩

/-- Each field has its part. -/
theorem adapter_mem_partsOf (hf : f ∈ fields) : f.adapter ∈ (partsOf fields).map (·.name) := by
  rw [partsOf_names, List.mem_eraseDups]
  exact List.mem_map_of_mem hf

/-! ## Types of parts -/

/-- The check of types remembers the parts. -/
theorem served_serveShape (faults : List FaultReport) (f : FieldPlan) :
    (serveShape (ps.map Part.entry, faults) f).1 = (addPart ps f).map Part.entry := by
  unfold serveShape
  simp only [lookup_entries]
  cases hfind : ps.find? (·.isNamed f.adapter) with
  | none =>
    simp [addPart_of_notMem (notMem_of_find? hfind), Part.entry]
  | some p =>
    have hmem : f.adapter ∈ ps.map (·.name) :=
      List.mem_map.2 ⟨p, List.mem_of_find?_eq_some hfind, name_of_find? hfind⟩
    rw [addPart_of_mem hmem]
    simp only [Option.map_some]
    split <;> rfl

/-- Shapes are served in the order of the parts. -/
theorem served_serveShapes (fields : List FieldPlan) :
    (fields.foldl serveShape ([], [])).1 = (partsOf fields).map Part.entry := by
  induction fields using List.reverseRecOn with
  | nil => rfl
  | append_singleton fields f ih =>
    rw [List.foldl_append, List.foldl_cons, List.foldl_nil, partsOf_append,
      ← served_serveShape (fields.foldl serveShape ([], [])).2 f, ← ih]

/-- A part has the type of the first field that asks for it. -/
theorem find?_partsOf (fields : List FieldPlan) (name : String) :
    (partsOf fields).find? (·.isNamed name) =
      (fields.find? (·.adapter == name)).map fun f => ⟨f.adapter, f.type⟩ := by
  induction fields using List.reverseRecOn with
  | nil => rfl
  | append_singleton fields f ih =>
    rw [partsOf_append, List.find?_append]
    by_cases hmem : f.adapter ∈ (partsOf fields).map (·.name)
    · rw [addPart_of_mem hmem, ih]
      by_cases hname : f.adapter = name
      · cases hfind : fields.find? (·.adapter == name) with
        | some g => rfl
        | none =>
          rw [hfind, Option.map_none] at ih
          exact absurd hmem (hname ▸ notMem_of_find? ih)
      · simp [hname]
    · rw [addPart_of_notMem hmem, List.find?_append, ih, Option.map_or]
      by_cases hname : f.adapter = name <;> simp [Part.isNamed, hname]

end Emit

/-! ## The check of types -/

/-- The first field with the part of the field. -/
def firstOfPart? (fields : List FieldPlan) (f : FieldPlan) : Option FieldPlan :=
  fields.find? (·.adapter == f.adapter)

/-- Whether the type of the field differs from that of the first field with its part. -/
def differs (fields : List FieldPlan) (f : FieldPlan) : Bool :=
  (firstOfPart? fields f).any fun g => !g.type.agrees f.type

/-- What is reported about the part of a field. -/
def shapeFault? (fields : List FieldPlan) (f : FieldPlan) : Option FaultReport :=
  (firstOfPart? fields f).bind fun g =>
    if g.type.agrees f.type then none
    else some (.of (.sharedAdapter f.name f.type.text f.adapter g.type.text))

section Served

open Emit

variable {fields : List FieldPlan} {f g : FieldPlan}

/-- The check of types compares with the first field of the part. -/
theorem lookup_served (fields : List FieldPlan) (f : FieldPlan) :
    (fields.foldl serveShape ([], [])).1.lookup f.adapter =
      (firstOfPart? fields f).map (·.type) := by
  rw [served_serveShapes, lookup_entries, find?_partsOf, Option.map_map, firstOfPart?]
  rfl

/-- A further field adds at most its fault. -/
theorem shapeFaults_append :
    shapeFaults (fields ++ [f]) = shapeFaults fields ++ (shapeFault? fields f).toList := by
  rw [shapeFaults, List.foldl_append, List.foldl_cons, List.foldl_nil, serveShape]
  simp only [lookup_served, shapeFault?]
  cases firstOfPart? fields f with
  | none => simp [shapeFaults]
  | some g =>
    simp only [Option.map_some, Option.bind_some]
    split <;> simp [shapeFaults]

/-- Each part has a first field. -/
theorem isSome_firstOfPart? (hf : f ∈ fields) : (firstOfPart? fields f).isSome := by
  rw [firstOfPart?, List.find?_isSome]
  exact ⟨f, hf, by simp⟩

/-- Fields behind change nothing for a field. -/
theorem firstOfPart?_append (hf : f ∈ fields) :
    firstOfPart? (fields ++ [g]) f = firstOfPart? fields f := by
  have hfound := isSome_firstOfPart? hf
  rw [firstOfPart?, List.find?_append]
  exact Option.or_of_isSome hfound

/-- The last field does not come before itself. -/
theorem shapeFault?_last : shapeFault? (fields ++ [f]) f = shapeFault? fields f := by
  rw [shapeFault?, shapeFault?, firstOfPart?, firstOfPart?, List.find?_append]
  cases List.find? (·.adapter == f.adapter) fields with
  | some g => rfl
  | none => simp [FieldType.agrees_refl]

/-- Each field is compared with the first one of its part. -/
theorem shapeFaults_eq (fields : List FieldPlan) :
    shapeFaults fields = fields.filterMap (shapeFault? fields) := by
  induction fields using List.reverseRecOn with
  | nil => rfl
  | append_singleton fields f ih =>
    have hbefore : fields.filterMap (shapeFault? (fields ++ [f])) =
        fields.filterMap (shapeFault? fields) :=
      List.filterMap_congr fun g hg => by rw [shapeFault?, firstOfPart?_append hg, shapeFault?]
    have hlast : [f].filterMap (shapeFault? (fields ++ [f])) = (shapeFault? fields f).toList := by
      rw [List.filterMap_cons, shapeFault?_last]
      cases shapeFault? fields f <;> rfl
    rw [shapeFaults_append, List.filterMap_append, hbefore, ← ih, hlast]

/-- There is a fault where a field differs from the first one of its part. -/
theorem isSome_shapeFault? : (shapeFault? fields f).isSome = differs fields f := by
  rw [shapeFault?, differs]
  cases firstOfPart? fields f with
  | none => rfl
  | some g => by_cases h : g.type.agrees f.type <;> simp [h]

/-- There is no fault where the types of a part agree. -/
theorem shapeFault?_eq_none_iff : shapeFault? fields f = none ↔
    ∀ g, firstOfPart? fields f = some g → g.type.agrees f.type := by
  rw [shapeFault?]
  cases firstOfPart? fields f with
  | none => simp
  | some g => by_cases h : g.type.agrees f.type <;> simp [h]

/-- No field finds another type in its part exactly if all fields of one part have types that
agree. -/
theorem shapeFaults_eq_nil_iff : shapeFaults fields = [] ↔
    ∀ f ∈ fields, ∀ g ∈ fields, f.adapter = g.adapter → f.type.agrees g.type := by
  rw [shapeFaults_eq, List.filterMap_eq_nil_iff]
  constructor
  · intro h f hf g hg hpart
    obtain ⟨first, hfirst⟩ := Option.isSome_iff_exists.1 (isSome_firstOfPart? hf)
    have hsame : firstOfPart? fields g = some first := by
      rwa [firstOfPart?, ← hpart]
    have hf' := shapeFault?_eq_none_iff.1 (h f hf) first hfirst
    have hg' := shapeFault?_eq_none_iff.1 (h g hg) first hsame
    exact FieldType.agrees_trans (FieldType.agrees_symm hf') hg'
  · intro h f hf
    refine shapeFault?_eq_none_iff.2 fun first hfirst => ?_
    have hpart : first.adapter = f.adapter := by simpa using List.find?_some hfirst
    exact h first (List.mem_of_find?_eq_some hfirst) f hf hpart

/-- When the check of types finds no fault, each field finds a part of its own type. -/
theorem Emit.part_agrees (h : shapeFaults fields = []) : ∀ f ∈ fields,
    ∃ p, (partsOf fields).find? (·.isNamed f.adapter) = some p ∧ p.type.agrees f.type = true := by
  intro f hf
  rw [shapeFaults_eq, List.filterMap_eq_nil_iff] at h
  obtain ⟨first, hfirst⟩ := Option.isSome_iff_exists.1 (isSome_firstOfPart? hf)
  refine ⟨⟨first.adapter, first.type⟩, ?_, shapeFault?_eq_none_iff.1 (h f hf) first hfirst⟩
  rw [firstOfPart?] at hfirst
  rw [find?_partsOf, hfirst]
  rfl

end Served

end JsonAdapters
