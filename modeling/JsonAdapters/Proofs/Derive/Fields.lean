import JsonAdapters.Proofs.Derive.Keys
import JsonAdapters.Proofs.Outcome
import Mathlib.Tactic.Common

/-!
# Fields of declarations

Each field of a declaration is read on its own: it becomes a field of the record, or it is skipped,
or its type is none that fields can have. What a declaration whose settings are understood comes to
is decided by its fields one by one, and by the checks of all fields together.

## Main definitions

* `Code.FieldDecl.settings`: the settings of a field.
* `plannedField?`, `skippedField?`, `fieldFault?`: what a field becomes.
* `Code.Declaration.Understood`: nothing is wrong with the settings of a declaration.
* `Code.Declaration.plan`, `Code.Declaration.faults`: its record, and all that is wrong with it.

## Main statements

* `planFields_eq`: the fields of a declaration are read one by one.
* `ofDeclaration_of_understood`: a declaration whose settings are understood is accepted if nothing
  else is wrong with it.
* `ofDeclaration_eq_ok_iff`: which declarations are accepted.
-/

namespace JsonAdapters

open Code Outcome

variable {record : String} {d : Declaration} {ds : List FieldDecl} {r : RecordPlan}

/-! ## Single fields -/

/-- The settings of a field. -/
def Code.FieldDecl.settings (x : FieldDecl) : FieldSettings := (fieldSettings x.attributes).settings

/-- The field of a record that a declared field becomes, if it is neither skipped nor one that only
marks, and has a type that fields can have. -/
def plannedField? (record : String) (x : FieldDecl) : Option FieldPlan :=
  if x.settings.skip then none
  else
    match FieldType.ofTypeExpr record x.type with
    | .ok t => if t.marksOnly then none else some (.ofSettings x.name x.settings t)
    | .error _ => none

/-- The name of a field that is neither read nor written. -/
def skippedField? (record : String) (x : FieldDecl) : Option String :=
  if x.settings.skip then some x.name
  else
    match FieldType.ofTypeExpr record x.type with
    | .ok t => if t.marksOnly then some x.name else none
    | .error _ => none

/-- What is wrong with the type of a field that is not skipped. -/
def fieldFault? (record : String) (x : FieldDecl) : Option FaultReport :=
  if x.settings.skip then none
  else
    match FieldType.ofTypeExpr record x.type with
    | .ok _ => none
    | .error e => some e

/-- The fields of a declaration are read one by one. -/
theorem planFields_eq (record : String) (ds : List FieldDecl) :
    planFields record (ds.map fun x => (x, x.settings)) =
      (ds.filterMap (plannedField? record), ds.filterMap (skippedField? record),
        ds.filterMap (fieldFault? record)) := by
  induction ds with
  | nil => rfl
  | cons x ds ih =>
    rw [List.map_cons, planFields, ih]
    simp only [List.filterMap_cons, plannedField?, skippedField?, fieldFault?, planField]
    by_cases hskip : x.settings.skip
    · simp only [if_pos hskip]
    · simp only [if_neg hskip]
      cases FieldType.ofTypeExpr record x.type with
      | error e => rfl
      | ok t =>
        simp only [Bind.bind, Except.bind, Pure.pure, Except.pure]
        by_cases hmarks : t.marksOnly <;> simp [hmarks]

variable {x : FieldDecl} {f : FieldPlan} {e : FaultReport}

/-- A field of a record has the type that is declared for it. -/
theorem plannedField?_eq_some (h : plannedField? record x = some f) :
    ∃ t, FieldType.ofTypeExpr record x.type = .ok t ∧ f = .ofSettings x.name x.settings t := by
  rw [plannedField?] at h
  split at h
  · cases h
  split at h
  · next t ht =>
    split at h
    · cases h
    · exact ⟨t, ht, (Option.some.inj h).symm⟩
  · cases h

theorem fieldFault?_eq_none_iff : fieldFault? record x = none ↔
    (¬x.settings.skip → ∃ t, FieldType.ofTypeExpr record x.type = .ok t) := by
  rw [fieldFault?]
  by_cases hskip : x.settings.skip
  · simp [hskip]
  · cases FieldType.ofTypeExpr record x.type <;> simp [hskip]

theorem fieldFault?_eq_some_iff : fieldFault? record x = some e ↔
    ¬x.settings.skip ∧ FieldType.ofTypeExpr record x.type = .error e := by
  rw [fieldFault?]
  by_cases hskip : x.settings.skip
  · simp [hskip]
  · cases FieldType.ofTypeExpr record x.type <;> simp [hskip]

/-- A field that is understood and no field of the record is skipped. -/
theorem skippedField?_eq_some (hplanned : plannedField? record x = none)
    (hfault : fieldFault? record x = none) : skippedField? record x = some x.name := by
  rw [plannedField?] at hplanned
  rw [skippedField?]
  by_cases hskip : x.settings.skip
  · rw [if_pos hskip]
  obtain ⟨t, ht⟩ := fieldFault?_eq_none_iff.1 hfault hskip
  rw [if_neg hskip, ht] at hplanned ⊢
  by_cases hmarks : t.marksOnly
  · exact if_pos hmarks
  · simp [hmarks] at hplanned

/-! ## Settings -/

/-- Nothing is wrong with the settings of a declaration with the given named fields. -/
structure Code.Declaration.Understood (d : Declaration) (ds : List FieldDecl) : Prop where
  shape : d.shape = .named ds
  record : (recordSettings d.attributes).faults = []
  fields : ∀ f ∈ ds, (fieldSettings f.attributes).faults = []

theorem settingsOfFields_eq_ok {fs : List (FieldDecl × FieldSettings)} :
    settingsOfFields ds = .ok fs ↔
      (∀ f ∈ ds, (fieldSettings f.attributes).faults = []) ∧
        ds.map (fun f => (f, f.settings)) = fs := by
  rw [settingsOfFields, Report.check_eq_ok, List.filterMap_eq_nil_iff, List.forall_mem_map,
    List.map_map]
  refine and_congr_left' (forall₂_congr fun f _ => ?_)
  rw [Option.map_eq_none_iff, ← Option.toList_eq_nil_iff, Report.collect_toList_eq_nil]

theorem fieldsOfShape_eq_ok {shape : Shape} {fs : List (FieldDecl × FieldSettings)} :
    fieldsOfShape shape = .ok fs ↔ ∃ ds, shape = .named ds ∧ settingsOfFields ds = .ok fs := by
  constructor
  · intro h
    cases shape with
    | named ds => exact ⟨ds, rfl, h⟩
    | unnamed n =>
      unfold fieldsOfShape at h
      split at h <;> simp_all
    | _ => cases h
  · rintro ⟨ds, rfl, h⟩
    exact h

/-! ## Declarations -/

namespace Code.Declaration

/-- The record of a declaration with the given named fields. -/
def plan (d : Declaration) (ds : List FieldDecl) : RecordPlan where
  name := d.name
  visibility := d.visibility
  module := []
  fields := ds.filterMap (plannedField? d.name)
  skipped := ds.filterMap (skippedField? d.name)
  default := (recordSettings d.attributes).settings.default.map (·.inRecord d.name)
  extending := (recordSettings d.attributes).settings.extending

/-- What the checks of all fields find. -/
def checkFaults (fields : List FieldPlan) : List FaultReport :=
  (Report.collect (keyFaults fields ++ shapeFaults fields)).toList

/-- All that is wrong with a declaration with the given named fields, whose settings are
understood. -/
def faults (d : Declaration) (ds : List FieldDecl) : List FaultReport :=
  (if d.generic then [.of .generic] else []) ++ ds.filterMap (fieldFault? d.name) ++
    checkFaults (d.plan ds).fields

end Code.Declaration

/-- A declaration whose settings are understood is accepted if nothing else is wrong with it. -/
theorem ofDeclaration_of_understood (h : d.Understood ds) :
    RecordPlan.ofDeclaration d = Report.check (d.faults ds) (d.plan ds) := by
  have hfields : fieldsOfShape d.shape = .ok (ds.map fun f => (f, f.settings)) :=
    fieldsOfShape_eq_ok.2 ⟨ds, h.shape, settingsOfFields_eq_ok.2 ⟨h.fields, rfl⟩⟩
  have hchecked {α : Type} (a : α) :
      Report.check (recordSettings d.attributes).faults a = .ok a :=
    Report.check_eq_ok.2 ⟨h.record, rfl⟩
  unfold RecordPlan.ofDeclaration
  simp only [hfields, hchecked]
  change Report.check _ _ = _
  rw [planFields_eq]
  rfl

/-- The accepted declarations are those with named fields and understood settings with which
nothing else is wrong. -/
theorem ofDeclaration_eq_ok_iff : RecordPlan.ofDeclaration d = .ok r ↔
    ∃ ds, d.Understood ds ∧ d.faults ds = [] ∧ d.plan ds = r := by
  constructor
  · intro h
    have hunderstood : ∃ ds, d.Understood ds := by
      obtain ⟨fs, hfs, -⟩ := RecordPlan.ofDeclaration_eq_ok h
      obtain ⟨ds, hshape, hds⟩ := fieldsOfShape_eq_ok.1 hfs
      refine ⟨ds, hshape, ?_, (settingsOfFields_eq_ok.1 hds).1⟩
      unfold RecordPlan.ofDeclaration at h
      simp only [hfs] at h
      exact (Report.check_bind_eq_ok.1 h).1
    obtain ⟨ds, hds⟩ := hunderstood
    rw [ofDeclaration_of_understood hds, Report.check_eq_ok] at h
    exact ⟨ds, hds, h⟩
  · rintro ⟨ds, hds, h⟩
    rw [ofDeclaration_of_understood hds]
    exact Report.check_eq_ok.2 h

end JsonAdapters
