import JsonAdapters.Derive.FieldType
import JsonAdapters.Derive.GeneratedName
import JsonAdapters.Derive.Settings

/-!
# Record declarations

A record is a declared structure with named fields, read with its settings and checked: each key
belongs to one place of one field, and each name of a part stands for one type. All faults are
reported together.

## Main definitions

* `FieldPlan`: a field that is read and written; `FieldPlan.keys`.
* `RecordPlan`, `RecordPlan.ofDeclaration`: a checked record.
* `keyFaults`, `shapeFaults`: what the checks find.
-/

namespace JsonAdapters

open Code

/-! ## Fields -/

/-- A field that is read and written. -/
structure FieldPlan where
  name : String
  key : String
  aliases : List String
  /-- The type without the option that makes it nullable. -/
  type : FieldType
  nullable : Bool

namespace FieldPlan

/-- A field of the given type and settings; an option makes it nullable. -/
def ofSettings (name : String) (s : FieldSettings) (t : FieldType) : FieldPlan :=
  { name := name
    key := s.rename.getD (unmarked name)
    aliases := s.aliases
    type := t.optional?.getD t
    nullable := t.optional?.isSome }

/-- All keys under which the field is read, the written one first. -/
def keys (f : FieldPlan) : List String := f.key :: f.aliases

/-- Name of the part of the adapter that serves the field. -/
def adapter (f : FieldPlan) : String := f.type.adapterName

/-- Local variable that holds the value while an object is read. -/
def slot (f : FieldPlan) : String := "slot_" ++ unmarked f.name

/-- Local variable that tells whether the key was present. -/
def assigned (f : FieldPlan) : String := "assigned_" ++ unmarked f.name

end FieldPlan

/-! ## Checks -/

/-- Who holds a key: the field that was last given it. -/
abbrev KeyOwners := List (String × String)

/-- Give a key to a field, with the fault if another place has it. -/
def claimKey (field : String) (state : KeyOwners × List FaultReport) (key : String) :
    KeyOwners × List FaultReport :=
  let (owners, faults) := state
  let owners' := (key, field) :: owners
  match owners.lookup key with
  | some owner => (owners', faults ++ [.of (.sharedKey key field owner)])
  | none => (owners', faults)

def keyFaults (fields : List FieldPlan) : List FaultReport :=
  (fields.foldl (fun state f => f.keys.foldl (claimKey f.name) state) ([], [])).2

/-- The first type under a name of a part serves it. -/
def serveShape (state : List (String × FieldType) × List FaultReport) (f : FieldPlan) :
    List (String × FieldType) × List FaultReport :=
  let (served, faults) := state
  match served.lookup f.adapter with
  | some t =>
    if t.agrees f.type then (served, faults)
    else (served, faults ++ [.of (.sharedAdapter f.name f.type.text f.adapter t.text)])
  | none => (served ++ [(f.adapter, f.type)], faults)

/-- The fields whose part already serves another type. -/
def shapeFaults (fields : List FieldPlan) : List FaultReport :=
  (fields.foldl serveShape ([], [])).2

/-! ## Records -/

/-- A record that is read and written. -/
structure RecordPlan where
  name : String
  visibility : Visibility
  /-- Names of the modules around the record, from the root on. -/
  module : List String
  fields : List FieldPlan
  /-- Fields that are neither read nor written. -/
  skipped : List String
  default : Option DefaultSource
  extending : Option Path

/-- A path in which a leading `Self` is the record. -/
def withoutSelf (record : String) : Path → Path
  | .mk absolute (s :: ss) =>
    .mk absolute ((if s.name = "Self" then s.rename record else s) :: ss)
  | p => p

/-- A default in which a leading `Self` is the record. -/
def DefaultSource.inRecord (record : String) : DefaultSource → DefaultSource
  | .type => .type
  | .function p => .function (withoutSelf record p)

/-- What a field of a declaration becomes: a field of the record, or nothing if it is skipped. -/
def planField (record : String) (d : FieldDecl) (s : FieldSettings) :
    Except FaultReport (Option FieldPlan) :=
  if s.skip then .ok none
  else do
    let t ← FieldType.ofTypeExpr record d.type
    return if t.marksOnly then none else some (.ofSettings d.name s t)

/-- Fields of the record and skipped fields, with the faults found on the way. -/
def planFields (record : String) : List (FieldDecl × FieldSettings) →
    List FieldPlan × List String × List FaultReport
  | [] => ([], [], [])
  | (d, s) :: rest =>
    let (fields, skipped, faults) := planFields record rest
    match planField record d s with
    | .ok (some f) => (f :: fields, skipped, faults)
    | .ok none => (fields, d.name :: skipped, faults)
    | .error e => (fields, skipped, e :: faults)

/-- Settings of all fields, or what is wrong with them. -/
def settingsOfFields (ds : List FieldDecl) :
    Except FaultReport (List (FieldDecl × FieldSettings)) :=
  let readings := ds.map fun d => (d, fieldSettings d.attributes)
  Report.check
    (readings.filterMap fun (d, r) => (Report.collect r.faults).map (·.under d.name))
    (readings.map fun (d, r) => (d, r.settings))

/-- The named fields of a declaration, with their settings. -/
def fieldsOfShape : Shape → Except FaultReport (List (FieldDecl × FieldSettings))
  | .named ds => settingsOfFields ds
  | .unit => .error (.of (.notNamedFields "no fields"))
  | .unnamed 1 => .error (.of (.notNamedFields "one unnamed field"))
  | .unnamed _ => .error (.of (.notNamedFields "unnamed fields"))
  | .enumeration => .error (.of (.notAStruct "enum"))
  | .union => .error (.of (.notAStruct "union"))

namespace RecordPlan

/-- The record that a declaration declares, if nothing is wrong with it. -/
def ofDeclaration (d : Declaration) : Except FaultReport RecordPlan := do
  let settings := recordSettings d.attributes
  let found := fieldsOfShape d.shape
  let fields ←
    match found with
    | .ok fs => Report.check settings.faults fs
    | .error e => (Report.check (settings.faults ++ [e]) [])
  let (plans, skipped, faults) := planFields d.name fields
  let checks := (Report.collect (keyFaults plans ++ shapeFaults plans)).toList
  Report.check ((if d.generic then [.of .generic] else []) ++ faults ++ checks)
    { name := d.name
      visibility := d.visibility
      module := []
      fields := plans
      skipped := skipped
      default := settings.settings.default.map (·.inRecord d.name)
      extending := settings.settings.extending }

def placedIn (r : RecordPlan) (module : List String) : RecordPlan := { r with module := module }

def fullPath (r : RecordPlan) : Except NotAnIdentifier Path := do
  let module ← r.module.mapM identifier
  return .mk false (("crate" :: module ++ [r.name]).map .plain)

def shownPath (r : RecordPlan) : String := "::".intercalate (r.module ++ [r.name])

end RecordPlan

end JsonAdapters
