import JsonAdapters.Type.Basic
import JsonAdapters.Value

/-!
# Record types

A record is written as an object with one member for each of its fields. A field has one key under
which it is written, and more keys under which it is read. Fields may be skipped, and absent fields
may be taken from a default instance.

## Main definitions

* `Field`, `SkippedField`, `Record`, `Schema`.
* `Record.slots`: the distinct types whose adapters a record needs.
* `Schema.token`: the token of a record type, which lists all records that it extends.
* `Ty.token`: the token of a type.

## Design notes

The token of a record asks for the token of the record that it extends. Nothing keeps records from
extending themselves, directly or through others, and then the computation of their tokens never
ends. Tokens are therefore optional: `none` stands for a computation without end.
-/

namespace JsonAdapters

/-- A field that is read and written. -/
structure Field where
  /-- Name of the field in the record. -/
  name : String
  /-- Name of the member that is written. -/
  key : String
  /-- Further names that are read. -/
  aliases : List String := []
  /-- Type of the member. -/
  type : Ty
  /-- Whether the field is optional: it holds a value of the type or nothing. -/
  nullable : Bool := false
deriving DecidableEq, Repr

def Field.keys (f : Field) : List String := f.key :: f.aliases

def Field.declared (f : Field) : Ty := if f.nullable then .option f.type else f.type

/-- A field that is neither read nor written. -/
structure SkippedField where
  name : String
  type : Ty
  /-- The value that reading gives it when there is no default instance. -/
  initial : Value
deriving Repr

/-- An instance from which absent fields are taken. -/
structure DefaultInstance where
  fields : List Value
  skipped : List Value
deriving Repr

/-- A record type. Fields without content are left out. -/
structure Record where
  id : RecordId
  fields : List Field
  skipped : List SkippedField := []
  default : Option DefaultInstance := none
  /-- The record that this one extends. -/
  parent : Option RecordId := none
deriving Repr

/-- The distinct types whose adapters a record needs, in order of first use. -/
def Record.slots (r : Record) : List Ty :=
  r.fields.foldl (fun ts f => if f.type ∈ ts then ts else ts ++ [f.type]) []

/-- The position of the field that a member name addresses. -/
def Record.fieldIndex? (r : Record) (name : String) : Option Nat :=
  r.fields.findIdx? fun f => name ∈ f.keys

/-- The record types that exist. -/
structure Schema where
  records : List Record
deriving Repr

namespace Schema

def find? (s : Schema) (id : RecordId) : Option Record :=
  s.records.find? fun r => r.id = id

/-- A record is found under its name when no two records have the same name. -/
theorem find?_of_mem {s : Schema} {r : Record} (hs : (s.records.map (·.id)).Nodup)
    (hr : r ∈ s.records) : s.find? r.id = some r := by
  obtain ⟨records⟩ := s
  change records.find? _ = _
  induction records with
  | nil => cases hr
  | cons r' rs ih =>
    obtain ⟨hfirst, hrest⟩ := List.nodup_cons.1 hs
    obtain rfl | hr := List.mem_cons.1 hr
    · exact List.find?_cons_of_pos (decide_eq_true rfl)
    · have hne : r'.id ≠ r.id := fun h => hfirst (List.mem_map.2 ⟨r, hr, h.symm⟩)
      rw [List.find?_cons_of_neg (by simpa using hne)]
      exact ih hrest hr

def parent? (s : Schema) (id : RecordId) : Option RecordId :=
  (s.find? id).bind (·.parent)

/-- The token of a record: its own name, extended by the token of its parent. There is none if calls
would be nested deeper than the bound. -/
def tokenWithin (s : Schema) : Nat → RecordId → Option (TypeToken Ty)
  | 0, _ => none
  | n + 1, id =>
    match s.parent? id with
    | none => some (.named (.record id) id.ident)
    | some p => (s.tokenWithin n p).map (TypeToken.named (.record id) id.ident).extending

/-- Token of a record type, and `none` if it has no end. A chain of parents without repetition is no
longer than the schema, so that deeper calls never come to an end. -/
def token (s : Schema) (id : RecordId) : Option (TypeToken Ty) :=
  s.tokenWithin (s.records.length + 1) id

end Schema

def Scalar.token (c : Scalar) : TypeToken Ty :=
  .named (.scalar c) (TypeToken.shortName c.path)

/-- Token of a type, and `none` if that of a record within it has no end. -/
def Ty.token (s : Schema) : Ty → Option (TypeToken Ty)
  | .scalar c => some c.token
  | .vec t => do return .applied (.vec t) "Vec" [← t.token s]
  | .option t => do return .applied (.option t) "Option" [← t.token s]
  | .box t => do return .applied (.box t) "Box" [← t.token s]
  | .hashMap t => do return .applied (.hashMap t) "HashMap" [Scalar.string.token, ← t.token s]
  | .treeMap t => do return .applied (.treeMap t) "BTreeMap" [Scalar.string.token, ← t.token s]
  | .record id => s.token id

end JsonAdapters
