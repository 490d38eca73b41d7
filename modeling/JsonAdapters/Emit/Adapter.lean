import JsonAdapters.Emit.Routine

/-!
# Emitted adapters

The adapter of a record is a structure with its parts, a function that makes one, the two
routines, and the statement that it is the adapter of the record. The token of a record names it
and the record that it extends.

## Main definitions

* `Emit.AdapterCode`, `Emit.AdapterCode.items`, `Emit.AdapterCode.code`: the adapter of a record.
* `Emit.tokenCode`: the token of a record.
-/

namespace JsonAdapters.Emit

open Code

/-- The adapter of a record, with attributes for every emitted item. -/
structure AdapterCode where
  record : RecordPlan
  visibility : Visibility
  attributes : List Attribute

namespace AdapterCode

/-- The adapter of a record; it is seen where the record is. -/
def ofRecord (r : RecordPlan) (attributes : List Attribute) : AdapterCode :=
  ⟨r, r.visibility, attributes⟩

def parts (u : AdapterCode) : List Part := partsOf u.record.fields

def name (u : AdapterCode) : String := adapterTypeName u.record.name

def attributeCode (u : AdapterCode) : Tokens := u.attributes.flatMap (·.tokens)

def structureCode (u : AdapterCode) : Tokens :=
  let doc := s!" Generated type adapter for [{codeQuoted u.record.name}]."
  .punct '#' false :: .group .bracket (verbatim "doc =" ++ literal doc) :: u.attributeCode ++
    u.visibility ++ verbatim "struct" ++ word u.name ++
    block (listed (u.parts.map (·.declaration)))

def constructor (u : AdapterCode) : Tokens :=
  let argument := if u.parts.isEmpty then "_kson" else "kson"
  verbatim "# [must_use] pub fn new" ++
    parens (word argument ++ verbatim ": & :: kson :: Kson") ++ verbatim "-> Self" ++
    block (verbatim "Self" ++ block (listed (u.parts.map (·.initial))))

def constructorCode (u : AdapterCode) : Tokens :=
  u.attributeCode ++ verbatim "impl" ++ word u.name ++ block u.constructor

def routineCode (u : AdapterCode) : Tokens :=
  u.attributeCode ++ verbatim "# [automatically_derived] impl :: kson :: TypeAdapter <" ++
    word u.record.name ++ verbatim "> for" ++ word u.name ++
    block (writeRoutine u.record ++ readRoutine u.record)

def recordCode (u : AdapterCode) : Tokens :=
  u.attributeCode ++ verbatim "# [automatically_derived] impl :: kson :: KsonRecord for" ++
    word u.record.name ++
    block
      (verbatim "type Adapter =" ++ word u.name ++
        verbatim "; fn adapter (kson : & :: kson :: Kson) -> Self :: Adapter" ++
        block (word u.name ++ verbatim ":: new (kson)"))

/-- All items of the adapter. -/
def items (u : AdapterCode) : Tokens :=
  u.structureCode ++ u.constructorCode ++ u.routineCode ++ u.recordCode

/-- Code of the adapter, if every part can be named. -/
def code (u : AdapterCode) : Except NotAnIdentifier Tokens := do
  discard <| u.parts.mapM fun p => plainIdentifier p.name
  return u.items

end AdapterCode

/-- Code of the token of a record. -/
def tokenCode (r : RecordPlan) : Tokens :=
  verbatim "# [automatically_derived] impl :: kson :: KsonType for" ++ word r.name ++
    block
      (verbatim "fn type_token () -> :: kson :: TypeToken" ++
        block
          (verbatim ":: kson :: TypeToken :: named :: < Self >" ++ parens (literal r.name) ++
            match r.extending with
            | some p => verbatim ". extends" ++ parens (TokenCode.ownToken p.tokens)
            | none => []))

end JsonAdapters.Emit
