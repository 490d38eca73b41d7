import JsonAdapters.Emit.Part

/-!
# Routines of emitted adapters

An emitted adapter writes the fields of a record as members, and reads the members of an object
into local variables from which the record is put together.

## Main definitions

* `Emit.WriteStep`, `Emit.writeRoutine`: what is written for each field.
* `Emit.ReadArm`, `Emit.readRoutine`: which keys are read into which variable by which part.
* `Emit.MemberSource`: where a field of the record that was read comes from.
-/

namespace JsonAdapters.Emit

open Code

/-! ## Writing -/

/-- Write one member. -/
structure WriteStep where
  key : String
  part : String
  field : String
  nullable : Bool

namespace WriteStep

def ofField (f : FieldPlan) : WriteStep := ⟨f.key, f.adapter, f.name, f.nullable⟩

def value (s : WriteStep) : Tokens :=
  if s.nullable then verbatim "obj ." ++ word s.field ++ verbatim ". as_ref ()"
  else present (verbatim "& obj ." ++ word s.field)

def code (s : WriteStep) : Tokens :=
  verbatim "writer . name" ++ parens (literal s.key) ++ verbatim "? ; self ." ++ word s.part ++
    verbatim ". get () ? . write" ++ parens (verbatim "writer ," ++ s.value) ++ verbatim "? ;"

end WriteStep

/-- The members of a record as they are written, in the order of its fields. -/
def writeSteps (r : RecordPlan) : List WriteStep := r.fields.map .ofField

def writeHead (r : RecordPlan) : Tokens :=
  verbatim "fn write" ++
    parens (verbatim "& self , writer : & mut dyn :: kson :: JsonWrite , obj :" ++
      optionOf (verbatim "&" ++ word r.name) ++ verbatim ",") ++
    verbatim "->" ++ resultOf (verbatim "()")

def writeBody (r : RecordPlan) : Tokens :=
  verbatim "let" ++ present (word (if r.fields.isEmpty then "_" else "obj")) ++
    verbatim "= obj else { return writer . null_value () ; } ; writer . begin_object () ? ;" ++
    (writeSteps r).flatMap (·.code) ++ verbatim "writer . end_object ()"

def writeRoutine (r : RecordPlan) : Tokens := writeHead r ++ block (writeBody r)

/-! ## Reading -/

/-- Read the value of a member that has one of the keys. -/
structure ReadArm where
  keys : List String
  part : String
  /-- Variable that takes the value. -/
  slot : String
  /-- Variable that notes the presence of the member, where that matters. -/
  assigned : Option String

namespace ReadArm

def ofField (r : RecordPlan) (f : FieldPlan) : ReadArm :=
  ⟨f.keys, f.adapter, f.slot, r.default.map fun _ => f.assigned⟩

def body (a : ReadArm) : Tokens :=
  word a.slot ++ verbatim "= self ." ++ word a.part ++ verbatim ". get () ? . read (reader) ? ;" ++
    match a.assigned with
    | some v => word v ++ verbatim "= true ;"
    | none => []

def code (a : ReadArm) : Tokens :=
  alternatives (a.keys.map literal) ++ verbatim "=>" ++ block a.body

end ReadArm

/-- The arms by which the members of an object are read. -/
def readArms (r : RecordPlan) : List ReadArm := r.fields.map (.ofField r)

/-- Variables that take the value of a field, and note its presence. -/
def locals (r : RecordPlan) (f : FieldPlan) : Tokens :=
  verbatim "let mut" ++ word f.slot ++ verbatim ":" ++ optionOf f.type.tokens ++ verbatim "=" ++
    absent ++ verbatim ";" ++
    match r.default with
    | some _ => verbatim "let mut" ++ word f.assigned ++ verbatim "= false ;"
    | none => []

def nullGuard (onNull : Tokens) : Tokens :=
  verbatim "if reader . peek () ? == :: kson :: ValueKind :: Null" ++
    block (verbatim "reader . next_null () ? ;" ++ onNull)

/-- What is done for each member of an object. -/
def memberBody (arms : List ReadArm) : Tokens :=
  if arms.isEmpty then verbatim "reader . next_name () ? ; reader . skip_value () ? ;"
  else
    verbatim "let name = reader . next_name () ? ;" ++ nullGuard (verbatim "continue ;") ++
      verbatim "match name . as_str ()" ++
      block (arms.flatMap (·.code) ++ verbatim "_ => reader . skip_value () ? ,")

def memberLoop (arms : List ReadArm) : Tokens :=
  verbatim "while reader . has_next () ?" ++ block (memberBody arms)

/-! ## Putting a record together -/

/-- Where a field of the record that was read comes from. -/
inductive MemberSource where
  /-- From the variable; a missing value is a fault. -/
  | required (slot record field : String)
  /-- From the variable, whether it has a value or not. -/
  | optional (slot : String)
  /-- From the default instance. -/
  | fromDefault (field : String)
  /-- The empty value of its type. -/
  | empty
  /-- From `source` if the member was present, or else from the default instance. -/
  | ifAssigned (assigned : String) (source : MemberSource) (field : String)

def ofDefault (field : String) : Tokens := verbatim "default ." ++ word field

def MemberSource.code : MemberSource → Tokens
  | required slot record field =>
    word slot ++ verbatim ". ok_or_else" ++
      parens (verbatim "|| :: kson :: KsonError :: missing_field" ++
        parens (literal record ++ verbatim "," ++ literal field)) ++
      verbatim "?"
  | optional slot => word slot
  | fromDefault field => ofDefault field
  | empty => verbatim ":: core :: default :: Default :: default ()"
  | ifAssigned assigned source field =>
    verbatim "if" ++ word assigned ++ block source.code ++ verbatim "else" ++
      block (ofDefault field)

/-- Where the value of a field comes from when there is no default instance. -/
def ownSource (r : RecordPlan) (f : FieldPlan) : MemberSource :=
  if f.nullable then .optional f.slot else .required f.slot r.name f.name

/-- The default instance, if any field may need it. -/
def usedDefault (r : RecordPlan) : Option DefaultSource :=
  if r.fields.isEmpty && r.skipped.isEmpty then none else r.default

/-- Where each field of the record comes from, skipped fields last. -/
def memberSources (r : RecordPlan) : List (String × MemberSource) :=
  match usedDefault r with
  | none => r.fields.map (fun f => (f.name, ownSource r f)) ++ r.skipped.map fun s => (s, .empty)
  | some _ =>
    r.fields.map (fun f => (f.name, .ifAssigned f.assigned (ownSource r f) f.name)) ++
      r.skipped.map fun s => (s, .fromDefault s)

/-- Call that gives a default instance of a record. -/
def defaultCall (record : String) : DefaultSource → Tokens
  | .type =>
    verbatim "<" ++ word record ++ verbatim "as :: core :: default :: Default > :: default ()"
  | .function p => p.tokens ++ verbatim "()"

def defaultStatement (r : RecordPlan) : Tokens :=
  match usedDefault r with
  | some d =>
    verbatim "let default :" ++ word r.name ++ verbatim "=" ++ defaultCall r.name d ++ verbatim ";"
  | none => []

/-- Code that gives each field its value. -/
def memberCode (m : String × MemberSource) : Tokens := word m.1 ++ verbatim ":" ++ m.2.code

def recordExpression (r : RecordPlan) : Tokens :=
  word r.name ++ block (listed ((memberSources r).map memberCode))

def readHead (r : RecordPlan) : Tokens :=
  verbatim "fn read (& self , reader : & mut dyn :: kson :: JsonRead ,) ->" ++
    resultOf (optionOf (word r.name))

def readBody (r : RecordPlan) : Tokens :=
  nullGuard (verbatim "return" ++ success absent ++ verbatim ";") ++ r.fields.flatMap (locals r) ++
    verbatim "reader . begin_object () ? ;" ++ memberLoop (readArms r) ++
    verbatim "reader . end_object () ? ;" ++ defaultStatement r ++
    success (present (recordExpression r))

def readRoutine (r : RecordPlan) : Tokens := readHead r ++ block (readBody r)

end JsonAdapters.Emit
