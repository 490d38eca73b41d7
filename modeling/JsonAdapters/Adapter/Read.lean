import JsonAdapters.Adapter.Scalar

/-!
# Reading values

An adapter reads one value from a stream, `none` standing for the absent value that `null` denotes.

* Vectors and maps hold present values only. Of equal names in a map the last one wins.
* An optional type reads `null` as a present nothing, a boxed type reads like its content.
* A record passes over members that are `null` and members that it does not know. Of several members
  for one field the last one wins. A field without a member takes the value of the default instance;
  without a default instance it is nothing, or missing.

## Main definitions

* `read`: reading with the adapter of a number.
* `readDocument`: reading a whole document.
* `Registry.decode`: the value of a source.
-/

namespace JsonAdapters

open Json (Reader)

def requirePresent (t : Ty) : Option Value → AdapterM Reader Value
  | some v => return v
  | none => AdapterM.fail (.unexpectedNull t.path)

/-! ## Records -/

/-- What was read for each field: nothing yet, or the last value. -/
abbrev Assignments := List (Option (Option Value))

namespace Record

def unassigned (r : Record) : Assignments := r.fields.map fun _ => none

/-- The value of a field for which something was read, or which has no default. -/
def ownValue (r : Record) (f : Field) (read : Option Value) : Except AdapterError Value :=
  match read with
  | some v => .ok (if f.nullable then .just v else v)
  | none => if f.nullable then .ok .nothing else .error (.missingField r.id.ident f.name)

/-- Values of the fields, from what was read and from the default instance. -/
def fieldValues (r : Record) : List Field → Assignments → Option (List Value) →
    Except AdapterError (List Value)
  | f :: fs, a :: as, none => do
    let v ← r.ownValue f a.join
    let vs ← fieldValues r fs as none
    return v :: vs
  | f :: fs, a :: as, some (d :: ds) => do
    let v ← match a with
      | some read => r.ownValue f read
      | none => .ok d
    let vs ← fieldValues r fs as (some ds)
    return v :: vs
  | _, _, _ => .ok []

def ofMembers (r : Record) (read : Assignments) : Except AdapterError Value := do
  let fields ← r.fieldValues r.fields read (r.default.map (·.fields))
  let skipped :=
    match r.default with
    | some d => d.skipped
    | none => r.skipped.map (·.initial)
  return .record fields skipped

end Record

/-! ## Adapters -/

mutual

/-- Read one value with an adapter. Every call consumes fuel. -/
def read : Nat → AdapterId → AdapterM Reader (Option Value)
  | 0, _ => throw .stalled
  | fuel + 1, id => do
    match ← codecOf id with
    | .scalar s => s.read
    | .custom c => onReader c.read
    | .vec t =>
      if ← passNull then return none
      onReader Reader.enterArray
      let items ← readItems fuel id t
      onReader Reader.leaveArray
      return some (.vec items)
    | .hashMap t | .treeMap t =>
      if ← passNull then return none
      onReader Reader.enterObject
      let entries ← readEntries fuel id t []
      onReader Reader.leaveObject
      return some (.map entries)
    | .option t =>
      if ← passNull then return some .nothing
      let inner ← onRegistry (Registry.part id t)
      -- a part that reads `null` leaves the option empty
      match ← read fuel inner with
      | some v => return some (.just v)
      | none => return some .nothing
    -- a box hands on whatever its part does, `null` included
    | .box t =>
      let inner ← onRegistry (Registry.part id t)
      let v ← read fuel inner
      return v.map .box
    | .record r =>
      if ← passNull then return none
      onReader Reader.enterObject
      let values ← readMembers fuel id r r.unassigned
      onReader Reader.leaveObject
      -- missing fields are found after the whole object is read
      match r.ofMembers values with
      | .ok v => return some v
      | .error e => AdapterM.fail e

def readItems : Nat → AdapterId → Ty → AdapterM Reader (List Value)
  | 0, _, _ => throw .stalled
  | fuel + 1, id, t => do
    if ← onReader Reader.more then
      let inner ← onRegistry (Registry.part id t)
      let v ← requirePresent t (← read fuel inner)
      let vs ← readItems fuel id t
      return v :: vs
    else
      return []

def readEntries : Nat → AdapterId → Ty → List (String × Value) →
    AdapterM Reader (List (String × Value))
  | 0, _, _, _ => throw .stalled
  | fuel + 1, id, t, entries => do
    if ← onReader Reader.more then
      let key ← onReader Reader.name
      let inner ← onRegistry (Registry.part id t)
      let v ← requirePresent t (← read fuel inner)
      readEntries fuel id t (Value.putEntry key v entries)
    else
      return entries

/-- Read the rest of an object as members of a record. -/
def readMembers : Nat → AdapterId → Record → Assignments → AdapterM Reader Assignments
  | 0, _, _, _ => throw .stalled
  | fuel + 1, id, r, values => do
    if ← onReader Reader.more then
      let name ← onReader Reader.name
      let values ← readMember fuel id r name values
      readMembers fuel id r values
    else
      return values

def readMember : Nat → AdapterId → Record → String → Assignments → AdapterM Reader Assignments
  | 0, _, _, _, _ => throw .stalled
  | fuel + 1, id, r, name, values => do
    if r.fields.isEmpty then
      onReader Reader.skip
      return values
    if ← passNull then return values
    match r.fieldIndex? name with
    | none =>
      onReader Reader.skip
      return values
    | some i =>
      match r.fields[i]? with
      | none => return values
      | some f =>
        let inner ← onRegistry (Registry.part id f.type)
        let v ← read fuel inner
        return values.set i (some v)

end

/-! ## Documents -/

def Ty.depth : Ty → Nat
  | .scalar _ | .record _ => 1
  | .vec t | .option t | .box t | .hashMap t | .treeMap t => t.depth + 1

def Schema.depth (s : Schema) : Nat :=
  s.records.foldl (fun n r => r.fields.foldl (fun n f => max n f.type.depth) n) 1

/-- Enough fuel to read what is left: between two characters that are consumed, an adapter calls at
most the adapters of the types nested in its own. -/
def readFuel (s : Schema) (t : Ty) (r : Reader) : Nat :=
  (r.rest.length + 2) * (max s.depth t.depth + 3)

def readWith (id : AdapterId) (t : Ty) : AdapterM Reader (Option Value) := do
  let s ← get
  read (readFuel s.registry.schema t s.stream) id

/-- Read with an adapter, and check that the document ends there. -/
def readWhole (id : AdapterId) (t : Ty) : AdapterM Reader (Option Value) := do
  let v ← readWith id t
  onReader Reader.finish
  return v

def readDocument (t : Ty) : AdapterM Reader (Option Value) := do
  let id ← onRegistry (Registry.adapter t)
  readWhole id t

namespace Registry

def decode (t : Ty) (source : Json.Source) (r : Registry) :
    Except AdapterFailure (Option Value) × Registry :=
  let (outcome, r) := run (readDocument t) (Reader.ofSource source) r
  (outcome.map (·.1), r)

end Registry

end JsonAdapters
