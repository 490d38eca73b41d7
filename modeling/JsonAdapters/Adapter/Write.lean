import JsonAdapters.Adapter.Scalar

/-!
# Writing values

An adapter writes one value to a stream. The absent value and nothing are written as `null`, a box
as its content, a map as an object of its entries in the order in which they are walked, a record
as an object of its fields in order of declaration.

## Main definitions

* `writeAbsent`, `writeValue`: writing with the adapter of a number.
* `writeDocument`: writing a whole document.
* `Registry.encode`: the text of a value.
-/

namespace JsonAdapters

open Json (Writer)

/-- Write the absent value with the adapter for `t`. A box asks the adapter of its content. -/
def writeAbsent : Ty → AdapterId → AdapterM Writer Unit
  | t, id => do
    match ← codecOf id with
    | .custom c => onWriter (c.write none)
    | .box _ =>
      match t with
      | .box t' => writeAbsent t' (← onRegistry (Registry.part id t'))
      | _ => throw .misuse
    | _ => onWriter Writer.null

mutual

def writeValue : Value → AdapterId → AdapterM Writer Unit
  | v, id => do
    match ← codecOf id with
    | .custom c => onWriter (c.write (some v))
    | .scalar s => s.writeValue v
    | .vec t =>
      match v with
      | .vec items =>
        let inner ← onRegistry (Registry.part id t)
        onWriter Writer.enterArray
        writeItems items inner
        onWriter Writer.leaveArray
      | _ => throw .misuse
    | .hashMap t | .treeMap t =>
      match v with
      | .map entries =>
        let inner ← onRegistry (Registry.part id t)
        onWriter Writer.enterObject
        writeEntries entries inner
        onWriter Writer.leaveObject
      | _ => throw .misuse
    | .option t =>
      match v with
      | .just w => writeValue w (← onRegistry (Registry.part id t))
      | .nothing => onWriter Writer.null
      | _ => throw .misuse
    | .box t =>
      match v with
      | .box w => writeValue w (← onRegistry (Registry.part id t))
      | _ => throw .misuse
    -- fields ask for their parts one by one, when they are written
    | .record r =>
      match v with
      | .record fields _ =>
        onWriter Writer.enterObject
        writeFields fields r.fields id
        onWriter Writer.leaveObject
      | _ => throw .misuse

def writeItems : List Value → AdapterId → AdapterM Writer Unit
  | [], _ => return
  | v :: vs, id => do
    writeValue v id
    writeItems vs id

def writeEntries : List (String × Value) → AdapterId → AdapterM Writer Unit
  | [], _ => return
  | (key, v) :: es, id => do
    onWriter (Writer.name key)
    writeValue v id
    writeEntries es id

def writeFields : List Value → List Field → AdapterId → AdapterM Writer Unit
  | v :: vs, f :: fs, id => do
    onWriter (Writer.name f.key)
    let inner ← onRegistry (Registry.part id f.type)
    match f.nullable, v with
    | true, .nothing => writeAbsent f.type inner
    | true, .just w => writeValue w inner
    | true, _ => throw .misuse
    | false, v => writeValue v inner
    writeFields vs fs id
  | _, _, _ => return

end

/-- Write a value, or the absent one, with an adapter for `t`. -/
def writeOption (t : Ty) (v : Option Value) (id : AdapterId) : AdapterM Writer Unit :=
  match v with
  | some v => writeValue v id
  | none => writeAbsent t id

/-- Write with an adapter, and complete the document. -/
def writeWhole (id : AdapterId) (t : Ty) (v : Option Value) : AdapterM Writer Unit := do
  writeOption t v id
  onWriter Writer.finish

def writeDocument (t : Ty) (v : Option Value) : AdapterM Writer Unit := do
  let id ← onRegistry (Registry.adapter t)
  writeWhole id t v

namespace Registry

/-- The text that the bytes at the sink are. -/
def documentText : Except AdapterFailure (Unit × Writer) → Except AdapterFailure String
  | .ok (_, w) =>
    match Utf8.decode w.output with
    | (cs, none) => .ok (String.ofList cs)
    | (_, some fault) => .error (.error (.utf8 fault))
  | .error e => .error e

/-- The text of a value of type `t`, or of the absent one. -/
def encode (t : Ty) (v : Option Value) (r : Registry) : Except AdapterFailure String × Registry :=
  let (outcome, r) := run (writeDocument t v) (.ofSink {}) r
  (documentText outcome, r)

end Registry

end JsonAdapters
