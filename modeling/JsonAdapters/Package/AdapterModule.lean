import JsonAdapters.Emit.Adapter
import JsonAdapters.Package.Discovery

/-!
# Modules of adapters

The file that holds all adapters repeats the modules of the records, so that the adapter of a record
stands in a module that sees what the record's module sees. A module without records only passes on
what its counterpart declares.

## Main definitions

* `AdapterModule`, `AdapterModule.ofRecords`: the modules of some records.
* `AdapterModule.uses`, `AdapterModule.units`: what a module holds.
* `AdapterModule.code`.
-/

namespace JsonAdapters

open Code Emit

/-- A module of the file that holds all adapters: records whose adapters are in it, and the modules
in it, in the order of their names. -/
inductive AdapterModule where
  | mk (records : List RecordPlan) (children : List (String × AdapterModule))

namespace AdapterModule

def empty : AdapterModule := mk [] []

def records : AdapterModule → List RecordPlan
  | mk rs _ => rs

def children : AdapterModule → List (String × AdapterModule)
  | mk _ cs => cs

/-- Change the module of a name, which is empty before if there is none. -/
def changeChild (name : String) (f : AdapterModule → AdapterModule) :
    List (String × AdapterModule) → List (String × AdapterModule)
  | [] => [(name, f empty)]
  | (n, m) :: rest =>
    if name = n then (n, f m) :: rest
    else if name < n then (name, f empty) :: (n, m) :: rest
    else (n, m) :: changeChild name f rest

def insert (r : RecordPlan) : List String → AdapterModule → AdapterModule
  | [], mk rs cs => mk (rs ++ [r]) cs
  | name :: path, mk rs cs => mk rs (changeChild name (insert r path) cs)

def ofRecords (rs : List RecordPlan) : AdapterModule :=
  rs.foldl (fun m r => m.insert r r.module) empty

/-! ## Content -/

/-- Imports repeated in the module; names of its own modules are not bound again. -/
def uses (m : AdapterModule) (scope : Scope) : List UseItem :=
  if m.records.isEmpty then [] else scope.rootedUses (m.children.map (·.1))

def units (m : AdapterModule) : List AdapterCode :=
  m.records.map fun r => ⟨r, [.ident "pub"], []⟩

/-- Code of the imports of the module at a path, for which a scope may be known. -/
def scopeCode (scopes : Scopes) (path : List String) (m : AdapterModule) :
    Except NotAnIdentifier String :=
  match scopes.lookup path with
  | none => return ""
  | some s => return words ((m.uses s).map (·.tokens.text) ++ [← s.globCode])

mutual

def code (scopes : Scopes) (path : List String) : AdapterModule → Except NotAnIdentifier String
  | mk rs cs => do
    let scope ← scopeCode scopes path (mk rs cs)
    let units ← (mk rs cs).units.mapM (·.code)
    return words ([scope] ++ units.map (·.text) ++ [← childrenCode scopes path cs])

def childrenCode (scopes : Scopes) (path : List String) :
    List (String × AdapterModule) → Except NotAnIdentifier String
  | [] => return ""
  | (name, m) :: rest => do
    let inner ← code scopes (path ++ [name]) m
    return words
      ["pub (crate) mod", ← identifier name, braced [inner], ← childrenCode scopes path rest]

end

end AdapterModule

end JsonAdapters
