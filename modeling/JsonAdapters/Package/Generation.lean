import JsonAdapters.Emit.Factory
import JsonAdapters.Package.AdapterModule

/-!
# Generation

A pass over a package reads its records and emits files: the factory that a type of the package
marks, and, if so chosen, one file that holds every adapter and a factory of its own.

## Main definitions

* `Granularity`, `Options`: what is to be emitted.
* `Output`, `OutputFile`, `Warning`.
* `GenerationFault`, `GenerationFault.message`.
* `generate`: the files for what a walk has found; `generateFrom`: for a root file.
-/

namespace JsonAdapters

open Emit

/-! ## Options -/

/-- Where adapters are emitted. -/
inductive Granularity
  /-- All in one file. -/
  | aggregate
  /-- Next to their records. -/
  | perType
deriving DecidableEq, Repr

namespace Granularity

def text : Granularity → String
  | aggregate => "aggregate"
  | perType => "per-type"

def ofText? (name : String) : Option Granularity := [aggregate, perType].find? (·.text = name)

def unknownText (name : String) : String :=
  s!"unknown granularity '{name}', expected 'aggregate' or 'per-type'"

end Granularity

/-- What is to be emitted, and for which package. -/
structure Options where
  granularity : Granularity := .perType
  /-- Root file of the package. -/
  root : FilePath := ⟨"src/lib.rs"⟩
  /-- Name of the module around all adapters. -/
  module : String := "kson_generated"
deriving DecidableEq, Repr

/-! ## Output -/

/-- A file to be written. -/
structure OutputFile where
  name : String
  contents : String
deriving DecidableEq, Repr

def OutputFile.ofCode (name code : String) : OutputFile :=
  ⟨name, "// @generated by kson-codegen, do not edit\n" ++ code ++ "\n"⟩

/-- Advice that stops nothing. -/
structure Warning where
  message : String
deriving DecidableEq, Repr

def Warning.text (w : Warning) : String := "warning: " ++ w.message

/-- What a pass gives. -/
structure Output where
  files : List OutputFile
  warnings : List Warning
  /-- Every file that was read. -/
  sources : List FilePath
deriving DecidableEq, Repr

def Output.file? (o : Output) (name : String) : Option OutputFile :=
  o.files.find? (·.name = name)

/-- Why a pass gives nothing. -/
inductive GenerationFault
  | discovery (fault : DiscoveryFault)
  | invalidRecord (record : String) (report : FaultReport)
  | severalMarkers (markers : List Marker)
  | notAnIdentifier (fault : NotAnIdentifier)

def GenerationFault.message : GenerationFault → String
  | discovery f => f.message
  | invalidRecord r e => s!"invalid record '{r}': " ++ e.text (·.message)
  | severalMarkers ms =>
    "more than one type derives KsonFactory: " ++ ", ".intercalate (ms.map (·.shownPath))
  | notAnIdentifier f => s!"'{f.name}' is no identifier"

/-! ## Files -/

/-- The records of the declarations that were found. -/
def plansOf (found : List FoundRecord) : Except GenerationFault (List RecordPlan) :=
  found.mapM fun f =>
    match RecordPlan.ofDeclaration f.declaration with
    | .ok r => .ok (r.placedIn f.module)
    | .error e => .error (.invalidRecord (shownPath f.module f.declaration.name) e)

def markedFactory (m : Marker) (rs : List RecordPlan) : Except NotAnIdentifier OutputFile := do
  let name ← identifier (factoryTypeName m.name)
  return .ofCode (factoryFileName m.name) (← FactoryCode.ofRecords name rs).code.text

/-- The file that holds every adapter, in a module of the given name. -/
def adaptersFile (module : String) (scopes : Scopes) (rs : List RecordPlan) :
    Except NotAnIdentifier OutputFile := do
  let wrapper ← identifier module
  let adapters ← (AdapterModule.ofRecords rs).code scopes []
  let factory ← FactoryCode.ofRecords adaptersFactoryName rs
  return .ofCode adaptersFileName <| words
    ["# [allow (unused_imports , clippy :: all , clippy :: pedantic , clippy :: nursery)]",
      "pub mod", wrapper, braced [adapters, factory.code.text]]

/-- Complaint about adapters that no factory offers. -/
def unreachable (count : Nat) : Warning :=
  ⟨s!"no type derives KsonFactory, the {count} generated adapter(s) are not reachable" ++
    " through a factory"⟩

/-- The files for a marker, if there is just one, and the advice if there is none. -/
def markerOutput (o : Options) (rs : List RecordPlan) :
    List Marker → Except GenerationFault (List OutputFile × List Warning)
  | [] => .ok ([], if o.granularity = .perType && !rs.isEmpty then [unreachable rs.length] else [])
  | [m] => ((markedFactory m rs).mapError .notAnIdentifier).map fun f => ([f], [])
  | ms => .error (.severalMarkers ms)

/-- The file that holds every adapter, if there is to be one. -/
def aggregateOutput (o : Options) (scopes : Scopes) (rs : List RecordPlan) :
    Except GenerationFault (List OutputFile) :=
  match o.granularity with
  | .perType => .ok []
  | .aggregate => ((adaptersFile o.module scopes rs).mapError .notAnIdentifier).map fun f => [f]

def generate (d : Discovery) (o : Options) : Except GenerationFault Output := do
  let records ← plansOf d.records
  let (files, warnings) ← markerOutput o records d.markers
  return ⟨files ++ (← aggregateOutput o d.scopes records), warnings, d.files⟩

def generateFrom (tree : FileTree) (o : Options) : Except GenerationFault Output := do
  let d ← (Discovery.ofRoot tree o.root).mapError .discovery
  generate d o

end JsonAdapters
