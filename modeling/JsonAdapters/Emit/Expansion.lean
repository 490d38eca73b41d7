import JsonAdapters.Emit.Adapter

/-!
# Expansion of declarations

A record declaration expands to its token and its adapter, which stands aside where another file
holds all adapters. A declaration that marks a factory expands to the emitted file with the
factory. What is wrong with a declaration expands to the complaints about it.

## Main definitions

* `Emit.expandRecord`, `Emit.expandMarker`.
-/

namespace JsonAdapters.Emit

open Code

def complaint (message : String) : Tokens :=
  verbatim ":: core :: compile_error !" ++ block (literal message)

/-- The attribute of what stands aside where another file holds all adapters. -/
def standAside : Attribute :=
  ⟨.ofName "cfg", .list .paren [.ident "not", .group .paren [.ident "kson_aggregate"]]⟩

def expandRecord (d : Declaration) : Except NotAnIdentifier Tokens :=
  match RecordPlan.ofDeclaration d with
  | .error report => return report.leaves.flatMap (complaint ·.message)
  | .ok r => return tokenCode r ++ (← (AdapterCode.ofRecord r [standAside]).code)

/-- Whether the declaration is a structure without fields or parameters. -/
def isMarker (d : Declaration) : Bool :=
  match d.shape with
  | .unit => !d.generic
  | _ => false

/-- Code that takes in the emitted file of the factory of a marker. -/
def inclusionCode (marker : String) : Tokens :=
  verbatim "include !" ++
    parens (verbatim "concat !" ++
      parens (verbatim "env ! (\"OUT_DIR\") ," ++ literal ("/" ++ factoryFileName marker))) ++
    verbatim ";"

/-- Expansion of a declaration that marks a factory. -/
def expandMarker (d : Declaration) : Tokens :=
  if isMarker d then
    inclusionCode d.name ++ verbatim "impl" ++ word d.name ++
      block
        (verbatim "# [doc = r\" The generated factory for every record of this crate.\"]" ++
          verbatim "# [must_use] pub const fn get () ->" ++ word (factoryTypeName d.name) ++
          block (word (factoryTypeName d.name)))
  else complaint "KsonFactory can only be derived for unit structs without generics"

end JsonAdapters.Emit
