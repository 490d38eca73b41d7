import JsonAdapters.Derive.Record
import JsonAdapters.Emit.Fragment

/-!
# Emitted factories

A factory holds a table of the records that it serves, in the order in which they were found.

## Main definitions

* `Emit.FactoryCode`, `Emit.FactoryCode.ofRecords`, `Emit.FactoryCode.code`.
-/

namespace JsonAdapters.Emit

open Code

/-- A factory with the paths of the records that it serves. -/
structure FactoryCode where
  name : String
  entries : List Path

namespace FactoryCode

def ofRecords (name : String) (rs : List RecordPlan) : Except NotAnIdentifier FactoryCode :=
  return ⟨name, ← rs.mapM (·.fullPath)⟩

def entryCode (p : Path) : Tokens :=
  verbatim ":: kson :: DispatchEntry :: of :: <" ++ p.tokens ++ verbatim "> ()"

/-- The table of the factory. -/
def tableCode (u : FactoryCode) : Tokens :=
  verbatim "const ENTRIES : & 'static [:: kson :: DispatchEntry] = &" ++
    .group .bracket (listed (u.entries.map entryCode)) ::
    verbatim "; # [doc = r\" Served records, in discovery order.\"] pub const TABLE" ++
    verbatim ": :: kson :: DispatchTable = :: kson :: DispatchTable :: new (Self :: ENTRIES) ;"

def code (u : FactoryCode) : Tokens :=
  verbatim "# [doc = r\" Generated type adapter factory.\"]" ++
    verbatim "# [derive (Clone , Copy , Debug , Default)] pub struct" ++ word u.name ++
    verbatim "; impl" ++ word u.name ++ block u.tableCode ++
    verbatim "# [automatically_derived] impl :: kson :: TypeAdapterFactory for" ++ word u.name ++
    block
      (verbatim
          "fn create (& self , kson : & :: kson :: Kson , token : & :: kson :: TypeToken ,)" ++
        verbatim "->" ++ optionOf (verbatim ":: kson :: ErasedAdapter") ++
        verbatim "{ Self :: TABLE . create (kson , token) }")

end FactoryCode

end JsonAdapters.Emit
