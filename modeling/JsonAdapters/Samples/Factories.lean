import JsonAdapters.Adapter.Read
import JsonAdapters.Adapter.Write
import JsonAdapters.Samples.Records

/-!
# Sample factories

Dispatch tables over the sample records, and factories that answer for strings in ways of their own.

## Main definitions

* `Samples.table?`: the dispatch table of a name.
* `Samples.factory?`: the factory of a name.
* `Samples.registryOf`: a registry over the sample records.
-/

namespace JsonAdapters.Samples

open Json (Reader Writer)

/-! ## Tables -/

/-- The records of a named table, in the order of their entries. -/
def tableRecords? : String → Option (List Record)
  | "provider" => some [article, settings, toggle, treeNode, person, pet, account, strict, nullable,
      shape, polygon, square, user, address]
  | "oracle" => some [leaf, numbers, empty, defaulted, keys, nest, hidden, onlySkipped,
      emptyDefault, shared, stranger]
  | "agg" => some [catalog.dimensions, catalog.product, catalog.listing, catalog.parcel,
      catalog.money]
  | "agg_tests" => some [foreignCatalog.dimensions, foreignCatalog.product, foreignCatalog.listing,
      foreignCatalog.parcel, foreignCatalog.money]
  | "super_first" => some [shape, polygon, square]
  | "no_square" => some [polygon, shape]
  | "shape_polygon" => some [shape, polygon]
  | "square_only" => some [square]
  | "empty" => some []
  | _ => none

def table? (name : String) : Option FactoryTable :=
  (tableRecords? name).map (FactoryTable.of schema)

/-! ## Adapters for strings -/

def shout (s : String) : String := s.map Char.toUpper

def writeShouted : Option Value → Json.WriteM Unit
  | some (.string s) => Writer.string (shout s)
  | some _ => Writer.misuse
  | none => Writer.null

/-- Strings in upper case, in both directions. Reading does not know `null`. -/
def upper : CustomCodec where
  serves := .string
  read := do
    let s ← Reader.string
    return some (.string (shout s))
  write := writeShouted

/-- Writes strings in upper case and reads any value as the absent one. -/
def absent : CustomCodec where
  serves := .string
  read := do
    Reader.skip
    return none
  write := writeShouted

/-- Answers requests for strings with the given adapter. -/
def forStrings (c : CustomCodec) : Factory :=
  ⟨fun token => some (if token.describes .string then some (.custom c) else none)⟩

/-- Answers all requests with an adapter for strings. -/
def mislabelled : Factory := ⟨fun _ => some (some (.custom upper))⟩

def factory? : String → Option Factory
  | "upper" => some (forStrings upper)
  | "absent" => some (forStrings absent)
  | "mislabelled" => some mislabelled
  | name => (table? name).map FactoryTable.factory

/-! ## Registries -/

/-- The factories that serve all records meant to be served. -/
def usualFactories : List String := ["provider", "oracle", "agg"]

/-- A registry over the sample records. Unknown names are no factories. -/
def registryOf (names : List String) : Registry :=
  { schema, factories := names.filterMap factory? }

end JsonAdapters.Samples
