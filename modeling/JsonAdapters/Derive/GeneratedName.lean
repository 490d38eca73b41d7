import JsonAdapters.Code.Lexer
import JsonAdapters.Text.SnakeCase

/-!
# Names of what is generated

All names are built from names in the source; the mark of a raw identifier is dropped where a name
becomes part of another one.

## Main definitions

* `unmarked`: an identifier without the mark of a raw one.
* `adapterTypeName`: the name after a record.
* `factoryTypeName`, `factoryFileName`: names after a marker type.
* `NotAnIdentifier`, `identifier`: a text may stand as an identifier only if it has that form.
-/

namespace JsonAdapters

def adaptersFileName : String := "kson_adapters.rs"

def adaptersFactoryName : String := "KsonTypeAdapterFactory"

def unmarked (name : String) : String :=
  match name.toList with
  | 'r' :: '#' :: r => String.ofList r
  | _ => name

def adapterTypeName (record : String) : String := unmarked record ++ "TypeAdapter"

def factoryTypeName (marker : String) : String := "Kson" ++ unmarked marker

/-- File of the factory that is named after a marker type. -/
def factoryFileName (marker : String) : String := snakeCase (factoryTypeName marker) ++ ".rs"

/-- A text that should be an identifier and is none. -/
structure NotAnIdentifier where
  name : String
deriving DecidableEq, Repr

/-- Whether a text may stand as an identifier, raw or not. -/
def isIdentifier (name : String) : Bool :=
  match name.toList with
  | 'r' :: '#' :: r => isIdentWord r && String.ofList r ∉ Code.unmarkable
  | cs => isIdentWord cs

/-- The text as an identifier, which may be a keyword, and raw. -/
def identifier (name : String) : Except NotAnIdentifier String :=
  if isIdentifier name then .ok name else .error ⟨name⟩

def plainIdentifier (name : String) : Except NotAnIdentifier String :=
  if isIdentWord name.toList then .ok name else .error ⟨name⟩

end JsonAdapters
