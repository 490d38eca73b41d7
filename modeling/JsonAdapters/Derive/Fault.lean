import JsonAdapters.Derive.Report

/-!
# What can be wrong with a declaration

Every cause for which a record declaration is refused, and its wording.

## Main definitions

* `DeclarationFault`, `DeclarationFault.message`.
-/

namespace JsonAdapters

/-- Why a record declaration is refused. -/
inductive DeclarationFault
  /-- A setting that does not exist, with the known ones and one that is meant perhaps. -/
  | unknownSetting (name : String) (similar : Option String) (known : List String)
  | unknownValue (value : String)
  | unexpectedType (kind : String)
  | unexpectedFormat (format : String)
  | duplicateSetting (name : String)
  | notAStruct (shape : String)
  | notNamedFields (shape : String)
  /-- Settings that are given with an equals sign. -/
  | valueForSettings (path : String)
  | unreadableSettings
  | generic
  | notAPath
  | innerArguments
  | notATypeArgument
  | callArguments
  | sharedKey (key field owner : String)
  | sharedAdapter (field type adapter served : String)
deriving DecidableEq, Repr

def codeQuoted (s : String) : String := "\x60" ++ s ++ "\x60"

def DeclarationFault.message : DeclarationFault → String
  | unknownSetting name similar known =>
    "Unknown field: " ++ codeQuoted name ++
      match similar with
      | some s => ". Did you mean " ++ codeQuoted s ++ "?"
      | none => ". Available values: " ++ ", ".intercalate (known.map codeQuoted)
  | unknownValue v => "Unknown value: " ++ codeQuoted v
  | unexpectedType k => "Unexpected type " ++ codeQuoted k
  | unexpectedFormat f => "Unexpected meta-item format " ++ codeQuoted f
  | duplicateSetting n => "Duplicate field " ++ codeQuoted n
  | notAStruct s => "Unsupported shape " ++ codeQuoted s ++ ". Expected struct with named fields."
  | notNamedFields s => "Unsupported shape " ++ codeQuoted s ++ ". Expected named fields."
  | valueForSettings a => "Name-value arguments are not supported. Use #[" ++ a ++ "(...)]"
  | unreadableSettings => "expected identifier or literal"
  | generic => "records cannot have generic parameters"
  | notAPath =>
    "field types must be type paths such as \x60String\x60, \x60Vec<T>\x60 or \x60crate::Item\x60"
  | innerArguments => "generic arguments are only supported on the last path segment"
  | notATypeArgument => "only type arguments are supported"
  | callArguments => "function-style type arguments are not supported"
  | sharedKey key field owner =>
    s!"wire key '{key}' of field '{field}' is already used by field '{owner}'"
  | sharedAdapter field type adapter served =>
    s!"field '{field}' has type '{type}' but adapter '{adapter}' already serves '{served}'"

abbrev FaultReport := Report DeclarationFault

def DeclarationFault.report (f : DeclarationFault) : FaultReport := .of f

end JsonAdapters
