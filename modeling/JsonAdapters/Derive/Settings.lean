import JsonAdapters.Code.Grammar
import JsonAdapters.Derive.Fault
import JsonAdapters.Text.Similarity

/-!
# Settings of records and fields

Settings are written in attributes named `kson`. All attributes of a declaration are read
together, and every fault is kept; a setting that was read before is a duplicate, whether it could
be understood or not.

## Main definitions

* `Setting`: one entry of an attribute.
* `Instance`: where a record takes its default from; `RecordSettings`, `FieldSettings`.
* `recordSettings`, `fieldSettings`: settings in attributes, with what is wrong with them.
-/

namespace JsonAdapters

open Code

/-! ## Entries -/

/-- One entry of an attribute: a literal, or a name with what follows it. -/
inductive Setting where
  | literal
  | item (a : Attribute)

def wordPath : Parser Path := do
  let absolute ← markIf "::"
  let first ← anyIdent
  let rest ← manyWhile (startsMark "::") (do mark "::"; anyIdent)
  return .mk absolute ((first :: rest).map .plain)

def setting (g : Grammar) : Parser Setting := do
  let ts ← ahead
  let word := startsWordOf ["true", "false"] ts && startsMark "=" (skipOne ts)
  if startsLiteral ts && !word then
    discard literal
    return .literal
  else if startsAnyWord ts
      || startsMark "::" ts && startsAnyWord (skipOne (skipOne ts)) then
    let path ← wordPath
    return .item ⟨path, ← metaBody g⟩
  else failure

/-- The entries between the brackets of an attribute. -/
def settings? (ts : Tokens) : Option (List Setting) :=
  readTokens? (fun g => commaList (setting g)) ts

def settingsAttribute : String := "kson"

def entries (a : Attribute) : Except DeclarationFault (List Setting) :=
  match a.body with
  | .none => .ok []
  | .value _ _ => .error (.valueForSettings a.path.joined)
  | .list _ ts =>
    match settings? ts with
    | some ss => .ok ss
    | none => .error .unreadableSettings

/-! ## Values -/

def literalName : LiteralKind → String
  | .string => "string"
  | .byteString => "byte string"
  | .cString => "unknown"
  | .byte => "byte"
  | .char => "char"
  | .int => "int"
  | .float => "float"
  | .bool => "bool"

def formName : ExprForm → String
  | .array => "array"
  | .assign => "assign"
  | .async => "async"
  | .await => "await"
  | .binary => "binary"
  | .block => "block"
  | .break => "break"
  | .call => "call"
  | .cast => "cast"
  | .closure => "closure"
  | .const => "const"
  | .continue => "continue"
  | .field => "field"
  | .forLoop => "for_loop"
  | .if => "if"
  | .index => "index"
  | .infer => "infer"
  | .let => "let"
  | .loop => "loop"
  | .macroCall => "macro"
  | .match => "match"
  | .methodCall => "method_call"
  | .paren => "paren"
  | .range => "range"
  | .reference => "reference"
  | .repeat => "repeat"
  | .return => "return"
  | .struct => "struct"
  | .try => "try"
  | .tryBlock => "try_block"
  | .tuple => "tuple"
  | .unary => "unary"
  | .unchecked => "unsafe"
  | .verbatim => "verbatim"
  | .while => "while"
  | .yield => "yield"
  -- a form without a name of its own
  | .rawAddress => "unknown"

/-- The fault of a value of another kind than expected. -/
def unexpected : Expr → DeclarationFault
  | .path _ _ => .unexpectedType "path"
  | .literal k _ => .unexpectedType (literalName k)
  | .other f => .unexpectedType (formName f)

/-- What a setting that takes an expression is given. -/
def settingValue {α : Type} (word : Except DeclarationFault α)
    (value : Expr → Except DeclarationFault α) : AttributeBody → Except DeclarationFault α
  | .none => word
  | .value e _ => value e
  | .list _ ts =>
    match settings? ts with
    | some _ => .error (.unexpectedFormat "list")
    | none => .error .unreadableSettings

/-- The fault of a setting that needs a value and has none. -/
def wordAlone {α : Type} : Except DeclarationFault α := .error (.unexpectedFormat "word")

def textSetting : AttributeBody → Except DeclarationFault String :=
  settingValue wordAlone fun
    | .literal .string t => .ok (stringValue t)
    | e => .error (unexpected e)

def flagSetting : AttributeBody → Except DeclarationFault Bool :=
  settingValue (.ok true) fun
    | .literal .bool t => .ok (t == "true")
    | .literal .string t =>
      let s := stringValue t
      if s = "true" then .ok true
      else if s = "false" then .ok false
      else .error (.unknownValue s)
    | e => .error (unexpected e)

def pathInText (literal : String) : Except DeclarationFault Path :=
  match path? (stringValue literal) with
  | some p => .ok p
  | none => .error (.unknownValue (stringValue literal))

def pathSetting : AttributeBody → Except DeclarationFault Path :=
  settingValue wordAlone fun
    | .literal .string t =>
      if stringSuffix t = "" then pathInText t else .error (.unknownValue (stringValue t))
    | .path _ p => .ok p
    | e => .error (unexpected e)

/-- Where a record takes its default from. -/
inductive DefaultSource where
  /-- The default of the type. -/
  | type
  /-- A function without arguments. -/
  | function (path : Path)

def defaultSetting : AttributeBody → Except DeclarationFault DefaultSource :=
  settingValue (.ok .type) fun
    | .literal .string t => (pathInText t).map .function
    | .path false p => .ok (.function p)
    | e => .error (unexpected e)

/-! ## Settings of a declaration -/

/-- Settings read so far, with the names that were seen and the faults that were found. -/
structure Reading (σ : Type) where
  settings : σ
  seen : List String := []
  faults : List FaultReport := []

namespace Reading

variable {σ : Type}

def fault (r : Reading σ) (f : FaultReport) : Reading σ := { r with faults := r.faults ++ [f] }

/-- Read the setting `name`, unless it was seen before. -/
def once {α : Type} (r : Reading σ) (name : String) (value : Except DeclarationFault α)
    (put : α → σ → σ) : Reading σ :=
  if name ∈ r.seen then r.fault (.of (.duplicateSetting name))
  else
    let r := { r with seen := name :: r.seen }
    match value with
    | .ok a => { r with settings := put a r.settings }
    | .error e => r.fault ((Report.of e).under name)

def unknown (r : Reading σ) (name : String) (known : List String) : Reading σ :=
  r.fault (.of (.unknownSetting name (mostSimilar? name known) known))

/-- Read the entries of all attributes that hold settings. -/
def ofAttributes (start : σ) (step : Reading σ → String → AttributeBody → Reading σ)
    (attrs : List Attribute) : Reading σ :=
  (attrs.filter fun a => a.path.joined = settingsAttribute).foldl
    (fun r a =>
      match entries a with
      | .error e => r.fault (.of e)
      | .ok ss =>
        ss.foldl
          (fun r s =>
            match s with
            | .literal => r.fault (.of (.unexpectedFormat "literal"))
            | .item b => step r b.path.joined b.body)
          r)
    { settings := start }

end Reading

/-- Settings of a record. -/
structure RecordSettings where
  default : Option DefaultSource := none
  extending : Option Path := none

/-- Settings of a field. -/
structure FieldSettings where
  rename : Option String := none
  aliases : List String := []
  skip : Bool := false

def recordSettings (attrs : List Attribute) : Reading RecordSettings :=
  Reading.ofAttributes {} (fun r name body =>
    match name with
    | "default" => r.once name (defaultSetting body) fun d s => { s with default := some d }
    | "extends" => r.once name (pathSetting body) fun p s => { s with extending := some p }
    | _ => r.unknown name ["default", "extends"]) attrs

/-- Read the settings of a field. An alias may be given several times. -/
def fieldSettings (attrs : List Attribute) : Reading FieldSettings :=
  Reading.ofAttributes {} (fun r name body =>
    match name with
    | "rename" => r.once name (textSetting body) fun t s => { s with rename := some t }
    | "skip" => r.once name (flagSetting body) fun b s => { s with skip := b }
    | "alias" =>
      match textSetting body with
      | .ok t => { r with settings := { r.settings with aliases := r.settings.aliases ++ [t] } }
      | .error e =>
        r.fault ((Report.of e).under ("alias[" ++ toString r.settings.aliases.length ++ "]"))
    | _ => r.unknown name ["alias", "rename", "skip"]) attrs

end JsonAdapters
