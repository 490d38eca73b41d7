import JsonAdapters.Text.Position

/-!
# What can be wrong with a JSON document

## Main definitions

* `Json.Kind`: the six kinds of values.
* `Json.Malformation`: the ways in which text is no JSON.
* `Json.ReadError`: why reading stopped, in which container and at which position.
-/

namespace JsonAdapters.Json

/-- Kind of a JSON value. -/
inductive Kind
  | null
  | bool
  | number
  | string
  | array
  | object
deriving DecidableEq, Repr

def Kind.word : Kind → String
  | .null => "Null"
  | .bool => "Boolean"
  | .number => "Number"
  | .string => "String"
  | .array => "Array"
  | .object => "Object"

/-- A breach of the JSON grammar. -/
inductive Malformation
  | notEscapedControlCharacter
  | commentsNotEnabled
  | unexpectedComma
  | incompleteDocument
  | expectingMemberNameOrObjectEnd
  | unexpectedClosingBracket
  | unexpectedColon
  | malformedJson
  | invalidLiteral
  | trailingDataAfterLiteral
  | trailingCommaNotEnabled
  | missingComma
  | missingColon
  | malformedNumber
  | trailingDataAfterNumber
  | unknownEscapeSequence
  | malformedEscapeSequence
  | unpairedSurrogatePairEscapeSequence
  | trailingData
deriving DecidableEq, Repr

def Malformation.word : Malformation → String
  | .notEscapedControlCharacter => "NotEscapedControlCharacter"
  | .commentsNotEnabled => "CommentsNotEnabled"
  | .unexpectedComma => "UnexpectedComma"
  | .incompleteDocument => "IncompleteDocument"
  | .expectingMemberNameOrObjectEnd => "ExpectingMemberNameOrObjectEnd"
  | .unexpectedClosingBracket => "UnexpectedClosingBracket"
  | .unexpectedColon => "UnexpectedColon"
  | .malformedJson => "MalformedJson"
  | .invalidLiteral => "InvalidLiteral"
  | .trailingDataAfterLiteral => "TrailingDataAfterLiteral"
  | .trailingCommaNotEnabled => "TrailingCommaNotEnabled"
  | .missingComma => "MissingComma"
  | .missingColon => "MissingColon"
  | .malformedNumber => "MalformedNumber"
  | .trailingDataAfterNumber => "TrailingDataAfterNumber"
  | .unknownEscapeSequence => "UnknownEscapeSequence"
  | .malformedEscapeSequence => "MalformedEscapeSequence"
  | .unpairedSurrogatePairEscapeSequence => "UnpairedSurrogatePairEscapeSequence"
  | .trailingData => "TrailingData"

/-- One step from a container to what it holds. -/
inductive PathPiece
  /-- The current or next item of an array. -/
  | item (index : Nat)
  /-- The member whose name was read last, if any was. -/
  | member (name : Option String)
deriving DecidableEq, Repr

def PathPiece.text : PathPiece → String
  | .item i => s!"[{i}]"
  | .member (some name) => "." ++ name
  | .member none => ".<?>"

/-- Why reading stopped. -/
inductive ReadCause
  | malformed (what : Malformation)
  | unexpectedKind (wanted found : Kind)
  /-- A container was left although it holds more. -/
  | moreElements
  /-- A value or name was asked for at the end of its container. -/
  | fewerElements
  /-- Too many containers are open. -/
  | tooDeep (limit : Nat)
  /-- A number whose text is too long, or whose exponent is. -/
  | unsupportedNumber (text : String)
  /-- The source failed, or its bytes are no text. -/
  | unreadable (reason : String)
deriving DecidableEq, Repr

/-- Why reading stopped, and where. -/
structure ReadError where
  cause : ReadCause
  /-- Steps from the document to the place, outermost first. -/
  path : List PathPiece
  position : Position
deriving DecidableEq, Repr

/-- Text of the place: path, line, column and byte. -/
def ReadError.place (e : ReadError) : String :=
  let path := "$" ++ String.join (e.path.map PathPiece.text)
  s!"path '{path}', line {e.position.line}, column {e.position.column} " ++
    s!"(data pos {e.position.offset})"

def ReadError.message (e : ReadError) : String :=
  match e.cause with
  | .malformed m => s!"syntax error: JSON syntax error {m.word} at {e.place}"
  | .unexpectedKind wanted found =>
    s!"expected JSON value type {wanted.word} but got {found.word} at {e.place}"
  | .moreElements => s!"unexpected JSON structure MoreElementsThanExpected at {e.place}"
  | .fewerElements => s!"unexpected JSON structure FewerElementsThanExpected at {e.place}"
  | .tooDeep limit => s!"maximum nesting depth {limit} exceeded at {e.place}"
  | .unsupportedNumber text => s!"unsupported number value '{text}' at {e.place}"
  | .unreadable reason => s!"IO error '{reason}' at (roughly) {e.place}"

end JsonAdapters.Json
