import JsonAdapters.Json.Due
import JsonAdapters.Json.Number
import JsonAdapters.Json.Text

/-!
# Reading a JSON document step by step

A reader stands somewhere in one JSON document. It looks at the next token before it consumes it,
and remembers a token that it has looked at, so that a refused step leaves it where it was.

## Main definitions

* `Json.Reader`: the rest of the source, the open containers and what is due next.
* `Json.ReadM`: computations that move a reader and keep it when they fail.
* `Json.Reader.peek`, `null`, `bool`, `string`, `number`, `enterArray`,
  `enterObject`, `more`, `name`, `leaveArray`, `leaveObject`, `skip`, `finish`.

## Design notes

A step that the state of the reader does not allow, such as asking for a name inside an array, is
`ReadFailure.misuse`: it says something about the caller and nothing about the document.
-/

namespace JsonAdapters.Json

/-- An open container and where the reader stands in it. -/
inductive Frame
  /-- An array, with the index of the current or next item. -/
  | array (index : Nat)
  /-- An object, with the name read last. -/
  | object (name : Option String)
deriving DecidableEq, Repr

def Frame.piece : Frame → PathPiece
  | .array i => .item i
  | .object name => .member name

/-- A token that was looked at and not consumed. -/
inductive Mark
  | null
  | bool (b : Bool)
  | number
  | string
  | openArray
  | openObject
  /-- The end of the innermost container. -/
  | close
  | name
deriving DecidableEq, Repr

def maxDepth : Nat := 128

/-- A place in a JSON document. -/
structure Reader where
  rest : List Char
  ending : Ending
  position : Position := {}
  /-- Open containers, innermost first. -/
  frames : List Frame := []
  due : Due := .first
  /-- The token at the start of `rest`, when it was looked at. -/
  looked : Option Mark := none
deriving Repr

/-- Why a step was not taken. -/
inductive ReadFailure
  /-- The step is not allowed here, whatever the document holds. -/
  | misuse
  | error (e : ReadError)
deriving DecidableEq, Repr

abbrev ReadM := EStateM ReadFailure Reader

namespace Reader

def ofSource (s : Source) : Reader := { rest := s.chars, ending := s.ending }

/-- Steps from the document to the innermost open container, outermost first. -/
def path (r : Reader) : List PathPiece :=
  (r.frames.map Frame.piece).reverse

/-- Whether a member name, or the end of the object, is due. -/
def nameDue (r : Reader) : Bool :=
  match r.frames with
  | .object _ :: _ => r.due != .memberValue
  | _ => false

/-- Whether the innermost open container is an array. -/
def inArray (r : Reader) : Bool :=
  match r.frames with
  | .array _ :: _ => true
  | _ => false

/-! ## Elementary steps -/

/-- Refuse a step because of the document, naming a place. -/
def failAt (position : Position) (cause : ReadCause) : ReadM α := do
  let r ← get
  throw (.error ⟨cause, r.path, position⟩)

/-- Refuse a step because of the document, naming the current place. -/
def fail (cause : ReadCause) : ReadM α := do
  let r ← get
  failAt r.position cause

def misuse : ReadM α := throw .misuse

def skipBlanks : ReadM Unit := do
  let r ← get
  let (position, rest) := JsonAdapters.skipBlanks r.position r.rest
  set { r with position, rest }
  if rest.head? = some '/' then fail (.malformed .commentsNotEnabled)

/-- Move past the character at the start of the rest. -/
def advance : ReadM Unit :=
  modify fun r =>
    match r.rest with
    | c :: rest => { r with rest, position := r.position.past c }
    | [] => r

def next : ReadM Next := do
  let r ← get
  return r.ending.next r.rest

/-- Characters that may stand directly behind a literal or a number. -/
def delimits (c : Char) : Bool :=
  c = ',' || c = ']' || c = '}' || c = ':' || c = '/' ||
    c = ' ' || c = '\t' || c = '\n' || c = '\r'

/-- Check that the word of a literal and a delimiter come next, without moving. -/
def checkLiteral (ending : Ending) : List Char → List Char → Except ReadCause Unit
  | w :: word, rest =>
    match ending.next rest with
    | .char c rest =>
      if c = w then checkLiteral ending word rest else .error (.malformed .invalidLiteral)
    | .stray | .finished => .error (.malformed .invalidLiteral)
    | .failing reason => .error (.unreadable reason)
  | [], rest =>
    match ending.next rest with
    | .char c _ => if delimits c then .ok () else .error (.malformed .trailingDataAfterLiteral)
    | .stray => .error (.malformed .trailingDataAfterLiteral)
    | .finished => .ok ()
    | .failing reason => .error (.unreadable reason)

def word : Mark → List Char
  | .null => ['n', 'u', 'l', 'l']
  | .bool true => ['t', 'r', 'u', 'e']
  | .bool false => ['f', 'a', 'l', 's', 'e']
  | _ => []

def literal (mark : Mark) : ReadM Mark := do
  let r ← get
  match checkLiteral r.ending (word mark) r.rest with
  | .ok () => return mark
  | .error cause => fail cause

/-! ## Looking at the next token -/

def passColon : ReadM Unit := do
  skipBlanks
  match ← next with
  | .char c _ => if c = ':' then advance else fail (.malformed .missingColon)
  | .stray | .finished => fail (.malformed .missingColon)
  | .failing reason => fail (.unreadable reason)

/-- The token that starts with `c`. A comma is one too many here. -/
def classify (c : Char) : ReadM Mark := do
  let r ← get
  if r.nameDue && c ≠ '"' && c ≠ '}' then
    fail (.malformed .expectingMemberNameOrObjectEnd)
  match c with
  | '[' => return .openArray
  | '{' => return .openObject
  | ']' => if r.inArray then return .close else fail (.malformed .unexpectedClosingBracket)
  | '}' => if r.nameDue then return .close else fail (.malformed .unexpectedClosingBracket)
  | '"' => return if r.nameDue then .name else .string
  | ',' => fail (.malformed .unexpectedComma)
  | ':' => fail (.malformed .unexpectedColon)
  | 'n' => literal .null
  | 't' => literal (.bool true)
  | 'f' => literal (.bool false)
  | _ => if c = '-' || c.isDigit then return .number else fail (.malformed .malformedJson)

def tokenStart : ReadM Char := do
  match ← next with
  | .char c _ =>
    if c.toNat < 0x20 then fail (.malformed .notEscapedControlCharacter)
    return c
  | .stray =>
    let r ← get
    fail (.malformed (if r.nameDue then .expectingMemberNameOrObjectEnd else .malformedJson))
  | .finished => fail (.malformed .incompleteDocument)
  | .failing reason => fail (.unreadable reason)

/-- Pass a comma, if it comes next; the answer tells whether it did. -/
def passComma : ReadM Bool := do
  if (← tokenStart) = ',' then
    if (← get).due ≠ .further then fail (.malformed .unexpectedComma)
    advance
    skipBlanks
    return true
  else
    return false

/-- Pass blanks, and the colon before the value of a member. -/
def passLead : ReadM Unit := do
  if (← get).due = .memberValue then passColon
  skipBlanks

def look : ReadM Mark := do
  if let some mark := (← get).looked then return mark
  passLead
  let start := (← get).position
  let comma ← passComma
  let mark ← classify (← tokenStart)
  if comma && mark = .close then failAt start (.malformed .trailingCommaNotEnabled)
  if (← get).due = .further && !comma && mark ≠ .close then fail (.malformed .missingComma)
  modify fun r => { r with looked := some mark }
  return mark

def Mark.kind : Mark → Kind
  | .null => .null
  | .bool _ => .bool
  | .number => .number
  | .string | .name => .string
  | .openArray => .array
  | .openObject => .object
  | .close => .null

def lookValue : ReadM Mark := do
  let r ← get
  if r.nameDue || r.due = .nothing then misuse
  let mark ← look
  if mark = .close then fail .fewerElements
  return mark

def lookKind (wanted : Kind) : ReadM Mark := do
  let mark ← lookValue
  if Mark.kind mark ≠ wanted then fail (.unexpectedKind wanted (Mark.kind mark))
  return mark

/-! ## Moving past tokens -/

/-- What is due in the enclosing container once a value is complete. -/
def valueDone (r : Reader) : Reader :=
  match r.frames with
  | [] => { r with due := .nothing, looked := none }
  | .array i :: frames =>
    { r with frames := .array (i + 1) :: frames, due := .further, looked := none }
  | .object _ :: _ => { r with due := .further, looked := none }

def passLiteral (mark : Mark) : ReadM Unit :=
  modify fun r =>
    let n := (word mark).length
    valueDone { r with rest := r.rest.drop n, position := r.position.right n }

/-- Move past a string or name and return its characters. -/
def passText : ReadM String := do
  let r ← get
  match scanText r.ending none (r.position.right 1) (r.rest.drop 1) with
  | .ok (cs, position, rest) =>
    set { r with position, rest, looked := none }
    return String.ofList cs
  | .error (cause, position) => failAt position cause

/-- Whether a number is complete in front of what comes next. -/
def endsNumber : Next → Bool
  | .char c _ => delimits c
  | .stray => false
  | .finished | .failing _ => true

/-- Move past a number and return its text. The limits hold only for numbers that are `kept`. -/
def passNumber (kept : Bool) : ReadM String := do
  let r ← get
  match scanNumber r.ending .start r.rest with
  | .error cause => fail cause
  | .ok (cs, rest) =>
    if kept && !isSupported cs then fail (.unsupportedNumber (String.ofList cs))
    let position := r.position.right cs.length
    if !endsNumber (r.ending.next rest) then
      failAt position (.malformed .trailingDataAfterNumber)
    set (valueDone { r with position, rest })
    return String.ofList cs

def enter (frame : Frame) : ReadM Unit := do
  let r ← get
  if maxDepth ≤ r.frames.length then fail (.tooDeep maxDepth)
  advance
  modify fun r => { r with frames := frame :: r.frames, due := .first, looked := none }

def leave : ReadM Unit := do
  let mark ← look
  if mark ≠ .close then fail .moreElements
  advance
  modify fun r => valueDone { r with frames := r.frames.drop 1 }

/-! ## Steps -/

def peek : ReadM Kind := do
  return Mark.kind (← lookValue)

def null : ReadM Unit := do
  passLiteral (← lookKind .null)

def bool : ReadM Bool := do
  let mark ← lookKind .bool
  passLiteral mark
  return mark = .bool true

def string : ReadM String := do
  let _ ← lookKind .string
  let s ← passText
  modify valueDone
  return s

def number : ReadM String := do
  let _ ← lookKind .number
  passNumber true

def enterArray : ReadM Unit := do
  let _ ← lookKind .array
  enter (.array 0)

def enterObject : ReadM Unit := do
  let _ ← lookKind .object
  enter (.object none)

/-- Whether the innermost container holds more items or members. -/
def more : ReadM Bool := do
  let r ← get
  if r.frames.isEmpty || r.due = .memberValue then misuse
  return (← look) ≠ .close

def name : ReadM String := do
  if !(← get).nameDue then misuse
  if (← look) = .close then fail .fewerElements
  let name ← passText
  modify fun r => { r with frames := .object (some name) :: r.frames.drop 1, due := .memberValue }
  return name

def leaveArray : ReadM Unit := do
  if !(← get).inArray then misuse
  leave

def leaveObject : ReadM Unit := do
  if !(← get).nameDue then misuse
  leave

/-- Move past a scalar, or into a container, once its token was looked at. -/
def skipMark : Mark → ReadM Bool
  | .openArray => do enter (.array 0); return true
  | .openObject => do enter (.object none); return true
  | .string => do let _ ← passText; modify valueDone; return false
  | .number => do let _ ← passNumber false; return false
  | mark => do passLiteral mark; return false

/-- Move past a scalar, or into a container; the answer tells whether a container was entered. -/
def skipHead : ReadM Bool := do
  skipMark (← lookValue)

def toValue : ReadM Unit := do
  if (← get).nameDue then let _ ← name

/-- Move to the end of the containers entered last, `depth` many. Every round moves on, so that
the length of the rest bounds their number. -/
def skipRest : Nat → Nat → ReadM Unit
  | 0, _ => return
  | _, 0 => return
  | fuel + 1, depth + 1 => do
    if ← more then
      toValue
      if ← skipHead then skipRest fuel (depth + 2) else skipRest fuel (depth + 1)
    else
      leave
      skipRest fuel depth

def skip : ReadM Unit := do
  if ← skipHead then
    skipRest ((← get).rest.length + 1) 1

/-- Check that nothing but blanks follows the document. -/
def finish : ReadM Unit := do
  if (← get).due ≠ .nothing then misuse
  skipBlanks
  match ← next with
  | .finished => return
  | .failing reason => fail (.unreadable reason)
  | .char _ _ | .stray => fail (.malformed .trailingData)

end Reader

end JsonAdapters.Json
