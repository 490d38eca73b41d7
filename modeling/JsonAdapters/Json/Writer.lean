import JsonAdapters.Json.Due
import JsonAdapters.Json.Text
import JsonAdapters.Number.Decimal

/-!
# Writing a JSON document step by step

A writer collects compact JSON text and hands it to a sink in blocks: a block goes out as soon as
it is full, the last one when the document is finished.

## Main definitions

* `Json.Sink`: how many bytes are accepted, and the reason given when there are more.
* `Json.Writer`: the text so far, the open containers and what is due next.
* `Json.Writer.null`, `bool`, `string`, `integer`, `float`, `enterArray`, `leaveArray`,
  `enterObject`, `name`, `leaveObject`, `finish`.

## Design notes

A sink that refuses a block takes nothing of it and refuses all that follows, so that the bytes
which arrived are a number, `delivered`, and never a second text.
-/

namespace JsonAdapters.Json

open Binary (Format)

/-- A receiver of text. -/
structure Sink where
  /-- Bytes accepted in total; `none` for any number. -/
  capacity : Option Nat := none
  /-- Reason given for a refused block. -/
  reason : String := ""
deriving DecidableEq, Repr

def Sink.accepts (s : Sink) (bytes : Nat) : Bool :=
  match s.capacity with
  | none => true
  | some n => bytes ≤ n

def blockSize : Nat := 1024

/-- Kind of an open container. -/
inductive Container
  | array
  | object
deriving DecidableEq, Repr

/-- A JSON document that is being written. -/
structure Writer where
  /-- All text written so far. -/
  text : String := ""
  /-- Bytes that reached the sink. -/
  delivered : Nat := 0
  /-- Whether the sink refused a block. -/
  stuck : Bool := false
  sink : Sink := {}
  /-- Open containers, innermost first. -/
  containers : List Container := []
  due : Due := .first
deriving Repr

/-- Why a step was not taken. -/
inductive WriteFailure
  /-- The step is not allowed here. -/
  | misuse
  /-- The value cannot be written. -/
  | refused (why : String)
  /-- The sink failed. -/
  | sinkFailed (reason : String)
deriving DecidableEq, Repr

abbrev WriteM := EStateM WriteFailure Writer

namespace Writer

def ofSink (s : Sink) : Writer := { sink := s }

/-- Whether a member name, or the end of the object, is due. -/
def nameDue (w : Writer) : Bool :=
  w.containers.head? == some .object && w.due != .memberValue

def misuse : WriteM α := throw .misuse

def emit (s : String) : WriteM Unit := do
  let w ← get
  if s.isEmpty then return
  if w.stuck then throw (.sinkFailed w.sink.reason)
  let text := w.text ++ s
  let full := text.utf8ByteSize / blockSize * blockSize
  if full = w.delivered || w.sink.accepts full then
    set { w with text, delivered := full }
  else
    let taken := w.sink.capacity.getD 0 / blockSize * blockSize
    set { w with text, delivered := taken, stuck := true }
    throw (.sinkFailed w.sink.reason)

/-- What is due in the enclosing container once a value is complete. -/
def valueDone (w : Writer) : Writer :=
  { w with due := if w.containers.isEmpty then .nothing else .further }

def beforeValue : WriteM Unit := do
  let w ← get
  if w.nameDue || w.due = .nothing then misuse
  if w.due = .further then emit ","

def scalar (s : String) : WriteM Unit := do
  beforeValue
  modify valueDone
  emit s

def enter (c : Container) (bracket : String) : WriteM Unit := do
  beforeValue
  emit bracket
  modify fun w => { w with containers := c :: w.containers, due := .first }

def leave (bracket : String) : WriteM Unit := do
  emit bracket
  modify fun w => valueDone { w with containers := w.containers.drop 1 }

/-! ## Steps -/

def null : WriteM Unit := scalar "null"

def bool (b : Bool) : WriteM Unit := scalar (if b then "true" else "false")

def string (s : String) : WriteM Unit := scalar (quote s)

def integer (n : Int) : WriteM Unit := scalar (toString n)

/-- Text of a bit pattern that is no finite number. -/
def nonFiniteText (fmt : Format) (bits : Nat) : String :=
  if fmt.infinity < fmt.magnitude bits then "NaN"
  else if fmt.isNegative bits then "-inf"
  else "inf"

/-- Write a floating point number. Numbers that are not finite are refused wherever the writer
stands; a failing sink is reported as a refusal of the number. -/
def float (fmt : Format) (bits : Nat) : WriteM Unit := do
  if !fmt.isFinite bits then
    throw (.refused s!"non-finite number: {nonFiniteText fmt bits}")
  tryCatch (scalar (Decimal.print fmt bits)) fun
    | .sinkFailed reason => throw (.refused s!"IO error: {reason}")
    | failure => throw failure

def enterArray : WriteM Unit := enter .array "["

def enterObject : WriteM Unit := enter .object "\x7b"

def name (s : String) : WriteM Unit := do
  let w ← get
  if !w.nameDue then misuse
  if w.due = .further then emit ","
  emit (quote s)
  emit ":"
  modify fun w => { w with due := .memberValue }

def leaveArray : WriteM Unit := do
  if (← get).containers.head? ≠ some .array then misuse
  leave "]"

def leaveObject : WriteM Unit := do
  if !(← get).nameDue then misuse
  leave "\x7d"

/-- Hand the rest of a complete document to the sink. -/
def finish : WriteM Unit := do
  let w ← get
  if w.due ≠ .nothing then misuse
  let size := w.text.utf8ByteSize
  if size = w.delivered then return
  if w.stuck || !w.sink.accepts size then throw (.sinkFailed w.sink.reason)
  set { w with delivered := size }

def output (w : Writer) : List UInt8 :=
  w.text.toUTF8.toList.take w.delivered

end Writer

end JsonAdapters.Json
