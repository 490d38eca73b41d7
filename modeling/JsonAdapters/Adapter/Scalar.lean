import JsonAdapters.Adapter.Session

/-!
# Scalars in streams

Integers are read exactly, floating point numbers to the nearest value. `null` is the absent value
of every scalar type.

## Main definitions

* `Scalar.ofNumber?`: the value of a number text, if the type has one.
* `Scalar.read`, `Scalar.write`.
-/

namespace JsonAdapters

open Json (Reader Writer)

/-- The integer that a number text denotes; texts with a fraction or an exponent denote none. -/
def integerOf? (text : List Char) : Option Int :=
  match text with
  | '-' :: ds => if ds.all Char.isDigit then some (-(Decimal.digitsValue ds : Int)) else none
  | ds => if ds.all Char.isDigit then some (Decimal.digitsValue ds) else none

def passNull : AdapterM Reader Bool := do
  if (← onReader Reader.peek) = .null then
    onReader Reader.null
    return true
  return false

namespace Scalar

/-- The value of a number text. A type without negative numbers takes no minus sign. -/
def ofNumber? (s : Scalar) (text : String) : Option Value :=
  let within (n : Int) : Option Value :=
    if s.least ≤ n && n ≤ s.greatest then some (.int n) else none
  match s with
  | .bool | .string => none
  | .signed _ => (integerOf? text.toList).bind within
  | .unsigned _ =>
    if text.toList.head? = some '-' then none else (integerOf? text.toList).bind within
  | .single => some (.single (Decimal.parse Binary.single text))
  | .double => some (.double (Decimal.parse Binary.double text))

def readNumber (s : Scalar) : AdapterM Reader Value := do
  let text ← onReader Reader.number
  match s.ofNumber? text with
  | some v => return v
  | none => AdapterM.fail (.invalidNumber text s.path)

def read (s : Scalar) : AdapterM Reader (Option Value) := do
  if ← passNull then return none
  match s with
  | .bool => return some (.bool (← onReader Reader.bool))
  | .string => return some (.string (← onReader Reader.string))
  | s => return some (← s.readNumber)

def writeValue (s : Scalar) (v : Value) : AdapterM Writer Unit :=
  match s, v with
  | .bool, .bool b => onWriter (Writer.bool b)
  | .string, .string s => onWriter (Writer.string s)
  | .signed _, .int n | .unsigned _, .int n => onWriter (Writer.integer n)
  | .single, .single bits => onWriter (Writer.float Binary.single bits)
  | .double, .double bits => onWriter (Writer.float Binary.double bits)
  | _, _ => throw .misuse

end Scalar

end JsonAdapters
