import JsonAdapters.Json.Source

/-!
# Number text

The JSON number grammar as a machine over characters, and the limits on number texts.

## Main definitions

* `Json.NumberState`: how far into a number the machine is.
* `Json.scanNumber`: the longest run of number characters, if it is a number.
* `Json.isSupported`: the limits that hold for numbers that are read and not skipped.
-/

namespace JsonAdapters.Json

/-- How far into a number the machine is. -/
inductive NumberState
  | start
  | minus
  | zero
  | whole
  | point
  | fraction
  | mark
  | markSign
  | power
deriving DecidableEq, Repr

namespace NumberState

def isLeading (c : Char) : Bool := '1' ≤ c && c ≤ '9'

def step (s : NumberState) (c : Char) : Option NumberState :=
  match s with
  | .start =>
    if c = '-' then some .minus
    else if c = '0' then some .zero
    else if isLeading c then some .whole
    else none
  | .minus => if c = '0' then some .zero else if isLeading c then some .whole else none
  -- no digit follows a leading zero
  | .zero =>
    if c = '.' then some .point
    else if c = 'e' || c = 'E' then some .mark
    else none
  | .whole =>
    if c.isDigit then some .whole
    else if c = '.' then some .point
    else if c = 'e' || c = 'E' then some .mark
    else none
  | .point => if c.isDigit then some .fraction else none
  | .fraction =>
    if c.isDigit then some .fraction
    else if c = 'e' || c = 'E' then some .mark
    else none
  | .mark =>
    if c = '+' || c = '-' then some .markSign
    else if c.isDigit then some .power
    else none
  | .markSign | .power => if c.isDigit then some .power else none

def accepts : NumberState → Bool
  | .zero | .whole | .fraction | .power => true
  | _ => false

end NumberState

/-- Characters that never stand directly behind a number. -/
def isNumberChar (c : Char) : Bool :=
  c.isDigit || c = '+' || c = '-' || c = '.' || c = 'e' || c = 'E'

/-- The run of number characters and what follows it, if the run is a number. -/
def scanNumber (ending : Ending) : NumberState → List Char →
    Except ReadCause (List Char × List Char)
  | s, [] =>
    match ending with
    | .failing reason => .error (.unreadable reason)
    | _ => if s.accepts then .ok ([], []) else .error (.malformed .malformedNumber)
  | s, c :: r =>
    if isNumberChar c then
      match s.step c with
      | some s' => do
        let (cs, rest) ← scanNumber ending s' r
        return (c :: cs, rest)
      | none => .error (.malformed .malformedNumber)
    else if s.accepts then .ok ([], c :: r)
    else .error (.malformed .malformedNumber)

/-- Exponent digits of a number text without leading zeros. -/
def exponentDigits (text : List Char) : List Char :=
  ((text.dropWhile fun c => c != 'e' && c != 'E').drop 1).dropWhile fun c =>
    c = '+' || c = '-' || c = '0'

/-- A number is read only if its text has at most 100 characters and its exponent at most two
digits, leading zeros not counted. -/
def isSupported (text : List Char) : Bool :=
  text.length ≤ 100 && (exponentDigits text).length ≤ 2

end JsonAdapters.Json
