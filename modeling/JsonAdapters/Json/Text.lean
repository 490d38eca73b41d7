import JsonAdapters.Json.Source

/-!
# String text

A string is read one character at a time. Inside an escape sequence the state says what is still
owed, so that every character and the end of the input have one meaning in each state.

## Main definitions

* `Json.Escape`: what an escape sequence still owes; `Json.Escape.step` takes one character.
* `Json.scanText`: the characters of a string up to its closing quote.
* `Json.quote`: the written form of a string.
-/

namespace JsonAdapters.Json

/-! ## Escape sequences -/

/-- What an escape sequence still owes. -/
inductive Escape
  /-- The letter behind the backslash. -/
  | letter
  /-- Hexadecimal digits of a code unit. -/
  | digits (owed value : Nat)
  /-- The backslash of the second half of a surrogate pair. -/
  | pairSlash (high : Nat)
  /-- The letter of the second half. -/
  | pairLetter (high : Nat)
  /-- Hexadecimal digits of the second half. -/
  | pairDigits (high owed value : Nat)
deriving DecidableEq, Repr

/-- Outcome of one character of an escape sequence. -/
inductive EscapeStep
  | more (e : Escape)
  | char (c : Char)
  | fault (m : Malformation)
deriving Repr

/-- The character for which a letter behind a backslash stands. -/
def plainEscape? : Char → Option Char
  | '"' => some '"'
  | '\\' => some '\\'
  | '/' => some '/'
  | 'b' => some '\x08'
  | 'f' => some '\x0c'
  | 'n' => some '\n'
  | 'r' => some '\r'
  | 't' => some '\t'
  | _ => none

def hexValue? (c : Char) : Option Nat :=
  if '0' ≤ c && c ≤ '9' then some (c.toNat - '0'.toNat)
  else if 'a' ≤ c && c ≤ 'f' then some (c.toNat - 'a'.toNat + 10)
  else if 'A' ≤ c && c ≤ 'F' then some (c.toNat - 'A'.toNat + 10)
  else none

/-- Whether a code unit is the first half of a surrogate pair. -/
def isHighSurrogate (n : Nat) : Bool := 0xD800 ≤ n && n < 0xDC00

/-- Whether a code unit is the second half of a surrogate pair. -/
def isLowSurrogate (n : Nat) : Bool := 0xDC00 ≤ n && n < 0xE000

namespace Escape

def refusal : Escape → Malformation
  | .letter => .unknownEscapeSequence
  | .digits _ _ | .pairDigits _ _ _ => .malformedEscapeSequence
  | .pairSlash _ | .pairLetter _ => .unpairedSurrogatePairEscapeSequence

def truncation : Escape → Malformation
  | .letter | .digits _ _ | .pairDigits _ _ _ => .malformedEscapeSequence
  | .pairSlash _ | .pairLetter _ => .unpairedSurrogatePairEscapeSequence

def unit (n : Nat) : EscapeStep :=
  if isHighSurrogate n then .more (.pairSlash n)
  else if isLowSurrogate n then .fault .unpairedSurrogatePairEscapeSequence
  else .char (Char.ofNat n)

def pair (high low : Nat) : EscapeStep :=
  if isLowSurrogate low then .char (Char.ofNat (0x10000 + (high - 0xD800) * 1024 + (low - 0xDC00)))
  else .fault .unpairedSurrogatePairEscapeSequence

def step (e : Escape) (c : Char) : EscapeStep :=
  match e with
  | .letter =>
    match plainEscape? c with
    | some d => .char d
    | none => if c = 'u' then .more (.digits 4 0) else .fault e.refusal
  | .digits owed value =>
    match hexValue? c with
    | none => .fault e.refusal
    | some d =>
      if owed ≤ 1 then unit (16 * value + d) else .more (.digits (owed - 1) (16 * value + d))
  | .pairSlash high => if c = '\\' then .more (.pairLetter high) else .fault e.refusal
  | .pairLetter high => if c = 'u' then .more (.pairDigits high 4 0) else .fault e.refusal
  | .pairDigits high owed value =>
    match hexValue? c with
    | none => .fault e.refusal
    | some d =>
      if owed ≤ 1 then pair high (16 * value + d)
      else .more (.pairDigits high (owed - 1) (16 * value + d))

end Escape

/-! ## Reading -/

/-- Why a string that is not closed cannot be read further. -/
def Ending.unclosed : Ending → ReadCause
  | .finished | .cut none => .malformed .incompleteDocument
  | .failing reason | .cut (some reason) => .unreadable reason
  | .undecodable => .unreadable "invalid UTF-8 data"

def Ending.unescaped (ending : Ending) (e : Escape) : ReadCause :=
  match ending with
  | .finished => .malformed e.truncation
  | .failing reason => .unreadable reason
  | .cut _ | .undecodable => .malformed e.refusal

/-- The characters up to the closing quote, and what follows it. An open escape sequence is kept
with the place where it starts. -/
def scanText (ending : Ending) : Option (Escape × Position) → Position → List Char →
    Except (ReadCause × Position) (List Char × Position × List Char)
  | none, p, [] => .error (ending.unclosed, p)
  | some (e, start), _, [] => .error (ending.unescaped e, start)
  | none, p, c :: r =>
    if c = '"' then .ok ([], p.past c, r)
    else if c = '\\' then scanText ending (some (.letter, p)) (p.past c) r
    else if c.toNat < 0x20 then .error (.malformed .notEscapedControlCharacter, p)
    else do
      let (cs, q, rest) ← scanText ending none (p.past c) r
      return (c :: cs, q, rest)
  | some (e, start), p, c :: r =>
    match e.step c with
    | .more e' => scanText ending (some (e', start)) (p.past c) r
    | .fault m => .error (.malformed m, start)
    | .char d => do
      let (cs, q, rest) ← scanText ending none (p.past c) r
      return (d :: cs, q, rest)

/-! ## Writing -/

def hexDigit (n : Nat) : Char :=
  if n < 10 then Char.ofNat ('0'.toNat + n) else Char.ofNat ('A'.toNat + (n - 10))

/-- Written form of one character: only quotes, backslashes and control characters are escaped. -/
def escapeChar (c : Char) : List Char :=
  if c = '"' then ['\\', '"']
  else if c = '\\' then ['\\', '\\']
  else if c = '\x08' then ['\\', 'b']
  else if c = '\x0c' then ['\\', 'f']
  else if c = '\n' then ['\\', 'n']
  else if c = '\r' then ['\\', 'r']
  else if c = '\t' then ['\\', 't']
  else if c.toNat < 0x20 then
    ['\\', 'u', '0', '0', hexDigit (c.toNat / 16), hexDigit (c.toNat % 16)]
  else [c]

def quote (s : String) : String :=
  String.ofList ('"' :: (s.toList.flatMap escapeChar ++ ['"']))

end JsonAdapters.Json
