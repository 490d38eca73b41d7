import JsonAdapters.Json.Fault
import JsonAdapters.Text.Utf8

/-!
# Sources of JSON text

A source is the characters that its bytes encode, and what follows the last of them. Bytes that
encode no character are an error only where text is expected, inside strings; elsewhere they are
one more unexpected character.

## Main definitions

* `Json.Source`, `Json.Source.ofBytes`, `Json.Source.ofText`.
* `Json.Next`: what comes next in a source.
-/

namespace JsonAdapters.Json

/-- What follows the characters of a source. -/
inductive Ending
  /-- Nothing. -/
  | finished
  /-- A failure of the source. -/
  | failing (reason : String)
  /-- The first bytes of a character, then the end or a failure. -/
  | cut (reason : Option String)
  /-- Bytes that begin no character. -/
  | undecodable
deriving DecidableEq, Repr

/-- A text to be read. -/
structure Source where
  chars : List Char
  ending : Ending := .finished
deriving Repr

namespace Source

def ofText (s : String) : Source := ⟨s.toList, .finished⟩

/-- The bytes that a source hands out before it ends or, for a `reason`, fails. -/
def ofBytes (bytes : List UInt8) (reason : Option String) : Source :=
  match Utf8.decode bytes with
  | (cs, none) => ⟨cs, match reason with | none => .finished | some r => .failing r⟩
  | (cs, some ⟨_, none⟩) => ⟨cs, .cut reason⟩
  | (cs, some ⟨_, some _⟩) => ⟨cs, .undecodable⟩

end Source

/-- What comes next, outside of strings. -/
inductive Next
  | char (c : Char) (rest : List Char)
  /-- Bytes that are no character. -/
  | stray
  | finished
  | failing (reason : String)

def Ending.next (e : Ending) : List Char → Next
  | c :: rest => .char c rest
  | [] =>
    match e with
    | .finished => .finished
    | .failing reason => .failing reason
    | .cut _ | .undecodable => .stray

end JsonAdapters.Json
