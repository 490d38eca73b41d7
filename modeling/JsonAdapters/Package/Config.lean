import JsonAdapters.Json.Text
import JsonAdapters.Package.Generation

/-!
# Configuration

A configuration gives strings to some of three keys, one per line. Keys may be quoted; strings may
be written in quotes of either kind, which may be tripled to let them run over several lines.
Anything else is refused.

## Main definitions

* `Config`, `Config.parse?`.
* `ConfigText.string?`, `ConfigText.entries?`: strings, and keys with their strings.
-/

namespace JsonAdapters

namespace ConfigText

/-! ## Characters -/

def isGap (c : Char) : Bool := c = ' ' || c = '\t'

/-- Whether the character may stand in a comment, and unescaped in a string. -/
def isPlain (c : Char) : Bool := c = '\t' || (0x20 ≤ c.toNat && c.toNat ≠ 0x7F)

/-- Whether the character may stand in a key without quotes. -/
def isKeyChar (c : Char) : Bool := c.isAlphanum || c = '_' || c = '-'

def namedChar? (digits : List Char) : Option Char := do
  let n := (← digits.mapM Json.hexValue?).foldl (16 * · + ·) 0
  if n.isValidChar then some (Char.ofNat n) else none

/-- The character that a letter stands for behind a backslash. -/
def escaped? : Char → Option Char
  | 'b' => some '\x08'
  | 't' => some '\t'
  | 'n' => some '\n'
  | 'f' => some '\x0c'
  | 'r' => some '\r'
  | 'e' => some '\x1b'
  | '"' => some '"'
  | '\\' => some '\\'
  | _ => none

/-- Read a character that exactly `n` hexadecimal digits name, and the rest. -/
def digitEscape? (n : Nat) (r : List Char) : Option (Char × List Char) :=
  if r.length < n then none else (namedChar? (r.take n)).map (·, r.drop n)

/-- Read what follows a backslash: a character, and the rest. -/
def escape? : List Char → Option (Char × List Char)
  | 'x' :: r => digitEscape? 2 r
  | 'u' :: r => digitEscape? 4 r
  | 'U' :: r => digitEscape? 8 r
  | c :: r => (escaped? c).map (·, r)
  | [] => none

/-! ## Strings -/

/-- What a reader gives: a text, and the rest behind it. -/
abbrev Cut := Option (List Char × List Char)

def Cut.cons (c : Char) (x : Cut) : Cut := x.map fun (t, r) => (c :: t, r)

/-- Text up to a closing double quote. The first argument bounds the number of steps. -/
def quotedText : Nat → List Char → Cut
  | 0, _ | _, [] => none
  | n + 1, c :: r =>
    if c = '"' then some ([], r)
    else if c = '\\' then (escape? r).bind fun (e, r) => (quotedText n r).cons e
    else if isPlain c then (quotedText n r).cons c
    else none

def literalText : List Char → Cut
  | [] => none
  | c :: r =>
    if c = '\'' then some ([], r)
    else if isPlain c then (literalText r).cons c
    else none

/-- Up to two more quotes before the three that close a text. -/
def closing (q : Char) (r : List Char) : List Char × List Char :=
  let more := (r.takeWhile (· = q)).take 2
  (more, r.drop more.length)

def endsLine : List Char → Bool
  | '\n' :: _ | '\r' :: '\n' :: _ => true
  | _ => false

/-- The text without blanks and line breaks at its start. -/
def dropBlanks : List Char → List Char
  | '\r' :: '\n' :: r => dropBlanks r
  | c :: r => if isGap c || c = '\n' then dropBlanks r else c :: r
  | [] => []

/-- Text of several lines up to three closing quotes `q`, with escapes if `q` is the double quote.
A backslash at the end of a line takes away all blanks up to the next character. -/
def longText (q : Char) : Nat → List Char → Cut
  | 0, _ | _, [] => none
  | n + 1, c :: r =>
    if c = q && r.take 2 = [q, q] then
      let (more, rest) := closing q (r.drop 2)
      some (more, rest)
    else if c = '\\' && q = '"' then
      if endsLine (r.dropWhile isGap) then longText q n (dropBlanks r)
      else (escape? r).bind fun (e, r) => (longText q n r).cons e
    else if isPlain c || c = '\n' || (c = '\r' && endsLine (c :: r)) then (longText q n r).cons c
    else none

def dropLineBreak : List Char → List Char
  | '\n' :: r | '\r' :: '\n' :: r => r
  | r => r

def shortString? : List Char → Cut
  | '"' :: r => quotedText (r.length + 1) r
  | '\'' :: r => literalText r
  | _ => none

def string? : List Char → Cut
  | '"' :: '"' :: '"' :: r => longText '"' (r.length + 1) (dropLineBreak r)
  | '\'' :: '\'' :: '\'' :: r => longText '\'' (r.length + 1) (dropLineBreak r)
  | cs => shortString? cs

/-! ## Lines -/

def key? (cs : List Char) : Cut :=
  match cs with
  | '"' :: _ | '\'' :: _ => shortString? cs
  | _ => if (cs.takeWhile isKeyChar).isEmpty then none else some (cs.span isKeyChar)

/-- The rest behind the end of a line, on which nothing but a comment may stand. -/
def lineEnd? (cs : List Char) : Option (List Char) :=
  let cs := cs.dropWhile isGap
  let cs :=
    match cs with
    | '#' :: r => r.dropWhile isPlain
    | _ => cs
  match cs with
  | [] => some []
  | '\n' :: r | '\r' :: '\n' :: r => some r
  | _ => none

def entry? (cs : List Char) : Option ((String × String) × List Char) := do
  let (k, cs) ← key? cs
  let '=' :: cs := cs.dropWhile isGap | none
  let (v, cs) ← string? (cs.dropWhile isGap)
  return ((String.ofList k, String.ofList v), cs)

/-- The keys of a text and their strings. The first argument bounds the number of lines. -/
def entriesWithin : Nat → List Char → Option (List (String × String))
  | 0, _ => none
  | n + 1, cs =>
    match cs.dropWhile isGap with
    | [] => some []
    | '#' :: _ | '\n' :: _ | '\r' :: _ => do entriesWithin n (← lineEnd? cs)
    | c :: r => do
      let (e, rest) ← entry? (c :: r)
      return e :: (← entriesWithin n (← lineEnd? rest))

/-- The keys of a text and their strings, behind a mark of byte order. -/
def entries? (text : String) : Option (List (String × String)) :=
  let cs := Code.dropOrderMark text.toList
  entriesWithin (cs.length + 1) cs

end ConfigText

/-! ## Configurations -/

/-- Choices for a package. -/
structure Config where
  granularity : Granularity := .perType
  root : Option FilePath := none
  module : Option String := none
deriving DecidableEq, Repr

namespace Config

def set? (c : Config) : String × String → Option Config
  | ("granularity", v) => (Granularity.ofText? v).map fun g => { c with granularity := g }
  | ("root", v) => some { c with root := some ⟨v⟩ }
  | ("module", v) => some { c with module := some v }
  | _ => none

/-- The configuration that a text writes. No key is given twice. -/
def parse? (text : String) : Option Config := do
  let entries ← ConfigText.entries? text
  if (entries.map (·.1)).Nodup then entries.foldlM set? {} else none

def options (c : Config) : Options :=
  { granularity := c.granularity
    root := c.root.getD ({} : Options).root
    module := c.module.getD ({} : Options).module }

end Config

end JsonAdapters
