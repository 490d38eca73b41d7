import JsonAdapters.Text.Identifier
import JsonAdapters.Code.Literal

/-!
# From program text to tokens

Gaps (white space and comments) are skipped, then the one token that starts there is taken.
Documentation comments are kept: each becomes an attribute that holds its text. Where a literal
can start, a literal is taken; then punctuation, then a word.

A scanner takes the characters from its place on and gives those behind what it read, or nothing
if no such thing stands there.

## Main definitions

* `Code.skipGaps`, `Code.docComment`.
* `Code.literalEnd`, `Code.punctuation`, `Code.word`: one token.
* `Code.tokens?`: the tokens of a text, if its brackets match and every character has a place.
-/

namespace JsonAdapters.Code

def readUpTo (whole rest : List Char) : String :=
  String.ofList (whole.take (whole.length - rest.length))

/-! ## Gaps -/

/-- Characters between words; marks of writing direction count as blanks. -/
def isGapChar (c : Char) : Bool := isBlank c || c.toNat = 0x200e || c.toNat = 0x200f

/-- The rest of the line, and what follows from its line break on. -/
def restOfLine : List Char → List Char × List Char
  | [] => ([], [])
  | '\n' :: r => ([], '\n' :: r)
  | '\r' :: '\n' :: r => ([], '\n' :: r)
  | c :: r => (c :: (restOfLine r).1, (restOfLine r).2)

/-- A comment between `/*` and `*/`, comments inside it included; the text is given with its
marks. -/
def blockComment : Nat → List Char → Option (List Char × List Char)
  | depth, '/' :: '*' :: r => do
    let (cs, rest) ← blockComment (depth + 1) r
    return ('/' :: '*' :: cs, rest)
  | depth, '*' :: '/' :: r =>
    if depth ≤ 1 then some (['*', '/'], r)
    else do
      let (cs, rest) ← blockComment (depth - 1) r
      return ('*' :: '/' :: cs, rest)
  | depth, c :: r => do
    let (cs, rest) ← blockComment depth r
    return (c :: cs, rest)
  | _, [] => none

/-- Whether a line comment that documents nothing starts here. -/
def startsLineComment (cs : List Char) : Bool :=
  ['/', '/'].isPrefixOf cs && !(['/', '/', '!'].isPrefixOf cs)
    && (!(['/', '/', '/'].isPrefixOf cs) || ['/', '/', '/', '/'].isPrefixOf cs)

/-- Whether a block comment that documents nothing starts here. -/
def startsBlockComment (cs : List Char) : Bool :=
  ['/', '*'].isPrefixOf cs && !(['/', '*', '!'].isPrefixOf cs)
    && (!(['/', '*', '*'].isPrefixOf cs) || ['/', '*', '*', '*'].isPrefixOf cs
      || ['/', '*', '*', '/'].isPrefixOf cs)

/-- Skip white space and comments. The first argument bounds the number of steps. -/
def skipGapsWithin : Nat → List Char → List Char
  | 0, cs => cs
  | _, [] => []
  | n + 1, c :: r =>
    if startsLineComment (c :: r) then skipGapsWithin n (restOfLine (c :: r)).2
    else if startsBlockComment (c :: r) then
      match blockComment 0 (c :: r) with
      | some (_, rest) => skipGapsWithin n rest
      | none => c :: r
    else if isGapChar c then skipGapsWithin n r
    else c :: r

def skipGaps (cs : List Char) : List Char := skipGapsWithin (cs.length + 1) cs

/-- Whether each carriage return is followed by a line feed. -/
def hasOnlyPairedReturns : List Char → Bool
  | [] => true
  | '\r' :: '\n' :: r => hasOnlyPairedReturns r
  | c :: r => c ≠ '\r' && hasOnlyPairedReturns r

/-- A documentation comment: its text, whether it documents what encloses it, and what follows. -/
def docComment (cs : List Char) : Option (String × Bool × List Char) := do
  let (body, inner, rest) ←
    match cs with
    | '/' :: '/' :: '!' :: r => some ((restOfLine r).1, true, (restOfLine r).2)
    | '/' :: '/' :: '/' :: r =>
      if r.head? = some '/' then none else some ((restOfLine r).1, false, (restOfLine r).2)
    | '/' :: '*' :: '!' :: _ =>
      (blockComment 0 cs).map fun (whole, rest) =>
        ((whole.drop 3).take (whole.length - 5), true, rest)
    | '/' :: '*' :: '*' :: r =>
      if r.head? = some '*' then none
      else (blockComment 0 cs).map fun (whole, rest) =>
        ((whole.drop 3).take (whole.length - 5), false, rest)
    | _ => none
  if hasOnlyPairedReturns body then some (String.ofList body, inner, rest) else none

/-- The attribute that a documentation comment stands for. -/
def docTokens (text : String) (inner : Bool) : Tokens :=
  .punct '#' false :: (if inner then [.punct '!' false] else []) ++
    [.group .bracket [.ident "doc", .punct '=' false, .literal (quoted text)]]

/-! ## Words -/

/-- The characters behind an identifier without a mark. -/
def plainWord : List Char → Option (List Char)
  | [] => none
  | c :: r => if isIdentStart c then some (r.dropWhile isIdentContinue) else none

def unmarkable : List String := ["_", "super", "self", "Self", "crate"]

def anyWord : List Char → Option (String × List Char)
  | 'r' :: '#' :: r => do
    let rest ← plainWord r
    let name := readUpTo r rest
    if name ∈ unmarkable then none else some ("r#" ++ name, rest)
  | cs => do
    let rest ← plainWord cs
    return (readUpTo cs rest, rest)

/-- Whether the characters open a string, a byte string or a byte. -/
def opensString (cs : List Char) : Bool :=
  [['r', '"'], ['r', '#', '"'], ['r', '#', '#'], ['b', '"'], ['b', '\''], ['b', 'r', '"'],
    ['b', 'r', '#'], ['c', '"'], ['c', 'r', '"'], ['c', 'r', '#']].any (·.isPrefixOf cs)

def word (cs : List Char) : Option (String × List Char) :=
  if opensString cs then none else anyWord cs

def skipSuffix (cs : List Char) : List Char := (plainWord cs).getD cs

/-! ## Strings and characters -/

/-- What a quoted literal holds: text, bytes, or text that ends at a zero byte. -/
inductive StringClass
  | text
  | bytes
  | terminated
deriving DecidableEq, Repr

/-- Whether a character may stand in a literal as it is. -/
def StringClass.allows : StringClass → Char → Bool
  | .text, _ => true
  | .bytes, c => c.toNat < 0x80
  | .terminated, c => c.toNat ≠ 0

/-- Letters that form an escape of their own behind a backslash. -/
def StringClass.plainEscapes : StringClass → List Char
  | .terminated => ['n', 'r', 't', '\\', '\'', '"']
  | _ => ['n', 'r', 't', '\\', '\'', '"', '0']

/-- The number in the braces of an escape, from one to six hexadecimal digits, of which the first
argument says how many were read. -/
def bracedNumber (count value : Nat) : List Char → Option (Nat × List Char)
  | [] => none
  | c :: r =>
    match Json.hexValue? c with
    | some d => if count = 6 then none else bracedNumber (count + 1) (16 * value + d) r
    | none =>
      if count = 0 then none
      else if c = '_' then bracedNumber count value r
      else if c = '}' && value.isValidChar then some (value, r)
      else none

/-- An escape, from the character behind its backslash on. -/
def escapeEnd (k : StringClass) : List Char → Option (List Char)
  | 'x' :: a :: b :: r =>
    match Json.hexValue? a, Json.hexValue? b with
    | some x, some y =>
      match k with
      | .text => if x < 8 then some r else none
      | .bytes => some r
      | .terminated => if x = 0 && y = 0 then none else some r
    | _, _ => none
  | 'u' :: '{' :: r =>
    match k, bracedNumber 0 0 r with
    | .text, some (_, rest) => some rest
    | .terminated, some (n, rest) => if n = 0 then none else some rest
    | _, _ => none
  | c :: r => if c ∈ k.plainEscapes then some r else none
  | [] => none

def lineStart : List Char → Option (List Char)
  | [] => none
  | '\r' :: '\n' :: r => lineStart r
  | c :: r =>
    if c = '\r' then none
    else if c = ' ' || c = '\t' || c = '\n' then lineStart r
    else some (c :: r)

/-- A string with escapes, behind its opening quote. The first argument bounds the number of
steps. -/
def cookedEnd (k : StringClass) : Nat → List Char → Option (List Char)
  | 0, _ | _, [] => none
  | n + 1, c :: r =>
    if c = '"' then some (skipSuffix r)
    else if c = '\r' then
      match r with
      | '\n' :: r => cookedEnd k n r
      | _ => none
    else if c = '\\' then
      match r with
      | '\n' :: _ | '\r' :: _ => (lineStart r).bind (cookedEnd k n)
      | _ => (escapeEnd k r).bind (cookedEnd k n)
    else if k.allows c then cookedEnd k n r
    else none

/-- The characters behind the closing quote of a string without escapes that `hashes` marks. -/
def rawBodyEnd (k : StringClass) (hashes : Nat) : List Char → Option (List Char)
  | [] => none
  | '\r' :: '\n' :: r => rawBodyEnd k hashes r
  | c :: r =>
    if c = '"' && r.take hashes = List.replicate hashes '#' then some (skipSuffix (r.drop hashes))
    else if c = '\r' || !k.allows c then none
    else rawBodyEnd k hashes r

def rawEnd (k : StringClass) (cs : List Char) : Option (List Char) :=
  let hashes := (cs.takeWhile (· = '#')).length
  match cs.drop hashes with
  | '"' :: r => if hashes ≤ 255 then rawBodyEnd k hashes r else none
  | _ => none

def stringEnd : List Char → Option (List Char)
  | '"' :: r => cookedEnd .text (r.length + 1) r
  | 'r' :: r => rawEnd .text r
  | 'b' :: '"' :: r => cookedEnd .bytes (r.length + 1) r
  | 'b' :: 'r' :: r => rawEnd .bytes r
  | 'c' :: '"' :: r => cookedEnd .terminated (r.length + 1) r
  | 'c' :: 'r' :: r => rawEnd .terminated r
  | _ => none

/-- One character of the class, escaped or not, and the quote that closes it. -/
def charEnd (k : StringClass) (cs : List Char) : Option (List Char) := do
  let rest ←
    match cs with
    | [] => none
    | '\\' :: r => escapeEnd k r
    | c :: r => if k.allows c then some r else none
  match rest with
  | '\'' :: r => some (skipSuffix r)
  | _ => none

/-! ## Numbers -/

/-- The end of a decimal exponent, from the character behind its letter on; `before` is the rest
at the letter, taken if no digit follows. -/
def exponentEnd (before : Option (List Char)) (signed valued : Bool) :
    List Char → Option (List Char)
  | [] => if valued then some [] else before
  | c :: r =>
    if c = '+' || c = '-' then
      if valued then some (c :: r)
      else if signed then before
      else exponentEnd before true valued r
    else if c.isDigit then exponentEnd before signed true r
    else if c = '_' then exponentEnd before signed valued r
    else if valued then some (c :: r)
    else before

/-- The end of a number with a point or an exponent. -/
def fractionEnd (dotted : Bool) : List Char → Option (List Char)
  | [] => if dotted then some [] else none
  | c :: r =>
    if c.isDigit || c = '_' then fractionEnd dotted r
    else if c = '.' && !dotted then
      if r.head?.any fun d => d = '.' || isIdentStart d then none else fractionEnd true r
    else if c = 'e' || c = 'E' then
      exponentEnd (if dotted then some (c :: r) else none) false false r
    else if dotted then some (c :: r)
    else none

/-- The end of the digits of a whole number in a base. -/
def wholeEnd (base : Nat) (empty : Bool) : List Char → Option (List Char)
  | [] => if empty then none else some []
  | c :: r =>
    if c = '_' then if empty && base = 10 then none else wholeEnd base empty r
    else
      match Json.hexValue? c with
      | some d =>
        if d < base then wholeEnd base false r
        else if c.isDigit || empty then none
        else some (c :: r)
      | none => if empty then none else some (c :: r)

/-- Skip the suffix of a number; no other character of a word may follow. -/
def numberSuffix (cs : List Char) : Option (List Char) :=
  let rest := skipSuffix cs
  if rest.head?.any isIdentContinue then none else some rest

def numberEnd (cs : List Char) : Option (List Char) :=
  if !cs.head?.any Char.isDigit then none
  else
    ((fractionEnd false cs).bind numberSuffix).or <|
      (match cs with
        | '0' :: 'x' :: r => wholeEnd 16 true r
        | '0' :: 'o' :: r => wholeEnd 8 true r
        | '0' :: 'b' :: r => wholeEnd 2 true r
        | _ => wholeEnd 10 true cs).bind numberSuffix

/-- The characters behind the literal that starts here. -/
def literalEnd (cs : List Char) : Option (List Char) :=
  ((stringEnd cs).or (match cs with
    | 'b' :: '\'' :: r => charEnd .bytes r
    | '\'' :: r => charEnd .text r
    | _ => none)).or (numberEnd cs)

/-! ## Punctuation -/

def marks : List Char :=
  ['~', '!', '@', '#', '$', '%', '^', '&', '*', '-', '=', '+', '|', ';', ':', ',', '<', '.', '>',
    '/', '?', '\'']

/-- Whether punctuation starts here, which a comment does not. -/
def atMark : List Char → Bool
  | '/' :: '/' :: _ | '/' :: '*' :: _ | [] => false
  | c :: _ => c ∈ marks

/-- One punctuation character. It is joined to the next if that is punctuation too; a quote is
joined to the word of a lifetime. -/
def punctuation (cs : List Char) : Option (TokenTree × List Char) :=
  match cs with
  | [] => none
  | c :: r =>
    if !atMark cs then none
    else if c = '\'' then do
      let (_, rest) ← anyWord r
      if rest.head? = some '\'' || (rest.head? = some '#' && !(['r', '#'].isPrefixOf r)) then none
      else some (.punct c true, r)
    else some (.punct c (atMark r), r)

/-! ## Tokens -/

def leaf (cs : List Char) : Option (TokenTree × List Char) :=
  match literalEnd cs with
  | some rest => some (.literal (readUpTo cs rest), rest)
  | none => (punctuation cs).or ((word cs).map fun (n, rest) => (.ident n, rest))

def opening? : Char → Option Delimiter
  | '(' => some .paren
  | '[' => some .bracket
  | '{' => some .brace
  | _ => none

def closing? : Char → Option Delimiter
  | ')' => some .paren
  | ']' => some .bracket
  | '}' => some .brace
  | _ => none

/-- Read tokens: `done` holds those of the current brackets and `outer` those of the brackets
around it, all in reverse. The first argument bounds the number of steps. -/
def scanTokens : Nat → List (Delimiter × Tokens) → Tokens → List Char → Option Tokens
  | 0, _, _, _ => none
  | n + 1, outer, done, cs =>
    let cs := skipGaps cs
    match docComment cs with
    | some (text, inner, rest) => scanTokens n outer ((docTokens text inner).reverse ++ done) rest
    | none =>
      match cs with
      | [] => if outer.isEmpty then some done.reverse else none
      | c :: r =>
        match opening? c, closing? c with
        | some d, _ => scanTokens n ((d, done) :: outer) [] r
        | none, some d =>
          match outer with
          -- a delimiter closes the innermost group, and must match it
          | (e, before) :: outer =>
            if d = e then scanTokens n outer (.group d done.reverse :: before) r else none
          | [] => none
        | none, none =>
          match leaf (c :: r) with
          | some (t, rest) => scanTokens n outer (t :: done) rest
          | none => none

def dropOrderMark : List Char → List Char
  | c :: r => if c.toNat = 0xfeff then r else c :: r
  | [] => []

def tokens? (source : String) : Option Tokens :=
  let cs := dropOrderMark source.toList
  scanTokens (cs.length + 1) [] [] cs

end JsonAdapters.Code
