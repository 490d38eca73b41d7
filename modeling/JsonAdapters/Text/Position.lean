/-!
# Positions in a text

A position counts lines, characters in the line and bytes from the start, all from zero.
-/

namespace JsonAdapters

/-- A place between two characters of a text. -/
structure Position where
  line : Nat := 0
  column : Nat := 0
  /-- Bytes before the place. -/
  offset : Nat := 0
deriving DecidableEq, Repr, Inhabited

namespace Position

/-- The place behind a character that ends no line. -/
def past (p : Position) (c : Char) : Position :=
  { p with column := p.column + 1, offset := p.offset + c.utf8Size }

def right (p : Position) (n : Nat) : Position :=
  { p with column := p.column + n, offset := p.offset + n }

/-- The start of the next line, behind a line break of `bytes` bytes. -/
def nextLine (p : Position) (bytes : Nat) : Position :=
  ⟨p.line + 1, 0, p.offset + bytes⟩

end Position

/-- Skip spaces, tabs and line breaks. LF, CR and CR LF are one line break each. -/
def skipBlanks : Position → List Char → Position × List Char
  | p, '\r' :: '\n' :: r => skipBlanks (p.nextLine 2) r
  | p, c :: r =>
    if c = ' ' || c = '\t' then skipBlanks (p.right 1) r
    else if c = '\n' || c = '\r' then skipBlanks (p.nextLine 1) r
    else (p, c :: r)
  | p, [] => (p, [])

end JsonAdapters
