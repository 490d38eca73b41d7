import JsonAdapters.Code.Node

/-!
# Reading tokens

A parser takes tokens from the front of a list and may fail; there is one kind of failure. It
keeps the tokens that it took, joined as the grammar groups them, so that what was read can be
written again without the spacing of its source.

## Main definitions

* `Code.Stream`, `Code.Parser`.
* `Code.startsMark`, `Code.startsWord`, …: what stands at the front of a list of tokens.
* `Code.mark`, `Code.keyword`, `Code.ident`, `Code.within`: to take one thing.
* `Code.separated`, `Code.commaList`, `Code.manyUntil`: to take several.
* `Code.Parser.runAll?`: to read a whole list.
-/

namespace JsonAdapters.Code

/-- The tokens ahead, and those taken, last first. -/
structure Stream where
  ahead : Tokens
  taken : Tokens

abbrev Parser := StateT Stream Option

def Parser.runAll? {α : Type} (p : Parser α) (ts : Tokens) : Option α :=
  match p.run ⟨ts, []⟩ with
  | some (a, ⟨[], _⟩) => some a
  | _ => none

/-! ## What stands at the front -/

abbrev Sight := Tokens → Bool

def keywords : List String :=
  ["_", "abstract", "as", "async", "await", "become", "box", "break", "const", "continue", "crate",
    "do", "dyn", "else", "enum", "extern", "false", "final", "fn", "for", "if", "impl", "in", "let",
    "loop", "macro", "match", "mod", "move", "mut", "override", "priv", "pub", "ref", "return",
    "Self", "self", "static", "struct", "super", "trait", "true", "try", "type", "typeof",
    "unsafe", "unsized", "use", "virtual", "where", "while", "yield"]

/-- Whether the tokens start with the characters of an operator, joined to each other. -/
def startsMarks : List Char → Sight
  | [], _ => true
  | [c], .punct d _ :: _ => c == d && c ≠ '\''
  | c :: cs, .punct d joint :: r => c == d && joint && c ≠ '\'' && startsMarks cs r
  | _, _ => false

/-- Whether an operator stands ahead, or one that it begins. -/
def startsMark (m : String) : Sight := startsMarks m.toList

def startsWord (w : String) : Sight
  | t :: _ => t.isWord w
  | [] => false

def startsAnyWord : Sight
  | .ident _ :: _ => true
  | _ => false

def startsName : Sight
  | .ident n :: _ => n ∉ keywords
  | _ => false

def startsGroup (d : Delimiter) : Sight
  | t :: _ => t.isGroup d
  | [] => false

def startsLifetime : Sight
  | .punct '\'' true :: .ident _ :: _ => true
  | _ => false

def isNumber (text : String) : Bool := text.toList.head?.any Char.isDigit

/-- Whether a literal stands ahead, truth values and negative numbers included. -/
def startsLiteral : Sight
  | .literal _ :: _ => true
  | .ident n :: _ => n == "true" || n == "false"
  | .punct '-' _ :: .literal t :: _ => isNumber t
  | _ => false

def startsString : Sight
  | .literal t :: _ => literalKind t == .string
  | _ => false

def atEnd : Sight := List.isEmpty

/-- The tokens behind the first one; a lifetime counts as one. -/
def skipOne : Tokens → Tokens
  | .punct '\'' true :: .ident _ :: r => r
  | _ :: r => r
  | [] => []

def startsAnyMark (ms : List String) : Sight := fun ts => ms.any (startsMark · ts)

def startsWordOf (ws : List String) : Sight := fun ts => ws.any (startsWord · ts)

/-- Whether a colon stands ahead that begins no double colon. -/
def startsColon : Sight := fun ts => startsMark ":" ts && !startsMark "::" ts

def ahead : Parser Tokens := do return (← get).ahead

def sees (q : Sight) : Parser Bool := do return q (← ahead)

/-- Fail unless the tokens ahead fulfil a condition. -/
def require (q : Sight) : Parser Unit := do
  if ← sees q then return () else failure

/-! ## Taking one thing -/

/-- Take an operator; `last` tells whether its last character may be joined to what follows. -/
def takeMarks : List Char → Parser Unit
  | [] => pure ()
  | c :: cs => fun s =>
    match s.ahead with
    | .punct d joint :: r =>
      if c == d && c ≠ '\'' && (cs.isEmpty || joint) then
        takeMarks cs ⟨r, .punct c (!cs.isEmpty) :: s.taken⟩
      else none
    | _ => none

def mark (m : String) : Parser Unit := takeMarks m.toList

def wordWith (q : String → Bool) : Parser String := fun s =>
  match s.ahead with
  | .ident n :: r => if q n then some (n, ⟨r, .ident n :: s.taken⟩) else none
  | _ => none

def keyword (w : String) : Parser Unit := do discard <| wordWith (· == w)

def anyIdent : Parser String := wordWith fun _ => true

def ident : Parser String := wordWith (· ∉ keywords)

def markIf (m : String) : Parser Bool := do
  if ← sees (startsMark m) then mark m; return true else return false

def keywordIf (w : String) : Parser Bool := do
  if ← sees (startsWord w) then keyword w; return true else return false

def lifetime : Parser Unit := fun s =>
  match s.ahead with
  | .punct '\'' true :: .ident n :: r => some ((), ⟨r, .ident n :: .punct '\'' true :: s.taken⟩)
  | _ => none

def lifetimeIf : Parser Bool := do
  if ← sees startsLifetime then lifetime; return true else return false

def literal : Parser Expr := fun s =>
  match s.ahead with
  | .literal t :: r => some (.literal (literalKind t) t, ⟨r, .literal t :: s.taken⟩)
  | .ident n :: r =>
    if n == "true" || n == "false" then some (.literal .bool n, ⟨r, .ident n :: s.taken⟩) else none
  | .punct '-' _ :: .literal t :: r =>
    if isNumber t then
      some (.literal (literalKind t) ("-" ++ t), ⟨r, .literal t :: .punct '-' false :: s.taken⟩)
    else none
  | _ => none

/-- Take a whole number that stands alone, as the place of a field. -/
def fieldIndex : Parser Unit := fun s =>
  match s.ahead with
  | .literal t :: r =>
    if t.toList.all Char.isDigit then some ((), ⟨r, .literal t :: s.taken⟩) else none
  | _ => none

/-- Take a place of a field, or a place in a place; whether a dot stands behind it. -/
def placeWithDot : Parser Bool := fun s =>
  match s.ahead with
  | .literal t :: r =>
    if t.toList.all fun c => c.isDigit || c = '.' then
      some (t.toList.getLast? = some '.', ⟨r, .literal t :: s.taken⟩)
    else none
  | _ => none

/-- Take brackets of a kind, whose whole content `p` reads. -/
def within {α : Type} (d : Delimiter) (p : Parser α) : Parser α := fun s =>
  match s.ahead with
  | .group e ts :: r =>
    if d = e then
      match p ⟨ts, []⟩ with
      | some (a, ⟨[], inner⟩) => some (a, ⟨r, .group e inner.reverse :: s.taken⟩)
      | _ => none
    else none
  | _ => none

def brackets : Parser (Delimiter × Tokens) := fun s =>
  match s.ahead with
  | .group d ts :: r => some ((d, ts), ⟨r, .group d ts :: s.taken⟩)
  | _ => none

def everything : Parser Tokens := fun s =>
  some (s.ahead, ⟨[], s.ahead.reverse ++ s.taken⟩)

/-! ## Taking several things -/

def withTokens {α : Type} (p : Parser α) : Parser (α × Tokens) := fun s => do
  let (a, s') ← p ⟨s.ahead, []⟩
  return ((a, s'.taken.reverse), ⟨s'.ahead, s'.taken ++ s.taken⟩)

def peek? {α : Type} (p : Parser α) : Parser (Option α) := fun s =>
  some ((p s).map (·.1), s)

def attempt {α : Type} (p : Parser α) : Parser (Option α) := fun s =>
  match p s with
  | some (a, s') => some (some a, s')
  | none => some (none, s)

/-- Values with a mark between them, up to where `stop` holds or no mark follows a value; whether a
mark stands behind the last. The first argument bounds their number. -/
def separatedWithin {α : Type} (mandatory : Bool) (m : String) (stop : Sight) (p : Parser α) :
    Nat → Parser (List α × Bool)
  | 0 => failure
  | n + 1 => do
    if ← sees stop then return ([], true)
    let a ← p
    let ts ← ahead
    if mandatory && stop ts then return ([a], false)
    else if startsMark m ts then
      mark m
      let (as, trailing) ← separatedWithin mandatory m stop p n
      return (a :: as, trailing)
    else if mandatory then failure
    else return ([a], false)

/-- Values with commas between them, up to where `stop` holds; whether a comma stands behind the
last. -/
def commaListUntil {α : Type} (stop : Sight) (p : Parser α) : Parser (List α × Bool) := do
  let (as, trailing) ← separatedWithin true "," stop p ((← ahead).length + 1)
  return (as, trailing && !as.isEmpty)

/-- Values with commas between them, up to the end. -/
def commaList {α : Type} (p : Parser α) : Parser (List α) := do
  return (← commaListUntil atEnd p).1

/-- Values with a mark between them, up to where `stop` holds or no mark follows. -/
def separated {α : Type} (m : String) (stop : Sight) (p : Parser α) : Parser (List α) := do
  return (← separatedWithin false m stop p ((← ahead).length + 1)).1

/-- As many values as there are while a condition holds. The first argument bounds their number. -/
def manyWithin {α : Type} (go : Sight) (p : Parser α) : Nat → Parser (List α)
  | 0 => failure
  | n + 1 => do
    if ← sees go then
      let a ← p
      let as ← manyWithin go p n
      return a :: as
    else return []

/-- As many values as there are while a condition holds. -/
def manyWhile {α : Type} (go : Sight) (p : Parser α) : Parser (List α) := do
  manyWithin go p ((← ahead).length + 1)

def manyToEnd {α : Type} (p : Parser α) : Parser (List α) :=
  manyWhile (fun ts => !atEnd ts) p

end JsonAdapters.Code
