import JsonAdapters.Code.Grammar.Item
import JsonAdapters.Code.Lexer

/-!
# Reading programs

The levels of the grammar are tied together: a grammar of `n` levels reads what is nested at most
`n` deep, and a text has no more levels than tokens.

## Main definitions

* `Code.grammar`: the grammar of some number of levels.
* `Code.parse?`: what a rule reads of a whole text.
* `Code.parseItems?`: the items of a file.
* `Code.typeExpr?`, `Code.path?`, `Code.ident?`, …: single parts.
-/

namespace JsonAdapters.Code

def Grammar.above (g : Grammar) : Grammar where
  type := typeExpr g
  path := Code.path g false
  expr := exprRule g
  operand := operandRule g
  leading := leadingExpr g
  pattern := patternExpr g
  item := itemRule g

def grammar : Nat → Grammar
  | 0 => .nothing
  | n + 1 => (grammar n).above

def depthOf (ts : Tokens) : Nat := 2 * ts.weight + 4

def readTokens? {α : Type} (rule : Grammar → Parser α) (ts : Tokens) : Option α :=
  (rule (grammar (depthOf ts))).runAll? ts

def parse? {α : Type} (rule : Grammar → Parser α) (source : String) : Option α :=
  (tokens? source).bind (readTokens? rule)

/-! ## Files -/

/-- The items of a file, behind its own attributes. -/
def fileItems (g : Grammar) : Parser (List Item) := do
  discard <| innerAttributes g
  manyToEnd (itemRule g)

/-- The text without a first line that names its interpreter. -/
def dropInterpreterLine (cs : List Char) : List Char :=
  match cs with
  | '#' :: '!' :: r =>
    if (skipGaps r).head? = some '[' then cs else cs.dropWhile (· ≠ '\n')
  | _ => cs

def parseItems? (source : String) : Option (List Item) :=
  parse? fileItems (String.ofList (dropInterpreterLine (dropOrderMark source.toList)))

/-! ## Single parts -/

def typeExpr? (source : String) : Option TypeExpr := parse? (fun g => g.type true) source

def path? (source : String) : Option Path := parse? (fun g => g.path) source

def ident? (source : String) : Option String := parse? (fun _ => ident) source

def declaration? (source : String) : Option Declaration := parse? declaration source

def useItem? (source : String) : Option UseItem := parse? useItem source

def visibility? (source : String) : Option Visibility := parse? (fun _ => visibility) source

/-- The attributes that stand before a declaration. -/
def attributes? (source : String) : Option (List Attribute) :=
  (declaration? (source ++ " struct S;")).map (·.attributes)

end JsonAdapters.Code
