import JsonAdapters.Code.Parser

/-!
# The grammar, and attributes

The grammar is given level by level: the rules of a level are written over the rules of the level
below, which read what is nested one step deeper. `Code.Grammar` holds the rules that others refer
to; the modules beside this one write each of them over a grammar, and `Code.grammar` ties them
together.

## Main definitions

* `Code.Grammar`: the rules that nest.
* `Code.attributes`, `Code.innerAttributes`, `Code.metaItem`.
-/

namespace JsonAdapters.Code

/-- Rules for what can be nested. -/
structure Grammar where
  /-- A type; the argument allows bounds joined by a plus sign. -/
  type : Bool → Parser TypeExpr
  /-- A path as types write it. -/
  path : Parser Path
  /-- An expression; the argument allows braces behind a path. -/
  expr : Bool → Parser Expr
  /-- An operand without binary operators. -/
  operand : Bool → Parser Expr
  /-- An expression that ends a statement or an arm by itself if it ends with a block. -/
  leading : Parser Expr
  /-- A pattern without alternatives; tells whether it is a range with an open end. -/
  pattern : Parser Bool
  item : Parser Item

def Grammar.nothing : Grammar where
  type _ := failure
  path := failure
  expr _ := failure
  operand _ := failure
  leading := failure
  pattern := failure
  item := failure

variable (g : Grammar)

/-! ## Attributes -/

def modSegment : Parser Segment := do
  let ts ← ahead
  if startsName ts || startsWordOf ["super", "self", "Self", "crate"] ts then
    return .plain (← anyIdent)
  else failure

def modPath : Parser Path := do
  let absolute ← markIf "::"
  let first ← modSegment
  let rest ← manyWhile (startsMark "::") (do mark "::"; modSegment)
  return .mk absolute (first :: rest)

/-- The value behind an equals sign: a literal that stands alone, or an expression. -/
def metaValue : Parser Expr := do
  match ← attempt (do let e ← literal; require atEnd; return e) with
  | some e => return e
  | none =>
    let ts ← ahead
    if startsMark "#" ts && startsGroup .bracket (skipOne ts) then failure
    g.expr true

def metaBody : Parser AttributeBody := do
  match ← ahead with
  | .group _ _ :: _ =>
    let (d, ts) ← brackets
    return .list d ts
  | ts =>
    if startsMark "=" ts then
      mark "="
      let (e, ts) ← withTokens (metaValue g)
      return .value e ts
    else return .none

def metaItem : Parser Attribute := do
  let path ← if ← keywordIf "unsafe" then pure (.ofName "unsafe") else modPath
  return ⟨path, ← metaBody g⟩

def outerAttribute : Parser Attribute := do
  mark "#"
  within .bracket (metaItem g)

def attributes : Parser (List Attribute) := manyWhile (startsMark "#") (outerAttribute g)

def innerAttributes : Parser (List Attribute) :=
  manyWhile (fun ts => startsMark "#" ts && startsMark "!" (skipOne ts)) do
    mark "#"
    mark "!"
    within .bracket (metaItem g)

end JsonAdapters.Code
