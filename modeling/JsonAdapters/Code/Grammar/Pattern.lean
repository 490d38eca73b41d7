import JsonAdapters.Code.Grammar.Type

/-!
# Grammar of patterns

Patterns are read and not kept.

## Main definitions

* `Code.patternExpr`: a pattern without alternatives at its top.
* `Code.alternatives`: patterns with vertical bars between them.
-/

namespace JsonAdapters.Code

variable (g : Grammar)

def startsBar : Sight := fun ts =>
  startsMark "|" ts && !startsMark "||" ts && !startsMark "|=" ts

/-- Patterns with vertical bars between them; whether it is one range with an open end. -/
def alternatives (leadingBar : Bool) : Parser Bool := do
  let led ← if leadingBar && (← sees startsBar) then markIf "|" else pure false
  let first ← g.pattern
  let more ← manyWhile startsBar (do mark "|"; g.pattern)
  return first && !led && more.isEmpty

/-- The place of a field: its name, or its number. Whether it is a name. -/
def member : Parser Bool := do
  if ← sees startsName then discard ident; return true
  else fieldIndex; return false

def endsRange : Sight := fun ts =>
  atEnd ts || startsAnyMark ["|", "=", ",", ";"] ts || startsColon ts || startsWord "if" ts

def rangeBound : Parser Bool := do
  let ts ← ahead
  if endsRange ts then return false
  else if startsLiteral ts then discard literal; return true
  else if startsPath ts then discard <| qualifiedPath g true; return true
  else if startsWord "const" ts then discard <| g.operand true; return true
  else failure

/-- The dots of a range and its upper bound; whether the bound is left out. -/
def rangeEnd : Parser Bool := do
  let ts ← ahead
  if startsAnyMark ["..=", "..."] ts then
    if startsMark "..=" ts then mark "..=" else mark "..."
    if !(← rangeBound g) then failure
    return false
  else
    mark ".."
    return !(← rangeBound g)

def fieldPattern : Parser Unit := do
  discard <| attributes g
  if ← sees (startsMark "..") then
    mark ".."
    require atEnd
  else
    let boxed ← keywordIf "box"
    let byRef ← keywordIf "ref"
    let mutable ← keywordIf "mut"
    let named ← member
    if !named || !(boxed || byRef || mutable) && (← sees (startsMark ":")) then
      mark ":"
      discard <| alternatives g true

def pathPattern : Parser Bool := do
  let (qualified, p) ← qualifiedPath g true
  let ts ← ahead
  if !qualified && startsMark "!" ts && !startsMark "!=" ts && p.isModStyle then
    mark "!"
    discard brackets
    return false
  else if startsGroup .brace ts then
    discard <| within .brace (commaList (fieldPattern g))
    return false
  else if startsGroup .paren ts then
    discard <| within .paren (commaList (alternatives g true))
    return false
  else if startsMark ".." ts then rangeEnd g
  else return false

/-- A name that a pattern binds, with what it is bound to. -/
def bindingPattern : Parser Unit := do
  discard <| keywordIf "ref"
  discard <| keywordIf "mut"
  if !(← keywordIf "self") then discard ident
  if ← markIf "@" then discard g.pattern

/-- A pattern between brackets holds no range with an open end. -/
def elementPattern : Parser Unit := do
  if ← alternatives g true then failure

/-- Whether a name stands ahead that begins a longer pattern. -/
def startsPathPattern : Sight := fun ts =>
  let behind := skipOne ts
  startsName ts && (startsAnyMark ["::", "!", ".."] behind || startsGroup .brace behind
      || startsGroup .paren behind)
    || startsWord "self" ts && startsMark "::" behind
    || startsAnyMark ["::", "<"] ts || startsWordOf ["Self", "super", "crate"] ts

/-- A pattern without alternatives; whether it is a range with an open end. -/
def patternExpr : Parser Bool := do
  let ts ← ahead
  if startsPathPattern ts then pathPattern g
  else if startsWord "_" ts then keyword "_"; return false
  else if startsWord "box" ts then keyword "box"; discard g.pattern; return false
  else if startsMark "-" ts || startsLiteral ts || startsWord "const" ts then
    discard <| rangeBound g
    -- a literal may be the lower end of a range
    if ← sees (startsMark "..") then rangeEnd g else return false
  else if startsWordOf ["ref", "mut", "self"] ts || startsName ts then
    bindingPattern g
    return false
  else if startsMark "&" ts then
    mark "&"
    discard <| keywordIf "mut"
    discard g.pattern
    return false
  else if startsGroup .paren ts then
    discard <| within .paren (commaList (alternatives g true))
    return false
  else if startsGroup .bracket ts then
    discard <| within .bracket (commaList (elementPattern g))
    return false
  else if startsMark ".." ts && !startsMark "..." ts then
    if startsMark "..=" ts then
      mark "..="
      if !(← rangeBound g) then failure
      return true
    else
      mark ".."
      rangeBound g
  else failure

end JsonAdapters.Code
