import JsonAdapters.Code.Grammar.Basic

/-!
# Grammar of types

Paths with their arguments, bounds, type parameters, and all forms of types. Only paths and
parentheses keep their structure.

## Main definitions

* `Code.path`, `Code.qualifiedPath`: in a type, arguments follow a name directly; in an
  expression, they follow a double colon.
* `Code.bound`, `Code.genericParameters`, `Code.whereClause`.
* `Code.typeExpr`: a type.
-/

namespace JsonAdapters.Code

variable (g : Grammar)

/-! ## Bounds -/

def lifetimeParameter : Parser Unit := do
  discard <| attributes g
  lifetime
  if ← markIf ":" then
    discard <| separated "+" (startsAnyMark [",", ">"]) lifetime

def boundLifetimes : Parser Unit := do
  keyword "for"
  mark "<"
  discard <| commaListUntil (startsMark ">") (lifetimeParameter g)
  mark ">"

def boundLifetimesIf : Parser Bool := do
  if ← sees (startsWord "for") then boundLifetimes g; return true else return false

/-- The result type of a function, if one is written. -/
def resultType (plus : Bool) : Parser Unit := do
  if ← markIf "->" then discard <| g.type plus

def constArgument : Parser Unit := do
  let ts ← ahead
  if startsLiteral ts then discard literal
  else if startsGroup .brace ts then discard <| g.operand true
  else failure

/-- A trait, with what stands before it and its arguments in parentheses. -/
def traitBound : Parser Unit := do
  let ranged ← boundLifetimesIf g
  let ts ← ahead
  if startsGroup .bracket ts then within .bracket (keyword "const")
  else if startsMark "~" ts then mark "~"; keyword "const"
  else if startsWord "const" ts then keyword "const"
  if ← markIf "?" then
    if !ranged then discard <| boundLifetimesIf g
  let p ← g.path
  let ts ← ahead
  if p.segments.getLast?.any (·.isPlain) then
    if startsGroup .paren ts
        || startsMark "::" ts && startsGroup .paren (skipOne (skipOne ts)) then
      discard <| markIf "::"
      discard <| within .paren (commaList (g.type true))
      resultType g false

def capturedParameter : Parser Unit := do
  let ts ← ahead
  if startsLifetime ts then lifetime
  else if startsWord "Self" ts then keyword "Self"
  else discard ident

def bound : Parser Bool := do
  let ts ← ahead
  if startsLifetime ts then lifetime; return false
  else if startsWord "use" ts then
    keyword "use"
    mark "<"
    discard <| commaListUntil (startsMark ">") capturedParameter
    mark ">"
    return false
  else if startsGroup .paren ts then within .paren (traitBound g); return true
  else traitBound g; return true

def startsBound : Sight := fun ts =>
  startsAnyWord ts || startsAnyMark ["::", "?", "~"] ts || startsLifetime ts
    || startsGroup .paren ts || startsGroup .bracket ts

/-! ## Paths -/

def argument : Parser Argument := do
  let ts ← ahead
  if startsLifetime ts && !startsMark "+" (skipOne ts) then
    return .lifetime (← withTokens lifetime).2
  if startsLiteral ts || startsGroup .brace ts then
    return .other (← withTokens (constArgument g)).2
  let (t, tokens) ← withTokens do
    let t ← g.type true
    match t with
    -- a single name may be that of an associated type, with its value or bounds
    | .path (.mk false [.plain _]) | .path (.mk false [.applied _ _ _ _]) =>
      if ← markIf "=" then
        let ts ← ahead
        if startsLiteral ts || startsGroup .brace ts then constArgument g
        else discard <| g.type true
        return none
      else if ← markIf ":" then
        discard <| separated "+" (startsAnyMark [",", ">"]) (bound g)
        return none
      else return some t
    | t => return some t
  return match t with
    | some t => .type t
    | none => .other tokens

def segment (inExpr : Bool) : Parser Segment := do
  let ts ← ahead
  if startsWordOf ["super", "self", "crate", "try"] ts then return .plain (← anyIdent)
  let name ← if startsWord "Self" ts then anyIdent else ident
  let ts ← ahead
  if !inExpr && startsMark "<" ts && !startsMark "<=" ts
      || startsMark "::" ts && startsMark "<" (skipOne (skipOne ts)) then
    let turbofish ← markIf "::"
    mark "<"
    let (args, trailing) ← commaListUntil (startsMark ">") (argument g)
    mark ">"
    return .applied name turbofish args trailing
  else return .plain name

/-- Whether a double colon stands ahead that no parentheses follow. -/
def startsNextSegment : Sight := fun ts =>
  startsMark "::" ts && !startsGroup .paren (skipOne (skipOne ts))

def path (inExpr : Bool) : Parser Path := do
  let absolute ← markIf "::"
  let first ← segment g inExpr
  let rest ← manyWhile startsNextSegment (do mark "::"; segment g inExpr)
  return .mk absolute (first :: rest)

/-- A path that may start with a type between angle brackets; whether it does. -/
def qualifiedPath (inExpr : Bool) : Parser (Bool × Path) := do
  if ← sees (startsMark "<") then
    mark "<"
    discard <| g.type true
    let qualifier ← if ← keywordIf "as" then path g false else pure (.mk false [])
    mark ">"
    mark "::"
    let first ← segment g inExpr
    let rest ← manyWhile (startsMark "::") (do mark "::"; segment g inExpr)
    return (true, .mk qualifier.absolute (qualifier.segments ++ first :: rest))
  else return (false, ← path g inExpr)

/-! ## Parameters -/

def typeParameter : Parser Unit := do
  discard anyIdent
  if ← markIf ":" then
    discard <| separated "+" (startsAnyMark [",", ">", "="]) (bound g)
  if ← markIf "=" then discard <| g.type true

def constParameter : Parser Unit := do
  keyword "const"
  discard ident
  mark ":"
  discard <| g.type true
  if ← markIf "=" then constArgument g

def genericParameter : Parser Unit := do
  discard <| attributes g
  let ts ← ahead
  if startsLifetime ts then lifetimeParameter g
  else if startsName ts || startsWord "_" ts then typeParameter g
  else constParameter g

/-- Parameters in angle brackets, if any; whether there is one. -/
def genericParameters : Parser Bool := do
  if ← markIf "<" then
    let (ps, _) ← commaListUntil (startsMark ">") (genericParameter g)
    mark ">"
    return !ps.isEmpty
  else return false

def endsBounds : Sight := fun ts =>
  atEnd ts || startsGroup .brace ts || startsAnyMark [",", ";", "="] ts || startsColon ts

def wherePredicate : Parser Unit := do
  let ts ← ahead
  if startsLifetime ts && startsMark ":" (skipOne ts) then
    lifetime
    mark ":"
    discard <| separated "+" endsBounds lifetime
  else
    discard <| boundLifetimesIf g
    discard <| g.type true
    mark ":"
    discard <| separated "+" endsBounds (bound g)

def whereClause : Parser Unit := do
  if ← keywordIf "where" then
    discard <| separated "," endsBounds (wherePredicate g)

/-! ## Types -/

/-- Bounds with plus signs between them; whether one is a trait. -/
def bounds (plus : Bool) : Parser Bool := do
  let first ← bound g
  if plus && (← sees (startsMark "+")) then
    let more ← manyWhile (fun ts => startsMark "+" ts && startsBound (skipOne ts))
      (do mark "+"; bound g)
    discard <| markIf "+"
    return first || more.any id
  else return first

def moreBounds : Parser Unit := do
  discard <| manyWhile (startsMark "+") (do mark "+"; bound g)

/-- The name of a calling convention, if one is written. -/
def abi : Parser Unit := do
  if ← keywordIf "extern" then
    if ← sees startsString then discard literal

/-- An argument of a function type; the first one may be the receiver. -/
def functionTypeArgument : Parser Unit := do
  discard <| attributes g
  discard <| keywordIf "mut"
  let ts ← ahead
  if startsMark "..." ts then mark "..."
  else if (startsName ts || startsWordOf ["_", "self"] ts) && startsColon (skipOne ts) then
    discard anyIdent
    mark ":"
    if ← sees (startsMark "...") then mark "..." else discard <| g.type true
  else discard <| g.type true

def functionType : Parser Unit := do
  discard <| keywordIf "unsafe"
  abi
  keyword "fn"
  discard <| within .paren (commaList (functionTypeArgument g))
  resultType g false

/-- What stands between parentheses: nothing, one type, or types with commas. -/
def parenthesised : Parser (Option TypeExpr) := within .paren do
  let ts ← ahead
  if atEnd ts then return none
  else if startsMark "?" ts then traitBound g; return none
  else
    let first ← g.type true
    if ← markIf "," then discard <| commaList (g.type true); return none
    else return some first

def parenType (plus : Bool) : Parser TypeExpr := do
  let (inner, tokens) ← withTokens (parenthesised g)
  match inner with
  | none =>
    let (_, more) ← withTokens (moreBounds g)
    return .other (tokens ++ more)
  | some t =>
    if plus && (← sees (startsMark "+")) then
      match t with
      | .path _ =>
        let (_, more) ← withTokens (moreBounds g)
        return .other (tokens ++ more)
      | t => return .paren t
    else return .paren t

def pathType (plus ranged : Bool) : Parser TypeExpr := do
  let ((qualified, p), tokens) ← withTokens (qualifiedPath g false)
  let ts ← ahead
  if qualified then return .other tokens
  else if startsMark "!" ts && !startsMark "!=" ts && p.isModStyle then
    let (_, more) ← withTokens (do mark "!"; brackets)
    return .other (tokens ++ more)
  else if ranged || plus && startsMark "+" ts then
    let (_, more) ← withTokens do
      if plus then
        discard <| manyWhile (fun ts => startsMark "+" ts && startsBound (skipOne ts))
          (do mark "+"; bound g)
        discard <| markIf "+"
    return .other (tokens ++ more)
  else return .path p

/-- A type that is neither a path nor between parentheses. -/
def otherType (plus : Bool) : Parser Unit := do
  let ts ← ahead
  if startsWordOf ["fn", "unsafe", "extern"] ts then functionType g
  else if startsWord "dyn" ts then
    keyword "dyn"
    discard <| markIf "*"
    if !(← bounds g plus) then failure
  else if startsGroup .bracket ts then
    within .bracket do
      discard <| g.type true
      if ← markIf ";" then discard <| g.expr true
  else if startsMark "*" ts then
    mark "*"
    if !(← keywordIf "const") then keyword "mut"
    discard <| g.type false
  else if startsMark "&" ts then
    mark "&"
    discard lifetimeIf
    discard <| keywordIf "mut"
    discard <| g.type false
  -- `!=` is an operator, not the never type
  else if startsMark "!" ts && !startsMark "=" ts then mark "!"
  else if startsWord "impl" ts then
    keyword "impl"
    if !(← bounds g plus) then failure
  else if startsWord "_" ts then keyword "_"
  else if startsLifetime ts then
    if !(← bounds g plus) then failure
  else failure

def startsPath : Sight := fun ts =>
  startsName ts || startsWordOf ["super", "self", "Self", "crate"] ts
    || startsAnyMark ["::", "<"] ts

def typeExpr (plus : Bool) : Parser TypeExpr := do
  let (ranged, lead) ← withTokens (boundLifetimesIf g)
  let ts ← ahead
  if startsGroup .paren ts && !ranged then parenType g plus
  else if startsPath ts && !(ranged && startsMark "<" ts) then
    match ← pathType g plus ranged with
    | .other ts => return .other (lead ++ ts)
    | t => return t
  else
    let (_, tokens) ← withTokens (otherType g plus)
    return .other (lead ++ tokens)

end JsonAdapters.Code
