import JsonAdapters.Code.Grammar.Pattern

/-!
# Grammar of expressions and statements

Expressions are read by precedence: an operand with what follows it, then binary operators,
assignments, ranges and casts. An item among statements is read by the rule for items.

## Main definitions

* `Code.atom`, `Code.trailers`, `Code.operandExpr`: operands.
* `Code.operators`, `Code.exprRule`: expressions.
* `Code.leadingExpr`: an expression that may end a statement or an arm by itself.
* `Code.statements`, `Code.block`.
-/

namespace JsonAdapters.Code

variable (g : Grammar)

namespace Expr

def isRange : Expr → Bool
  | .other .range => true
  | _ => false

/-- Whether the expression is complete where a block ends it. -/
def endsWithBlock : Expr → Bool
  | .other f =>
    f ∈ [.if, .while, .forLoop, .loop, .match, .tryBlock, .unchecked, .const, .block]
  | _ => false

def isMacroCall : Expr → Bool
  | .other .macroCall => true
  | _ => false

end Expr

/-! ## Statements -/

/-- Whether an item stands ahead, where an expression could. -/
def startsItem : Sight := fun ts =>
  let second := skipOne ts
  let third := skipOne second
  startsWordOf ["pub", "extern", "use", "fn", "mod", "type", "struct", "enum", "trait", "impl",
      "macro"] ts
    || startsWord "crate" ts && !startsMark "::" second
    || startsWord "static" ts && (startsWord "mut" second || startsName second)
    || startsWord "const" ts && !(startsGroup .brace second
      || startsWordOf ["static", "move"] second || startsMark "|" second
      || startsWord "async" second && !startsWordOf ["unsafe", "extern", "fn"] third)
    || startsWord "unsafe" ts && !startsGroup .brace second
    || startsWord "async" ts && startsWordOf ["unsafe", "extern", "fn"] second
    || startsWord "union" ts && startsName second
    || startsWord "auto" ts && startsWord "trait" second
    || startsWord "default" ts && startsWordOf ["unsafe", "impl"] second

/-- What a path and an exclamation mark begin, where a statement can stand. -/
inductive MacroUse
  | none
  /-- The definition of a named item. -/
  | item
  /-- A call with braces that ends by itself. -/
  | statement

/-- What stands ahead, if it is a path with an exclamation mark behind it. -/
def macroUse : Parser MacroUse := do
  discard modPath
  let ts ← ahead
  let second := skipOne ts
  let third := skipOne second
  if !startsMark "!" ts then return .none
  else if startsName second || startsWord "try" second then return .item
  else if startsGroup .brace second
      && !(startsMark "." third && !startsMark ".." third || startsMark "?" third) then
    return .statement
  else return .none

/-- Whether the last token taken is a list between braces. -/
def tookBraces : Parser Bool := do
  return (← get).taken.head?.any (·.isGroup .brace)

def localBinding (block : Parser Unit) : Parser Unit := do
  keyword "let"
  discard g.pattern
  if ← markIf ":" then discard <| g.type true
  if ← markIf "=" then
    discard <| g.expr true
    if !(← tookBraces) then
      if ← keywordIf "else" then block
  mark ";"

/-- A statement; whether another may follow it as it is. -/
def statement (block : Parser Unit) : Parser Bool := do
  let start ← get
  discard <| attributes g
  match ← peek? macroUse with
  | some .statement =>
    discard modPath
    mark "!"
    discard brackets
    discard <| markIf ";"
    return true
  | use =>
    -- a macro at the start is a statement, an item, or the start of an expression
    let isItem := match use with
      | some .item => true
      | _ => false
    let ts ← ahead
    if startsWord "let" ts then localBinding g block; return true
    else if isItem || startsItem ts then
      set start
      discard g.item
      return true
    else
      let e ← g.leading
      if ← markIf ";" then return true
      else return e.endsWithBlock || e.isMacroCall && (← tookBraces)

/-- Statements up to the end. The first argument bounds their number. -/
def statementsWithin (block : Parser Unit) : Nat → Parser Unit
  | 0 => failure
  | n + 1 => do
    if ← markIf ";" then statementsWithin block n
    else if ← sees atEnd then return ()
    else
      let complete ← statement g block
      if ← sees atEnd then return ()
      else if complete then statementsWithin block n
      else failure

/-- Statements between braces, behind inner attributes; `nested` reads a block inside. -/
def blockWith (nested : Parser Unit) : Parser Unit := within .brace do
  discard <| innerAttributes g
  statementsWithin g nested ((← ahead).length + 1)

def nestedBlock : Parser Unit := do
  require (startsGroup .brace)
  discard <| g.operand true

def block : Parser Unit := blockWith g (nestedBlock g)

/-! ## Operands -/

/-- Whether an expression can begin here, behind a word that may stand alone. -/
def startsExpr : Sight := fun ts =>
  startsAnyWord ts && !startsWordOf ["as", "else", "in", "where"] ts
    || startsGroup .paren ts || startsGroup .bracket ts || startsGroup .brace ts || startsLiteral ts
    || startsMark "!" ts && !startsMark "!=" ts
    || startsMark "-" ts && !startsMark "-=" ts && !startsMark "->" ts
    || startsMark "*" ts && !startsMark "*=" ts
    || startsMark "|" ts && !startsMark "|=" ts
    || startsMark "&" ts && !startsMark "&=" ts
    || startsMark ".." ts
    || startsMark "<" ts && !startsMark "<=" ts && !startsMark "<<=" ts
    || startsAnyMark ["::", "#"] ts || startsLifetime ts

/-- An expression behind a word that may stand alone. -/
def exprIf (braces : Bool) : Parser Unit := do
  let ts ← ahead
  if startsExpr ts && (braces || !startsGroup .brace ts) then discard <| g.expr braces

def fieldValue : Parser Unit := do
  discard <| attributes g
  if ← markIf ".." then
    if !(← sees atEnd) then discard <| g.expr true
    require atEnd
  else
    let named ← member
    if !named || (← sees (startsMark ":")) then
      mark ":"
      discard <| g.expr true

def pathOperand (braces : Bool) : Parser Expr := do
  let (qualified, p) ← qualifiedPath g true
  let ts ← ahead
  if !qualified && startsMark "!" ts && !startsMark "!=" ts && p.isModStyle then
    mark "!"
    discard brackets
    return .other .macroCall
  else if braces && startsGroup .brace ts then
    discard <| within .brace (commaList (fieldValue g))
    return .other .struct
  else return .path qualified p

def parenOperand : Parser Expr := within .paren do
  if ← sees atEnd then return .other .tuple
  discard <| g.expr true
  if ← sees atEnd then return .other .paren
  mark ","
  discard <| commaList (g.expr true)
  return .other .tuple

def bracketOperand : Parser Expr := within .bracket do
  if ← sees atEnd then return .other .array
  discard <| g.expr true
  if ← markIf ";" then
    discard <| g.expr true
    return .other .repeat
  else
    if !(← sees atEnd) then
      mark ","
      discard <| commaList (g.expr true)
    return .other .array

/-- Whether parameters in angle brackets stand ahead, and no path. -/
def startsParameters : Sight := fun ts =>
  let second := skipOne ts
  let third := skipOne second
  startsMark "<" ts && (startsAnyMark [">", "#"] second || startsWord "const" second
    || (startsLifetime second || startsName second)
      && (startsAnyMark [">", ",", "="] third || startsColon third))

def closureParameter : Parser Unit := do
  discard <| attributes g
  discard g.pattern
  if ← markIf ":" then discard <| g.type true

def closure (braces : Bool) : Parser Unit := do
  discard <| boundLifetimesIf g
  discard <| keywordIf "const"
  discard <| keywordIf "static"
  discard <| keywordIf "async"
  discard <| keywordIf "move"
  mark "|"
  discard <| commaListUntil (startsMark "|") (closureParameter g)
  mark "|"
  if ← sees (startsMark "->") then
    resultType g true
    nestedBlock g
  else discard <| g.expr braces

def conditionAndBlock : Parser Unit := do
  keyword "if"
  discard <| g.expr false
  block g

/-- Conditions with their blocks, and what follows otherwise. -/
def conditional : Parser Unit := do
  conditionAndBlock g
  discard <| manyWhile (fun ts => startsWord "else" ts && startsWord "if" (skipOne ts))
    (do keyword "else"; conditionAndBlock g)
  if ← keywordIf "else" then block g

def arm : Parser Unit := do
  discard <| attributes g
  discard <| alternatives g true
  if ← keywordIf "if" then discard <| g.expr true
  mark "=>"
  let e ← g.leading
  if !(← markIf ",") then
    if !(e.endsWithBlock || (← sees atEnd)) then failure

def loopOrBlock : Parser Expr := do
  let ts ← ahead
  if startsWord "while" ts then
    keyword "while"
    discard <| g.expr false
    block g
    return .other .while
  else if startsWord "for" ts then
    keyword "for"
    discard <| alternatives g true
    keyword "in"
    discard <| g.expr false
    block g
    return .other .forLoop
  else if startsWord "loop" ts then
    keyword "loop"
    block g
    return .other .loop
  else
    block g
    return .other .block

def wordBlock (w : String) (form : ExprForm) : Parser Expr := do
  keyword w
  block g
  return .other form

def endsRangeExpr (braces : Bool) : Sight := fun ts =>
  atEnd ts || startsAnyMark [",", ";", "?", "=>", "=", "+", "/", "%", "^", ">", "<=", "!=", "-=",
      "*=", "&=", "|=", "<<="] ts
    || startsMark "." ts && !startsMark ".." ts
    || !braces && startsGroup .brace ts || startsWord "as" ts

def atom (braces : Bool) (rangeUpTo : Parser Unit) : Parser Expr := do
  let ts ← ahead
  -- some words start an expression only before others
  let second := skipOne ts
  let third := skipOne second
  if startsLiteral ts then literal
  else if startsWord "async" ts
      && (startsGroup .brace second || startsWord "move" second && startsGroup .brace third) then
    keyword "async"
    discard <| keywordIf "move"
    block g
    return .other .async
  else if startsWord "try" ts && startsGroup .brace second then wordBlock g "try" .tryBlock
  else if startsMark "|" ts || startsWordOf ["move", "static"] ts
      || startsWord "for" ts && startsParameters second
      || startsWord "const" ts && !startsGroup .brace second
      || startsWord "async" ts && (startsMark "|" second || startsWord "move" second) then
    closure g braces
    return .other .closure
  else if startsPath ts || startsWord "try" ts && startsAnyMark ["!", "::"] second then
    pathOperand g braces
  else if startsGroup .paren ts then parenOperand g
  else if startsWord "break" ts then
    keyword "break"
    discard lifetimeIf
    exprIf g braces
    return .other .break
  else if startsWord "continue" ts then
    keyword "continue"
    discard lifetimeIf
    return .other .continue
  else if startsWord "return" ts then
    keyword "return"
    exprIf g true
    return .other .return
  else if startsWord "become" ts then
    keyword "become"
    discard <| g.expr true
    return .other .verbatim
  else if startsGroup .bracket ts then bracketOperand g
  else if startsWord "let" ts then
    keyword "let"
    discard <| alternatives g true
    mark "="
    rangeUpTo
    return .other .let
  else if startsWord "if" ts then conditional g; return .other .if
  else if startsWordOf ["while", "for", "loop"] ts || startsGroup .brace ts then loopOrBlock g
  else if startsWord "match" ts then
    keyword "match"
    discard <| g.expr false
    within .brace do
      discard <| innerAttributes g
      discard <| manyToEnd (arm g)
    return .other .match
  else if startsWord "yield" ts then
    keyword "yield"
    exprIf g true
    return .other .yield
  else if startsWord "unsafe" ts then wordBlock g "unsafe" .unchecked
  else if startsWord "const" ts then wordBlock g "const" .const
  else if startsWord "_" ts then keyword "_"; return .other .infer
  else if startsLifetime ts then
    lifetime
    mark ":"
    loopOrBlock g
  else failure

def callArguments : Parser Unit := do
  discard <| within .paren (commaList (g.expr true))

/-- A method call, a field or the word `await` behind a dot. -/
def dotName : Parser Expr := do
  if ← keywordIf "await" then return .other .await
  discard ident
  let turbofish ← sees (startsMark "::")
  if turbofish then
    mark "::"
    mark "<"
    discard <| commaListUntil (startsMark ">") (argument g)
    mark ">"
  if turbofish || (← sees (startsGroup .paren)) then
    callArguments g
    return .other .methodCall
  else return .other .field

/-- What follows a dot. A place in a place, such as `0.1`, is lexed as one number, and so is a
place with a dot behind it. -/
def dotTrailer : Parser Expr := do
  mark "."
  if ← sees startsLiteral then
    if ← placeWithDot then
      if ← sees startsLiteral then fieldIndex; return .other .field else dotName g
    else return .other .field
  else dotName g

/-- Calls, fields, indices and question marks behind an operand. The first argument bounds their
number. -/
def trailers : Nat → Expr → Parser Expr
  | 0, _ => failure
  | n + 1, e => do
    let ts ← ahead
    if startsGroup .paren ts then
      callArguments g
      trailers n (.other .call)
    else if startsMark "." ts && !startsMark ".." ts && !e.isRange then
      trailers n (← dotTrailer g)
    else if startsGroup .bracket ts then
      discard <| within .bracket (g.expr true)
      trailers n (.other .index)
    else if startsMark "?" ts && !e.isRange then
      mark "?"
      trailers n (.other .try)
    else return e

def operandExpr (braces : Bool) (binding : Parser Unit) : Parser Expr := do
  discard <| attributes g
  let ts ← ahead
  if startsMark "&" ts then
    mark "&"
    let second := skipOne ts
    -- `raw` is a word only before `mut` or `const`
    let raw := startsWord "raw" second && startsWordOf ["mut", "const"] (skipOne second)
    if raw then
      discard anyIdent
      discard anyIdent
    else discard <| keywordIf "mut"
    discard <| g.operand braces
    return .other (if raw then .rawAddress else .reference)
  else if startsAnyMark ["*", "!", "-"] ts then
    if startsMark "*" ts then mark "*" else if startsMark "!" ts then mark "!" else mark "-"
    discard <| g.operand braces
    return .other .unary
  else
    let e ← atom g braces binding
    trailers g ((← ahead).length + 1) e

/-! ## Operators -/

abbrev Precedence := Nat

/-- Binary operators, with their precedences; an operator stands before those that begin it. -/
def binaryOperators : List (String × Precedence) :=
  [("+=", 1), ("-=", 1), ("*=", 1), ("/=", 1), ("%=", 1), ("^=", 1), ("&=", 1), ("|=", 1),
    ("<<=", 1), (">>=", 1), ("&&", 4), ("||", 3), ("<<", 9), (">>", 9), ("==", 5), ("<=", 5),
    ("!=", 5), (">=", 5), ("+", 10), ("-", 10), ("*", 11), ("/", 11), ("%", 11), ("^", 7),
    ("&", 8), ("|", 6), ("<", 5), (">", 5)]

def assignPrecedence : Precedence := 1

def rangePrecedence : Precedence := 2

/-- Precedence of comparisons, which cannot be chained. -/
def comparePrecedence : Precedence := 5

def castPrecedence : Precedence := 12

def operatorAhead? (ts : Tokens) : Option (String × Precedence) :=
  binaryOperators.find? fun o => startsMark o.1 ts

def startsAssign : Sight := fun ts => startsMark "=" ts && !startsMark "=>" ts

/-- Precedence of what stands ahead; zero if it is no operator. -/
def precedenceAhead (ts : Tokens) : Precedence :=
  match operatorAhead? ts with
  | some (_, p) => p
  | none =>
    if startsAssign ts then assignPrecedence
    else if startsMark ".." ts then rangePrecedence
    else if startsWord "as" ts then castPrecedence
    else 0

/-- Whether what follows a cast would belong to its type. -/
def startsCastTrailer : Sight := fun ts =>
  startsMark "." ts && !startsMark ".." ts || startsMark "?" ts || startsGroup .bracket ts
    || startsGroup .paren ts

mutual

/-- Operators from a precedence on, behind the operand `lhs`; `compared` tells whether that is a
comparison. The first argument bounds the number of steps. -/
def operators (braces : Bool) : Nat → Expr → Precedence → Bool → Parser Expr
  | 0, _, _, _ => failure
  | n + 1, lhs, base, compared => do
    let ts ← ahead
    if lhs.isRange then return lhs
    match operatorAhead? ts with
    | some (op, p) =>
      if p < base then return lhs
      -- comparisons cannot be chained
      else if p = comparePrecedence && compared then failure
      else
        mark op
        rightSide braces n p
        operators braces n (.other .binary) base (p = comparePrecedence)
    | none =>
      if base ≤ assignPrecedence && startsAssign ts then
        mark "="
        rightSide braces n assignPrecedence
        operators braces n (.other .assign) base false
      else if base ≤ rangePrecedence && startsMark ".." ts then
        rangeLimits braces n
        operators braces n (.other .range) base false
      else if base ≤ castPrecedence && startsWord "as" ts then
        keyword "as"
        discard <| g.type false
        if ← sees startsCastTrailer then failure
        operators braces n (.other .cast) base false
      else return lhs

/-- The operand behind an operator, with the operators that bind more tightly. -/
def rightSide (braces : Bool) : Nat → Precedence → Parser Unit
  | 0, _ => failure
  | n + 1, p => do
    let e ← g.operand braces
    tighter braces n p e

/-- Operators behind an operand that bind more tightly than `p`. -/
def tighter (braces : Bool) : Nat → Precedence → Expr → Parser Unit
  | 0, _, _ => failure
  | n + 1, p, e => do
    let ts ← ahead
    let next := precedenceAhead ts
    if p < next || next = p && p = assignPrecedence then
      let e ← operators braces n e next false
      if (← ahead).length = ts.length then return () else tighter braces n p e
    else return ()

def rangeLimits (braces : Bool) : Nat → Parser Unit
  | 0 => failure
  | n + 1 => do
    let ts ← ahead
    if startsMark "..=" ts then
      mark "..="
      rightSide braces n rangePrecedence
    else if startsMark "..." ts then failure
    else
      mark ".."
      if !endsRangeExpr braces (← ahead) then rightSide braces n rangePrecedence

end

def operatorSteps : Parser Nat := do return 4 * (← ahead).length + 8

def operandRule (braces : Bool) : Parser Expr := do
  let ts ← ahead
  if startsMark ".." ts then
    rangeLimits g braces (← operatorSteps)
    return .other .range
  else
    operandExpr g braces do
      let e ← g.operand braces
      discard <| operators g braces (← operatorSteps) e comparePrecedence false

def exprRule (braces : Bool) : Parser Expr := do
  let e ← operandRule g braces
  operators g braces (← operatorSteps) e 0 false

/-- An expression at the start of a statement or an arm: one that ends with a block is complete,
unless a dot or a question mark follows. -/
def leadingExpr : Parser Expr := do
  discard <| attributes g
  let ts ← ahead
  let byBlock := startsWordOf ["if", "while", "loop", "match", "unsafe"] ts
    || startsGroup .brace ts || startsLifetime ts
    || startsWord "for" ts && !startsParameters (skipOne ts)
    || startsWordOf ["try", "const"] ts && startsGroup .brace (skipOne ts)
  if byBlock then
    let e ← atom g true failure
    if e.endsWithBlock then
      let ts ← ahead
      if startsMark "." ts && !startsMark ".." ts || startsMark "?" ts then
        let e ← trailers g (ts.length + 1) e
        operators g true (← operatorSteps) e 0 false
      else return e
    else operators g true (← operatorSteps) e 0 false
  else exprRule g true

end JsonAdapters.Code
