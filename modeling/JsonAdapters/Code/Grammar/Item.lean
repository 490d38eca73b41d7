import JsonAdapters.Code.Grammar.Expr

/-!
# Grammar of items

Declarations of types, imports and modules are kept; of functions, constants, statics, traits and
type aliases only the attributes and the name are; everything else is read and dropped.

## Main definitions

* `Code.visibility`, `Code.useItem`, `Code.declaration`.
* `Code.itemRule`: an item of a module.
-/

namespace JsonAdapters.Code

variable (g : Grammar)

/-! ## Visibility -/

/-- A restriction of a visibility: a module that is named by one word. -/
def wordRestriction : Parser Unit := within .paren do
  if ← sees (startsWordOf ["crate", "self", "super"]) then discard anyIdent else failure

/-- Whether parentheses stand ahead that start with `in`. -/
def startsPathRestriction : Sight
  | .group .paren (t :: _) :: _ => t.isWord "in"
  | _ => false

/-- Where an item can be seen; nothing if it is private. -/
def visibility : Parser Visibility := do
  let (_, tokens) ← withTokens do
    if ← keywordIf "pub" then
      if ← sees startsPathRestriction then
        within .paren (do keyword "in"; discard modPath)
      else discard <| attempt wordRestriction
  return tokens

/-! ## Imports -/

def startsUseName : Sight := fun ts =>
  startsName ts || startsWordOf ["self", "super", "crate", "try"] ts

def newName : Parser String := do
  if ← sees (startsWord "_") then anyIdent else ident

/-- A tree of imported names. `rooted` allows trees of a group to start with a double colon; the
answer is nothing if one does. The first argument bounds the depth. -/
def useTree : Nat → Bool → Parser (Option UseTree)
  | 0, _ => failure
  | n + 1, rooted => do
    let ts ← ahead
    if startsUseName ts then
      let name ← anyIdent
      if ← markIf "::" then
        return (← useTree n false).map (.path name)
      else if ← keywordIf "as" then return some (.rename name (← newName))
      else return some (.name name)
    else if startsMark "*" ts then
      mark "*"
      return some .glob
    else
      within .brace do
        let trees ← commaList do
          -- a path may be absolute once, at the root of the tree
          let absolute ← if rooted then markIf "::" else pure false
          let tree ← useTree n (rooted && !absolute)
          return if absolute then none else tree
        return (trees.mapM id).map .group

/-- An import behind its attributes; nothing if a tree in a group is absolute. -/
def useBody (rooted : Bool) (attrs : List Attribute) : Parser (Option UseItem) := do
  discard visibility
  keyword "use"
  let absolute ← markIf "::"
  let tree ← useTree ((weightOf (← ahead)) + 1) (rooted && !absolute)
  mark ";"
  return tree.map fun t => ⟨attrs, absolute, t⟩

def useItem : Parser UseItem := do
  let attrs ← attributes g
  match ← useBody false attrs with
  | some u => return u
  | none => failure

/-! ## Types -/

def namedField : Parser FieldDecl := do
  let attrs ← attributes g
  discard visibility
  let name ← if ← sees (startsWord "_") then anyIdent else ident
  mark ":"
  return ⟨attrs, name, ← g.type true⟩

def unnamedField : Parser Unit := do
  discard <| attributes g
  discard visibility
  discard <| g.type true

def namedFields : Parser (List FieldDecl) := within .brace (commaList (namedField g))

def unnamedFields : Parser (List Unit) := within .paren (commaList (unnamedField g))

/-- What a structure declares, behind its parameters. -/
def structShape : Parser Shape := do
  if ← sees (startsWord "where") then
    whereClause g
    if ← markIf ";" then return .unit else return .named (← namedFields g)
  else
    let ts ← ahead
    if startsGroup .paren ts then
      let fields ← unnamedFields g
      whereClause g
      mark ";"
      return .unnamed fields.length
    else if startsGroup .brace ts then return .named (← namedFields g)
    else
      mark ";"
      return .unit

def variant : Parser Unit := do
  discard <| attributes g
  discard visibility
  discard ident
  let ts ← ahead
  if startsGroup .brace ts then discard <| namedFields g
  else if startsGroup .paren ts then discard <| unnamedFields g
  if ← markIf "=" then discard <| g.expr true

/-- A declaration of a type, behind its attributes. -/
def declarationBody (attrs : List Attribute) : Parser Declaration := do
  let vis ← visibility
  let kind ← anyIdent
  let name ← ident
  let generic ← genericParameters g
  let shape ←
    match kind with
    | "struct" => structShape g
    | "enum" =>
      whereClause g
      discard <| within .brace (commaList (variant g))
      pure .enumeration
    | "union" =>
      whereClause g
      discard <| namedFields g
      pure .union
    | _ => failure
  return ⟨attrs, vis, name, generic, shape⟩

def declaration : Parser Declaration := do declarationBody g (← attributes g)

/-! ## Functions -/

def receiver : Parser Unit := do
  let byRef ← markIf "&"
  if byRef then discard lifetimeIf
  discard <| keywordIf "mut"
  keyword "self"
  if !byRef then
    if ← markIf ":" then discard <| g.type true

/-- A parameter of a function; whether it is the receiver. -/
def functionParameter : Parser Bool := do
  discard <| attributes g
  if ← markIf "..." then
    require (fun ts => atEnd ts || startsMark "," ts)
    return false
  match ← attempt (receiver g) with
  | some () => return true
  | none =>
    let ts ← ahead
    if startsName ts && startsMark "<" (skipOne ts) then discard <| g.type true
    else
      discard g.pattern
      mark ":"
      if ← markIf "..." then pure () else discard <| g.type true
    return false

/-- Parameters of a function, of which only the first may be the receiver. -/
def functionParameters : Parser Unit := within .paren do
  let ps ← commaList (functionParameter g)
  if (ps.drop 1).any id then failure

/-- Whether a function stands ahead, with the words before `fn`. -/
def startsFunction : Parser Bool := do
  let found ← peek? do
    discard <| keywordIf "const"
    discard <| keywordIf "async"
    if ← sees (startsWord "safe") then discard anyIdent else discard <| keywordIf "unsafe"
    abi
    require (startsWord "fn")
  return found.isSome

def signature : Parser String := do
  discard <| keywordIf "const"
  discard <| keywordIf "async"
  if ← sees (startsWord "safe") then discard anyIdent else discard <| keywordIf "unsafe"
  abi
  keyword "fn"
  let name ← ident
  discard <| genericParameters g
  functionParameters g
  resultType g true
  whereClause g
  return name

/-- A body between braces; the attributes at its start. -/
def body : Parser (List Attribute) := within .brace do
  let attrs ← innerAttributes g
  statementsWithin g (nestedBlock g) ((← ahead).length + 1)
  return attrs

def bodyOrNone : Parser (Option (List Attribute)) := do
  if ← markIf ";" then return none else return some (← body g)

/-! ## Constants, aliases and calls of macros -/

/-- A constant behind its visibility: its name, and whether it has a value and no parameters. -/
def constant : Parser (String × Bool) := do
  keyword "const"
  let name ← if ← sees (startsWord "_") then anyIdent else ident
  let before ← ahead
  discard <| genericParameters g
  mark ":"
  discard <| g.type true
  let valued ← markIf "="
  if valued then discard <| g.expr true
  let conditional ← sees (startsWord "where")
  whereClause g
  mark ";"
  return (name, valued && !startsMark "<" before && !conditional)

/-- A type alias behind its visibility: its name, and whether it is plainly defined. -/
def typeAlias : Parser (String × Bool) := do
  keyword "type"
  let name ← ident
  discard <| genericParameters g
  let bounded ← markIf ":"
  if bounded then
    let stop : Sight := fun ts => startsWord "where" ts || startsAnyMark ["=", ";"] ts
    discard <| separated "+" stop (bound g)
  whereClause g
  let defined ← markIf "="
  if defined then discard <| g.type true
  whereClause g
  mark ";"
  return (name, defined && !bounded)

def macroItem : Parser Unit := do
  discard modPath
  mark "!"
  if ← sees (startsWord "try") then discard anyIdent
  else if ← sees startsName then discard ident
  let (d, _) ← brackets
  if d ≠ .brace then mark ";"

/-- Whether a path stands ahead that can call a macro. -/
def startsMacroItem : Sight := fun ts =>
  startsName ts || startsWordOf ["self", "super", "crate"] ts || startsMark "::" ts

/-! ## Members of traits and implementations -/

def associatedItem : Parser Unit := do
  discard <| attributes g
  let vis ← visibility
  let ts ← ahead
  let default := startsWord "default" ts && !startsMark "!" (skipOne ts)
  if default then keyword "default"
  let ts ← ahead
  if ← startsFunction then
    discard <| signature g
    discard <| bodyOrNone g
  else if startsWord "const" ts then discard <| constant g
  else if startsWord "type" ts then discard <| typeAlias g
  else if vis.isEmpty && !default && startsMacroItem ts then macroItem
  else failure

/-- Members between braces; the attributes at their start. -/
def associatedItems : Parser (List Attribute) := within .brace do
  let attrs ← innerAttributes g
  discard <| manyToEnd (associatedItem g)
  return attrs

def foreignItem : Parser Unit := do
  discard <| attributes g
  let vis ← visibility
  let ts ← ahead
  if ← startsFunction then
    discard <| signature g
    discard <| bodyOrNone g
  else if startsWord "static" ts || startsWordOf ["safe", "unsafe"] ts then
    if !startsWord "static" ts then discard anyIdent
    keyword "static"
    discard <| keywordIf "mut"
    discard ident
    mark ":"
    discard <| g.type true
    if ← markIf "=" then discard <| g.expr true
    mark ";"
  else if startsWord "type" ts then discard <| typeAlias g
  else if vis.isEmpty && startsMacroItem ts then macroItem
  else failure

def foreignItems : Parser Unit := within .brace do
  discard <| innerAttributes g
  discard <| manyToEnd (foreignItem g)

def implementation : Parser Unit := do
  discard <| keywordIf "default"
  discard <| keywordIf "unsafe"
  keyword "impl"
  if ← sees startsParameters then discard <| genericParameters g
  let ts ← ahead
  if startsMark "?" ts && startsWord "const" (skipOne ts) then mark "?"
  discard <| keywordIf "const"
  let ts ← ahead
  let negative := startsMark "!" ts && !startsGroup .brace (skipOne ts)
  if negative then mark "!"
  discard <| g.type true
  if ← keywordIf "for" then discard <| g.type true
  else if negative then failure
  whereClause g
  discard <| associatedItems g

def endsSupertraits : Sight := fun ts => startsWord "where" ts || startsGroup .brace ts

/-- A trait behind its visibility: its name and the attributes in it; nothing if it is an alias. -/
def traitItem : Parser (Option (String × List Attribute)) := do
  let marked ← keywordIf "unsafe"
  let auto ← sees (startsWord "auto")
  if auto then discard anyIdent
  keyword "trait"
  let name ← ident
  discard <| genericParameters g
  if !marked && !auto && (← sees (startsMark "=")) then
    mark "="
    discard <| separated "+" (fun ts => startsWord "where" ts || startsMark ";" ts) (bound g)
    whereClause g
    mark ";"
    return none
  else
    if ← markIf ":" then discard <| separated "+" endsSupertraits (bound g)
    whereClause g
    return some (name, ← associatedItems g)

/-! ## Other items -/

/-- A static behind its visibility: its name, and whether it has a type and a value. -/
def staticItem : Parser (String × Bool) := do
  keyword "static"
  discard <| keywordIf "mut"
  let name ← ident
  let typed ← markIf ":"
  if typed then discard <| g.type true
  let valued ← markIf "="
  if valued then discard <| g.expr true
  mark ";"
  if !typed && !valued then failure
  return (name, typed && valued)

def externPackage : Parser Unit := do
  keyword "extern"
  keyword "crate"
  if !(← keywordIf "self") then discard ident
  if ← keywordIf "as" then discard newName
  mark ";"

def foreignBlock : Parser Unit := do
  discard <| keywordIf "unsafe"
  abi
  foreignItems g

/-- Whether a word can be the name of a file, as all words can: they have no slashes and no dots. -/
def namesFile (word : String) : Bool := word ≠ "" && word.toList.all fun c => c ≠ '/' && c ≠ '.'

def moduleName : Parser String := wordWith fun n => (n == "try" || n ∉ keywords) && namesFile n

/-- A module, behind its attributes and visibility. -/
def moduleItem (attrs : List Attribute) : Parser Item := do
  discard <| keywordIf "unsafe"
  keyword "mod"
  let name ← moduleName
  if ← markIf ";" then return .module attrs name none
  else
    within .brace do
      let inner ← innerAttributes g
      return .module (attrs ++ inner) name (some (← manyToEnd g.item))

/-- A macro that is defined with a body, behind its visibility. -/
def macroDefinition : Parser Unit := do
  keyword "macro"
  discard ident
  if ← sees (startsGroup .paren) then discard brackets
  require (startsGroup .brace)
  discard brackets

/-- An item that is kept under its name if a condition holds. -/
def namedIf (attrs : List Attribute) (p : Parser (String × Bool)) : Parser Item := do
  let (name, kept) ← p
  return if kept then .named attrs name else .other

def itemRule : Parser Item := do
  let attrs ← attributes g
  let start ← get
  let vis ← visibility
  let ts ← ahead
  let second := skipOne ts
  -- the first words decide; some of them need a second one
  if ← startsFunction then
    let name ← signature g
    match ← bodyOrNone g with
    | some inner => return .named (attrs ++ inner) name
    | none => return .other
  else if startsWord "extern" ts then
    if startsWord "crate" second then externPackage else foreignBlock g
    return .other
  else if startsWord "use" ts then
    set start
    match ← useBody true attrs with
    | some u => return .use u
    | none => return .other
  else if startsWord "static" ts then namedIf attrs (staticItem g)
  else if startsWord "const" ts then namedIf attrs (constant g)
  else if startsWord "unsafe" ts && startsWord "impl" second then implementation g; return .other
  else if startsWord "unsafe" ts && startsWord "extern" second then foreignBlock g; return .other
  else if startsWord "mod" ts || startsWord "unsafe" ts && startsWord "mod" second then
    moduleItem g attrs
  else if startsWord "type" ts then namedIf attrs (typeAlias g)
  else if startsWord "struct" ts || startsWord "enum" ts then
    set start
    return .type (← declarationBody g attrs)
  else if startsWord "union" ts && startsName second then
    set start
    return .named attrs (← declarationBody g attrs).name
  else if startsWord "trait" ts || startsWord "auto" ts && startsWord "trait" second
      || startsWord "unsafe" ts && startsWordOf ["trait", "auto"] second then
    match ← traitItem g with
    | some (name, inner) => return .named (attrs ++ inner) name
    | none => return .other
  else if startsWord "impl" ts || startsWord "default" ts && !startsMark "!" second then
    implementation g
    return .other
  else if startsWord "macro" ts then macroDefinition; return .other
  else if vis.isEmpty && startsMacroItem ts then macroItem; return .other
  else failure

end JsonAdapters.Code
