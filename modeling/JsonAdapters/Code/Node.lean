import JsonAdapters.Code.Literal

/-!
# Parts of a program

What is kept of a program: paths and types with their arguments, attributes, imports, and the
items of a module. Bodies are checked but not kept; what is kept for its text only is a list of
tokens.

## Main definitions

* `Code.TypeExpr`, `Code.Path`, `Code.Segment`, `Code.Argument`, and their tokens.
* `Code.Expr`, `Code.Attribute`, `Code.UseTree`, `Code.Declaration`, `Code.Item`.
-/

namespace JsonAdapters.Code

/-! ## Paths and types -/

mutual

/-- A type as it is written. -/
inductive TypeExpr
  | path (p : Path)
  /-- A type between parentheses. -/
  | paren (t : TypeExpr)
  /-- A type that a macro put in place of a name. The group around it cannot be seen in the text. -/
  | group (t : TypeExpr)
  /-- A reference, tuple, array, function or any other type that is no plain path. -/
  | other (tokens : Tokens)

/-- A path; an absolute one starts with a double colon. -/
inductive Path
  | mk (absolute : Bool) (segments : List Segment)

/-- One name of a path. -/
inductive Segment
  /-- A name without brackets. -/
  | plain (name : String)
  /-- A name with arguments in angle brackets: whether a double colon stands before them, and
  whether a comma stands behind the last. -/
  | applied (name : String) (turbofish : Bool) (arguments : List Argument) (trailing : Bool)
  /-- A name with arguments in parentheses and a result. -/
  | called (name : String) (tokens : Tokens)

/-- An argument in angle brackets. -/
inductive Argument
  | type (t : TypeExpr)
  | lifetime (tokens : Tokens)
  /-- A constant, an associated type or constant, or a bound. -/
  | other (tokens : Tokens)

end

namespace Segment

def name : Segment → String
  | plain n | applied n _ _ _ | called n _ => n

def isPlain : Segment → Bool
  | plain _ => true
  | _ => false

def rename (n : String) : Segment → Segment
  | plain _ => plain n
  | applied _ turbofish args trailing => applied n turbofish args trailing
  | called _ ts => called n ts

end Segment

def Argument.isLifetime : Argument → Bool
  | .lifetime _ => true
  | _ => false

namespace Path

def absolute : Path → Bool
  | mk a _ => a

def segments : Path → List Segment
  | mk _ ss => ss

def ofName (n : String) : Path := mk false [.plain n]

def isModStyle (p : Path) : Bool := p.segments.all (·.isPlain)

def isIdent (p : Path) (n : String) : Bool :=
  match p with
  | mk false [.plain m] => m == n
  | _ => false

/-- Names of the path with double colons between them. -/
def joined (p : Path) : String := "::".intercalate (p.segments.map (·.name))

end Path

/-! ## Tokens of paths and types -/

/-- Arguments with commas between them, lifetimes first. The comma behind an argument stays behind
it when a lifetime moves. -/
def arrangeArguments (args : List (Bool × Tokens)) (trailing : Bool) : Tokens :=
  let lifetimes := (args.filter (·.1)).map (·.2)
  let others := (args.filter (!·.1)).map (·.2)
  let moved := !others.isEmpty && args.getLast?.any (·.1)
  commaSeparated (lifetimes ++ others) ++ if trailing || moved then [.punct ',' false] else []

mutual

def TypeExpr.tokens : TypeExpr → Tokens
  | .path p => p.tokens
  | .paren t => [.group .paren t.tokens]
  | .group t => t.tokens
  | .other ts => ts

def Path.tokens : Path → Tokens
  | .mk absolute ss => (if absolute then pathSep else []) ++ segmentTokens ss

def segmentTokens : List Segment → Tokens
  | [] => []
  | s :: ss => s.tokens ++ (if ss.isEmpty then [] else pathSep) ++ segmentTokens ss

def Segment.tokens : Segment → Tokens
  | .plain n => [.ident n]
  | .called n ts => .ident n :: ts
  | .applied n turbofish args trailing =>
    .ident n :: (if turbofish then pathSep else []) ++
      .punct '<' false :: arrangeArguments (argumentTokens args) trailing ++ [.punct '>' false]

/-- Tokens of arguments, and which of them are lifetimes. -/
def argumentTokens : List Argument → List (Bool × Tokens)
  | [] => []
  | a :: as => (a.isLifetime, a.tokens) :: argumentTokens as

def Argument.tokens : Argument → Tokens
  | .type t => t.tokens
  | .lifetime ts | .other ts => ts

end

/-! ## Expressions -/

/-- Forms of expressions of which nothing but the form is kept. -/
inductive ExprForm
  | array | assign | async | await | binary | block | break | call | cast | closure | const
  | continue | field | forLoop | if | index | infer | let | loop | macroCall | match | methodCall
  | paren | range | reference | repeat | return | struct | try | tryBlock | tuple | unary
  | unchecked | verbatim | while | yield | rawAddress
deriving DecidableEq, Repr

/-- An expression: a path, a literal, or anything else. -/
inductive Expr
  /-- A path; a qualified one starts with a type between angle brackets. -/
  | path (qualified : Bool) (p : Path)
  | literal (kind : LiteralKind) (text : String)
  | other (form : ExprForm)

/-! ## Attributes -/

/-- What follows the path of an attribute. -/
inductive AttributeBody
  | none
  | list (delimiter : Delimiter) (tokens : Tokens)
  | value (e : Expr) (tokens : Tokens)

/-- An attribute: a path and what follows it. -/
structure Attribute where
  path : Path
  body : AttributeBody

namespace Attribute

def content (a : Attribute) : Tokens :=
  a.path.tokens ++
    match a.body with
    | .none => []
    | .list d ts => [.group d ts]
    | .value _ ts => .punct '=' false :: ts

/-- Tokens of the attribute as it stands before an item. -/
def tokens (a : Attribute) : Tokens := [.punct '#' false, .group .bracket a.content]

end Attribute

/-! ## Imports -/

/-- The tree of names that an import brings into scope. -/
inductive UseTree
  | path (name : String) (rest : UseTree)
  | name (name : String)
  | rename (name newName : String)
  | glob
  | group (trees : List UseTree)

/-- An import; an absolute one starts with a double colon. -/
structure UseItem where
  attributes : List Attribute
  absolute : Bool
  tree : UseTree

mutual

def UseTree.tokens : UseTree → Tokens
  | .path n rest => .ident n :: pathSep ++ rest.tokens
  | .name n => [.ident n]
  | .rename n new => [.ident n, .ident "as", .ident new]
  | .glob => [.punct '*' false]
  | .group ts => [.group .brace (commaSeparated (useTreeTokens ts))]

def useTreeTokens : List UseTree → List Tokens
  | [] => []
  | t :: ts => t.tokens :: useTreeTokens ts

end

def UseItem.tokens (u : UseItem) : Tokens :=
  (u.attributes.map (·.tokens)).flatten ++ .ident "use" ::
    (if u.absolute then pathSep else []) ++ u.tree.tokens ++ [.punct ';' false]

/-! ## Items -/

abbrev Visibility := Tokens

/-- A field that has a name. -/
structure FieldDecl where
  attributes : List Attribute
  name : String
  type : TypeExpr

/-- What a type declaration declares. -/
inductive Shape
  | named (fields : List FieldDecl)
  /-- Fields without names. -/
  | unnamed (count : Nat)
  | unit
  | enumeration
  | union

/-- Declaration of a type. -/
structure Declaration where
  attributes : List Attribute
  visibility : Visibility
  name : String
  /-- Whether the type has parameters. -/
  generic : Bool
  shape : Shape

/-- An item of a module. -/
inductive Item
  | use (u : UseItem)
  | type (d : Declaration)
  /-- A module; without content, its items are in a file of its own. -/
  | module (attributes : List Attribute) (name : String) (content : Option (List Item))
  /-- A function, constant, static, trait, or type alias. -/
  | named (attributes : List Attribute) (name : String)
  | other

end JsonAdapters.Code
