/-!
# Tokens of program text

Program text is a list of token trees: words, punctuation characters, literals, and lists of
token trees between brackets. Operators of several characters are punctuation characters that are
joined to their successors.

## Main definitions

* `Code.TokenTree`, `Code.Tokens`.
* `Code.Tokens.text`: the written form, one space between tokens that are not joined.
* `Code.Tokens.weight`: how many tokens there are at all depths.
-/

namespace JsonAdapters.Code

/-- Kinds of brackets. -/
inductive Delimiter
  | paren
  | bracket
  | brace
deriving DecidableEq, Repr

/-- A token, or a list of tokens between brackets. -/
inductive TokenTree
  /-- A word; a raw one is written with its mark `r#`. -/
  | ident (name : String)
  /-- One punctuation character, and whether it is joined to the token behind it. -/
  | punct (mark : Char) (joint : Bool)
  /-- A literal as it is written. -/
  | literal (text : String)
  | group (delimiter : Delimiter) (inner : List TokenTree)
deriving Repr, Inhabited

abbrev Tokens := List TokenTree

namespace TokenTree

def isJoint : TokenTree → Bool
  | punct _ j => j
  | _ => false

def isWord (w : String) : TokenTree → Bool
  | ident n => n == w
  | _ => false

/-- Whether the token is a list between brackets of the kind `d`. -/
def isGroup (d : Delimiter) : TokenTree → Bool
  | group e _ => d == e
  | _ => false

end TokenTree

/-! ## Text -/

mutual

def TokenTree.text : TokenTree → String
  | .ident n => n
  | .punct c _ => c.toString
  | .literal t => t
  | .group .paren ts => "(" ++ textOf ts ++ ")"
  | .group .bracket ts => "[" ++ textOf ts ++ "]"
  | .group .brace ts => "\x7b " ++ textOf ts ++ (if ts.isEmpty then "\x7d" else " \x7d")

def textOf : List TokenTree → String
  | [] => ""
  | t :: ts => t.text ++ (if ts.isEmpty || t.isJoint then "" else " ") ++ textOf ts

end

def Tokens.text (ts : Tokens) : String := textOf ts

/-! ## Size -/

mutual

def TokenTree.weight : TokenTree → Nat
  | .group _ ts => 1 + weightOf ts
  | _ => 1

def weightOf : List TokenTree → Nat
  | [] => 0
  | t :: ts => t.weight + weightOf ts

end

def Tokens.weight (ts : Tokens) : Nat := weightOf ts

/-! ## Parts -/

/-- The tokens of an operator: each character is joined to the next. -/
def operator (cs : List Char) : Tokens :=
  match cs with
  | [] => []
  | [c] => [.punct c false]
  | c :: cs => .punct c true :: operator cs

def pathSep : Tokens := operator [':', ':']

def commaSeparated : List Tokens → Tokens
  | [] => []
  | [ts] => ts
  | ts :: more => ts ++ .punct ',' false :: commaSeparated more

end JsonAdapters.Code
