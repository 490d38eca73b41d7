import JsonAdapters.Code.Lexer

/-!
# Fragments of emitted code

Emitted code is a list of tokens, which is put together from fragments. Some of them are fixed: they
are given as program text. Others stand for names, texts and types.

## Main definitions

* `Emit.verbatim`: the tokens of fixed program text.
* `Emit.word`, `Emit.literal`: a name, and a text between quotes.
* `Emit.parens`, `Emit.block`, `Emit.listed`, `Emit.alternatives`: fragments of fragments.
* `Emit.optionOf`, `Emit.resultOf`, `Emit.absent`, `Emit.present`, `Emit.success`: common types and
  values.
-/

namespace JsonAdapters.Emit

open Code

/-- Tokens of fixed program text. A text that is none has no tokens. -/
def verbatim (text : String) : Tokens := (tokens? text).getD []

def word (name : String) : Tokens := [.ident name]

def literal (text : String) : Tokens := [.literal (quoted text)]

def parens (inner : Tokens) : Tokens := [.group .paren inner]

def block (inner : Tokens) : Tokens := [.group .brace inner]

/-- Fragments with a comma behind each. -/
def listed (fragments : List Tokens) : Tokens := fragments.flatMap (· ++ [.punct ',' false])

/-- Fragments with a bar between them. -/
def alternatives : List Tokens → Tokens
  | [] => []
  | [ts] => ts
  | ts :: more => ts ++ .punct '|' false :: alternatives more

/-! ## Common types and values -/

/-- Type of a value of the given type that may be absent. -/
def optionOf (type : Tokens) : Tokens :=
  verbatim ":: core :: option :: Option <" ++ type ++ verbatim ">"

/-- Type of a result, which may be a failure instead. -/
def resultOf (type : Tokens) : Tokens :=
  verbatim ":: core :: result :: Result <" ++ type ++ verbatim ", :: kson :: KsonError >"

def absent : Tokens := verbatim ":: core :: option :: Option :: None"

def present (value : Tokens) : Tokens :=
  verbatim ":: core :: option :: Option :: Some" ++ parens value

def success (value : Tokens) : Tokens :=
  verbatim ":: core :: result :: Result :: Ok" ++ parens value

end JsonAdapters.Emit
