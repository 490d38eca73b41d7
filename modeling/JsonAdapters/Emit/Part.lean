import JsonAdapters.Derive.Record
import JsonAdapters.Emit.Fragment

/-!
# Parts of emitted adapters

An emitted adapter has one part for each name of a part among its fields. The part is a handle on
the adapter of the first field type of that name: a plain type is looked up by itself, an applied
type by a token that is built level by level.

## Main definitions

* `Emit.TokenCode`, `Emit.TokenCode.ofType`: an expression whose value is a type token.
* `Emit.Part`, `Emit.partsOf`: the parts of an adapter, in the order of first use.
-/

namespace JsonAdapters.Emit

open Code

/-! ## Tokens -/

/-- An expression whose value is the token of a type. -/
inductive TokenCode where
  /-- Ask the type for its token. -/
  | own (type : FieldType)
  /-- Build the token of an applied type. -/
  | applied (type : FieldType) (raw : String) (arguments : List TokenCode)

namespace TokenCode

mutual

def ofType : FieldType → TokenCode
  | .simple n => own (.simple n)
  | .applied n as => applied (.applied n as) n.ident (ofTypes as)

def ofTypes : List FieldType → List TokenCode
  | [] => []
  | a :: as => ofType a :: ofTypes as

end

def ownToken (type : Tokens) : Tokens :=
  verbatim "<" ++ type ++ verbatim "as :: kson :: KsonType > :: type_token ()"

mutual

def code : TokenCode → Tokens
  | own t => ownToken t.tokens
  | applied t raw as =>
    verbatim ":: kson :: TypeToken :: parameterized :: <" ++ t.tokens ++ verbatim ">" ++
      parens (literal raw ++ verbatim ", :: std :: vec !" ++
        [.group .bracket (commaSeparated (codes as))])

def codes : List TokenCode → List Tokens
  | [] => []
  | a :: as => a.code :: codes as

end

end TokenCode

/-! ## Parts -/

/-- A part of an adapter. -/
structure Part where
  name : String
  type : FieldType

namespace Part

def isNamed (p : Part) (name : String) : Bool := p.name == name

/-- Declaration of the part: a slot for an adapter of its type. -/
def declaration (p : Part) : Tokens :=
  word p.name ++ verbatim ": :: kson :: LazyAdapter <" ++ p.type.tokens ++ verbatim ">"

/-- How the slot is made: with a token that is built for an applied type, and for a plain one with
the token of the type that is declared. -/
def initial (p : Part) : Tokens :=
  word p.name ++ verbatim ":" ++
    if p.type.isApplied then
      verbatim ":: kson :: LazyAdapter :: with_token" ++
        parens (verbatim "kson ," ++ (TokenCode.ofType p.type).code)
    else verbatim ":: kson :: LazyAdapter :: new (kson)"

end Part

/-- Add the part of a field, unless there is one of its name. -/
def addPart (ps : List Part) (f : FieldPlan) : List Part :=
  if ps.any (·.isNamed f.adapter) then ps else ps ++ [⟨f.adapter, f.type⟩]

def partsOf (fields : List FieldPlan) : List Part := fields.foldl addPart []

end JsonAdapters.Emit
