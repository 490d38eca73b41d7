import JsonAdapters.Code.Node
import JsonAdapters.Derive.Fault
import JsonAdapters.Text.Letter

/-!
# Field types

A field type is a name, or a name applied to field types. Paths into the standard library stand
for the bare name; `Self` stands for the record.

## Main definitions

* `TypeName`, `TypeName.canonical`: a path, and the name under which types are compared.
* `FieldType`, `FieldType.ofTypeExpr`: a type that fields can have.
* `FieldType.text`, `FieldType.tokens`: its normal form, and the form in which it is emitted.
* `FieldType.agrees`, `FieldType.adapterName`.
-/

namespace JsonAdapters

open Code

/-- A path without arguments. -/
structure TypeName where
  absolute : Bool
  segments : List String
deriving DecidableEq, Repr

namespace TypeName

/-- Packages whose paths stand for the bare type name. -/
def standardRoots : List String := ["std", "core", "alloc"]

/-- The name of a path; a lone `Self` is the record. -/
def ofPath (record : String) (absolute : Bool) (segments : List String) : TypeName :=
  if !absolute && segments = ["Self"] then ⟨false, [record]⟩ else ⟨absolute, segments⟩

def ident (n : TypeName) : String := n.segments.getLast?.getD ""

def canonical (n : TypeName) : String :=
  match n.segments with
  | root :: _ :: _ => if root ∈ standardRoots then n.ident else "::".intercalate n.segments
  | _ => "::".intercalate n.segments

def path (n : TypeName) : Path := .mk n.absolute (n.segments.map .plain)

end TypeName

/-- A type that fields can have. -/
inductive FieldType where
  | simple (name : TypeName)
  | applied (name : TypeName) (args : List FieldType)
deriving Repr

namespace FieldType

/-! ## Reading -/

/-- A name applied to arguments, which is the name if there are none. -/
def apply (name : TypeName) : List FieldType → FieldType
  | [] => simple name
  | args => applied name args

mutual

/-- The field type that a type expression writes, in a record of the given name. -/
def ofTypeExpr (record : String) : TypeExpr → Except FaultReport FieldType
  | .paren t | .group t => ofTypeExpr record t
  | .path p => ofPath record p
  | .other _ => .error (.of .notAPath)

def ofPath (record : String) : Path → Except FaultReport FieldType
  | .mk absolute segments => ofSegments record absolute [] segments

/-- The field type that a path writes; `before` holds the names passed, last first. -/
def ofSegments (record : String) (absolute : Bool) (before : List String) :
    List Segment → Except FaultReport FieldType
  | [] => .error (.of .notAPath)
  | s :: rest =>
    if rest.isEmpty then ofLastSegment record absolute before s
    else if s.isPlain then ofSegments record absolute (s.name :: before) rest
    else .error (.of .innerArguments)

/-- The field type of a path that ends with the segment. -/
def ofLastSegment (record : String) (absolute : Bool) (before : List String) :
    Segment → Except FaultReport FieldType
  | .plain n => .ok (simple (.ofPath record absolute (n :: before).reverse))
  | .applied n _ args _ =>
    let name := TypeName.ofPath record absolute (n :: before).reverse
    let (types, faults) := ofArguments record args
    Report.check faults (apply name types)
  | .called _ _ => .error (.of .callArguments)

/-- The field types that arguments write, and what is wrong with the others. -/
def ofArguments (record : String) : List Argument → List FieldType × List FaultReport
  | [] => ([], [])
  | a :: as =>
    let (types, faults) := ofArguments record as
    match ofArgument record a with
    | .ok t => (t :: types, faults)
    | .error e => (types, e :: faults)

def ofArgument (record : String) : Argument → Except FaultReport FieldType
  | .type t => ofTypeExpr record t
  | .lifetime _ | .other _ => .error (.of .notATypeArgument)

end

/-! ## Parts -/

def name : FieldType → TypeName
  | simple n | applied n _ => n

def args : FieldType → List FieldType
  | simple _ => []
  | applied _ as => as

def isApplied : FieldType → Bool
  | simple _ => false
  | applied _ _ => true

def optional? : FieldType → Option FieldType
  | applied n [t] => if n.canonical = "Option" then some t else none
  | _ => none

def marksOnly (t : FieldType) : Bool := t.name.canonical = "PhantomData"

/-! ## Comparison and text -/

mutual

/-- Whether two types are the same under their compared names. -/
def agrees : FieldType → FieldType → Bool
  | simple a, simple b => a.canonical == b.canonical
  | simple a, applied b bs => a.canonical == b.canonical && bs.isEmpty
  | applied a as, simple b => a.canonical == b.canonical && as.isEmpty
  | applied a as, applied b bs => a.canonical == b.canonical && agreeAll as bs

/-- Whether two lists of types are the same under their compared names. -/
def agreeAll : List FieldType → List FieldType → Bool
  | [], [] => true
  | a :: as, b :: bs => agrees a b && agreeAll as bs
  | _, _ => false

end

mutual

def text : FieldType → String
  | simple n => n.canonical
  | applied n as => n.canonical ++ "<" ++ ", ".intercalate (texts as) ++ ">"

def texts : List FieldType → List String
  | [] => []
  | a :: as => a.text :: texts as

end

mutual

def tokens : FieldType → Tokens
  | simple n => n.path.tokens
  | applied n as =>
    n.path.tokens ++ .punct '<' false :: commaSeparated (tokensOf as) ++ [.punct '>' false]

def tokensOf : List FieldType → List Tokens
  | [] => []
  | a :: as => a.tokens :: tokensOf as

end

/-! ## Adapter names -/

mutual

/-- Names in the type, from the outside to the inside and from left to right. -/
def idents : FieldType → List String
  | simple n => [n.ident]
  | applied n as => n.ident :: identsOf as

def identsOf : List FieldType → List String
  | [] => []
  | a :: as => a.idents ++ identsOf as

end

/-- Name of the part of a generated adapter that serves fields of the type. -/
def adapterName (t : FieldType) : String :=
  lowercase ("_".intercalate (t.idents ++ ["adapter"]))

end FieldType

end JsonAdapters
