/-!
# Paths of files

A path is a text of names with slashes between them. It is kept as it is written: doubled slashes
and dots are passed over when its parts are looked at, but show in messages.

## Main definitions

* `FilePath`, `FilePath.parts`.
* `FilePath.join`, `FilePath.parent?`, `FilePath.fileName?`.
-/

namespace JsonAdapters

/-- A path of a file, as it is written. -/
structure FilePath where
  text : String
deriving DecidableEq, Repr

namespace FilePath

/-! ## Parts -/

def splitSlashes : List Char → List (List Char)
  | [] => [[]]
  | c :: cs =>
    if c = '/' then [] :: splitSlashes cs
    else
      match splitSlashes cs with
      | [] => [[c]]
      | p :: ps => (c :: p) :: ps

def parts (p : FilePath) : List String := (splitSlashes p.text.toList).map String.ofList

/-- Whether the path starts at the root of all files. -/
def isAbsolute (p : FilePath) : Bool := p.text.toList.head? = some '/'

/-- Whether a part leads nowhere: it is empty or a dot. -/
def isIdle (part : String) : Bool := part = "" || part = "."

/-- What stands before all parts that can be taken off: the root, or a dot that starts the path. -/
def lead (p : FilePath) : String :=
  if p.isAbsolute then "/" else if p.parts.head? = some "." then "." else ""

/-- Parts behind the lead, without idle ones at the end. -/
def body (p : FilePath) : List String :=
  ((splitSlashes (p.text.toList.drop p.lead.length)).map String.ofList).reverse.dropWhile isIdle
    |>.reverse

def fileName? (p : FilePath) : Option String :=
  match p.body.getLast? with
  | none | some ".." => none
  | some name => some name

def parent? (p : FilePath) : Option FilePath :=
  match p.body.reverse with
  | [] => if p.lead = "." then some ⟨""⟩ else none
  | _ :: before =>
    some ⟨p.lead ++ "/".intercalate (before.dropWhile isIdle).reverse⟩

/-- The directory of a file, which is the empty path if there is none. -/
def directory (p : FilePath) : FilePath := p.parent?.getD ⟨""⟩

/-! ## Putting paths together -/

def join (p q : FilePath) : FilePath :=
  if q.isAbsolute || p.text = "" then q
  else if p.text.toList.getLast? = some '/' then ⟨p.text ++ q.text⟩
  else ⟨p.text ++ "/" ++ q.text⟩

def child (p : FilePath) (name : String) : FilePath := p.join ⟨name⟩

end FilePath

end JsonAdapters
