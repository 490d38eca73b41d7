import JsonAdapters.Package.FilePath
import JsonAdapters.Text.Utf8

/-!
# File trees

A file tree holds the files and directories below a root, each under its place: the names that lead
to it. One of the directories is the working directory. Paths are followed part by part, absolute
ones from the root on, and all others from the working directory on.

## Main definitions

* `FileTree`, `FileTree.get?`, `FileTree.put`, `FileTree.remove`.
* `FileTree.start`, `FileTree.resolve`: where a path starts, and the place to which it leads.
* `FileTree.isFile`, `FileTree.readText`, `FileTree.holds`, `FileTree.writeText`, `FileTree.list`.
-/

namespace JsonAdapters

/-- What stands at a place. -/
inductive FileNode
  | file (bytes : List UInt8)
  | directory
deriving DecidableEq, Repr

/-- The names that lead from the root to a file or directory. -/
abbrev Place := List String

/-- Why a file cannot be read or written. -/
inductive FileError
  | notFound
  | isDirectory
  | notDirectory
  | nameTooLong
  | notUtf8
deriving DecidableEq, Repr

def FileError.message : FileError → String
  | notFound => "No such file or directory (os error 2)"
  | isDirectory => "Is a directory (os error 21)"
  | notDirectory => "Not a directory (os error 20)"
  | nameTooLong => "File name too long (os error 36)"
  | notUtf8 => "stream did not contain valid UTF-8"

/-- Files and directories below a root. -/
structure FileTree where
  nodes : List (Place × FileNode) := []
  /-- The working directory. -/
  base : Place := []

namespace FileTree

/-! ## Places -/

/-- What stands at a place; the root itself is always there. -/
def get? (t : FileTree) (place : Place) : Option FileNode :=
  if place = [] then some .directory else t.nodes.lookup place

def set (t : FileTree) (place : Place) (n : FileNode) : FileTree :=
  { t with nodes := t.nodes.filter (·.1 ≠ place) ++ [(place, n)] }

/-- Make a directory at a place where nothing stands. -/
def ensureDirectory (t : FileTree) (place : Place) : FileTree :=
  if (t.get? place).isSome then t else t.set place .directory

/-- Let a node stand at a place, with all directories that lead to it. -/
def put (t : FileTree) (place : Place) (n : FileNode) : FileTree :=
  (((List.range place.length).map place.take).foldl ensureDirectory t).set place n

def remove (t : FileTree) (place : Place) : FileTree :=
  { t with nodes := t.nodes.filter fun (p, _) => !place.isPrefixOf p }

def namesIn (t : FileTree) (place : Place) : List String :=
  t.nodes.filterMap fun (p, _) => if p.dropLast = place then p.getLast? else none

/-! ## Paths -/

def maxPath : Nat := 4095

def maxName : Nat := 255

/-- Follow the parts of a path from a place on. A part is looked up in a directory; nothing lies
above the root. -/
def follow (t : FileTree) (place : Place) : List String → Except FileError Place
  | [] => .ok place
  | part :: rest =>
    match t.get? place with
    | none => .error .notFound
    | some (.file _) => .error .notDirectory
    | some .directory =>
      if FilePath.isIdle part then t.follow place rest
      else if part = ".." then t.follow place.dropLast rest
      else if maxName < part.utf8ByteSize then .error .nameTooLong
      else t.follow (place ++ [part]) rest

/-- Where a path starts: at the root, or in the working directory. -/
def start (t : FileTree) (p : FilePath) : Place := if p.isAbsolute then [] else t.base

/-- The place to which a path leads. Nothing need stand there. -/
def resolve (t : FileTree) (p : FilePath) : Except FileError Place :=
  if maxPath < p.text.utf8ByteSize then .error .nameTooLong
  else if p.text = "" then .error .notFound
  else t.follow (t.start p) p.parts

def isFile (t : FileTree) (p : FilePath) : Bool :=
  match (t.resolve p).toOption.bind t.get? with
  | some (.file _) => true
  | _ => false

def read (t : FileTree) (p : FilePath) : Except FileError (List UInt8) := do
  match t.get? (← t.resolve p) with
  | none => .error .notFound
  | some .directory => .error .isDirectory
  | some (.file bytes) => .ok bytes

def readText (t : FileTree) (p : FilePath) : Except FileError String := do
  match Utf8.decode (← t.read p) with
  | (cs, none) => .ok (String.ofList cs)
  | (_, some _) => .error .notUtf8

def holds (t : FileTree) (p : FilePath) (text : String) : Bool :=
  match t.read p with
  | .ok bytes => bytes == text.toUTF8.toList
  | .error _ => false

/-- Write a text into a file, which need not exist before. -/
def writeText (t : FileTree) (p : FilePath) (text : String) : Except FileError FileTree := do
  let place ← t.resolve p
  if t.get? place = some .directory then .error .isDirectory
  else .ok (t.set place (.file text.toUTF8.toList))

/-- Names in the directory to which a path leads, with what they stand for. -/
def list (t : FileTree) (p : FilePath) : List (String × FileNode) :=
  match t.resolve p with
  | .error _ => []
  | .ok place =>
    if t.get? place = some .directory then
      (t.namesIn place).filterMap fun name => (t.get? (place ++ [name])).map (name, ·)
    else []

end FileTree

end JsonAdapters
