import JsonAdapters.Package.FileTree
import JsonAdapters.Package.Scope

/-!
# Discovery

The modules of a package are walked from its root file on. A module without content has a file of
its own, which is looked for in the directory of its parent's modules. The walk collects the
records, the types that mark a factory, the scope of each module, and the files.

## Main definitions

* `Discovery`, `Discovery.ofRoot`, `Discovery.ofItems`.
* `DiscoveryFault`, `DiscoveryFault.message`.
* `moduleFiles`, `fileModuleDirectory`, `inlineModuleDirectory`: where modules are looked for.

## Design notes

A module file may name itself as the file of one of its own modules. The walk is therefore bounded
by a number of files within files, `FileTree.nesting`. What it does in a file depends on the place
of the file and on the directory of its modules, whose length is bounded as that of paths is. In a
chain that is longer than the bound, one file is therefore entered twice with one directory, and
would be entered again and again.
-/

namespace JsonAdapters

open Code

/-! ## What is found -/

/-- A record declaration, with the names of the modules around it. -/
structure FoundRecord where
  module : List String
  declaration : Declaration

/-- A path from the root of the package, as messages show it. -/
def shownPath (module : List String) (name : String) : String :=
  "::".intercalate (module ++ [name])

/-- A type that marks a factory. -/
structure Marker where
  module : List String
  name : String
deriving DecidableEq, Repr

def Marker.shownPath (m : Marker) : String := JsonAdapters.shownPath m.module m.name

/-- Scopes of modules, in the order of the modules' paths. -/
abbrev Scopes := List (List String × Scope)

/-- Add a scope, in place of one of the same module. -/
def Scopes.insert (s : Scope) : Scopes → Scopes
  | [] => [(s.path, s)]
  | (m, t) :: rest =>
    if s.path = m then (m, s) :: rest
    else if s.path < m then (s.path, s) :: (m, t) :: rest
    else (m, t) :: insert s rest

/-- What a walk has found. -/
structure Discovery where
  records : List FoundRecord := []
  markers : List Marker := []
  scopes : Scopes := []
  files : List FilePath := []

/-- Why a walk ends early. -/
inductive DiscoveryFault
  | unreadable (file : FilePath) (cause : FileError)
  | unparsable (file : FilePath)
  | moduleNotFound (module : List String) (candidates : List FilePath)
  /-- The file is entered again and again. -/
  | endless (file : FilePath)
deriving DecidableEq, Repr

def DiscoveryFault.message : DiscoveryFault → String
  | unreadable f e => s!"cannot read '{f.text}': {e.message}"
  | unparsable f => s!"cannot parse '{f.text}'"
  | moduleNotFound m cs =>
    let module := "::".intercalate m
    let candidates := ", ".intercalate (cs.map (·.text))
    s!"file for module '{module}' not found, looked for {candidates}"
  | endless f => s!"file '{f.text}' contains itself"

/-! ## Reading items -/

/-- The last names of the paths that a type derives. -/
def derivedNames (attrs : List Attribute) : List String :=
  (attrs.filter (·.path.isIdent "derive")).flatMap fun a =>
    match a.body with
    | .list _ ts =>
      ((readTokens? (fun g => commaList (path g false)) ts).getD []).filterMap
        fun p => p.segments.getLast?.map (·.name)
    | _ => []

def pathAttribute? (attrs : List Attribute) : Option FilePath :=
  (attrs.filter (·.path.isIdent "path")).findSome? fun a =>
    match a.body with
    | .value (.literal .string t) _ => some ⟨stringValue t⟩
    | _ => none

/-- Files in which a module may be, the first one that exists. -/
def moduleFiles (dir : FilePath) (attrs : List Attribute) (name : String) : List FilePath :=
  match pathAttribute? attrs with
  | some p => [dir.join p]
  | none => [dir.child (name ++ ".rs"), (dir.child name).child "mod.rs"]

/-- Directory of the modules of a module that has a file of its own. -/
def fileModuleDirectory (dir : FilePath) (attrs : List Attribute) (name : String)
    (file : FilePath) : FilePath :=
  if (pathAttribute? attrs).isSome || file.fileName? = some "mod.rs" then file.directory
  else dir.child name

/-- Directory of the modules of a module that has its content where it is declared. -/
def inlineModuleDirectory (dir : FilePath) (attrs : List Attribute) (name : String) : FilePath :=
  dir.join ((pathAttribute? attrs).getD ⟨name⟩)

/-- Whether the declaration may be a record or a marker. -/
def Code.Declaration.isWalked (d : Declaration) : Bool :=
  match d.shape with
  | .union => false
  | _ => true

/-! ## The walk -/

abbrev Walk := StateT Discovery (Except DiscoveryFault)

namespace Walk

def noteFile (file : FilePath) : Walk Unit :=
  modify fun d => { d with files := d.files ++ [file] }

/-- Note a declared type, if it is a marker, and if it is a record in a module. -/
def noteType (module : List String) (d : Declaration) : Walk Unit := do
  let derived := derivedNames d.attributes
  if derived.contains "KsonFactory" then
    modify fun s => { s with markers := s.markers ++ [⟨module, d.name⟩] }
  if derived.contains "Kson" && !module.isEmpty then
    modify fun s => { s with records := s.records ++ [⟨module, d⟩] }

def noteScope (module : List String) (items : List Item) : Walk Unit :=
  if module.isEmpty then return
  else modify fun s => { s with scopes := s.scopes.insert (.ofItems module items) }

variable (tree : FileTree) (enter : FilePath → FilePath → List String → Walk Unit)

mutual

def item (dir : FilePath) (module : List String) : Item → Walk Unit
  | .type d => if d.isWalked then noteType module d else return
  | .module attrs name (some items) => do
    let inner := module ++ [name]
    itemList (inlineModuleDirectory dir attrs name) inner items
    noteScope inner items
  | .module attrs name none => do
    let inner := module ++ [name]
    let candidates := moduleFiles dir attrs name
    match candidates.find? tree.isFile with
    | some file => enter file (fileModuleDirectory dir attrs name file) inner
    | none => throw (.moduleNotFound inner candidates)
  | .use _ | .named _ _ | .other => return

def itemList (dir : FilePath) (module : List String) : List Item → Walk Unit
  | [] => return
  | i :: is => do
    if isForTests i.outerAttributes then pure () else item dir module i
    itemList dir module is

end

def items (dir : FilePath) (module : List String) (is : List Item) : Walk Unit := do
  itemList tree enter dir module is
  noteScope module is

/-- Walk a file, and at most `n` files within files. The modules in it have their files in `dir`. -/
def file (tree : FileTree) : Nat → FilePath → FilePath → List String → Walk Unit
  | 0, f, _, _ => throw (.endless f)
  | n + 1, f, dir, module => do
    match tree.readText f with
    | .error e => throw (.unreadable f e)
    | .ok source =>
      match parseItems? source with
      | none => throw (.unparsable f)
      | some is =>
        noteFile f
        items tree (file tree n) dir module is

end Walk

/-- A number of files within files that is only reached if a file is entered again and again. There
are no more places of files than nodes, and no more directories than texts of at most `maxPath`
bytes. -/
def FileTree.nesting (t : FileTree) : Nat := Nat.pow 257 FileTree.maxPath * t.nodes.length + 1

namespace Discovery

def ofWalk (w : Walk Unit) : Except DiscoveryFault Discovery := (·.2) <$> w.run {}

/-- Walk the modules of a package from its root file on. -/
def ofRoot (tree : FileTree) (root : FilePath) : Except DiscoveryFault Discovery :=
  ofWalk (Walk.file tree tree.nesting root root.directory [])

/-- Walk the items of a root file whose modules have their files in a directory. -/
def ofItems (tree : FileTree) (dir : FilePath) (items : List Item) :
    Except DiscoveryFault Discovery :=
  ofWalk (Walk.items tree (Walk.file tree tree.nesting) dir [] items)

end Discovery

end JsonAdapters
