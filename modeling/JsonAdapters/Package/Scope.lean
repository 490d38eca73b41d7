import JsonAdapters.Code.Grammar
import JsonAdapters.Derive.GeneratedName
import JsonAdapters.Emit.Words

/-!
# Scopes of modules

A module's scope holds its imports and the names that it declares. The file that holds all adapters
has a module of its own for each module with records; the imports are repeated there, with paths
that start at the root instead of at the module.

## Main definitions

* `Scope`, `Scope.ofItems`.
* `Scope.rooted`: a tree of names as it reads from every module.
* `Code.UseTree.without`: a tree of names without those that must not be bound.
* `Scope.rootedUses`, `Scope.globCode`: what is repeated.
* `isForTests`: items that are left out.
-/

namespace JsonAdapters

open Code

/-! ## Items that are left out -/

/-- Whether an attribute lets its item be compiled for tests only. -/
def Code.Attribute.limitsToTests (a : Attribute) : Bool :=
  a.path.isIdent "cfg" &&
    match a.body with
    | .list _ ts => (readTokens? metaItem ts).any (·.path.isIdent "test")
    | _ => false

/-- Whether attributes let their item be compiled for tests only. -/
def isForTests (attributes : List Attribute) : Bool := attributes.any (·.limitsToTests)

/-! ## Names that must not be bound -/

mutual

/-- A tree of names without those that bind a reserved name, if any name is left. -/
def Code.UseTree.without (reserved : List String) : UseTree → Option UseTree
  | .path n rest => (rest.without reserved).map (.path n)
  | .name n => if n ∈ reserved then none else some (.name n)
  | .rename n new => if new ∈ reserved then none else some (.rename n new)
  | .glob => some .glob
  | .group ts =>
    match treesWithout reserved ts with
    | [] => none
    | us => some (.group us)

def treesWithout (reserved : List String) : List UseTree → List UseTree
  | [] => []
  | t :: ts => (t.without reserved).toList ++ treesWithout reserved ts

end

/-! ## Scopes -/

/-- Imports of a module and the names that it declares. -/
structure Scope where
  /-- Names of the module and those around it, from the root on. -/
  path : List String
  uses : List UseItem := []
  names : List String := []

def belowModule (module : List String) (rest : UseTree) : UseTree :=
  .path "crate" (module.foldr .path rest)

/-- A tree of names below a module, where each word `super` at its start leads one module up. The
module's names are given from the inside to the outside. -/
def belowParent : List String → UseTree → Option UseTree
  | inner, .path n rest =>
    if n = "super" then
      match inner with
      | [] => none
      | _ :: outer => belowParent outer rest
    else some (belowModule inner.reverse (.path n rest))
  | inner, t => some (belowModule inner.reverse t)

namespace Scope

/-- A tree whose first name is `n`, below the module if it declares `n`. -/
def anchored (s : Scope) (n : String) (t : UseTree) : UseTree :=
  if n ∈ s.names then belowModule s.path t else t

mutual

/-- A tree of names as it reads from every module, if it can be read from another one. -/
def rooted (s : Scope) : UseTree → Option UseTree
  | .path n rest =>
    if n = "crate" then some (.path n rest)
    else if n = "self" then some (belowModule s.path rest)
    else if n = "super" then belowParent s.path.reverse (.path n rest)
    else some (s.anchored n (.path n rest))
  | .name n => some (s.anchored n (.name n))
  | .rename n new => some (s.anchored n (.rename n new))
  | .glob => none
  | .group ts =>
    match s.rootedAll ts with
    | [] => none
    | us => some (.group us)

/-- The trees that can be read from another module. -/
def rootedAll (s : Scope) : List UseTree → List UseTree
  | [] => []
  | t :: ts => (s.rooted t).toList ++ s.rootedAll ts

end

/-- An import as it reads from every module, without reserved names. Of its attributes, those stay
that decide whether it is compiled. -/
def rootedUse (s : Scope) (reserved : List String) (u : UseItem) : Option UseItem := do
  let tree ← u.tree.without reserved
  let tree ← if u.absolute then some tree else s.rooted tree
  return ⟨u.attributes.filter (·.path.isIdent "cfg"), u.absolute, tree⟩

/-- Imports of the module as they read from every module, without reserved names. -/
def rootedUses (s : Scope) (reserved : List String) : List UseItem :=
  s.uses.filterMap (s.rootedUse reserved)

def glob (s : Scope) : UseItem := ⟨[], false, belowModule s.path .glob⟩

/-- Code of that import, seen in the whole package. -/
def globCode (s : Scope) : Except NotAnIdentifier String := do
  discard <| s.path.mapM identifier
  return Emit.words ["pub (crate)", s.glob.tokens.text]

end Scope

/-! ## Scopes of items -/

/-- Attributes of an item, as far as they decide whether it is left out. -/
def Code.Item.outerAttributes : Item → List Attribute
  | .use u => u.attributes
  | .type d => d.attributes
  | .module attrs _ _ | .named attrs _ => attrs
  | .other => []

def Code.Item.declaredName? : Item → Option String
  | .type d => some d.name
  | .module _ n _ | .named _ n => some n
  | .use _ | .other => none

def Scope.ofItems (path : List String) (items : List Item) : Scope :=
  let compiled := items.filter fun i => !isForTests i.outerAttributes
  { path := path
    uses := compiled.filterMap fun
      | .use u => some u
      | _ => none
    names := compiled.filterMap (·.declaredName?) }

end JsonAdapters
