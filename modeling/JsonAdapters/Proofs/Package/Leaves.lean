import JsonAdapters.Package.Scope
import Mathlib.Data.List.Basic

/-!
# Leaves of imports

An import brings names into scope, each by one path. Trees of names are pruned and repeated leaf by
leaf: a leaf is kept when it binds no reserved name, and only the words before its end change.

## Main definitions

* `Leaf`, `Code.UseItem.leaves`: the paths of an import, one for each name.
* `Scope.rootedLeaf`: a leaf as it reads from every module.

## Main statements

* `leaves_without`: leaves that bind a reserved name are left out, and no others.
* `Scope.leaves_rooted`, `Scope.leaves_rootedUses`: trees and imports are repeated leaf by leaf.
-/

namespace JsonAdapters

open Code

/-! ## Leaves -/

/-- A word on the way to a leaf: a name, or a brace that opens a group. -/
inductive PathWord
  | name (n : String)
  | brace
deriving DecidableEq, Repr

def PathWord.name? : PathWord → Option String
  | name n => some n
  | brace => none

/-- Where the way to a leaf ends. -/
inductive Ending
  /-- With a name. -/
  | own (n : String)
  /-- With a name that is bound under another one. -/
  | renamed (n new : String)
  /-- With everything that stands there. -/
  | everything
deriving DecidableEq, Repr

/-- One path of an import. -/
structure Leaf where
  /-- Whether the path starts with a double colon. -/
  absolute : Bool
  /-- Words before the end. -/
  before : List PathWord
  last : Ending
deriving DecidableEq, Repr

namespace Leaf

/-- The leaf with one word more at its start. -/
def behind (w : PathWord) (l : Leaf) : Leaf := { l with before := w :: l.before }

end Leaf

mutual

/-- The leaves of a tree of names. -/
def Code.UseTree.leaves (absolute : Bool) : UseTree → List Leaf
  | .path n rest => (rest.leaves absolute).map (.behind (.name n))
  | .name n => [⟨absolute, [], .own n⟩]
  | .rename n new => [⟨absolute, [], .renamed n new⟩]
  | .glob => [⟨absolute, [], .everything⟩]
  | .group ts => (leavesOf absolute ts).map (.behind .brace)

/-- The leaves of trees of names, one after the other. -/
def leavesOf (absolute : Bool) : List UseTree → List Leaf
  | [] => []
  | t :: ts => t.leaves absolute ++ leavesOf absolute ts

end

def Code.UseItem.leaves (u : UseItem) : List Leaf := u.tree.leaves u.absolute

/-- Whether a leaf binds no reserved name. -/
def Leaf.isFree (reserved : List String) (l : Leaf) : Bool :=
  match l.last with
  | .own n | .renamed _ n => n ∉ reserved
  | .everything => true

/-! ## Reserved names -/

theorem leavesOf_append (a : Bool) (ts us : List UseTree) :
    leavesOf a (ts ++ us) = leavesOf a ts ++ leavesOf a us := by
  induction ts with
  | nil => rfl
  | cons t ts ih => simp [leavesOf, ih]

theorem leavesOf_toList (a : Bool) (t : Option UseTree) :
    leavesOf a t.toList = t.elim [] (·.leaves a) := by
  cases t <;> simp [leavesOf]

variable {reserved : List String}

theorem Leaf.filter_behind (w : PathWord) (ls : List Leaf) :
    (ls.map (Leaf.behind w)).filter (·.isFree reserved) =
      (ls.filter (·.isFree reserved)).map (Leaf.behind w) := by
  rw [List.filter_map]
  rfl

mutual

/-- A tree without reserved names has the leaves that bind none of them. -/
theorem leaves_without (a : Bool) : ∀ t : UseTree,
    (t.without reserved).elim [] (·.leaves a) = (t.leaves a).filter (·.isFree reserved)
  | .path n rest => by
    rw [UseTree.without, UseTree.leaves, Leaf.filter_behind, ← leaves_without a rest]
    cases rest.without reserved <;> simp [UseTree.leaves]
  | .name n => by
    by_cases h : n ∈ reserved <;> simp [UseTree.without, UseTree.leaves, Leaf.isFree, h]
  | .rename n new => by
    by_cases h : new ∈ reserved <;> simp [UseTree.without, UseTree.leaves, Leaf.isFree, h]
  | .glob => by simp [UseTree.without, UseTree.leaves, Leaf.isFree]
  | .group ts => by
    rw [UseTree.without, UseTree.leaves, Leaf.filter_behind, ← leavesOf_treesWithout a ts]
    cases treesWithout reserved ts <;> simp [UseTree.leaves, leavesOf]

theorem leavesOf_treesWithout (a : Bool) : ∀ ts : List UseTree,
    leavesOf a (treesWithout reserved ts) = (leavesOf a ts).filter (·.isFree reserved)
  | [] => rfl
  | t :: ts => by
    rw [treesWithout, leavesOf_append, leavesOf_toList, leaves_without a t,
      leavesOf_treesWithout a ts, leavesOf, List.filter_append]

end

/-! ## Leaves of trees that are repeated -/

def wordsBelow (module : List String) (ws : List PathWord) : List PathWord :=
  .name "crate" :: (module.map .name ++ ws)

/-- The module to which the words `super` at the start lead, from a module whose own names are given
from the inside to the outside. -/
def moduleAbove : List String → List PathWord → Option (List String)
  | inner, .name "super" :: ws =>
    match inner with
    | [] => none
    | _ :: outer => moduleAbove outer ws
  | inner, _ => some inner.reverse

namespace Scope

/-- Words whose first name is `n`, below the module if it declares `n`. -/
def anchoredWords (s : Scope) (n : String) (ws : List PathWord) : List PathWord :=
  if n ∈ s.names then wordsBelow s.path ws else ws

/-- Words before the end of a leaf, as they read from every module. -/
def rootedWords (s : Scope) (last : Ending) : List PathWord → Option (List PathWord)
  | .brace :: ws => (s.rootedWords last ws).map (.brace :: ·)
  | .name n :: ws =>
    if n = "crate" then some (.name n :: ws)
    else if n = "self" then some (wordsBelow s.path ws)
    else if n = "super" then
      (moduleAbove s.path.reverse (.name n :: ws)).map
        (wordsBelow · (ws.dropWhile (· = .name "super")))
    else some (s.anchoredWords n (.name n :: ws))
  | [] =>
    match last with
    | .own n | .renamed n _ => some (s.anchoredWords n [])
    | .everything => none

/-- A leaf as it reads from every module, if it can be read from another one. -/
def rootedLeaf (s : Scope) (l : Leaf) : Option Leaf :=
  if l.absolute then some l
  else (s.rootedWords l.last l.before).map fun ws => { l with before := ws }

end Scope

theorem leaves_below (a : Bool) (module : List String) (t : UseTree) :
    (belowModule module t).leaves a =
      (t.leaves a).map fun l => { l with before := wordsBelow module l.before } := by
  have inner : (module.foldr .path t).leaves a =
      (t.leaves a).map fun l => { l with before := module.map .name ++ l.before } := by
    induction module with
    | nil => simp
    | cons n ns ih => simp [UseTree.leaves, ih, Leaf.behind]
  simp [belowModule, UseTree.leaves, inner, wordsBelow, Leaf.behind]

section Parents

variable {inner : List String} {ws : List PathWord}

theorem moduleAbove_of_ne (h : ws.head? ≠ some (.name "super")) :
    moduleAbove inner ws = some inner.reverse := by
  unfold moduleAbove
  split
  · exact absurd rfl h
  · rfl

theorem moduleAbove_subset {m : List String} (h : moduleAbove inner ws = some m) : m ⊆ inner := by
  induction inner, ws using moduleAbove.induct with
  | case1 ws => cases h
  | case2 ws n outer ih => exact List.Subset.trans (ih h) (List.subset_cons_self n outer)
  | case3 inner ws hne =>
    rw [moduleAbove_of_ne] at h
    · obtain rfl : inner.reverse = m := by simpa using h
      exact List.reverse_subset.2 (List.Subset.refl inner)
    · intro hhead
      obtain ⟨us, hus⟩ := List.head?_eq_some_iff.1 hhead
      exact hne us hus

theorem dropWhile_of_ne (h : ws.head? ≠ some (.name "super")) :
    ws.dropWhile (· = .name "super") = ws := by
  cases ws with
  | nil => rfl
  | cons w ws => exact List.dropWhile_cons_of_neg (by simpa using h)

end Parents

theorem leaves_belowParent (a : Bool) (inner : List String) (t : UseTree) :
    (belowParent inner t).elim [] (·.leaves a) =
      (t.leaves a).filterMap fun l => (moduleAbove inner l.before).map fun m =>
        { l with before := wordsBelow m (l.before.dropWhile (· = .name "super")) } := by
  -- paths that do not start with `super` are put below the module as they are
  have flat (inner : List String) (t : UseTree)
      (h : ∀ l ∈ t.leaves a, l.before.head? ≠ some (.name "super")) :
      (belowModule inner.reverse t).leaves a =
        (t.leaves a).filterMap fun l => (moduleAbove inner l.before).map fun m =>
          { l with before := wordsBelow m (l.before.dropWhile (· = .name "super")) } := by
    rw [leaves_below, ← List.filterMap_eq_map]
    refine List.filterMap_congr fun l hl => ?_
    simp [moduleAbove_of_ne (h l hl), dropWhile_of_ne (h l hl)]
  induction inner, t using belowParent.induct with
  | case1 rest => simp [belowParent, UseTree.leaves, Leaf.behind, moduleAbove]
  | case2 m outer rest ih =>
    simp only [belowParent, UseTree.leaves, ↓reduceIte, ih, List.filterMap_map]
    rfl
  | case3 inner n rest hn =>
    rw [belowParent.eq_def]
    simp only [if_neg hn, Option.elim_some]
    refine flat _ _ fun l hl => ?_
    obtain ⟨l, -, rfl⟩ := List.mem_map.1 hl
    simpa [Leaf.behind] using hn
  | case4 inner t ht =>
    rw [belowParent]
    · refine flat _ _ fun l hl => ?_
      cases t with
      | path n rest => exact absurd rfl (ht n rest)
      | group ts =>
        obtain ⟨l, -, rfl⟩ := List.mem_map.1 hl
        simp [Leaf.behind]
      | _ => simp_all [UseTree.leaves]
    · exact ht

mutual

theorem leaves_absolute (a : Bool) : ∀ (t : UseTree), ∀ l ∈ t.leaves a, l.absolute = a
  | .path n rest, l, h => by
    obtain ⟨l, hl, rfl⟩ := List.mem_map.1 h
    exact leaves_absolute a rest l hl
  | .name _, l, h | .rename _ _, l, h | .glob, l, h => by
    rw [List.mem_singleton.1 h]
  | .group ts, l, h => by
    obtain ⟨l, hl, rfl⟩ := List.mem_map.1 h
    exact leavesOf_absolute a ts l hl

theorem leavesOf_absolute (a : Bool) : ∀ (ts : List UseTree), ∀ l ∈ leavesOf a ts, l.absolute = a
  | t :: ts, l, h => (List.mem_append.1 h).elim (leaves_absolute a t l) (leavesOf_absolute a ts l)

end

namespace Scope

variable (s : Scope)

theorem rootedLeaf_of_not_absolute {l : Leaf} (h : l.absolute = false) :
    s.rootedLeaf l = (s.rootedWords l.last l.before).map fun ws => { l with before := ws } := by
  simp [rootedLeaf, h]

theorem rootedLeaf_behind_brace (l : Leaf) :
    s.rootedLeaf (l.behind .brace) = (s.rootedLeaf l).map (.behind .brace) := by
  cases h : l.absolute <;>
    simp [rootedLeaf, Leaf.behind, h, rootedWords, Function.comp_def]

theorem leaves_anchored (n : String) (t : UseTree) :
    (s.anchored n t).leaves false =
      (t.leaves false).map fun l => { l with before := s.anchoredWords n l.before } := by
  by_cases h : n ∈ s.names <;> simp [anchored, anchoredWords, h, leaves_below]

mutual

/-- A tree is repeated leaf by leaf. -/
theorem leaves_rooted : ∀ t : UseTree,
    (s.rooted t).elim [] (·.leaves false) = (t.leaves false).filterMap s.rootedLeaf
  | .path n rest => by
    -- all leaves of a path start with its first name, so one rule applies to all
    have single (l : Leaf) (h : l ∈ (UseTree.path n rest).leaves false) :
        s.rootedLeaf l =
          if n = "crate" then some l
          else if n = "self" then some { l with before := wordsBelow s.path l.before.tail }
          else if n = "super" then
            (moduleAbove s.path.reverse l.before).map fun m =>
              { l with before := wordsBelow m (l.before.dropWhile (· = .name "super")) }
          else some { l with before := s.anchoredWords n l.before } := by
      obtain ⟨l, hl, rfl⟩ := List.mem_map.1 h
      rw [s.rootedLeaf_of_not_absolute (l := l.behind _) (leaves_absolute false rest l hl),
        Leaf.behind, rootedWords]
      split_ifs <;> simp_all
      rfl
    rw [List.filterMap_congr single, rooted]
    split_ifs with hc hs hp
    · simp
    · subst hs
      simp only [Option.elim_some, leaves_below, UseTree.leaves, List.filterMap_map]
      rw [← List.filterMap_eq_map]
      rfl
    · exact leaves_belowParent false _ _
    · simp [leaves_anchored]
  | .name n => by simp [rooted, leaves_anchored, UseTree.leaves, rootedLeaf, rootedWords]
  | .rename n new => by simp [rooted, leaves_anchored, UseTree.leaves, rootedLeaf, rootedWords]
  | .glob => by simp [rooted, UseTree.leaves, rootedLeaf, rootedWords]
  | .group ts => by
    rw [rooted, UseTree.leaves, List.filterMap_map]
    simp only [Function.comp_def, rootedLeaf_behind_brace]
    rw [← List.map_filterMap, ← leavesOf_rootedAll ts]
    cases s.rootedAll ts <;> simp [UseTree.leaves, leavesOf]

theorem leavesOf_rootedAll : ∀ ts : List UseTree,
    leavesOf false (s.rootedAll ts) = (leavesOf false ts).filterMap s.rootedLeaf
  | [] => rfl
  | t :: ts => by
    rw [rootedAll, leavesOf_append, leavesOf_toList, leaves_rooted t, leavesOf_rootedAll ts,
      leavesOf, List.filterMap_append]

end

theorem leaves_rootedUse (s : Scope) (reserved : List String) (u : UseItem) :
    (s.rootedUse reserved u).elim [] (·.leaves) =
      (u.leaves.filter (·.isFree reserved)).filterMap s.rootedLeaf := by
  obtain ⟨attributes, absolute, tree⟩ := u
  rw [UseItem.leaves, ← leaves_without absolute tree]
  cases htree : tree.without reserved with
  | none => simp [rootedUse, htree]
  | some t =>
    cases absolute with
    | true =>
      have hall (l : Leaf) (h : l ∈ t.leaves true) : s.rootedLeaf l = some l := by
        simp [rootedLeaf, leaves_absolute true t l h]
      simp [rootedUse, htree, UseItem.leaves, List.filterMap_congr hall]
    | false =>
      rw [Option.elim_some, ← leaves_rooted]
      cases hroot : s.rooted t <;> simp [rootedUse, htree, hroot, UseItem.leaves]

/-- Imports are repeated leaf by leaf. -/
theorem leaves_rootedUses (s : Scope) (reserved : List String) :
    (s.rootedUses reserved).flatMap (·.leaves) =
      ((s.uses.flatMap (·.leaves)).filter (·.isFree reserved)).filterMap s.rootedLeaf := by
  rw [rootedUses]
  induction s.uses with
  | nil => rfl
  | cons u us ih =>
    rw [List.filterMap_cons, List.flatMap_cons, List.filter_append, List.filterMap_append, ← ih,
      ← leaves_rootedUse]
    cases s.rootedUse reserved u <;> simp

end Scope

end JsonAdapters
