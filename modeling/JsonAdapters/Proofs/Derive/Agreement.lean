import JsonAdapters.Derive.FieldType

/-!
# Agreement of types

Types agree if they are the same tree of compared names. So agreement is an equivalence, and whoever
agrees with a third type agrees with each other.

## Main definitions

* `TypeTree`, `FieldType.tree`: the compared names in a type.

## Main statements

* `FieldType.agrees_iff_tree`: what agreement compares.
* `FieldType.agrees_refl`, `FieldType.agrees_symm`, `FieldType.agrees_trans`.
-/

namespace JsonAdapters

/-- A name, and the trees below it. -/
inductive TypeTree where
  | node (name : String) (below : List TypeTree)

namespace FieldType

mutual

/-- The compared names in a type. -/
def tree : FieldType → TypeTree
  | simple n => .node n.canonical []
  | applied n as => .node n.canonical (trees as)

def trees : List FieldType → List TypeTree
  | [] => []
  | a :: as => a.tree :: trees as

end

theorem trees_eq_nil_iff {as : List FieldType} : trees as = [] ↔ as = [] := by
  cases as <;> simp [trees]

mutual

/-- Types agree if they have the same tree. -/
theorem agrees_iff_tree : ∀ {a b : FieldType}, a.agrees b = true ↔ a.tree = b.tree
  | simple a, simple b => by simp [agrees, tree]
  | simple a, applied b bs => by
    simp [agrees, tree, @eq_comm _ [] (trees bs), trees_eq_nil_iff]
  | applied a as, simple b => by simp [agrees, tree, trees_eq_nil_iff]
  | applied a as, applied b bs => by simp [agrees, tree, agreeAll_iff_trees]

theorem agreeAll_iff_trees : ∀ {as bs : List FieldType}, agreeAll as bs = true ↔ trees as = trees bs
  | [], [] => by simp [agreeAll]
  | [], b :: bs => by simp [agreeAll, trees]
  | a :: as, [] => by simp [agreeAll, trees]
  | a :: as, b :: bs => by simp [agreeAll, trees, agrees_iff_tree, agreeAll_iff_trees]

end

variable {a b c : FieldType}

theorem agrees_refl (a : FieldType) : a.agrees a = true := agrees_iff_tree.2 rfl

theorem agrees_symm (h : a.agrees b = true) : b.agrees a = true :=
  agrees_iff_tree.2 (agrees_iff_tree.1 h).symm

theorem agrees_trans (hab : a.agrees b = true) (hbc : b.agrees c = true) : a.agrees c = true :=
  agrees_iff_tree.2 ((agrees_iff_tree.1 hab).trans (agrees_iff_tree.1 hbc))

end FieldType

end JsonAdapters
