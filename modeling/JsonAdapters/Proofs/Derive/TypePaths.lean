import JsonAdapters.Proofs.Code.Paths
import JsonAdapters.Proofs.Derive.TypeGrammar

/-!
# Paths in types

Every type in a field type, at any depth, is written by a path that stands in the type expression.

## Main definitions

* `FieldType.within`: a field type and all types in it.

## Main statements

* `FieldType.exists_path_of_within`: where the types in a field type are written.
-/

namespace JsonAdapters.FieldType

open Code

mutual

/-- A field type and all types in it. -/
def within : FieldType → List FieldType
  | simple n => [simple n]
  | applied n as => applied n as :: withinAll as

def withinAll : List FieldType → List FieldType
  | [] => []
  | a :: as => a.within ++ withinAll as

end

theorem mem_within (f : FieldType) : f ∈ f.within := by
  cases f <;> rw [within] <;> exact List.mem_cons_self

variable {record : String}

mutual

/-- Each type in a field type is written by a path. -/
theorem exists_path_of_within : ∀ {t : TypeExpr} {f : FieldType}, Writes record t f →
    ∀ u ∈ f.within, ∃ p ∈ t.paths, Writes record (.path p) u
  | _, _, .paren h, u, hu => by
    rw [TypeExpr.paths]
    exact exists_path_of_within h u hu
  | _, _, .group h, u, hu => by
    rw [TypeExpr.paths]
    exact exists_path_of_within h u hu
  | _, f, .path h, u, hu => by
    rw [TypeExpr.paths]
    by_cases huf : u = f
    · exact ⟨_, Path.mem_paths _, huf ▸ .path h⟩
    · obtain ⟨p, hp, hwrites⟩ := exists_path_of_inside h u hu huf
      rw [Path.paths, segmentPaths_eq_flatMap]
      exact ⟨p, List.mem_cons_of_mem _
        (List.mem_flatMap.2 ⟨_, List.mem_append_right _ List.mem_cons_self, hp⟩), hwrites⟩

/-- The types inside of one that a path stands for are written in its last segment. -/
theorem exists_path_of_inside : ∀ {absolute : Bool} {around : List String} {s : Segment}
    {f : FieldType}, EndWrites record absolute around s f →
      ∀ u ∈ f.within, u ≠ f → ∃ p ∈ s.paths, Writes record (.path p) u
  | _, _, _, _, .plain _, u, hu, hne | _, _, _, _, .empty _, u, hu, hne => by
    rw [within, List.mem_singleton] at hu
    exact absurd hu hne
  | _, _, _, _, .applied _ _ hall, u, hu, hne => by
    rw [within] at hu
    rw [Segment.paths]
    exact exists_path_of_withinAll hall u ((List.mem_cons.1 hu).resolve_left hne)

theorem exists_path_of_withinAll : ∀ {args : List Argument} {fs : List FieldType},
    AllWrite record args fs →
      ∀ u ∈ withinAll fs, ∃ p ∈ argumentPaths args, Writes record (.path p) u
  | _, _, .nil, u, hu => by
    rw [withinAll] at hu
    exact absurd hu List.not_mem_nil
  | _, _, .cons h hall, u, hu => by
    rw [withinAll] at hu
    rw [argumentPaths, Argument.paths]
    rcases List.mem_append.1 hu with hu | hu
    · obtain ⟨p, hp, hwrites⟩ := exists_path_of_within h u hu
      exact ⟨p, List.mem_append_left _ hp, hwrites⟩
    · obtain ⟨p, hp, hwrites⟩ := exists_path_of_withinAll hall u hu
      exact ⟨p, List.mem_append_right _ hp, hwrites⟩

end

end JsonAdapters.FieldType
