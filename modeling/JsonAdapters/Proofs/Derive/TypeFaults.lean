import JsonAdapters.Proofs.Derive.Fields

/-!
# Faults of field types

A type that fields cannot have is refused for its own faults only, and all of them are reported:
those of each argument, however deep, and one for whatever else is no type that fields can have.

## Main definitions

* `DeclarationFault.IsOfType`: the faults that a type can have.

## Main statements

* `Report.leaves_of_check`: a report has all faults of what it collects.
* `FieldType.isOfType_ofTypeExpr`: what is reported about a type.
-/

namespace JsonAdapters

open Code

/-! ## Reports -/

namespace Report

variable {ε α : Type}

theorem leavesOf_eq_flatMap (rs : List (Report ε)) : leavesOf rs = rs.flatMap leaves := by
  induction rs with
  | nil => rfl
  | cons r rs ih => rw [leavesOf, ih, List.flatMap_cons]

/-- Collecting reports keeps all that they say. -/
theorem leaves_collect (rs : List (Report ε)) :
    (collect rs).toList.flatMap leaves = rs.flatMap leaves := by
  match rs with
  | [] => rfl
  | [r] => rfl
  | r :: r' :: rs => simp [collect, leaves, leavesOf_eq_flatMap]

theorem leaves_of_check {rs : List (Report ε)} {a : α} {e : Report ε} (h : check rs a = .error e) :
    e.leaves = rs.flatMap leaves := by
  rw [← leaves_collect rs]
  unfold check at h
  split at h
  · next r hr =>
    cases h
    simp [hr]
  · cases h

end Report

/-! ## Types -/

/-- The fault is one of a type that fields cannot have. -/
def DeclarationFault.IsOfType (c : DeclarationFault) : Prop :=
  c ∈ [notAPath, innerArguments, notATypeArgument, callArguments]

instance (c : DeclarationFault) : Decidable c.IsOfType :=
  inferInstanceAs (Decidable (_ ∈ _))

namespace FieldType

variable {record : String}

theorem isOfType_of_one {cause : DeclarationFault} (h : cause.IsOfType) :
    ∀ c ∈ (Report.of cause).leaves, c.IsOfType := by
  intro c hc
  rwa [List.mem_singleton.1 hc]

mutual

/-- What is reported about a type. -/
theorem isOfType_ofTypeExpr : ∀ {t : TypeExpr} {e : FaultReport}, ofTypeExpr record t = .error e →
    ∀ c ∈ e.leaves, c.IsOfType
  | .paren t, e, h | .group t, e, h => by
    rw [ofTypeExpr] at h
    exact isOfType_ofTypeExpr h
  | .path p, e, h => by
    rw [ofTypeExpr] at h
    exact isOfType_ofPath h
  | .other _, e, h => by
    rw [ofTypeExpr] at h
    cases h
    exact isOfType_of_one (by decide)

theorem isOfType_ofPath : ∀ {p : Path} {e : FaultReport}, ofPath record p = .error e →
    ∀ c ∈ e.leaves, c.IsOfType
  | .mk _ ss, e, h => by
    rw [ofPath] at h
    exact isOfType_ofSegments h

theorem isOfType_ofSegments : ∀ {ss : List Segment} {absolute : Bool} {before : List String}
    {e : FaultReport}, ofSegments record absolute before ss = .error e → ∀ c ∈ e.leaves, c.IsOfType
  | [], _, _, e, h => by
    rw [ofSegments] at h
    cases h
    exact isOfType_of_one (by decide)
  | s :: ss, _, _, e, h => by
    rw [ofSegments] at h
    split at h
    · exact isOfType_ofLastSegment h
    · split at h
      · exact isOfType_ofSegments h
      · cases h
        exact isOfType_of_one (by decide)

theorem isOfType_ofLastSegment : ∀ {s : Segment} {absolute : Bool} {before : List String}
    {e : FaultReport}, ofLastSegment record absolute before s = .error e →
      ∀ c ∈ e.leaves, c.IsOfType
  | .plain n, _, _, e, h => by
    rw [ofLastSegment] at h
    cases h
  | .applied n _ args _, _, _, e, h => by
    rw [ofLastSegment] at h
    rw [Report.leaves_of_check h]
    intro c hc
    obtain ⟨r, hr, hc⟩ := List.mem_flatMap.1 hc
    exact isOfType_ofArguments args r hr c hc
  | .called _ _, _, _, e, h => by
    rw [ofLastSegment] at h
    cases h
    exact isOfType_of_one (by decide)

theorem isOfType_ofArguments : ∀ args : List Argument, ∀ r ∈ (ofArguments record args).2,
    ∀ c ∈ r.leaves, c.IsOfType
  | [], r, hr => by
    rw [ofArguments] at hr
    cases hr
  | a :: as, r, hr => by
    rw [ofArguments] at hr
    cases ha : ofArgument record a with
    | ok t =>
      rw [ha] at hr
      exact isOfType_ofArguments as r hr
    | error e =>
      rw [ha] at hr
      rcases List.mem_cons.1 hr with rfl | hr
      · exact isOfType_ofArgument ha
      · exact isOfType_ofArguments as r hr

theorem isOfType_ofArgument : ∀ {a : Argument} {e : FaultReport}, ofArgument record a = .error e →
    ∀ c ∈ e.leaves, c.IsOfType
  | .type t, e, h => by
    rw [ofArgument] at h
    exact isOfType_ofTypeExpr h
  | .lifetime _, e, h | .other _, e, h => by
    rw [ofArgument] at h
    cases h
    exact isOfType_of_one (by decide)

end

end FieldType

theorem isOfType_fieldFault? {record : String} {x : FieldDecl} {e : FaultReport}
    (h : fieldFault? record x = some e) : ∀ c ∈ e.leaves, c.IsOfType :=
  FieldType.isOfType_ofTypeExpr (fieldFault?_eq_some_iff.1 h).2

end JsonAdapters
