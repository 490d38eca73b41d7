import Mathlib.Data.List.Nodup
import Mathlib.Data.List.Perm.Subperm
import Mathlib.Logic.Relation

/-!
# Lines of descent

When each thing has at most one parent, the ancestors of a thing stand in one line, the nearest
first. Among finitely many things, the line ends exactly if it comes to no thing that is its own
ancestor.

## Main definitions

* `Descends`: a thing has a parent.
* `Lineage`: the ancestors of a thing, nearest first.
* `FreeOfCycles`: no thing on the line is its own ancestor.

## Main statements

* `Lineage.mem_iff`, `Lineage.nodup`.
* `Lineage.freeOfCycles`, `FreeOfCycles.exists_lineage`: lines of descent that end.
-/

namespace JsonAdapters

open Relation

variable {α : Type} {parent? : α → Option α} {a b : α} {l : List α}

/-- The second thing is the parent of the first one. -/
def Descends (parent? : α → Option α) (a b : α) : Prop := parent? a = some b

/-- The ancestors of a thing, nearest first; the last one has no parent. -/
inductive Lineage (parent? : α → Option α) : α → List α → Prop
  | root {a : α} : parent? a = none → Lineage parent? a []
  | step {a b : α} {l : List α} : parent? a = some b → Lineage parent? b l →
      Lineage parent? a (b :: l)

/-- Neither the thing nor one of its ancestors is its own ancestor. -/
def FreeOfCycles (parent? : α → Option α) (a : α) : Prop :=
  ∀ b, ReflTransGen (Descends parent?) a b → ¬ TransGen (Descends parent?) b b

namespace Lineage

/-- The line holds the ancestors and nothing else. -/
theorem mem_iff (h : Lineage parent? a l) : b ∈ l ↔ TransGen (Descends parent?) a b := by
  induction h with
  | root hp =>
    simp only [List.not_mem_nil, false_iff]
    intro h
    obtain ⟨p, hp', -⟩ := TransGen.head'_iff.1 h
    cases hp.symm.trans hp'
  | @step a p l hp hl ih =>
    rw [List.mem_cons, ih]
    constructor
    · rintro (rfl | h)
      · exact .single hp
      · exact .head hp h
    · intro h
      obtain ⟨p', hp', h⟩ := TransGen.head'_iff.1 h
      obtain rfl : p = p' := Option.some.inj (hp.symm.trans hp')
      exact (reflTransGen_iff_eq_or_transGen.1 h).imp id id

/-- A thing has one line. -/
theorem eq {l' : List α} (h : Lineage parent? a l) (h' : Lineage parent? a l') : l = l' := by
  induction h generalizing l' with
  | root hp =>
    cases h' with
    | root => rfl
    | step hp' => cases hp.symm.trans hp'
  | step hp hl ih =>
    cases h' with
    | root hp' => cases hp.symm.trans hp'
    | step hp' hl' =>
      cases hp.symm.trans hp'
      rw [ih hl']

/-- The line of an ancestor is the rest of the line. -/
theorem of_reaches (h : Lineage parent? a l) (hb : ReflTransGen (Descends parent?) a b) :
    ∃ more, Lineage parent? b more ∧ more.length ≤ l.length := by
  induction hb using ReflTransGen.head_induction_on generalizing l with
  | refl => exact ⟨l, h, Nat.le_refl _⟩
  | head hp _ ih =>
    cases h with
    | root hp' => cases hp'.symm.trans hp
    | step hp' hl =>
      obtain rfl := Option.some.inj (hp'.symm.trans hp)
      obtain ⟨more, hmore, hle⟩ := ih hl
      exact ⟨more, hmore, Nat.le_succ_of_le hle⟩

/-- A thing whose line ends is not its own ancestor. -/
theorem not_transGen_self (h : Lineage parent? a l) : ¬ TransGen (Descends parent?) a a := by
  intro hself
  obtain ⟨p, hp, hback⟩ := TransGen.head'_iff.1 hself
  cases h with
  | root hp' => cases hp'.symm.trans hp
  | @step _ p' l hp' hl =>
    obtain rfl := Option.some.inj (hp'.symm.trans hp)
    obtain ⟨more, hmore, hle⟩ := hl.of_reaches hback
    rw [hmore.eq (.step hp' hl), List.length_cons] at hle
    omega

theorem freeOfCycles (h : Lineage parent? a l) : FreeOfCycles parent? a := by
  intro b hb
  obtain ⟨more, hmore, -⟩ := h.of_reaches hb
  exact hmore.not_transGen_self

theorem parent?_getLast (h : Lineage parent? a l) :
    parent? ((a :: l).getLast (List.cons_ne_nil a l)) = none := by
  induction h with
  | root hp => exact hp
  | step hp hl ih => rwa [List.getLast_cons (List.cons_ne_nil _ _)]

theorem nodup (h : Lineage parent? a l) : (a :: l).Nodup := by
  induction h with
  | root => exact List.nodup_singleton _
  | step hp hl ih =>
    exact ih.cons fun hmem => (step hp hl).not_transGen_self ((step hp hl).mem_iff.1 hmem)

end Lineage

namespace FreeOfCycles

/-- With some descendants already seen, the line fits into the rest of those that have parents. -/
theorem exists_lineage_beyond {all : List α} {a : α} (ha : FreeOfCycles parent? a)
    (hall : ∀ b p, ReflTransGen (Descends parent?) a b → parent? b = some p → b ∈ all)
    {seen : List α} (hnodup : seen.Nodup) (hseen : seen ⊆ all)
    (hbehind : ∀ x ∈ seen, TransGen (Descends parent?) x a) :
    ∃ l, Lineage parent? a l ∧ seen.length + l.length ≤ all.length := by
  have hlen : seen.length ≤ all.length := (hnodup.subperm hseen).length_le
  cases hp : parent? a with
  | none => exact ⟨[], .root hp, by simpa using hlen⟩
  | some p =>
    -- a thing that was seen before would be its own ancestor
    have hnew : a ∉ seen := fun h => ha a .refl (hbehind a h)
    have hseen' : a :: seen ⊆ all := List.cons_subset.2 ⟨hall a p .refl hp, hseen⟩
    have hp' : ∀ x ∈ a :: seen, TransGen (Descends parent?) x p :=
      List.forall_mem_cons.2 ⟨.single hp, fun x hx => (hbehind x hx).tail hp⟩
    have hroom : seen.length + 1 ≤ all.length := by
      simpa using ((hnodup.cons hnew).subperm hseen').length_le
    have hfree : FreeOfCycles parent? p := fun b hb => ha b (.head hp hb)
    obtain ⟨l, hl, hle⟩ := hfree.exists_lineage_beyond (fun b q hb => hall b q (.head hp hb))
      (hnodup.cons hnew) hseen' hp'
    refine ⟨p :: l, .step hp hl, ?_⟩
    simp only [List.length_cons] at hle ⊢
    omega
termination_by all.length - seen.length

/-- The line ends if finitely many things have parents on it. -/
theorem exists_lineage {all : List α} (ha : FreeOfCycles parent? a)
    (hall : ∀ b p, ReflTransGen (Descends parent?) a b → parent? b = some p → b ∈ all) :
    ∃ l, Lineage parent? a l ∧ l.length ≤ all.length := by
  obtain ⟨l, hl, hle⟩ := ha.exists_lineage_beyond hall List.nodup_nil (List.nil_subset _) nofun
  exact ⟨l, hl, by simpa using hle⟩

end FreeOfCycles

end JsonAdapters
