import JsonAdapters.Proofs.Adapter.Asking
import JsonAdapters.Proofs.Adapter.Sorting

/-!
# Decoding element by element

Items, entries and members are decoded one by one, and what they stand for is put together in their
order. What does not depend on the order is collected here: whether one of them fails, which fields
of a record have members, and what comes of them when no key occurs twice.

## Main definitions

* `Elementwise`: functions on lists that put together what they give for each element.
* `Record.positions`: the fields that members count for.

## Main statements

* `Elementwise.eq_none_iff`, `Elementwise.perm`: a list fails when an element does, and what other
  orders give.
* `Record.assemble_congr`, `Record.assemble_eq_none_congr`: on what a record depends.
-/

namespace JsonAdapters

open Json (Tree)

/-! ## Functions on elements -/

/-- The function puts together what it gives for each element. -/
structure Elementwise {α β : Type} (g : List α → Option (List β)) : Prop where
  nil : g [] = some []
  cons : ∀ a as, g (a :: as) = (g [a]).bind fun bs => (g as).map (bs ++ ·)

namespace Elementwise

variable {α β : Type} {g : List α → Option (List β)} {a b : α} {as bs : List α}

theorem append (hg : Elementwise g) (as bs : List α) :
    g (as ++ bs) = (g as).bind fun cs => (g bs).map (cs ++ ·) := by
  induction as with
  | nil =>
    rw [hg.nil]
    exact Option.map_id'.symm
  | cons a as ih =>
    rw [List.cons_append, hg.cons, ih, hg.cons a as]
    cases g [a] <;> cases g as <;> cases g bs <;> simp

theorem eq_none_iff (hg : Elementwise g) : g as = none ↔ ∃ a ∈ as, g [a] = none := by
  induction as with
  | nil => simp [hg.nil]
  | cons a as ih =>
    rw [hg.cons]
    simp only [List.mem_cons, exists_eq_or_imp, ← ih]
    cases g [a] <;> simp

theorem fails_perm (hg : Elementwise g) (h : as.Perm bs) : g as = none ↔ g bs = none := by
  rw [hg.eq_none_iff, hg.eq_none_iff]
  simp only [h.mem_iff]

theorem fails_replace (hg : Elementwise g) (h : g [a] = none ↔ g [b] = none) :
    g (as ++ a :: bs) = none ↔ g (as ++ b :: bs) = none := by
  rw [hg.eq_none_iff, hg.eq_none_iff]
  simp only [List.mem_append, List.mem_cons, or_and_right, exists_or, exists_eq_left, h]

/-- An element may be replaced by one that gives the same. -/
theorem replace (hg : Elementwise g) (h : g [a] = g [b]) :
    g (as ++ a :: bs) = g (as ++ b :: bs) := by
  rw [hg.append, hg.append, hg.cons a, hg.cons b, h]

/-- An element may be left out that gives nothing. -/
theorem drop (hg : Elementwise g) (h : g [a] = some []) : g (as ++ a :: bs) = g (as ++ bs) := by
  rw [hg.append, hg.append, hg.cons, h, Option.bind_some]
  congr 1
  funext cs
  simp

/-- What elements in another order give is in another order. -/
theorem perm (hg : Elementwise g) (h : as.Perm bs) {cs : List β} (hcs : g as = some cs) :
    ∃ ds, g bs = some ds ∧ cs.Perm ds := by
  induction h generalizing cs with
  | nil => exact ⟨cs, hcs, .refl _⟩
  | cons a _ ih =>
    rw [hg.cons, Option.bind_eq_some_iff] at hcs
    obtain ⟨c, hc, hmap⟩ := hcs
    obtain ⟨cs, hcs, rfl⟩ := Option.map_eq_some_iff.1 hmap
    obtain ⟨ds, hds, hperm⟩ := ih hcs
    exact ⟨c ++ ds, by rw [hg.cons, hc, hds]; rfl, hperm.append_left c⟩
  -- if one of the two fails, so does the whole, whatever the order
  | swap a b as =>
    rw [hg.cons, hg.cons a] at hcs
    cases hb : g [b] <;> cases ha : g [a] <;> cases has : g as <;> simp [ha, hb, has] at hcs
    next c d e =>
      refine ⟨d ++ (c ++ e), by rw [hg.cons, hg.cons b, ha, hb, has]; rfl, ?_⟩
      rw [← hcs, ← List.append_assoc, ← List.append_assoc]
      exact List.perm_append_comm.append_right e
  | trans _ _ ih₁ ih₂ =>
    obtain ⟨ds, hds, hperm⟩ := ih₁ hcs
    obtain ⟨es, hes, hperm'⟩ := ih₂ hds
    exact ⟨es, hes, hperm.trans hperm'⟩

end Elementwise

/-! ## Records -/

namespace Record

variable {r : Record} {as bs : List (Nat × Value)}

/-- A record depends on the last members for its fields. -/
theorem assemble_congr (h : ∀ i, lastFor i as = lastFor i bs) : r.assemble as = r.assemble bs := by
  have hgo (fs : List Field) (i : Nat) :
      r.fieldValuesFrom as i fs = r.fieldValuesFrom bs i fs := by
    induction fs generalizing i with
    | nil => rfl
    | cons f fs ih => rw [fieldValuesFrom, fieldValuesFrom, fieldValue_congr (h i), ih]
  rw [assemble, assemble, hgo]

/-- Whether a record is complete depends on the fields that have members. -/
theorem assemble_eq_none_congr (h : ∀ i, i ∈ as.map Prod.fst ↔ i ∈ bs.map Prod.fst) :
    r.assemble as = none ↔ r.assemble bs = none := by
  -- a field is missing by its position, whatever the values of others
  have hvalue (i : Nat) (f : Field) : r.fieldValue as i f = none ↔ r.fieldValue bs i f = none := by
    have hlast : lastFor i as = none ↔ lastFor i bs = none := by
      rw [lastFor_eq_none_iff, lastFor_eq_none_iff, h]
    rw [fieldValue, fieldValue]
    cases ha : lastFor i as with
    | none => rw [hlast.1 ha]
    | some v =>
      cases hb : lastFor i bs with
      | none => cases ha.symm.trans (hlast.2 hb)
      | some w => simp
  have hcons (all : List (Nat × Value)) (i : Nat) (f : Field) (fs : List Field) :
      r.fieldValuesFrom all i (f :: fs) = none ↔
        r.fieldValue all i f = none ∨ r.fieldValuesFrom all (i + 1) fs = none := by
    rw [fieldValuesFrom]
    cases r.fieldValue all i f <;> cases r.fieldValuesFrom all (i + 1) fs <;> simp
  have hgo (fs : List Field) (i : Nat) :
      r.fieldValuesFrom as i fs = none ↔ r.fieldValuesFrom bs i fs = none := by
    induction fs generalizing i with
    | nil => exact Iff.rfl
    | cons f fs ih => rw [hcons, hcons, hvalue, ih]
  rw [assemble, assemble, Option.map_eq_none_iff, Option.map_eq_none_iff, hgo]

/-- The positions of the fields that members count for. -/
def positions (r : Record) (ms : List (String × Tree)) : List Nat :=
  ms.filterMap fun m => (r.counted? m).map Prod.fst

end Record

/-! ## Items, entries and members -/

namespace Json.Tree

variable {S : Schema} {t : Ty} {r : Record} {ms : List (String × Tree)}

theorem decodeItems_elementwise : Elementwise fun js => decodeItems S js t := by
  refine ⟨rfl, fun j js => ?_⟩
  rw [decodeItems_cons, decodeItems_cons]
  cases (j.decode S t).join <;> rfl

theorem decodeEntries_elementwise : Elementwise fun ms => decodeEntries S ms t := by
  refine ⟨rfl, fun m ms => ?_⟩
  rw [decodeEntries_cons, decodeEntries_cons]
  cases (m.2.decode S t).join <;> rfl

theorem decodeMembers_elementwise : Elementwise fun ms => decodeMembers S ms r :=
  ⟨rfl, fun _ _ => decodeMembers_cons⟩

/-- What a single member gives. -/
theorem decodeMembers_singleton {m : String × Tree} : decodeMembers S [m] r =
    match r.counted? m with
    | none => some []
    | some (i, t) => (m.2.decode S t).join.map fun v => [(i, v)] := by
  obtain ⟨name, j⟩ := m
  rw [decodeMembers, Record.counted?]
  split
  · rfl
  · cases r.target? name with
    | none => rfl
    | some target =>
      simp only [decodeMembers]
      cases (j.decode S target.2).join <;> rfl

/-- Values of members have the positions of their fields. -/
theorem decodeMembers_positions {as : List (Nat × Value)} (h : decodeMembers S ms r = some as) :
    as.map Prod.fst = r.positions ms := by
  induction ms generalizing as with
  | nil =>
    cases h
    rfl
  | cons m ms ih =>
    rw [decodeMembers_cons, Option.bind_eq_some_iff] at h
    obtain ⟨bs, hbs, h⟩ := h
    obtain ⟨cs, hcs, rfl⟩ := Option.map_eq_some_iff.1 h
    -- a member gives its position, if it counts
    have hm : bs.map Prod.fst = ((r.counted? m).map Prod.fst).toList := by
      rw [decodeMembers_singleton] at hbs
      cases hc : r.counted? m with
      | none =>
        rw [hc] at hbs
        cases hbs
        rfl
      | some field =>
        rw [hc] at hbs
        obtain ⟨v, -, rfl⟩ := Option.map_eq_some_iff.1 hbs
        rfl
    rw [List.map_append, hm, ih hcs, Record.positions, Record.positions, List.filterMap_cons]
    cases r.counted? m <;> rfl

end Json.Tree

end JsonAdapters
