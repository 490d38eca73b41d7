import JsonAdapters.Package.AdapterModule
import Mathlib.Data.List.Infix
import Mathlib.Data.String.Basic

/-!
# The tree of adapter modules

Records are put into a tree of modules one after the other, each at its path. This module says what
stands at each path of the tree afterwards: a module is there if its path starts the path of some
record, and holds the records of that path in the order in which they came.

## Main definitions

* `AdapterModule.at?`: the module at a path.
* `AdapterModule.Ordered`: names of modules ascend, at every depth.

## Main statements

* `AdapterModule.recordsAt_ofRecords`, `AdapterModule.isSome_at?_ofRecords`: what stands at a path.
-/

namespace JsonAdapters

theorem lookup_cons_ite {α β : Type} [BEq α] [LawfulBEq α] [DecidableEq α] (c : α × β)
    (cs : List (α × β)) (a : α) :
    (c :: cs).lookup a = if a = c.1 then some c.2 else cs.lookup a := by
  rw [List.lookup_cons]
  by_cases h : a = c.1
  · rw [if_pos h, beq_iff_eq.2 h]
  · rw [if_neg h, beq_false_of_ne h]

namespace AdapterModule

/-- The module at a path. -/
def at? : List String → AdapterModule → Option AdapterModule
  | [], m => some m
  | name :: path, m => (m.children.lookup name).bind (at? path)

/-- The records of the module at a path. -/
def recordsAt (path : List String) (m : AdapterModule) : List RecordPlan :=
  (m.at? path).elim [] records

mutual

/-- Names of modules ascend, here and in all modules inside. -/
def Ordered : AdapterModule → Prop
  | mk _ cs => AllOrdered cs

def AllOrdered : List (String × AdapterModule) → Prop
  | [] => True
  | (name, m) :: rest => m.Ordered ∧ (∀ c ∈ rest, name < c.1) ∧ AllOrdered rest

end

theorem ordered_empty : empty.Ordered := trivial

/-! ## One module changes -/

section Change

variable {name n : String} {f : AdapterModule → AdapterModule}
  {cs : List (String × AdapterModule)}

theorem lookup_of_lt (h : ∀ c ∈ cs, name < c.1) : cs.lookup name = none := by
  rw [List.lookup_eq_none_iff]
  intro c hc
  simpa using (h c hc).ne

theorem mem_changeChild {c : String × AdapterModule} (h : c ∈ changeChild name f cs) :
    c.1 = name ∨ c ∈ cs := by
  induction cs with
  | nil => simp_all [changeChild]
  | cons d cs ih =>
    rw [changeChild] at h
    split at h
    case isTrue heq =>
      rcases List.mem_cons.1 h with rfl | h
      · exact .inl heq.symm
      · exact .inr (List.mem_cons_of_mem _ h)
    case isFalse =>
      split at h
      · rcases List.mem_cons.1 h with rfl | h
        · exact .inl rfl
        · exact .inr h
      · rcases List.mem_cons.1 h with rfl | h
        · exact .inr List.mem_cons_self
        · exact (ih h).imp_right (List.mem_cons_of_mem _)

theorem AllOrdered.of_lookup {m : AdapterModule} (hcs : AllOrdered cs)
    (h : cs.lookup n = some m) : m.Ordered := by
  induction cs with
  | nil => cases h
  | cons c cs ih =>
    obtain ⟨hm, -, hrest⟩ := hcs
    rw [List.lookup_cons] at h
    split at h
    · cases h
      exact hm
    · exact ih hrest h

theorem AllOrdered.changeChild (hf : ∀ m, m.Ordered → (f m).Ordered) (hcs : AllOrdered cs) :
    AllOrdered (changeChild name f cs) := by
  induction cs with
  | nil => exact ⟨hf _ ordered_empty, by simp, trivial⟩
  | cons c cs ih =>
    obtain ⟨hm, hlt, hrest⟩ := hcs
    rw [AdapterModule.changeChild]
    split_ifs with heq hbefore
    · exact ⟨hf _ hm, hlt, hrest⟩
    · refine ⟨hf _ ordered_empty, ?_, hm, hlt, hrest⟩
      intro d hd
      rcases List.mem_cons.1 hd with rfl | hd
      · exact hbefore
      · exact hbefore.trans (hlt d hd)
    · refine ⟨hm, ?_, ih hrest⟩
      intro d hd
      rcases mem_changeChild hd with hd | hd
      · rw [hd]
        exact lt_of_le_of_ne (not_lt.1 hbefore) (Ne.symm heq)
      · exact hlt d hd

/-- The module of the name is changed, and no other one. -/
theorem lookup_changeChild (hcs : AllOrdered cs) : (changeChild name f cs).lookup n =
    if n = name then some (f ((cs.lookup name).getD empty)) else cs.lookup n := by
  induction cs with
  | nil => rw [changeChild, lookup_cons_ite]; rfl
  | cons c cs ih =>
    obtain ⟨other, m⟩ := c
    obtain ⟨-, hlt, hrest⟩ := hcs
    rw [changeChild]
    by_cases heq : name = other
    · rw [if_pos heq, lookup_cons_ite, lookup_cons_ite, lookup_cons_ite, if_pos heq, heq]
      by_cases hn : n = other <;> simp [hn]
    · rw [if_neg heq, lookup_cons_ite, if_neg heq]
      by_cases hbefore : name < other
      · have hnone : cs.lookup name = none := lookup_of_lt fun d hd => hbefore.trans (hlt d hd)
        rw [if_pos hbefore, lookup_cons_ite, lookup_cons_ite, hnone]
        rfl
      · rw [if_neg hbefore, lookup_cons_ite, lookup_cons_ite, ih hrest]
        by_cases hn : n = other
        · rw [if_pos hn, if_neg (hn ▸ Ne.symm heq), if_pos hn]
        · rw [if_neg hn, if_neg hn]

end Change

/-! ## One record more -/

variable {r : RecordPlan} {m : AdapterModule}

theorem Ordered.insert (path : List String) (hm : m.Ordered) : (m.insert r path).Ordered := by
  induction path generalizing m with
  | nil =>
    obtain ⟨rs, cs⟩ := m
    exact hm
  | cons name path ih =>
    obtain ⟨rs, cs⟩ := m
    have hcs : AllOrdered cs := hm
    exact hcs.changeChild fun _ hchild => ih hchild

theorem records_insert_cons (name : String) (path : List String) :
    (m.insert r (name :: path)).records = m.records := by
  obtain ⟨rs, cs⟩ := m
  rfl

theorem records_insert_nil : (m.insert r []).records = m.records ++ [r] := by
  obtain ⟨rs, cs⟩ := m
  rfl

/-- A record changes the modules on the way to its path. -/
theorem at?_insert (hm : m.Ordered) (path p : List String) : (m.insert r path).at? p =
    if p <+: path then some (((m.at? p).getD empty).insert r (path.drop p.length))
    else m.at? p := by
  induction path generalizing m p with
  | nil =>
    obtain ⟨rs, cs⟩ := m
    cases p with
    | nil => simp [at?]
    | cons n p => simp [at?, insert, children]
  | cons name path ih =>
    obtain ⟨rs, cs⟩ := m
    have hcs : AllOrdered cs := hm
    cases p with
    | nil => simp [at?]
    | cons n p =>
      have hat (t : AdapterModule) :
          t.at? (n :: p) = (t.children.lookup n).bind (at? p) := rfl
      rw [hat, hat, insert]
      change ((changeChild name (insert r path) cs).lookup n).bind (at? p) =
        if n :: p <+: name :: path then
          some ((((cs.lookup n).bind (at? p)).getD empty).insert r (path.drop p.length))
        else (cs.lookup n).bind (at? p)
      -- only the child on the way to the record changes
      rw [lookup_changeChild hcs]
      by_cases hn : n = name
      · subst hn
        have hstarts : n :: p <+: n :: path ↔ p <+: path := by simp
        rw [if_pos rfl, Option.bind_some]
        cases hlookup : cs.lookup n with
        | some child =>
          rw [Option.getD_some, ih (hcs.of_lookup hlookup), Option.bind_some]
          simp only [hstarts]
        | none =>
          rw [Option.getD_none, ih ordered_empty, Option.bind_none, Option.getD_none]
          simp only [hstarts]
          cases p with
          | nil => simp [at?]
          | cons n' p => simp [at?, empty, children]
      · rw [if_neg hn, if_neg]
        simp [hn]

theorem recordsAt_insert (hm : m.Ordered) (path p : List String) :
    (m.insert r path).recordsAt p = m.recordsAt p ++ if p = path then [r] else [] := by
  have hrecords : (m.at? p).elim [] records = ((m.at? p).getD empty).records := by
    cases m.at? p <;> rfl
  rw [recordsAt, recordsAt, at?_insert hm]
  by_cases hp : p <+: path
  · obtain ⟨rest, rfl⟩ := hp
    rw [if_pos (List.prefix_append p rest), Option.elim_some, List.drop_left, hrecords]
    cases rest with
    | nil => rw [records_insert_nil, List.append_nil, if_pos rfl]
    | cons name rest =>
      rw [records_insert_cons, if_neg (by simp), List.append_nil]
  · have hne : p ≠ path := fun h => hp (h ▸ List.prefix_refl p)
    rw [if_neg hp, if_neg hne, List.append_nil]

/-! ## All records -/

theorem ofRecords_append (rs : List RecordPlan) (r : RecordPlan) :
    ofRecords (rs ++ [r]) = (ofRecords rs).insert r r.module := by
  simp [ofRecords]

theorem ordered_ofRecords (rs : List RecordPlan) : (ofRecords rs).Ordered := by
  induction rs using List.reverseRecOn with
  | nil => exact ordered_empty
  | append_singleton rs r ih =>
    rw [ofRecords_append]
    exact ih.insert r.module

/-- Each module holds its records, in the order in which they came. -/
theorem recordsAt_ofRecords (rs : List RecordPlan) (p : List String) :
    (ofRecords rs).recordsAt p = rs.filter (·.module = p) := by
  induction rs using List.reverseRecOn with
  | nil =>
    cases p with
    | nil => rfl
    | cons n p => rfl
  | append_singleton rs r ih =>
    rw [ofRecords_append, recordsAt_insert (ordered_ofRecords rs), ih, List.filter_append]
    by_cases h : p = r.module
    · simp [h]
    · simp [h, Ne.symm h]

/-- There is a module at each path that starts the path of a record, and nowhere else. -/
theorem isSome_at?_ofRecords (rs : List RecordPlan) (p : List String) :
    ((ofRecords rs).at? p).isSome = true ↔ p = [] ∨ ∃ r ∈ rs, p <+: r.module := by
  induction rs using List.reverseRecOn with
  | nil =>
    cases p with
    | nil => simp [at?]
    | cons n p => simp [ofRecords, at?, empty, children]
  | append_singleton rs r ih =>
    rw [ofRecords_append, at?_insert (ordered_ofRecords rs)]
    by_cases hp : p <+: r.module
    · simp [hp]
    · simp [hp, ih]

end AdapterModule

end JsonAdapters
