import JsonAdapters.Proofs.Adapter.Decoding
import JsonAdapters.Proofs.Adapter.Validity

/-!
# What is asked of other adapters

An adapter that reads a value asks other adapters to read parts of it. Which adapters these are, and
what each of them reads, is said here on trees: an option asks for its content unless it is `null`,
a box always; a vector asks for each item, a map for each member, and a record for each member that
counts for a field. A scalar asks for nothing, and so does a value of the wrong kind.

## Main definitions

* `Record.counted?`: the field that a member counts for.
* `Json.Tree.parts`: the types whose adapters read parts of a tree, with the parts.
* `Json.Tree.AsksOnly`: all that is asked, of parts of parts as well, is of certain types.

## Main statements

* `Json.Tree.asksOnly_of_needs`: nothing is asked but what the type needs.
-/

namespace JsonAdapters

open Json (Tree)

/-- The position and type of the field that a member counts for, unless it is `null`. -/
def Record.counted? (r : Record) (m : String × Tree) : Option (Nat × Ty) :=
  if m.2.kind = .null then none else r.target? m.1

theorem Record.mem_of_counted? {r : Record} {m : String × Tree} {x : Nat × Ty}
    (h : r.counted? m = some x) : ∃ f ∈ r.fields, f.type = x.2 := by
  rw [Record.counted?] at h
  split at h
  · cases h
  · obtain ⟨k, -, hk⟩ := Option.bind_eq_some_iff.1 h
    obtain ⟨f, hf, heq⟩ := Option.map_eq_some_iff.1 hk
    exact ⟨f, List.mem_of_getElem? hf, (Prod.ext_iff.1 heq).2⟩

namespace Json.Tree

def items : Tree → List Tree
  | array js => js
  | _ => []

def members : Tree → List (String × Tree)
  | object ms => ms
  | _ => []

/-- The adapters that the adapter of a type asks while it reads the tree, each with what it
reads. -/
def parts (S : Schema) (j : Tree) : Ty → List (Ty × Tree)
  | .scalar _ => []
  | .option t => if j.kind = .null then [] else [(t, j)]
  | .box t => [(t, j)]
  | .vec t => j.items.map fun k => (t, k)
  | .hashMap t | .treeMap t => j.members.map fun m => (t, m.2)
  | .record id =>
    match S.find? id with
    | some r => j.members.filterMap fun m => (r.counted? m).map fun field => (field.2, m.2)
    | none => []

/-- The parts of a record are the members that count. -/
theorem forall_mem_parts_record {S : Schema} {id : RecordId} {r : Record}
    {ms : List (String × Tree)} {q : Ty × Tree → Prop} (hr : S.find? id = some r) :
    (∀ x ∈ (object ms).parts S (.record id), q x) ↔
      ∀ m ∈ ms, ∀ x, r.counted? m = some x → q (x.2, m.2) := by
  rw [parts, hr, members]
  constructor
  · intro h m hm x hx
    exact h (x.2, m.2) (List.mem_filterMap.2 ⟨m, hm, by rw [hx]; rfl⟩)
  · intro h x hx
    obtain ⟨m, hm, hx⟩ := List.mem_filterMap.1 hx
    obtain ⟨field, hcounted, rfl⟩ := Option.map_eq_some_iff.1 hx
    exact h m hm field hcounted

/-- Reading the tree as a value of the type asks only for adapters of types with `p`. -/
inductive AsksOnly (p : Ty → Prop) (S : Schema) : Ty → Tree → Prop
  | intro {t : Ty} {j : Tree} : (∀ x ∈ j.parts S t, p x.1) →
    (∀ x ∈ j.parts S t, AsksOnly p S x.1 x.2) → AsksOnly p S t j

variable {p : Ty → Prop} {S : Schema} {t : Ty} {j : Tree} {js : List Tree}
  {ms : List (String × Tree)}

theorem asksOnly_iff :
    AsksOnly p S t j ↔ ∀ x ∈ j.parts S t, p x.1 ∧ AsksOnly p S x.1 x.2 := by
  constructor
  · rintro ⟨hp, hparts⟩ x hx
    exact ⟨hp x hx, hparts x hx⟩
  · exact fun h => ⟨fun x hx => (h x hx).1, fun x hx => (h x hx).2⟩

theorem asksOnly_scalar (c : Scalar) : AsksOnly p S (.scalar c) j := ⟨nofun, nofun⟩

theorem asksOnly_box : AsksOnly p S (.box t) j ↔ p t ∧ AsksOnly p S t j := by
  rw [asksOnly_iff, parts, List.forall_mem_singleton]

theorem asksOnly_option (h : j.kind ≠ .null) :
    AsksOnly p S (.option t) j ↔ p t ∧ AsksOnly p S t j := by
  rw [asksOnly_iff, parts, if_neg h, List.forall_mem_singleton]

theorem asksOnly_vec :
    AsksOnly p S (.vec t) (array js) ↔ ∀ k ∈ js, p t ∧ AsksOnly p S t k := by
  rw [asksOnly_iff, parts, items, List.forall_mem_map]

theorem asksOnly_map {u : Ty} (hu : u = .hashMap t ∨ u = .treeMap t) :
    AsksOnly p S u (object ms) ↔ ∀ m ∈ ms, p t ∧ AsksOnly p S t m.2 := by
  obtain rfl | rfl := hu <;> rw [asksOnly_iff, parts, members, List.forall_mem_map]

theorem asksOnly_record {id : RecordId} {r : Record} (hr : S.find? id = some r) :
    AsksOnly p S (.record id) (object ms) ↔
      ∀ m ∈ ms, ∀ x, r.counted? m = some x → p x.2 ∧ AsksOnly p S x.2 m.2 := by
  rw [asksOnly_iff, forall_mem_parts_record hr]

/-- Only a box asks for an adapter to read `null`. -/
theorem parts_null (ht : ∀ u, t ≠ .box u) : Tree.null.parts S t = [] := by
  cases t with
  | box u => exact absurd rfl (ht u)
  | record id =>
    rw [parts]
    split <;> rfl
  | _ => rfl

theorem asksOnly_null (ht : ∀ u, t ≠ .box u) : AsksOnly p S t .null := by
  rw [asksOnly_iff, parts_null ht]
  exact nofun

theorem sizeOf_of_mem_items {k : Tree} (h : k ∈ j.items) : sizeOf k < sizeOf j := by
  cases j with
  | array js =>
    have hlt : sizeOf k < sizeOf js := List.sizeOf_lt_of_mem h
    simp only [array.sizeOf_spec]
    omega
  | _ => cases h

theorem sizeOf_of_mem_members {m : String × Tree} (h : m ∈ j.members) :
    sizeOf m.2 < sizeOf j := by
  cases j with
  | object ms =>
    have hlt : sizeOf m < sizeOf ms := List.sizeOf_lt_of_mem h
    obtain ⟨name, k⟩ := m
    simp only [object.sizeOf_spec]
    simp only [Prod.mk.sizeOf_spec] at hlt
    omega
  | _ => cases h

/-- A part is smaller than the tree, or it is the tree, and is read as a smaller type. -/
theorem lex_of_mem_parts {x : Ty × Tree} (hx : x ∈ j.parts S t) :
    sizeOf x.2 < sizeOf j ∨ x.2 = j ∧ sizeOf x.1 < sizeOf t := by
  cases t with
  | scalar c => cases hx
  -- boxes and options read the same tree at a smaller type
  | box u =>
    obtain rfl := List.mem_singleton.1 hx
    exact .inr ⟨rfl, by simp⟩
  | option u =>
    rw [parts] at hx
    split at hx
    · cases hx
    · obtain rfl := List.mem_singleton.1 hx
      exact .inr ⟨rfl, by simp⟩
  | vec u =>
    obtain ⟨k, hk, rfl⟩ := List.mem_map.1 hx
    exact .inl (sizeOf_of_mem_items hk)
  | hashMap u | treeMap u =>
    obtain ⟨m, hm, rfl⟩ := List.mem_map.1 hx
    exact .inl (sizeOf_of_mem_members hm)
  | record id =>
    rw [parts] at hx
    split at hx
    · obtain ⟨m, hm, hx⟩ := List.mem_filterMap.1 hx
      obtain ⟨field, -, rfl⟩ := Option.map_eq_some_iff.1 hx
      exact .inl (sizeOf_of_mem_members hm)
    · cases hx

/-- The types of parts of what is read are parts of the type. -/
theorem type_of_mem_parts {x : Ty × Tree} (hx : x ∈ j.parts S t) : x.1 ∈ t.parts S := by
  cases t with
  | scalar c => cases hx
  | box u =>
    obtain rfl := List.mem_singleton.1 hx
    exact List.mem_singleton.2 rfl
  | option u =>
    rw [parts] at hx
    split at hx
    · cases hx
    · obtain rfl := List.mem_singleton.1 hx
      exact List.mem_singleton.2 rfl
  | vec u | hashMap u | treeMap u =>
    obtain ⟨k, -, rfl⟩ := List.mem_map.1 hx
    exact List.mem_singleton.2 rfl
  | record id =>
    rw [parts] at hx
    split at hx
    · next r hr =>
      obtain ⟨m, -, hx⟩ := List.mem_filterMap.1 hx
      obtain ⟨field, hcounted, rfl⟩ := Option.map_eq_some_iff.1 hx
      obtain ⟨f, hf, htype⟩ := Record.mem_of_counted? hcounted
      exact htype ▸ Ty.mem_parts_record hr hf
    · cases hx

end Json.Tree

/-- Nothing is asked but what the type needs. -/
theorem Json.Tree.asksOnly_of_needs {p : Ty → Prop} {S : Schema} {t : Ty} {j : Tree}
    (h : ∀ u, S.Needs t u → p u) : AsksOnly p S t j := by
  rw [asksOnly_iff]
  intro x hx
  have hneeds : S.Needs t x.1 := .part .self (type_of_mem_parts hx)
  have hsize := lex_of_mem_parts hx
  exact ⟨h x.1 hneeds, asksOnly_of_needs fun u hu => h u (hneeds.trans hu)⟩
termination_by (sizeOf j, sizeOf t)
decreasing_by
  rw [Prod.lex_def]
  obtain hlt | ⟨heq, hlt⟩ := hsize
  · exact .inl hlt
  · exact .inr ⟨by rw [heq], hlt⟩

end JsonAdapters
