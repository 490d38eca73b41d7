import JsonAdapters.Proofs.Adapter.Elementwise

/-!
# Documents that are alike

Two documents are alike when they differ by the order in which the members of objects stand, at any
depth, and by members that do not count where a record is read: members that are `null`, and members
with a name that no field is read under. To read them as a type asks for the same adapters. Either
both stand for a value, or none of them does, and it is one value when the members of each object
are distinct: no name occurs twice where a map is read, and no two members count for one field of a
record.

## Main definitions

* `Json.Tree.Alike`: documents that are alike, as far as they are read as a type.
* `Json.Tree.Unambiguous`: the members of all objects that are read are distinct.
* `Json.Tree.Agree`: what documents that are alike have in common.

## Main statements

* `Json.Tree.Alike.agree`: documents that are alike agree.

## Design notes

Which members count depends on the type that an object is read as, so `Alike` follows the types on
its way into a document. Values that are not read, such as those of unknown members, have no type;
there only the order of members may differ.
-/

namespace JsonAdapters

open Json (Tree)

/-! ## Documents that are alike -/

/-- The type under options and boxes. -/
def Ty.bare : Ty → Ty
  | .option t | .box t => t.bare
  | t => t

/-- Where an array is read as the type, the type that its items are read as. -/
def Ty.item? (t : Ty) : Option Ty :=
  match t.bare with
  | .vec u => some u
  | _ => none

/-- Where an object is read as the type, the type that members of the name are read as. -/
def Ty.member? (S : Schema) (name : String) (t : Ty) : Option Ty :=
  match t.bare with
  | .hashMap u | .treeMap u => some u
  | .record id => (S.find? id).bind fun r => (r.target? name).map Prod.snd
  | _ => none

namespace Json.Tree

/-- The trees differ only by the order of members, at any depth, and by members that do not count
where a record is read. They are read as a type, if they are read at all. -/
inductive Alike (S : Schema) : Option Ty → Tree → Tree → Prop
  | refl {o : Option Ty} {j : Tree} : Alike S o j j
  | symm {o : Option Ty} {j k : Tree} : Alike S o j k → Alike S o k j
  | trans {o : Option Ty} {j k l : Tree} : Alike S o j k → Alike S o k l → Alike S o j l
  | permuted {o : Option Ty} {ms ns : List (String × Tree)} : ms.Perm ns →
    Alike S o (object ms) (object ns)
  | uncounted {t : Ty} {id : RecordId} {r : Record} {m : String × Tree}
    {ms ns : List (String × Tree)} : t.bare = .record id → S.find? id = some r →
    r.counted? m = none → Alike S (some t) (object (ms ++ m :: ns)) (object (ms ++ ns))
  | item {o : Option Ty} {j k : Tree} {js ks : List Tree} : Alike S (o.bind Ty.item?) j k →
    Alike S o (array (js ++ j :: ks)) (array (js ++ k :: ks))
  | member {o : Option Ty} {name : String} {j k : Tree} {ms ns : List (String × Tree)} :
    Alike S (o.bind (Ty.member? S name)) j k →
    Alike S o (object (ms ++ (name, j) :: ns)) (object (ms ++ (name, k) :: ns))

/-- No two members have one name where a map is read, or count for one field where a record is
read. -/
def Distinct (S : Schema) (j : Tree) : Ty → Prop
  | .hashMap _ | .treeMap _ => (j.members.map Prod.fst).Nodup
  | .record id => ∀ r, S.find? id = some r → (r.positions j.members).Nodup
  | _ => True

/-- The members of all objects that are read are distinct. -/
inductive Unambiguous (S : Schema) : Ty → Tree → Prop
  | intro {t : Ty} {j : Tree} : j.Distinct S t → (∀ x ∈ j.parts S t, Unambiguous S x.1 x.2) →
    Unambiguous S t j

variable {S : Schema} {t u : Ty} {j k l : Tree} {js ks : List Tree} {ms ns : List (String × Tree)}
  {r : Record} {id : RecordId}

/-- Trees are unambiguous if they and their parts have no repeated member. -/
theorem unambiguous_iff :
    Unambiguous S t j ↔ j.Distinct S t ∧ ∀ x ∈ j.parts S t, Unambiguous S x.1 x.2 := by
  constructor
  · rintro ⟨hj, hparts⟩
    exact ⟨hj, hparts⟩
  · exact fun h => ⟨h.1, h.2⟩

/-- Boxes leave trees as they are. -/
theorem unambiguous_box : Unambiguous S (.box t) j ↔ Unambiguous S t j := by
  rw [unambiguous_iff, parts, List.forall_mem_singleton]
  exact and_iff_right trivial

/-- A value in an option is the value. -/
theorem unambiguous_option (h : j.kind ≠ .null) :
    Unambiguous S (.option t) j ↔ Unambiguous S t j := by
  rw [unambiguous_iff, parts, if_neg h, List.forall_mem_singleton]
  exact and_iff_right trivial

/-- An array is unambiguous if its items are. -/
theorem unambiguous_vec : Unambiguous S (.vec t) (array js) ↔ ∀ k ∈ js, Unambiguous S t k := by
  rw [unambiguous_iff, parts, items, List.forall_mem_map]
  exact and_iff_right trivial

/-- An object of a map is unambiguous if its keys differ, and its values are unambiguous. -/
theorem unambiguous_map (hu : u = .hashMap t ∨ u = .treeMap t) : Unambiguous S u (object ms) ↔
    (ms.map Prod.fst).Nodup ∧ ∀ m ∈ ms, Unambiguous S t m.2 := by
  obtain rfl | rfl := hu <;> rw [unambiguous_iff, parts, members, List.forall_mem_map] <;>
    exact Iff.rfl

/-- An object of a record is unambiguous if no field comes twice, and the values are unambiguous. -/
theorem unambiguous_record (hr : S.find? id = some r) : Unambiguous S (.record id) (object ms) ↔
    (r.positions ms).Nodup ∧ ∀ m ∈ ms, ∀ x, r.counted? m = some x → Unambiguous S x.2 m.2 := by
  have hdistinct : (object ms).Distinct S (.record id) ↔ (r.positions ms).Nodup := by
    rw [Distinct, hr]
    exact ⟨fun h => h r rfl, fun h r' hr' => Option.some.inj hr' ▸ h⟩
  rw [unambiguous_iff, hdistinct, forall_mem_parts_record hr]

/-- A tree of the wrong kind has no parts. -/
theorem parts_of_kind {c : Kind} (ht : t.kind? = some c) (hj : j.kind ≠ c) :
    j.parts S t = [] ∧ j.Distinct S t := by
  cases t with
  | scalar => exact ⟨rfl, trivial⟩
  | option | box => cases ht
  | vec =>
    cases ht
    have hitems : j.items = [] := by cases j <;> first | rfl | exact absurd rfl hj
    simp [parts, Distinct, hitems]
  | hashMap | treeMap | record =>
    cases ht
    have hmembers : j.members = [] := by cases j <;> first | rfl | exact absurd rfl hj
    simp only [parts, Distinct, hmembers, List.map_nil, List.filterMap_nil, Record.positions,
      List.nodup_nil, implies_true, and_true]
    try split <;> rfl

/-! ## Alike documents stand for the same values -/

/-- The trees are read with the same requests, and stand for the same value, or both for none. -/
structure Agree (S : Schema) (t : Ty) (j k : Tree) : Prop where
  kind : j.kind = k.kind
  asksOnly (p : Ty → Prop) : AsksOnly p S t j ↔ AsksOnly p S t k
  unambiguous : Unambiguous S t j ↔ Unambiguous S t k
  fails : j.decode S t = none ↔ k.decode S t = none
  decode : Unambiguous S t j → j.decode S t = k.decode S t

namespace Agree

theorem refl : Agree S t j j := ⟨rfl, fun _ => Iff.rfl, Iff.rfl, Iff.rfl, fun _ => rfl⟩

/-- Trees agree in both directions. -/
theorem symm (h : Agree S t j k) : Agree S t k j :=
  ⟨h.kind.symm, fun p => (h.asksOnly p).symm, h.unambiguous.symm, h.fails.symm,
    fun hu => (h.decode (h.unambiguous.2 hu)).symm⟩

/-- Trees that agree with one tree agree. -/
theorem trans (h : Agree S t j k) (h' : Agree S t k l) : Agree S t j l :=
  ⟨h.kind.trans h'.kind, fun p => (h.asksOnly p).trans (h'.asksOnly p),
    h.unambiguous.trans h'.unambiguous, h.fails.trans h'.fails,
    fun hu => (h.decode hu).trans (h'.decode (h.unambiguous.1 hu))⟩

/-- Trees that have no parts and stand for nothing agree. -/
theorem of_none (hkind : j.kind = k.kind) (hj : j.decode S t = none) (hk : k.decode S t = none)
    (hpj : j.parts S t = []) (hpk : k.parts S t = []) (hdj : j.Distinct S t)
    (hdk : k.Distinct S t) : Agree S t j k := by
  refine ⟨hkind, fun p => ?_, ?_, by rw [hj, hk], fun _ => hj.trans hk.symm⟩
  · rw [asksOnly_iff, asksOnly_iff, hpj, hpk]
  · rw [unambiguous_iff, unambiguous_iff, hpj, hpk, iff_true_intro hdj, iff_true_intro hdk]

/-- Trees of the wrong kind agree. -/
theorem of_kind {c : Kind} (ht : t.kind? = some c) (hkind : j.kind = k.kind) (hj : j.kind ≠ c)
    (hnull : j.kind ≠ .null) : Agree S t j k := by
  obtain ⟨hpj, hdj⟩ := parts_of_kind (S := S) ht hj
  obtain ⟨hpk, hdk⟩ := parts_of_kind (S := S) ht (hkind ▸ hj)
  exact of_none hkind (decode_of_kind ht hj hnull) (decode_of_kind ht (hkind ▸ hj) (hkind ▸ hnull))
    hpj hpk hdj hdk

/-- Trees agree in an option. -/
theorem option (h : Agree S t j k) : Agree S (.option t) j k := by
  by_cases hj : j.kind = .null
  · obtain rfl := kind_eq_iff.1 hj
    obtain rfl := kind_eq_iff.1 (h.kind.symm.trans hj)
    exact refl
  · have hk : k.kind ≠ .null := h.kind ▸ hj
    refine ⟨h.kind, fun p => ?_, ?_, ?_, fun hu => ?_⟩
    · rw [asksOnly_option hj, asksOnly_option hk, h.asksOnly]
    · rw [unambiguous_option hj, unambiguous_option hk, h.unambiguous]
    · rw [decode_option hj, decode_option hk, Option.map_eq_none_iff, Option.map_eq_none_iff,
        h.fails]
    · rw [decode_option hj, decode_option hk, h.decode ((unambiguous_option hj).1 hu)]

/-- Trees agree in a box. -/
theorem box (h : Agree S t j k) : Agree S (.box t) j k := by
  refine ⟨h.kind, fun p => ?_, ?_, ?_, fun hu => ?_⟩
  · rw [asksOnly_box, asksOnly_box, h.asksOnly]
  · rw [unambiguous_box, unambiguous_box, h.unambiguous]
  · rw [decode_box, decode_box, Option.map_eq_none_iff, Option.map_eq_none_iff, h.fails]
  · rw [decode_box, decode_box, h.decode (unambiguous_box.1 hu)]

/-- Where a value must be present, one is missing in both trees or in none. -/
theorem join (h : Agree S t j k) : (j.decode S t).join = none ↔ (k.decode S t).join = none := by
  by_cases hj : j.kind = .null
  · rw [kind_eq_iff.1 hj, kind_eq_iff.1 (h.kind.symm.trans hj)]
  · have hpresent {j : Tree} (hj : j.kind ≠ .null) :
        (j.decode S t).join = none ↔ j.decode S t = none := by
      cases hd : j.decode S t with
      | none => exact iff_of_true rfl rfl
      | some v =>
        obtain ⟨w, rfl⟩ := decode_eq_some hj hd
        exact iff_of_false nofun nofun
    rw [hpresent hj, hpresent (h.kind ▸ hj), h.fails]

/-! ### Arrays -/

/-- Arrays agree if one item is replaced by one that agrees. -/
theorem vec (h : Agree S t j k) :
    Agree S (.vec t) (array (js ++ j :: ks)) (array (js ++ k :: ks)) := by
  have hitem {j : Tree} : decodeItems S [j] t = (j.decode S t).join.map fun v => [v] := by
    rw [decodeItems_cons]
    cases (j.decode S t).join <;> rfl
  refine ⟨rfl, fun p => ?_, ?_, ?_, fun hu => ?_⟩
  · rw [asksOnly_vec, asksOnly_vec]
    simp only [List.forall_mem_append, List.forall_mem_cons, h.asksOnly]
  · rw [unambiguous_vec, unambiguous_vec]
    simp only [List.forall_mem_append, List.forall_mem_cons, h.unambiguous]
  · rw [decode_vec, decode_vec]
    simp only [Option.map_eq_none_iff]
    refine decodeItems_elementwise.fails_replace ?_
    rw [hitem, hitem, Option.map_eq_none_iff, Option.map_eq_none_iff, h.join]
  · have hj := unambiguous_vec.1 hu j (List.mem_append_right js List.mem_cons_self)
    have hsame : decodeItems S [j] t = decodeItems S [k] t := by rw [hitem, hitem, h.decode hj]
    rw [decode_vec, decode_vec, decodeItems_elementwise.replace hsame]

/-! ### Maps -/

/-- Objects of maps agree in any order of the members. -/
theorem map_perm (hu : u = .hashMap t ∨ u = .treeMap t) (h : ms.Perm ns) :
    Agree S u (object ms) (object ns) := by
  have hnodup := (h.map Prod.fst).nodup_iff
  have hnone : decodeEntries S ms t = none ↔ decodeEntries S ns t = none :=
    decodeEntries_elementwise.fails_perm h
  refine ⟨rfl, fun p => ?_, ?_, ?_, fun hms => ?_⟩
  · rw [asksOnly_map hu, asksOnly_map hu]
    simp only [h.mem_iff]
  · rw [unambiguous_map hu, unambiguous_map hu]
    simp only [h.mem_iff, hnodup]
  · rw [decode_map hu, decode_map hu]
    simp only [Option.map_eq_none_iff, hnone]
  · rw [decode_map hu, decode_map hu]
    cases hes : decodeEntries S ms t with
    | none => rw [hnone.1 hes]
    | some es =>
      obtain ⟨fs, hfs, hperm⟩ := decodeEntries_elementwise.perm h hes
      have hkeys : (es.map Prod.fst).Nodup := by
        rw [decodeEntries_keys hes]
        exact ((unambiguous_map hu).1 hms).1
      simp only [hfs, Option.map_some, Value.ofEntries_of_perm hkeys hperm]

/-- Objects of maps agree if one value is replaced by one that agrees. -/
theorem map_member {name : String} (hu : u = .hashMap t ∨ u = .treeMap t) (h : Agree S t j k) :
    Agree S u (object (ms ++ (name, j) :: ns)) (object (ms ++ (name, k) :: ns)) := by
  have hentry {j : Tree} :
      decodeEntries S [(name, j)] t = (j.decode S t).join.map fun v => [(name, v)] := by
    rw [decodeEntries_cons]
    cases (j.decode S t).join <;> rfl
  refine ⟨rfl, fun p => ?_, ?_, ?_, fun hms => ?_⟩
  · rw [asksOnly_map hu, asksOnly_map hu]
    simp only [List.forall_mem_append, List.forall_mem_cons, h.asksOnly]
  · rw [unambiguous_map hu, unambiguous_map hu]
    simp only [List.map_append, List.map_cons, List.forall_mem_append, List.forall_mem_cons,
      h.unambiguous]
  · rw [decode_map hu, decode_map hu]
    simp only [Option.map_eq_none_iff]
    refine decodeEntries_elementwise.fails_replace ?_
    rw [hentry, hentry, Option.map_eq_none_iff, Option.map_eq_none_iff, h.join]
  · have hj := ((unambiguous_map hu).1 hms).2 (name, j)
      (List.mem_append_right ms List.mem_cons_self)
    have hsame : decodeEntries S [(name, j)] t = decodeEntries S [(name, k)] t := by
      rw [hentry, hentry, h.decode hj]
    rw [decode_map hu, decode_map hu, decodeEntries_elementwise.replace hsame]

/-! ### Records -/

/-- Records fail together when values of members do, and when they have the same members. -/
theorem fails_of_members (hr : S.find? id = some r)
    (hnone : decodeMembers S ms r = none ↔ decodeMembers S ns r = none)
    (hpositions : ∀ i, i ∈ r.positions ms ↔ i ∈ r.positions ns) :
    (object ms).decode S (.record id) = none ↔ (object ns).decode S (.record id) = none := by
  rw [decode_record hr, decode_record hr, Option.map_eq_none_iff, Option.map_eq_none_iff]
  cases hms : decodeMembers S ms r with
  | none => rw [hnone.1 hms]
  | some as =>
    cases hns : decodeMembers S ns r with
    | none => cases hms.symm.trans (hnone.2 hns)
    | some bs =>
      refine Record.assemble_eq_none_congr fun i => ?_
      rw [decodeMembers_positions hms, decodeMembers_positions hns, hpositions]

/-- Objects of records agree in any order of the members. -/
theorem record_perm (hr : S.find? id = some r) (h : ms.Perm ns) :
    Agree S (.record id) (object ms) (object ns) := by
  have hpositions : (r.positions ms).Perm (r.positions ns) := h.filterMap _
  have hnone : decodeMembers S ms r = none ↔ decodeMembers S ns r = none :=
    decodeMembers_elementwise.fails_perm h
  refine ⟨rfl, fun p => ?_, ?_, fails_of_members hr hnone fun i => hpositions.mem_iff,
    fun hms => ?_⟩
  · rw [asksOnly_record hr, asksOnly_record hr]
    simp only [h.mem_iff]
  · rw [unambiguous_record hr, unambiguous_record hr]
    simp only [h.mem_iff, hpositions.nodup_iff]
  · rw [decode_record hr, decode_record hr]
    cases has : decodeMembers S ms r with
    | none => rw [hnone.1 has]
    | some as =>
      obtain ⟨bs, hbs, hperm⟩ := decodeMembers_elementwise.perm h has
      have hnodup : (as.map Prod.fst).Nodup := by
        rw [decodeMembers_positions has]
        exact ((unambiguous_record hr).1 hms).1
      rw [hbs, Option.bind_some, Option.bind_some,
        Record.assemble_congr fun i => lastFor_perm hnodup hperm]

/-- Members that do not count make no difference. -/
theorem record_uncounted {m : String × Tree} (hr : S.find? id = some r)
    (hm : r.counted? m = none) :
    Agree S (.record id) (object (ms ++ m :: ns)) (object (ms ++ ns)) := by
  have hpositions : r.positions (ms ++ m :: ns) = r.positions (ms ++ ns) := by
    simp only [Record.positions, List.filterMap_append, List.filterMap_cons, hm, Option.map_none]
  have hsame : decodeMembers S (ms ++ m :: ns) r = decodeMembers S (ms ++ ns) r := by
    refine decodeMembers_elementwise.drop ?_
    rw [decodeMembers_singleton, hm]
  refine ⟨rfl, fun p => ?_, ?_, ?_, fun _ => ?_⟩
  · rw [asksOnly_record hr, asksOnly_record hr]
    simp [or_imp, forall_and, hm]
  · rw [unambiguous_record hr, unambiguous_record hr, hpositions]
    simp [or_imp, forall_and, hm]
  · rw [decode_record hr, decode_record hr, hsame]
  · rw [decode_record hr, decode_record hr, hsame]

/-- Objects of records agree if the value of a field is replaced by one that agrees. -/
theorem record_member {name : String} {i : Nat} (hr : S.find? id = some r)
    (hj : r.counted? (name, j) = some (i, t)) (h : Agree S t j k) :
    Agree S (.record id) (object (ms ++ (name, j) :: ns)) (object (ms ++ (name, k) :: ns)) := by
  have hk : r.counted? (name, k) = some (i, t) := by
    rw [Record.counted?] at hj ⊢
    rwa [← h.kind]
  have hpositions : r.positions (ms ++ (name, j) :: ns) = r.positions (ms ++ (name, k) :: ns) := by
    simp only [Record.positions, List.filterMap_append, List.filterMap_cons, hj, hk]
  have hnone : decodeMembers S [(name, j)] r = none ↔ decodeMembers S [(name, k)] r = none := by
    rw [decodeMembers_singleton, decodeMembers_singleton, hj, hk]
    simp only [Option.map_eq_none_iff, h.join]
  refine ⟨rfl, fun p => ?_, ?_, fails_of_members hr ?_ fun _ => by rw [hpositions], fun hms => ?_⟩
  · rw [asksOnly_record hr, asksOnly_record hr]
    simp only [List.forall_mem_append, List.forall_mem_cons, hj, hk, Option.some.injEq, forall_eq',
      h.asksOnly]
  · rw [unambiguous_record hr, unambiguous_record hr, hpositions]
    simp only [List.forall_mem_append, List.forall_mem_cons, hj, hk, Option.some.injEq, forall_eq',
      h.unambiguous]
  · exact decodeMembers_elementwise.fails_replace hnone
  · have hu := ((unambiguous_record hr).1 hms).2 (name, j)
      (List.mem_append_right ms List.mem_cons_self) (i, t) hj
    have hsame : decodeMembers S [(name, j)] r = decodeMembers S [(name, k)] r := by
      rw [decodeMembers_singleton, decodeMembers_singleton, hj, hk]
      simp only [h.decode hu]
    rw [decode_record hr, decode_record hr, decodeMembers_elementwise.replace hsame]

/-! ### Under options and boxes -/

/-- Arrays agree when they do as vectors. -/
theorem of_array : {t : Ty} → (∀ u, t.bare = .vec u → Agree S (.vec u) (array js) (array ks)) →
    Agree S t (array js) (array ks)
  | .option t, h => (of_array (t := t) h).option
  | .box t, h => (of_array (t := t) h).box
  | .vec u, h => h u rfl
  | .scalar c, _ => by cases c <;> exact of_kind rfl rfl nofun nofun
  | .hashMap _, _ | .treeMap _, _ | .record _, _ => of_kind rfl rfl nofun nofun

/-- Objects agree when they do as maps and as records. -/
theorem of_object : {t : Ty} →
    (∀ u, t.bare = .hashMap u ∨ t.bare = .treeMap u → Agree S t.bare (object ms) (object ns)) →
    (∀ id r, t.bare = .record id → S.find? id = some r →
      Agree S (.record id) (object ms) (object ns)) → Agree S t (object ms) (object ns)
  | .option t, hmap, hrecord => (of_object (t := t) hmap hrecord).option
  | .box t, hmap, hrecord => (of_object (t := t) hmap hrecord).box
  | .hashMap u, hmap, _ => hmap u (.inl rfl)
  | .treeMap u, hmap, _ => hmap u (.inr rfl)
  | .scalar c, _, _ => by cases c <;> exact of_kind rfl rfl nofun nofun
  | .vec _, _, _ => of_kind rfl rfl nofun nofun
  | .record id, _, hrecord => by
    cases hr : S.find? id with
    | some r => exact hrecord id r rfl hr
    | none =>
      -- nothing is read as a record that is not there
      have hdecode (ms : List (String × Tree)) : (object ms).decode S (.record id) = none := by
        simp only [Tree.decode, Ty.around, hr, Option.bind_none, Option.map_none]
      have hparts (ms : List (String × Tree)) : (object ms).parts S (.record id) = [] := by
        rw [parts, hr]
      have hdistinct (ms : List (String × Tree)) : (object ms).Distinct S (.record id) := by
        intro r hr'
        cases hr.symm.trans hr'
      exact of_none rfl (hdecode ms) (hdecode ns) (hparts ms) (hparts ns) (hdistinct ms)
        (hdistinct ns)

end Agree

/-- Trees that are alike are of one kind, and agree when they are read. -/
theorem Alike.agree {o : Option Ty} (h : Alike S o j k) :
    j.kind = k.kind ∧ ∀ t, o = some t → Agree S t j k := by
  induction h with
  | refl => exact ⟨rfl, fun _ _ => .refl⟩
  | symm _ ih => exact ⟨ih.1.symm, fun t ht => (ih.2 t ht).symm⟩
  | trans _ _ ih₁ ih₂ => exact ⟨ih₁.1.trans ih₂.1, fun t ht => (ih₁.2 t ht).trans (ih₂.2 t ht)⟩
  | permuted h =>
    exact ⟨rfl, fun t _ =>
      .of_object (fun u hu => .map_perm hu h) fun id r _ hr => .record_perm hr h⟩
  | uncounted hb hr hm =>
    refine ⟨rfl, fun t ht => .of_object (fun u hu => ?_) fun id' r' hb' hr' => ?_⟩
    · cases ht
      rw [hb] at hu
      obtain hu | hu := hu <;> cases hu
    · cases ht
      cases hb.symm.trans hb'
      cases hr.symm.trans hr'
      exact .record_uncounted hr hm
  | item _ ih =>
    refine ⟨rfl, fun t ht => .of_array fun u hb => .vec (ih.2 u ?_)⟩
    simp [ht, Ty.item?, hb]
  -- a member of a map always counts, that of a record only if it is a field
  | @member o name j k ms ns _ ih =>
    refine ⟨rfl, fun t ht => .of_object (fun u hu => ?_) fun id r hb hr => ?_⟩
    · subst ht
      refine .map_member hu (ih.2 u ?_)
      obtain hb | hb := hu <;> simp [Ty.member?, hb]
    · subst ht
      cases hj : r.counted? (name, j) with
      | none =>
        have hk : r.counted? (name, k) = none := by
          rw [Record.counted?] at hj ⊢
          rwa [← ih.1]
        exact (Agree.record_uncounted hr hj).trans (Agree.record_uncounted hr hk).symm
      | some x =>
        refine .record_member hr hj (ih.2 x.2 ?_)
        rw [Record.counted?] at hj
        split at hj
        · cases hj
        · simp [Ty.member?, hb, hr, hj]

end Json.Tree

end JsonAdapters
