import JsonAdapters.Adapter.Scalar
import JsonAdapters.Proofs.Json.Tree
import JsonAdapters.Record.Schema

/-!
# Values of trees

Which value of a type a JSON tree stands for, said on the tree as a whole. Nothing here knows of
streams, of adapters or of registries.

* `null` is the absent value of every type but an optional one, where it is a present nothing, and a
  box, which stands for what its content stands for.
* Items of a vector and values of a map are present. Of equal names in a map the last one wins.
* Members of a record that are `null`, or have a name that no field is read under, are passed over.
  All others are values of their field, and the last one for a field is the field's value. A field
  without a member takes the value of the default instance; without a default instance it is
  nothing, or there is no record.

## Main definitions

* `Json.Tree.decode`: the value of a type; `none` when the tree stands for none, and `some none` for
  the absent value.
* `Record.assemble`: a record of what its members stand for.
* `Value.ofEntries`: a map of entries, in which the last of equal names wins.

## Main statements

* `Value.lookup_ofEntries`, `Value.ofEntries_ascending`.
-/

namespace JsonAdapters

open Json (Tree)

/-! ## Last entries -/

/-- The value of the last entry of a key. -/
def lastFor {κ α : Type} [DecidableEq κ] (key : κ) : List (κ × α) → Option α
  | [] => none
  | (k, v) :: es => (lastFor key es).or (if k = key then some v else none)

section

variable {κ α : Type} [DecidableEq κ] {key : κ} {a : α} {es fs : List (κ × α)}

theorem mem_of_lastFor (h : lastFor key es = some a) : (key, a) ∈ es := by
  induction es with
  | nil => cases h
  | cons e es ih =>
    obtain ⟨k, b⟩ := e
    rw [lastFor, Option.or_eq_some_iff] at h
    obtain h | ⟨-, h⟩ := h
    · exact List.mem_cons_of_mem _ (ih h)
    · split at h <;> cases h
      next hk =>
      subst hk
      exact List.mem_cons_self

theorem lastFor_eq_none_iff : lastFor key es = none ↔ key ∉ es.map Prod.fst := by
  induction es with
  | nil => simp [lastFor]
  | cons e es ih =>
    rw [lastFor, Option.or_eq_none_iff, ih, List.map_cons, List.mem_cons, not_or, and_comm]
    simp [eq_comm]

/-- Entries with different keys are all last ones. -/
theorem lastFor_eq_some_iff (h : (es.map Prod.fst).Nodup) :
    lastFor key es = some a ↔ (key, a) ∈ es := by
  induction es with
  | nil => simp [lastFor]
  | cons e es ih =>
    obtain ⟨k, b⟩ := e
    obtain ⟨hnotin, hnodup⟩ := List.nodup_cons.1 h
    rw [lastFor, List.mem_cons]
    by_cases hk : k = key
    · subst hk
      have hnone : lastFor k es = none := lastFor_eq_none_iff.2 hnotin
      have hmem : (k, a) ∉ es := fun hmem => hnotin (List.mem_map.2 ⟨_, hmem, rfl⟩)
      simp [hnone, hmem, eq_comm]
    · simp [hk, Ne.symm hk, ih hnodup]

theorem lastFor_perm (h : (es.map Prod.fst).Nodup) (hperm : es.Perm fs) :
    lastFor key es = lastFor key fs := by
  have h' : (fs.map Prod.fst).Nodup := (hperm.map Prod.fst).nodup_iff.1 h
  exact Option.ext fun a => by rw [lastFor_eq_some_iff h, lastFor_eq_some_iff h', hperm.mem_iff]

end

/-- A map of entries in the order of a document. -/
def Value.ofEntries (es : List (String × Value)) : List (String × Value) :=
  es.foldl (fun m e => putEntry e.1 e.2 m) []

/-! ## Records -/

/-- Default instances have one value for each field. -/
def Schema.Sound (s : Schema) : Prop :=
  ∀ id r d, s.find? id = some r → r.default = some d → d.fields.length = r.fields.length

/-- No name addresses two fields of a record. -/
def Schema.KeysDistinct (S : Schema) : Prop :=
  ∀ id r, S.find? id = some r → (r.fields.flatMap Field.keys).Nodup

namespace Record

/-- The value of a field: what the last member for it stands for, else the default, else nothing. -/
def fieldValue (r : Record) (assigned : List (Nat × Value)) (i : Nat) (f : Field) : Option Value :=
  match lastFor i assigned with
  | some v => some (if f.nullable then .just v else v)
  | none =>
    match r.default with
    | some d => d.fields[i]?
    | none => if f.nullable then some .nothing else none

/-- The value of a field depends on the last member for it. -/
theorem fieldValue_congr {r : Record} {f : Field} {i : Nat} {as bs : List (Nat × Value)}
    (h : lastFor i as = lastFor i bs) : r.fieldValue as i f = r.fieldValue bs i f := by
  simp only [fieldValue, h]

/-- Values of fields, the first of which is at position `i`. -/
def fieldValuesFrom (r : Record) (assigned : List (Nat × Value)) : Nat → List Field →
    Option (List Value)
  | _, [] => some []
  | i, f :: fs => do
    let v ← r.fieldValue assigned i f
    let vs ← r.fieldValuesFrom assigned (i + 1) fs
    return v :: vs

/-- What reading gives to skipped fields. -/
def suppliedSkipped (r : Record) : List Value :=
  match r.default with
  | some d => d.skipped
  | none => r.skipped.map (·.initial)

/-- The record of what members stand for, each with the position of its field. -/
def assemble (r : Record) (assigned : List (Nat × Value)) : Option Value :=
  (r.fieldValuesFrom assigned 0 r.fields).map fun fields => .record fields r.suppliedSkipped

/-- The position and type of the field that is read under a name. -/
def target? (r : Record) (name : String) : Option (Nat × Ty) :=
  (r.fieldIndex? name).bind fun i => r.fields[i]?.map fun f => (i, f.type)

end Record

/-! ## Decoding -/

/-- What `null` stands for. -/
def Ty.ofNull : Ty → Option Value
  | .option _ => some .nothing
  | .box t => t.ofNull.map .box
  | _ => none

/-- A value of the type under options and boxes, with these around it. -/
def Ty.around (bare : Ty → Option Value) : Ty → Option Value
  | .option t => (t.around bare).map .just
  | .box t => (t.around bare).map .box
  | t => bare t

/-- The kind of what stands for present values of the type. Options and boxes have no kind of their
own. -/
def Ty.kind? : Ty → Option Json.Kind
  | .scalar .bool => some .bool
  | .scalar .string => some .string
  | .scalar _ => some .number
  | .vec _ => some .array
  | .hashMap _ | .treeMap _ | .record _ => some .object
  | .option _ | .box _ => none

namespace Json.Tree

mutual

/-- The value of a type that the tree stands for. -/
def decode (s : Schema) : Tree → Ty → Option (Option Value)
  | .null, t => some t.ofNull
  | .bool b, t => (t.around fun u => if u = .scalar .bool then some (.bool b) else none).map some
  | .number text, t => (t.around fun
      | .scalar c => c.ofNumber? text
      | _ => none).map some
  | .string x, t => (t.around fun u => if u = .string then some (.string x) else none).map some
  | .array js, t => (t.around fun
      | .vec u => (decodeItems s js u).map .vec
      | _ => none).map some
  | .object ms, t => (t.around fun
      | .hashMap u | .treeMap u => (decodeEntries s ms u).map fun es => .map (Value.ofEntries es)
      | .record id => (s.find? id).bind fun r => (decodeMembers s ms r).bind r.assemble
      | _ => none).map some

/-- Present values of a type. -/
def decodeItems (s : Schema) : List Tree → Ty → Option (List Value)
  | [], _ => some []
  | j :: js, t => do
    let v ← (decode s j t).join
    let vs ← decodeItems s js t
    return v :: vs

/-- Names with present values of a type. -/
def decodeEntries (s : Schema) : List (String × Tree) → Ty → Option (List (String × Value))
  | [], _ => some []
  | (name, j) :: ms, t => do
    let v ← (decode s j t).join
    let es ← decodeEntries s ms t
    return (name, v) :: es

/-- Values of the members that count for a record, with the positions of their fields. -/
def decodeMembers (s : Schema) : List (String × Tree) → Record → Option (List (Nat × Value))
  | [], _ => some []
  | (name, j) :: ms, r =>
    if j.kind = .null then decodeMembers s ms r
    else match r.target? name with
      | none => decodeMembers s ms r
      | some (i, t) => do
        let v ← (decode s j t).join
        let rest ← decodeMembers s ms r
        return (i, v) :: rest

end

end Json.Tree

/-! ## Maps of entries -/

namespace Value

/-- Keys of a map ascend. -/
def Ascending (es : List (String × Value)) : Prop := es.Pairwise fun a b => a.1 < b.1

theorem lookup_cons (key k : String) (v : Value) (es : List (String × Value)) :
    ((key, v) :: es).lookup k = if k = key then some v else es.lookup k := by
  rw [List.lookup_cons]
  by_cases h : k = key
  · rw [if_pos h, beq_iff_eq.2 h]
  · rw [if_neg h, beq_false_of_ne h]

theorem lookup_putEntry (key k : String) (v : Value) (es : List (String × Value)) :
    (putEntry key v es).lookup k = if k = key then some v else es.lookup k := by
  induction es with
  | nil => exact lookup_cons key k v []
  | cons e es ih =>
    obtain ⟨k', w⟩ := e
    -- the entry goes to the front, replaces the first one, or goes further down
    rw [putEntry]
    split
    · exact lookup_cons ..
    · split
      · next hk =>
        subst hk
        rw [lookup_cons, lookup_cons]
        split <;> rfl
      · next hk =>
        rw [lookup_cons, lookup_cons, ih]
        by_cases h : k = k'
        · subst h
          rw [if_pos rfl, if_pos rfl, if_neg (Ne.symm hk)]
        · rw [if_neg h, if_neg h]

/-- A lookup in a map of entries finds the last entry of the key. -/
theorem lookup_ofEntries (key : String) (es : List (String × Value)) :
    (ofEntries es).lookup key = lastFor key es := by
  -- from a map that has some entries already
  have hgo (m : List (String × Value)) :
      (es.foldl (fun m e => putEntry e.1 e.2 m) m).lookup key =
        (lastFor key es).or (m.lookup key) := by
    induction es generalizing m with
    | nil => rfl
    | cons e es ih =>
      obtain ⟨k, v⟩ := e
      rw [List.foldl_cons, ih, lookup_putEntry, lastFor, Option.or_assoc]
      by_cases h : key = k
      · simp [h]
      · simp [h, Ne.symm h]
  rw [ofEntries, hgo]
  exact Option.or_none

theorem mem_putEntry {key : String} {v : Value} {es : List (String × Value)} {e : String × Value}
    (h : e ∈ putEntry key v es) : e = (key, v) ∨ e ∈ es := by
  induction es with
  | nil => exact .inl (List.mem_singleton.1 h)
  | cons e' es ih =>
    obtain ⟨k, w⟩ := e'
    rw [putEntry] at h
    split at h
    · exact List.mem_cons.1 h
    · split at h
      · obtain h | h := List.mem_cons.1 h
        · exact .inl h
        · exact .inr (List.mem_cons_of_mem _ h)
      · obtain h | h := List.mem_cons.1 h
        · exact .inr (h ▸ List.mem_cons_self ..)
        · exact (ih h).imp_right (List.mem_cons_of_mem _)

theorem putEntry_ascending (key : String) (v : Value) {es : List (String × Value)}
    (h : Ascending es) : Ascending (putEntry key v es) := by
  induction es with
  | nil => exact List.pairwise_singleton ..
  | cons e es ih =>
    obtain ⟨k, w⟩ := e
    obtain ⟨hfirst, hrest⟩ := List.pairwise_cons.1 h
    rw [putEntry]
    split
    · next hlt =>
      refine List.pairwise_cons.2 ⟨fun e he => ?_, h⟩
      obtain rfl | he := List.mem_cons.1 he
      · exact hlt
      · exact String.lt_trans hlt (hfirst e he)
    · next hlt =>
      split
      · next hk =>
        subst hk
        exact List.pairwise_cons.2 ⟨hfirst, hrest⟩
      · next hk =>
        refine List.pairwise_cons.2 ⟨fun e he => ?_, ih hrest⟩
        obtain rfl | he := mem_putEntry he
        · -- of three outcomes of a comparison two are excluded
          refine Decidable.byContradiction fun hge => hk ?_
          exact String.le_antisymm (String.not_lt.1 hge) (String.not_lt.1 hlt)
        · exact hfirst e he

/-- The keys of a map of entries ascend. -/
theorem ofEntries_ascending (es : List (String × Value)) : Ascending (ofEntries es) := by
  have hgo (m : List (String × Value)) (hm : Ascending m) :
      Ascending (es.foldl (fun m e => putEntry e.1 e.2 m) m) := by
    induction es generalizing m with
    | nil => exact hm
    | cons e es ih => exact ih _ (putEntry_ascending e.1 e.2 hm)
  exact hgo [] List.Pairwise.nil

end Value

/-! ## Equations of decoding -/

namespace Json.Tree

variable {s : Schema} {j : Tree} {t : Ty}

/-- A value of the wrong kind stands for nothing. -/
theorem decode_of_kind {k : Kind} (ht : t.kind? = some k) (hk : j.kind ≠ k) (hj : j.kind ≠ .null) :
    j.decode s t = none := by
  cases t with
  | scalar c => cases c <;> cases ht <;> cases j <;> first | rfl | contradiction
  | option | box => cases ht
  | vec | hashMap | treeMap | record =>
    cases ht
    cases j <;> first | rfl | contradiction

/-- A value other than `null` is never the absent value. -/
theorem decode_eq_some (h : j.kind ≠ .null) {v : Option Value} (hd : j.decode s t = some v) :
    ∃ w, v = some w := by
  cases j with
  | null => exact absurd rfl h
  | _ =>
    obtain ⟨w, -, rfl⟩ := Option.map_eq_some_iff.1 hd
    exact ⟨w, rfl⟩

theorem decode_option (h : j.kind ≠ .null) :
    j.decode s (.option t) = (j.decode s t).map (Option.map .just) := by
  cases j with
  | null => exact absurd rfl h
  | _ => simp only [decode, Ty.around, Option.map_map, Function.comp_def, Option.map_some]

theorem decode_vec {js : List Tree} : (array js).decode s (.vec t) =
    ((decodeItems s js t).map Value.vec).map some := rfl

theorem decode_map {ms : List (String × Tree)} {u : Ty} (hu : u = .hashMap t ∨ u = .treeMap t) :
    (object ms).decode s u =
      ((decodeEntries s ms t).map fun es => Value.map (Value.ofEntries es)).map some := by
  obtain rfl | rfl := hu <;> rfl

theorem decode_record {ms : List (String × Tree)} {r : Record} {id : RecordId}
    (h : s.find? id = some r) : (object ms).decode s (.record id) =
    ((decodeMembers s ms r).bind r.assemble).map some := by
  simp only [decode, Ty.around, h, Option.bind_some]

theorem decodeItems_cons {js : List Tree} : decodeItems s (j :: js) t =
    (j.decode s t).join.bind fun v => (decodeItems s js t).map (v :: ·) := by
  simp only [decodeItems, Option.bind_eq_bind, Option.pure_def, Option.map_eq_bind,
    Function.comp_def]

theorem decodeEntries_cons {name : String} {ms : List (String × Tree)} :
    decodeEntries s ((name, j) :: ms) t =
      (j.decode s t).join.bind fun v => (decodeEntries s ms t).map ((name, v) :: ·) := by
  simp only [decodeEntries, Option.bind_eq_bind, Option.pure_def, Option.map_eq_bind,
    Function.comp_def]

/-- Decoding keeps the names of entries. -/
theorem decodeEntries_keys : {ms : List (String × Tree)} → {es : List (String × Value)} →
    decodeEntries s ms t = some es → es.map Prod.fst = ms.map Prod.fst
  | [], _, h => by
    cases h
    rfl
  | (name, j) :: ms, es, h => by
    rw [decodeEntries_cons, Option.bind_eq_some_iff] at h
    obtain ⟨x, -, h⟩ := h
    obtain ⟨rest, hrest, rfl⟩ := Option.map_eq_some_iff.1 h
    exact congrArg (name :: ·) (decodeEntries_keys hrest)

/-- Members count one by one. -/
theorem decodeMembers_cons {name : String} {ms : List (String × Tree)} {r : Record} :
    decodeMembers s ((name, j) :: ms) r =
      (decodeMembers s [(name, j)] r).bind fun as => (decodeMembers s ms r).map (as ++ ·) := by
  simp only [decodeMembers]
  split
  · cases decodeMembers s ms r <;> rfl
  · cases r.target? name with
    | none => cases decodeMembers s ms r <;> rfl
    | some target =>
      obtain ⟨i, t⟩ := target
      cases h : (j.decode s t).join with
      | none => simp [h]
      | some v => cases decodeMembers s ms r <;> simp [h]

theorem decode_box : j.decode s (.box t) = (j.decode s t).map (Option.map .box) := by
  cases j with
  | null => rfl
  | _ => simp only [decode, Ty.around, Option.map_map, Function.comp_def, Option.map_some]

end Json.Tree

end JsonAdapters
