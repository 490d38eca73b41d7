import JsonAdapters.Proofs.Adapter.Restoring

/-!
# Values that were read

Reading never makes a value that writing would lose: what is written for it is read as the value.

Defaults are the one way into a value that does not come from a document. A field that is absent
takes its value from the default instance, and this value has to be one that is read back.

## Main definitions

* `Schema.DefaultsTyped`, `Schema.DefaultsReadBack`: what is asked of default instances.
* `Kept`, `Present`: what holds of values that are read.

## Main statements

* `stable_of_decoded`: values that are read back from what is written are stable.
* `kept_of_decode`: so are values that are read.
* `Value.stable_sorted_iff`: the order of maps has no say in that.
-/

namespace JsonAdapters

open Json (Tree)

variable {S : Schema} {r : Record} {t u : Ty} {v w : Value} {vs : List Value} {i : Nat} {f : Field}
  {fs : List Field} {j : Tree}

/-! ## Defaults -/

/-- Values of default instances have the types of their fields. -/
def Schema.DefaultsTyped (S : Schema) : Prop :=
  ∀ id r d, S.find? id = some r → r.default = some d → Value.FieldsHaveType S d.fields r.fields

/-- The records that a type needs have defaults that are read back from what is written for them, if
that is not `null`. -/
def Schema.DefaultsReadBack (S : Schema) (t : Ty) : Prop :=
  ∀ id r d, S.Needs t (.record id) → S.find? id = some r → r.default = some d →
    ∀ (i : Nat) f v, r.fields[i]? = some f → d.fields[i]? = some v →
      (v.encode S f.declared).kind ≠ .null →
        (v.encode S f.declared).decode S f.declared = some (some v.sorted)

theorem Schema.DefaultsReadBack.of_needs (h : S.DefaultsReadBack t) (hu : S.Needs t u) :
    S.DefaultsReadBack u :=
  fun id r d hneeds => h id r d (hu.trans hneeds)

theorem Schema.DefaultsTyped.sound (h : S.DefaultsTyped) : S.Sound :=
  fun id r d hr hd => (h id r d hr hd).length

/-! ## Members and fields -/

/-- A member that is no `null` gives its field the value that it stands for. -/
theorem Field.decode_declared (hj : j.kind ≠ .null) (hd : j.decode S f.type = some (some v)) :
    j.decode S f.declared = some (some (if f.nullable then .just v else v)) := by
  unfold Field.declared
  cases f.nullable with
  | false => exact hd
  | true => exact (Tree.decode_option hj).trans (by rw [hd]; rfl)

/-- What the first of the members that are written stands for. -/
theorem decodeMembers_written {assigned : List (Nat × Value)}
    (hkey : r.target? f.key = some (i, f.type))
    (h : Tree.decodeMembers S (Value.encodeFields S (v :: vs) (f :: fs)) r = some assigned) :
    ((v.encode S f.declared).kind = .null ∧
      Tree.decodeMembers S (Value.encodeFields S vs fs) r = some assigned) ∨
    ((v.encode S f.declared).kind ≠ .null ∧ ∃ x rest,
      (v.encode S f.declared).decode S f.type = some (some x) ∧
      Tree.decodeMembers S (Value.encodeFields S vs fs) r = some rest ∧
      (i, x) :: rest = assigned) := by
  rw [Value.encodeFields, Tree.decodeMembers] at h
  split at h
  · next hnull => exact .inl ⟨hnull, h⟩
  · next hkind =>
    simp only [hkey, Option.bind_eq_bind, Option.pure_def, Option.bind_eq_some_iff,
      Option.some.injEq] at h
    obtain ⟨x, hx, rest, hrest, heq⟩ := h
    exact .inr ⟨hkind, x, rest, Option.join_eq_some_iff.1 hx, hrest, heq⟩

/-- Members that are written for fields from position `i` on are for no field before. -/
theorem lastFor_written (hkeys : (r.fields.flatMap Field.keys).Nodup) : (vs : List Value) →
    {fs : List Field} → {i : Nat} → {assigned : List (Nat × Value)} → r.fields.drop i = fs →
    Tree.decodeMembers S (Value.encodeFields S vs fs) r = some assigned →
    ∀ k < i, lastFor k assigned = none
  | [], _, _, _, _, h, _, _ | _ :: _, [], _, _, _, h, _, _ => by
    cases h
    rfl
  | v :: vs, f :: fs, i, assigned, hdrop, h, k, hk => by
    obtain ⟨hindex, hdrop⟩ := Record.fields_of_drop hdrop
    obtain ⟨-, hrest⟩ | ⟨-, x, rest, -, hrest, rfl⟩ :=
      decodeMembers_written (Record.target?_key hkeys hindex) h
    · exact lastFor_written hkeys vs hdrop hrest k (by omega)
    · rw [lastFor, lastFor_written hkeys vs hdrop hrest k (by omega), if_neg (by omega)]
      rfl

/-! ## Values that are read back -/

/-- Lists with the same distinct keys in the same order are equal when they are permutations. -/
theorem eq_of_perm_of_keys {α : Type} : {es es' : List (String × α)} →
    es.map Prod.fst = es'.map Prod.fst → (es.map Prod.fst).Nodup → es.Perm es' → es = es'
  | [], _, _, _, hperm => (List.nil_perm.1 hperm).symm
  | _ :: _, [], _, _, hperm => (List.perm_nil.1 hperm)
  | (key, a) :: es, (key', b) :: es', hkeys, hnodup, hperm => by
    obtain ⟨rfl, htail⟩ := List.cons.inj hkeys
    obtain ⟨hnotin, hrest⟩ := List.nodup_cons.1 hnodup
    have hmem : (key, a) ∈ (key, b) :: es' := hperm.mem_iff.1 List.mem_cons_self
    obtain heq | hmem := List.mem_cons.1 hmem
    · cases heq
      exact congrArg _ (eq_of_perm_of_keys htail hrest hperm.cons_inv)
    · have hkey : key ∈ es.map Prod.fst := htail ▸ List.mem_map_of_mem (f := Prod.fst) hmem
      exact absurd hkey hnotin

/-- The entries of a map that is read back are read in the order in which they were written. -/
theorem decodeEntries_of_decoded {es : List (String × Value)} (hu : u = .hashMap t ∨ u = .treeMap t)
    (hnodup : (es.map Prod.fst).Nodup)
    (h : (Tree.object (Value.encodeEntries S es t)).decode S u =
      some (some (Value.map es).sorted)) :
    Tree.decodeEntries S (Value.encodeEntries S es t) t = some (Value.sortedEntries es) := by
  rw [Tree.decode_map hu] at h
  simp only [Option.map_map, Option.map_eq_some_iff, Function.comp_apply, Option.some.injEq,
    Value.sorted, Value.map.injEq] at h
  obtain ⟨es', hd, heq⟩ := h
  have hkeys : es'.map Prod.fst = (Value.sortedEntries es).map Prod.fst := by
    rw [Tree.decodeEntries_keys hd, Value.names_encodeEntries, Value.sortedEntries_keys]
  have hnodup' : ((Value.sortedEntries es).map Prod.fst).Nodup := by
    rw [Value.sortedEntries_keys]
    exact hnodup
  have hperm := (Value.ofEntries_perm (hkeys ▸ hnodup')).symm.trans
    (heq ▸ Value.ofEntries_perm hnodup')
  rw [hd, eq_of_perm_of_keys hkeys (hkeys ▸ hnodup') hperm]

mutual

/-- A value that is read back from what is written for it is stable. -/
theorem stable_of_decoded (hkeys : S.KeysDistinct) : (v : Value) → {t : Ty} → v.HasType S t →
    (v.encode S t).decode S t = some (some v.sorted) → v.Stable S t
  | .vec vs, .vec t, htype, h => by
    rw [Value.encode, Tree.decode_vec] at h
    simp only [Option.map_map, Option.map_eq_some_iff, Function.comp_apply, Option.some.injEq,
      Value.sorted, Value.vec.injEq, exists_eq_right] at h
    exact allStable_of_decoded hkeys vs htype h
  | .just v, .option t, htype, h => by
    rw [Value.encode] at h
    -- `null` would be read as nothing
    have hkind : (v.encode S t).kind ≠ .null := by
      intro hnull
      rw [Tree.kind_eq_iff.1 hnull] at h
      cases h
    simp only [Tree.decode_option hkind, Option.map_eq_some_iff, Value.sorted, Value.just.injEq,
      exists_eq_right] at h
    exact ⟨stable_of_decoded hkeys v htype h, hkind⟩
  | .box v, .box t, htype, h => by
    rw [Value.encode, Tree.decode_box] at h
    simp only [Option.map_eq_some_iff, Value.sorted, Value.box.injEq, exists_eq_right] at h
    exact stable_of_decoded hkeys v htype h
  | .map es, .hashMap t, htype, h => by
    have hd := decodeEntries_of_decoded (.inl rfl) htype.2 h
    exact entriesStable_of_decoded hkeys es htype.1 hd
  | .map es, .treeMap t, htype, h => by
    have hd := decodeEntries_of_decoded (.inr rfl) (Value.nodup_of_ascending htype.2) h
    exact entriesStable_of_decoded hkeys es htype.1 hd
  | .record vs skipped, .record id, ⟨r, hr, htypes⟩, h => by
    rw [Value.encode_record hr, Tree.decode_record hr] at h
    simp only [Option.map_eq_some_iff, Option.bind_eq_some_iff, Record.assemble, Option.some.injEq,
      exists_eq_right, Value.sorted, Value.record.injEq] at h
    obtain ⟨assigned, hassigned, fields, hfields, rfl, rfl⟩ := h
    exact ⟨r, hr, rfl, fieldsStable_of_decoded hkeys vs (hkeys id r hr) rfl htypes hassigned
      (fun _ _ => rfl) hfields⟩
  | .bool _, .scalar .bool, _, _ | .string _, .scalar .string, _, _
  | .single _, .scalar .single, _, _ | .double _, .scalar .double, _, _
  | .int _, .scalar (.signed _), _, _ | .int _, .scalar (.unsigned _), _, _
  | .nothing, .option _, _, _ => trivial

theorem allStable_of_decoded (hkeys : S.KeysDistinct) : (vs : List Value) → {t : Ty} →
    Value.HaveType S vs t →
    Tree.decodeItems S (Value.encodeItems S vs t) t = some (Value.sortedAll vs) →
    Value.AllStable S vs t
  | [], _, _, _ => trivial
  | v :: vs, t, htype, h => by
    rw [Value.encodeItems, Tree.decodeItems_cons] at h
    simp only [Option.bind_eq_some_iff, Option.join_eq_some_iff, Option.map_eq_some_iff,
      Value.sortedAll, List.cons.injEq] at h
    obtain ⟨x, hx, xs, hxs, rfl, rfl⟩ := h
    exact ⟨stable_of_decoded hkeys v htype.1 hx, allStable_of_decoded hkeys vs htype.2 hxs⟩

theorem entriesStable_of_decoded (hkeys : S.KeysDistinct) : (es : List (String × Value)) →
    {t : Ty} → Value.EntriesHaveType S es t →
    Tree.decodeEntries S (Value.encodeEntries S es t) t = some (Value.sortedEntries es) →
    Value.EntriesStable S es t
  | [], _, _, _ => trivial
  | (key, v) :: es, t, htype, h => by
    rw [Value.encodeEntries, Tree.decodeEntries_cons] at h
    simp only [Option.bind_eq_some_iff, Option.join_eq_some_iff, Option.map_eq_some_iff,
      Value.sortedEntries, List.cons.injEq, Prod.mk.injEq, true_and] at h
    obtain ⟨x, hx, xs, hxs, rfl, rfl⟩ := h
    exact ⟨stable_of_decoded hkeys v htype.1 hx, entriesStable_of_decoded hkeys es htype.2 hxs⟩

theorem fieldsStable_of_decoded (hkeys : S.KeysDistinct) : (vs : List Value) → {r : Record} →
    {i : Nat} → {fs : List Field} → {assigned all : List (Nat × Value)} →
    (r.fields.flatMap Field.keys).Nodup → r.fields.drop i = fs → Value.FieldsHaveType S vs fs →
    Tree.decodeMembers S (Value.encodeFields S vs fs) r = some assigned →
    (∀ k, i ≤ k → lastFor k all = lastFor k assigned) →
    r.fieldValuesFrom all i fs = some (Value.sortedAll vs) → Value.FieldsStable S r vs i fs
  | [], _, _, _, _, _, _, _, _, _, _, _ => trivial
  | v :: vs, r, i, f :: fs, assigned, all, hnodup, hdrop, htype, hd, hall, h => by
    obtain ⟨hindex, hdrop⟩ := Record.fields_of_drop hdrop
    obtain ⟨x, xs, hx, hxs, heq⟩ := Record.fieldValuesFrom_cons.1 h
    obtain ⟨rfl, rfl⟩ := List.cons.inj heq
    obtain ⟨hnull, hrest⟩ | ⟨hkind, y, rest, hy, hrest, rfl⟩ :=
      decodeMembers_written (Record.target?_key hnodup hindex) hd
    -- a field that is written as `null` is not assigned, so that its value is what is supplied
    · have hbehind := lastFor_written hnodup vs hdrop hrest i (Nat.lt_succ_self i)
      have hlast : lastFor i all = lastFor i ([] : List (Nat × Value)) :=
        (hall i (Nat.le_refl i)).trans hbehind
      rw [Record.fieldValue_congr hlast, Value.sorted_of_null htype.1 hnull] at hx
      refine ⟨.inr ⟨hnull, hx⟩, ?_⟩
      exact fieldsStable_of_decoded hkeys vs hnodup hdrop htype.2 hrest
        (fun k hk => hall k (by omega)) hxs
    -- and any other is what its member stands for
    · have hbehind := lastFor_written hnodup vs hdrop hrest i (Nat.lt_succ_self i)
      have hlast : lastFor i all = some y := by
        rw [hall i (Nat.le_refl i), lastFor, hbehind, if_pos rfl]
        rfl
      have hsorted : v.sorted = if f.nullable then .just y else y := by
        rw [Record.fieldValue, hlast] at hx
        exact (Option.some.inj hx).symm
      have hback : (v.encode S f.declared).decode S f.declared = some (some v.sorted) := by
        rw [hsorted]
        exact Field.decode_declared hkind hy
      refine ⟨.inl ⟨stable_of_decoded hkeys v htype.1 hback, hkind⟩, ?_⟩
      refine fieldsStable_of_decoded hkeys vs hnodup hdrop htype.2 hrest (fun k hk => ?_) hxs
      rw [hall k (by omega), lastFor, if_neg (by omega), Option.or_none]

end

/-! ## Values that are read -/

/-- The value is one of the type, and what is written for it is read as the value. -/
structure Kept (S : Schema) (v : Value) (t : Ty) : Prop where
  type : v.HasType S t
  stable : v.Stable S t

/-- It is not written as `null`, either. -/
structure Present (S : Schema) (v : Value) (t : Ty) : Prop extends Kept S v t where
  kind : (v.encode S t).kind ≠ .null

theorem kept_of_null : {t : Ty} → {v : Value} → t.ofNull = some v → Kept S v t
  | .option _, _, h => by
    cases h
    exact ⟨trivial, trivial⟩
  | .box _, _, h => by
    obtain ⟨w, hw, rfl⟩ := Option.map_eq_some_iff.1 h
    obtain ⟨htype, hstable⟩ := kept_of_null hw
    exact ⟨htype, hstable⟩

/-- Options and boxes around a present value. -/
theorem present_of_around {bare : Ty → Option Value} : {t : Ty} → {v : Value} →
    (∀ u, S.Needs t u → ∀ w, bare u = some w → Present S w u) → t.around bare = some v →
    Present S v t
  | .option t, _, hbare, h => by
    obtain ⟨w, hw, rfl⟩ := Option.map_eq_some_iff.1 h
    obtain ⟨⟨htype, hstable⟩, hkind⟩ := present_of_around (t := t)
      (fun u hu => hbare u (.trans (.part .self (List.mem_singleton.2 rfl)) hu)) hw
    exact ⟨⟨htype, hstable, hkind⟩, hkind⟩
  | .box t, _, hbare, h => by
    obtain ⟨w, hw, rfl⟩ := Option.map_eq_some_iff.1 h
    obtain ⟨⟨htype, hstable⟩, hkind⟩ := present_of_around (t := t)
      (fun u hu => hbare u (.trans (.part .self (List.mem_singleton.2 rfl)) hu)) hw
    exact ⟨⟨htype, hstable⟩, hkind⟩
  | .scalar c, v, hbare, h => hbare _ .self v h
  | .vec t, v, hbare, h => hbare _ .self v h
  | .hashMap t, v, hbare, h => hbare _ .self v h
  | .treeMap t, v, hbare, h => hbare _ .self v h
  | .record id, v, hbare, h => hbare _ .self v h

/-- A value that is read from other than `null` is present. -/
theorem kept_of_around {bare : Ty → Option Value} {p : Prop}
    (hbare : ∀ u, S.Needs t u → ∀ w, bare u = some w → Present S w u)
    (h : (t.around bare).map some = some (some v)) :
    Kept S v t ∧ (p → (v.encode S t).kind ≠ .null) := by
  obtain ⟨w, hw, heq⟩ := Option.map_eq_some_iff.1 h
  obtain rfl := Option.some.inj heq
  have hpresent := present_of_around hbare hw
  exact ⟨hpresent.toKept, fun _ => hpresent.kind⟩

/-- What a number text is read as is within the bounds of its type. -/
theorem present_of_number {c : Scalar} {text : String} (h : c.ofNumber? text = some v) :
    Present S v (.scalar c) := by
  -- an integer is within its bounds, so it is read back
  have hwithin {n : Int} (h : (if (decide (c.least ≤ n) && decide (n ≤ c.greatest)) then
      some (Value.int n) else none) = some v) : v = .int n ∧ c.least ≤ n ∧ n ≤ c.greatest := by
    split at h
    · next hn =>
      cases h
      simpa using hn
    · cases h
  cases c with
  | bool | string => cases h
  | single | double =>
    cases h
    exact ⟨⟨trivial, trivial⟩, by simp [Value.encode, Tree.kind]⟩
  | signed w =>
    obtain ⟨n, -, hn⟩ := Option.bind_eq_some_iff.1 h
    obtain ⟨rfl, hbounds⟩ := hwithin hn
    exact ⟨⟨hbounds, trivial⟩, by simp [Value.encode, Tree.kind]⟩
  | unsigned w =>
    simp only [Scalar.ofNumber?] at h
    split at h
    · cases h
    · obtain ⟨n, -, hn⟩ := Option.bind_eq_some_iff.1 h
      obtain ⟨rfl, hbounds⟩ := hwithin hn
      exact ⟨⟨hbounds, trivial⟩, by simp [Value.encode, Tree.kind]⟩

/-- A field has the value of its member, or what reading supplies. -/
theorem field_kept {id : RecordId} {assigned : List (Nat × Value)} (hkeys : S.KeysDistinct)
    (hdefaults : S.DefaultsTyped) (hback : S.DefaultsReadBack (.record id))
    (hr : S.find? id = some r) (hassigned : ∀ k x, (k, x) ∈ assigned →
      ∃ g, r.fields[k]? = some g ∧ Present S x g.type)
    (hindex : r.fields[i]? = some f) (h : r.fieldValue assigned i f = some v) :
    v.HasType S f.declared ∧ ((v.Stable S f.declared ∧ (v.encode S f.declared).kind ≠ .null) ∨
      ((v.encode S f.declared).kind = .null ∧ r.fieldValue [] i f = some v)) := by
  cases hlast : lastFor i assigned with
  | some x =>
    obtain ⟨g, hg, ⟨htype, hstable⟩, hkind⟩ := hassigned i x (mem_of_lastFor hlast)
    obtain rfl : f = g := Option.some.inj (hindex.symm.trans hg)
    rw [Record.fieldValue, hlast] at h
    obtain rfl := Option.some.inj h
    unfold Field.declared
    cases f.nullable with
    | false => exact ⟨htype, .inl ⟨hstable, hkind⟩⟩
    | true => exact ⟨htype, .inl ⟨⟨hstable, hkind⟩, hkind⟩⟩
  | none =>
    have hmissing : lastFor i assigned = lastFor i ([] : List (Nat × Value)) := hlast
    rw [Record.fieldValue_congr hmissing] at h
    have hsupplied := h
    simp only [Record.fieldValue, lastFor] at h
    cases hd : r.default with
    | none =>
      -- without a default instance there is nothing
      rw [hd] at h
      dsimp only at h
      split at h
      · next hnullable =>
        cases h
        rw [Field.declared, if_pos hnullable]
        exact ⟨trivial, .inr ⟨rfl, hsupplied⟩⟩
      · cases h
    | some d =>
      rw [hd] at h
      have htype := (hdefaults id r d hr hd).get h hindex
      refine ⟨htype, ?_⟩
      by_cases hnull : (v.encode S f.declared).kind = .null
      · exact .inr ⟨hnull, hsupplied⟩
      · have hread := hback id r d .self hr hd i f v hindex h hnull
        exact .inl ⟨stable_of_decoded hkeys v htype hread, hnull⟩

theorem fields_kept {id : RecordId} {assigned : List (Nat × Value)} (hkeys : S.KeysDistinct)
    (hdefaults : S.DefaultsTyped) (hback : S.DefaultsReadBack (.record id))
    (hr : S.find? id = some r) (hassigned : ∀ k x, (k, x) ∈ assigned →
      ∃ g, r.fields[k]? = some g ∧ Present S x g.type) : (fs : List Field) → {i : Nat} →
    {vs : List Value} → r.fields.drop i = fs → r.fieldValuesFrom assigned i fs = some vs →
    Value.FieldsHaveType S vs fs ∧ Value.FieldsStable S r vs i fs
  | [], _, _, _, h => by
    cases h
    exact ⟨trivial, trivial⟩
  | f :: fs, i, _, hdrop, h => by
    obtain ⟨hindex, hdrop⟩ := Record.fields_of_drop hdrop
    obtain ⟨x, xs, hx, hxs, rfl⟩ := Record.fieldValuesFrom_cons.1 h
    obtain ⟨htype, hstable⟩ := field_kept hkeys hdefaults hback hr hassigned hindex hx
    obtain ⟨htypes, hstables⟩ := fields_kept hkeys hdefaults hback hr hassigned fs hdrop hxs
    exact ⟨⟨htype, htypes⟩, hstable, hstables⟩

theorem Value.entriesHaveType_of_forall : {es : List (String × Value)} →
    (∀ e ∈ es, e.2.HasType S t) → EntriesHaveType S es t
  | [], _ => trivial
  | _ :: _, h => ⟨h _ List.mem_cons_self,
    entriesHaveType_of_forall fun e he => h e (List.mem_cons_of_mem _ he)⟩

theorem Value.entriesStable_iff {es : List (String × Value)} :
    EntriesStable S es t ↔ ∀ e ∈ es, e.2.Stable S t := by
  induction es with
  | nil => exact iff_of_true trivial (List.forall_mem_nil _)
  | cons e es ih =>
    obtain ⟨key, v⟩ := e
    rw [EntriesStable, ih, List.forall_mem_cons]

/-- A map of kept entries. -/
theorem present_of_entries {es : List (String × Value)} (h : ∀ e ∈ es, Kept S e.2 t) :
    Present S (.map (Value.ofEntries es)) (.hashMap t) ∧
      Present S (.map (Value.ofEntries es)) (.treeMap t) := by
  have htype : Value.EntriesHaveType S (Value.ofEntries es) t :=
    Value.entriesHaveType_of_forall fun e he => (h e (Value.mem_ofEntries he)).type
  have hstable : Value.EntriesStable S (Value.ofEntries es) t :=
    Value.entriesStable_iff.2 fun e he => (h e (Value.mem_ofEntries he)).stable
  have hascending := Value.ofEntries_ascending es
  exact ⟨⟨⟨⟨htype, Value.nodup_of_ascending hascending⟩, hstable⟩, nofun⟩,
    ⟨⟨⟨htype, hascending⟩, hstable⟩, nofun⟩⟩

mutual

/-- Values that are read are kept, and only what is read from `null` may be written as `null`. -/
theorem kept_of_decode (hkeys : S.KeysDistinct) (hdefaults : S.DefaultsTyped) : (j : Tree) →
    {t : Ty} → {v : Value} → S.DefaultsReadBack t → j.decode S t = some (some v) →
    Kept S v t ∧ (j.kind ≠ .null → (v.encode S t).kind ≠ .null)
  | .null, _, _, _, h => ⟨kept_of_null (Option.some.inj h), fun hkind => absurd rfl hkind⟩
  | .bool b, t, v, _, h => by
    refine kept_of_around (fun u _ x hx => ?_) h
    split at hx <;> cases hx
    next hu =>
    subst hu
    exact ⟨⟨trivial, trivial⟩, nofun⟩
  | .number text, t, v, _, h => by
    refine kept_of_around (fun u _ x hx => ?_) h
    split at hx
    · exact present_of_number hx
    · cases hx
  | .string x, t, v, _, h => by
    refine kept_of_around (fun u _ x hx => ?_) h
    split at hx <;> cases hx
    next hu =>
    subst hu
    exact ⟨⟨trivial, trivial⟩, nofun⟩
  | .array js, t, v, hback, h => by
    refine kept_of_around (fun u hu x hx => ?_) h
    split at hx
    · obtain ⟨vs, hvs, rfl⟩ := Option.map_eq_some_iff.1 hx
      have hitems := items_kept hkeys hdefaults js
        (hback.of_needs (.part hu (List.mem_singleton.2 rfl))) hvs
      exact ⟨⟨hitems.1, hitems.2⟩, nofun⟩
    · cases hx
  | .object ms, t, v, hback, h => by
    refine kept_of_around (fun u hu x hx => ?_) h
    split at hx
    · obtain ⟨es, hes, rfl⟩ := Option.map_eq_some_iff.1 hx
      exact (present_of_entries (entries_kept hkeys hdefaults ms
        (hback.of_needs (.part hu (List.mem_singleton.2 rfl))) hes)).1
    · obtain ⟨es, hes, rfl⟩ := Option.map_eq_some_iff.1 hx
      exact (present_of_entries (entries_kept hkeys hdefaults ms
        (hback.of_needs (.part hu (List.mem_singleton.2 rfl))) hes)).2
    · next id =>
      simp only [Option.bind_eq_some_iff, Record.assemble, Option.map_eq_some_iff] at hx
      obtain ⟨r, hr, assigned, hassigned, fields, hfields, rfl⟩ := hx
      have hmembers := members_kept hkeys hdefaults ms (fun f hf =>
        hback.of_needs (.part hu (Ty.mem_parts_record hr hf))) hassigned
      obtain ⟨htypes, hstables⟩ := fields_kept hkeys hdefaults (hback.of_needs hu) hr hmembers
        r.fields rfl hfields
      exact ⟨⟨⟨r, hr, htypes⟩, r, hr, rfl, hstables⟩, nofun⟩
    · cases hx

theorem items_kept (hkeys : S.KeysDistinct) (hdefaults : S.DefaultsTyped) : (js : List Tree) →
    {t : Ty} → {vs : List Value} → S.DefaultsReadBack t → Tree.decodeItems S js t = some vs →
    Value.HaveType S vs t ∧ Value.AllStable S vs t
  | [], _, _, _, h => by
    cases h
    exact ⟨trivial, trivial⟩
  | j :: js, t, vs, hback, h => by
    rw [Tree.decodeItems_cons] at h
    simp only [Option.bind_eq_some_iff, Option.join_eq_some_iff, Option.map_eq_some_iff] at h
    obtain ⟨x, hx, xs, hxs, rfl⟩ := h
    have hitem := (kept_of_decode hkeys hdefaults j hback hx).1
    have hitems := items_kept hkeys hdefaults js hback hxs
    exact ⟨⟨hitem.type, hitems.1⟩, hitem.stable, hitems.2⟩

theorem entries_kept (hkeys : S.KeysDistinct) (hdefaults : S.DefaultsTyped) :
    (ms : List (String × Tree)) → {t : Ty} → {es : List (String × Value)} →
    S.DefaultsReadBack t → Tree.decodeEntries S ms t = some es → ∀ e ∈ es, Kept S e.2 t
  | [], _, _, _, h => by
    cases h
    nofun
  | (name, j) :: ms, t, es, hback, h => by
    rw [Tree.decodeEntries_cons] at h
    simp only [Option.bind_eq_some_iff, Option.join_eq_some_iff, Option.map_eq_some_iff] at h
    obtain ⟨x, hx, xs, hxs, rfl⟩ := h
    rw [List.forall_mem_cons]
    exact ⟨(kept_of_decode hkeys hdefaults j hback hx).1, entries_kept hkeys hdefaults ms hback hxs⟩

theorem members_kept (hkeys : S.KeysDistinct) (hdefaults : S.DefaultsTyped) :
    (ms : List (String × Tree)) → {r : Record} → {assigned : List (Nat × Value)} →
    (∀ f ∈ r.fields, S.DefaultsReadBack f.type) → Tree.decodeMembers S ms r = some assigned →
    ∀ k x, (k, x) ∈ assigned → ∃ g, r.fields[k]? = some g ∧ Present S x g.type
  | [], _, _, _, h => by
    cases h
    nofun
  | (name, j) :: ms, r, assigned, hback, h => by
    rw [Tree.decodeMembers] at h
    split at h
    · exact members_kept hkeys hdefaults ms hback h
    · next hkind =>
      split at h
      · exact members_kept hkeys hdefaults ms hback h
      · next i t htarget =>
        simp only [Option.bind_eq_bind, Option.pure_def, Option.bind_eq_some_iff,
          Option.join_eq_some_iff, Option.some.injEq] at h
        obtain ⟨x, hx, rest, hrest, rfl⟩ := h
        -- the member is one for the field that its name addresses
        obtain ⟨k, hk, f, hf, heq⟩ : ∃ k, r.fieldIndex? name = some k ∧ ∃ f,
            r.fields[k]? = some f ∧ (k, f.type) = (i, t) := by
          simpa only [Record.target?, Option.bind_eq_some_iff, Option.map_eq_some_iff] using htarget
        cases heq
        have hfield := kept_of_decode hkeys hdefaults j (hback f (List.mem_of_getElem? hf)) hx
        intro k' x' hmem
        obtain heq | hmem := List.mem_cons.1 hmem
        · cases heq
          exact ⟨f, hf, hfield.1, hfield.2 hkind⟩
        · exact members_kept hkeys hdefaults ms hback hrest k' x' hmem

end

/-! ## The order of maps -/

theorem Value.entriesStable_ofEntries_iff {es : List (String × Value)}
    (hnodup : (es.map Prod.fst).Nodup) :
    EntriesStable S (ofEntries es) t ↔ EntriesStable S es t := by
  rw [entriesStable_iff, entriesStable_iff]
  exact forall_congr' fun e => imp_congr_left (ofEntries_perm hnodup).mem_iff

mutual

/-- The order of maps has no say in whether a value is stable. -/
theorem Value.stable_sorted_iff : (v : Value) → {t : Ty} → v.HasType S t →
    (v.sorted.Stable S t ↔ v.Stable S t)
  | .vec vs, .vec _, htype => allStable_sorted_iff vs htype
  | .just v, .option t, htype => by
    rw [sorted, Stable, Stable, stable_sorted_iff v htype, encode_sorted_kind]
  | .box v, .box _, htype => stable_sorted_iff v htype
  | .map es, .hashMap t, htype => by
    have hnodup := sortedEntries_keys es ▸ htype.2
    exact (entriesStable_ofEntries_iff hnodup).trans (entriesStable_sorted_iff es htype.1)
  | .map es, .treeMap t, htype => by
    have hnodup := sortedEntries_keys es ▸ nodup_of_ascending htype.2
    exact (entriesStable_ofEntries_iff hnodup).trans (entriesStable_sorted_iff es htype.1)
  | .record vs skipped, .record id, ⟨r, hr, htypes⟩ => by
    refine exists_congr fun R => and_congr_right fun hR => and_congr_right fun _ => ?_
    obtain rfl : r = R := Option.some.inj (hr.symm.trans hR)
    exact fieldsStable_sorted_iff vs htypes
  | .bool _, .scalar .bool, _ | .string _, .scalar .string, _
  | .single _, .scalar .single, _ | .double _, .scalar .double, _
  | .int _, .scalar (.signed _), _ | .int _, .scalar (.unsigned _), _
  | .nothing, .option _, _ => Iff.rfl

theorem Value.allStable_sorted_iff : (vs : List Value) → {t : Ty} → HaveType S vs t →
    (AllStable S (sortedAll vs) t ↔ AllStable S vs t)
  | [], _, _ => Iff.rfl
  | v :: vs, _, htype =>
    and_congr (stable_sorted_iff v htype.1) (allStable_sorted_iff vs htype.2)

theorem Value.entriesStable_sorted_iff : (es : List (String × Value)) → {t : Ty} →
    EntriesHaveType S es t → (EntriesStable S (sortedEntries es) t ↔ EntriesStable S es t)
  | [], _, _ => Iff.rfl
  | (_, v) :: es, _, htype =>
    and_congr (stable_sorted_iff v htype.1) (entriesStable_sorted_iff es htype.2)

theorem Value.fieldsStable_sorted_iff : (vs : List Value) → {R : Record} → {i : Nat} →
    {fs : List Field} → FieldsHaveType S vs fs →
    (FieldsStable S R (sortedAll vs) i fs ↔ FieldsStable S R vs i fs)
  | [], _, _, _, _ => Iff.rfl
  | v :: vs, _, i, f :: fs, htype => by
    refine and_congr ?_ (fieldsStable_sorted_iff vs htype.2)
    rw [stable_sorted_iff v htype.1, encode_sorted_kind]
    refine or_congr Iff.rfl (and_congr_right fun hnull => ?_)
    rw [sorted_of_null htype.1 hnull]

end

end JsonAdapters
