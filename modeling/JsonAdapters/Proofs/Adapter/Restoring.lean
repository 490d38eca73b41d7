import JsonAdapters.Proofs.Adapter.Reading
import JsonAdapters.Proofs.Adapter.Sorting
import JsonAdapters.Proofs.Json.Printing

/-!
# Values of written trees

The tree of a value stands for the value again, if no part of the value is mistaken for an absent
one. `null` stands for too many things for that to hold of all values. What is asked is that a field
that is written as `null` holds what a record without the field has there.

## Main definitions

* `Value.Stable`: no part of the value is lost in its tree.
* `Schema.FloatFree`: what is asked of types.
* `Restores`: the tree of a value stands for the value.

## Main statements

* `restoresValue`: the trees of stable values restore them.
-/

namespace JsonAdapters

open Json (Tree)

/-! ## Stable values -/

namespace Value

mutual

/-- What is written for the value is read as the value. Something is told from nothing, fields whose
values are written as `null` hold what reading supplies, and so do skipped fields. -/
def Stable (S : Schema) : Value → Ty → Prop
  | .vec vs, .vec t => AllStable S vs t
  | .just v, .option t => Stable S v t ∧ (v.encode S t).kind ≠ .null
  | .box v, .box t => Stable S v t
  | .map es, .hashMap t | .map es, .treeMap t => EntriesStable S es t
  | .record vs skipped, .record id => ∃ r, S.find? id = some r ∧ skipped = r.suppliedSkipped ∧
      FieldsStable S r vs 0 r.fields
  | _, _ => True

/-- All values of a list are stable. -/
def AllStable (S : Schema) : List Value → Ty → Prop
  | [], _ => True
  | v :: vs, t => Stable S v t ∧ AllStable S vs t

/-- The values of all entries are stable. -/
def EntriesStable (S : Schema) : List (String × Value) → Ty → Prop
  | [], _ => True
  | (_, v) :: es, t => Stable S v t ∧ EntriesStable S es t

/-- The values of fields are stable, the first of which is at position `i` of the record, or they
are what a record without members has there. -/
def FieldsStable (S : Schema) (r : Record) : List Value → Nat → List Field → Prop
  | v :: vs, i, f :: fs =>
    ((Stable S v f.declared ∧ (v.encode S f.declared).kind ≠ .null) ∨
      ((v.encode S f.declared).kind = .null ∧ r.fieldValue [] i f = some v)) ∧
    FieldsStable S r vs (i + 1) fs
  | _, _, _ => True

end

end Value

/-- No value of the type holds floating point numbers. -/
def Schema.FloatFree (S : Schema) (t : Ty) : Prop :=
  ∀ u, S.Needs t u → u ≠ .scalar .single ∧ u ≠ .scalar .double

/-- It is enough to look at a list of types that are each other's parts. -/
theorem Schema.FloatFree.of_closed {S : Schema} {t : Ty} {L : List Ty} (ht : t ∈ L)
    (hL : ∀ u ∈ L, u.parts S ⊆ L) (h : ∀ u ∈ L, u ≠ .scalar .single ∧ u ≠ .scalar .double) :
    S.FloatFree t :=
  fun u hu => h u (hu.mem_of_closed ht hL)

theorem Schema.FloatFree.part {S : Schema} {t u : Ty} (h : S.FloatFree t) (hu : u ∈ t.parts S) :
    S.FloatFree u :=
  fun v hv => h v (.trans (.part .self hu) hv)

/-! ## Scalars -/

/-- An integer within the bounds of its type is read off its text. -/
theorem Scalar.ofNumber?_toString {c : Scalar} {w : Width} {n : Int}
    (hc : c = .signed w ∨ c = .unsigned w) (hleast : c.least ≤ n) (hgreatest : n ≤ c.greatest) :
    c.ofNumber? (toString n) = some (.int n) := by
  have hwithin : (decide (c.least ≤ n) && decide (n ≤ c.greatest)) = true := by
    simp [hleast, hgreatest]
  obtain rfl | rfl := hc
  · simp only [ofNumber?, integerOf?_toString, Option.bind_some, hwithin, if_true]
  -- a sign is refused by unsigned types, and there is none
  · have hsign : (toString n).toList.head? ≠ some '-' := by
      have hn : 0 ≤ n := hleast
      rw [toList_toString, if_pos hn]
      intro hhead
      exact absurd (Json.allDigits_toDigits _ _ (List.mem_of_mem_head? hhead)) (by decide)
    simp only [ofNumber?, hsign, if_false, integerOf?_toString, Option.bind_some, hwithin, if_true]

theorem Scalar.bounds (c : Scalar) :
    -Binary.twoPow 64 ≤ c.least ∧ c.greatest ≤ (Binary.twoPow 64 : Int) := by
  cases c with
  | signed w | unsigned w => cases w <;> decide
  | _ => decide

/-! ## Fields -/

variable {S : Schema} {r : Record} {t : Ty} {v : Value} {vs : List Value} {i : Nat} {f : Field}
  {fs : List Field}

/-- The first of the fields from position `i` on, and the others. -/
theorem Record.fields_of_drop (h : r.fields.drop i = f :: fs) :
    r.fields[i]? = some f ∧ r.fields.drop (i + 1) = fs := by
  refine ⟨?_, ?_⟩
  · rw [← Nat.add_zero i, ← List.getElem?_drop, h]
    rfl
  · rw [← List.tail_drop, h]
    rfl

/-- One more field has its value. -/
theorem Record.fieldValuesFrom_cons {all : List (Nat × Value)} :
    r.fieldValuesFrom all i (f :: fs) = some vs ↔ ∃ x xs, r.fieldValue all i f = some x ∧
      r.fieldValuesFrom all (i + 1) fs = some xs ∧ x :: xs = vs := by
  simp only [fieldValuesFrom, Option.bind_eq_bind, Option.pure_def, Option.bind_eq_some_iff,
    Option.some.injEq, exists_and_left]

/-- Fields are found under their keys when no name addresses two of them. -/
theorem Record.target?_key (h : (r.fields.flatMap Field.keys).Nodup) (hf : r.fields[i]? = some f) :
    r.target? f.key = some (i, f.type) := by
  have hindex : r.fieldIndex? f.key = some i := by
    obtain ⟨hi, rfl⟩ := List.getElem?_eq_some_iff.1 hf
    refine List.findIdx?_eq_some_iff_getElem.2 ⟨hi, by simp [Field.keys], fun k hk hmem => ?_⟩
    have hapart := List.pairwise_iff_getElem.1 (List.pairwise_flatMap.1 h).2 k i (by omega) hi hk
    exact hapart _ (by simpa using hmem) _ (List.mem_cons_self ..) rfl
  simp only [Record.target?, hindex, Option.bind_some, hf, Option.map_some]

/-! ## Trees of values -/

/-- The tree of a value is within the limits of readers, and stands for the value. -/
structure Restores (S : Schema) (v : Value) (t : Ty) : Prop where
  decoded : (v.encode S t).decode S t = some (some v.sorted)
  supported : (v.encode S t).Supported
  finite : v.Finite

/-- So do the items of an array. -/
structure RestoresItems (S : Schema) (vs : List Value) (t : Ty) : Prop where
  decoded : Tree.decodeItems S (Value.encodeItems S vs t) t = some (Value.sortedAll vs)
  supported : Tree.SupportedItems (Value.encodeItems S vs t)
  finite : Value.AllFinite vs

/-- So do the entries of a map. -/
structure RestoresEntries (S : Schema) (es : List (String × Value)) (t : Ty) : Prop where
  decoded : Tree.decodeEntries S (Value.encodeEntries S es t) t = some (Value.sortedEntries es)
  supported : Tree.SupportedMembers (Value.encodeEntries S es t)
  finite : Value.EntriesFinite es

/-- So do the members of a record, for fields from position `i` on. -/
structure RestoresFields (S : Schema) (r : Record) (vs : List Value) (i : Nat) (fs : List Field)
    (assigned : List (Nat × Value)) : Prop where
  decoded : Tree.decodeMembers S (Value.encodeFields S vs fs) r = some assigned
  supported : Tree.SupportedMembers (Value.encodeFields S vs fs)
  finite : Value.AllFinite vs
  behind : ∀ k < i, lastFor k assigned = none
  assembled : ∀ all, (∀ k, i ≤ k → lastFor k all = lastFor k assigned) →
    r.fieldValuesFrom all i fs = some (Value.sortedAll vs)

theorem restores_int {c : Scalar} {w : Width} {n : Int} (hc : c = .signed w ∨ c = .unsigned w)
    (hleast : c.least ≤ n) (hgreatest : n ≤ c.greatest) :
    Restores S (.int n) (.scalar c) := by
  obtain ⟨hlow, hhigh⟩ := c.bounds
  refine ⟨?_, integer_isSupported (by omega) (by omega), trivial⟩
  change ((c.ofNumber? (toString n)).map some) = _
  rw [Scalar.ofNumber?_toString hc hleast hgreatest]
  rfl

theorem restores_just (h : Restores S v t) (hkind : (v.encode S t).kind ≠ .null) :
    Restores S (.just v) (.option t) := by
  refine ⟨?_, h.supported, h.finite⟩
  rw [Value.encode, Tree.decode_option hkind, h.decoded]
  rfl

theorem restores_box (h : Restores S v t) : Restores S (.box v) (.box t) := by
  refine ⟨?_, h.supported, h.finite⟩
  rw [Value.encode, Tree.decode_box, h.decoded]
  rfl

theorem restores_vec (h : RestoresItems S vs t) : Restores S (.vec vs) (.vec t) := by
  refine ⟨?_, h.supported, h.finite⟩
  rw [Value.encode, Tree.decode_vec, h.decoded]
  rfl

theorem restores_hashMap {es : List (String × Value)} (h : RestoresEntries S es t) :
    Restores S (.map es) (.hashMap t) := by
  refine ⟨?_, h.supported, h.finite⟩
  rw [Value.encode, Tree.decode_map (.inl rfl), h.decoded]
  rfl

theorem restores_treeMap {es : List (String × Value)} (h : RestoresEntries S es t) :
    Restores S (.map es) (.treeMap t) := by
  refine ⟨?_, h.supported, h.finite⟩
  rw [Value.encode, Tree.decode_map (.inr rfl), h.decoded]
  rfl

theorem restores_record {id : RecordId} {assigned : List (Nat × Value)} (hr : S.find? id = some r)
    (h : RestoresFields S r vs 0 r.fields assigned) :
    Restores S (.record vs r.suppliedSkipped) (.record id) := by
  have hencode : (Value.record vs r.suppliedSkipped).encode S (.record id) =
      .object (Value.encodeFields S vs r.fields) := Value.encode_record hr
  refine ⟨?_, hencode ▸ h.supported, h.finite⟩
  rw [hencode, Tree.decode_record hr, h.decoded, Option.bind_some, Record.assemble,
    h.assembled _ fun _ _ => rfl]
  rfl

theorem restoresItems_cons (hv : Restores S v t) (hvs : RestoresItems S vs t) :
    RestoresItems S (v :: vs) t := by
  refine ⟨?_, ⟨hv.supported, hvs.supported⟩, ⟨hv.finite, hvs.finite⟩⟩
  rw [Value.encodeItems, Tree.decodeItems_cons, hv.decoded, hvs.decoded]
  rfl

theorem restoresEntries_cons {key : String} {es : List (String × Value)} (hv : Restores S v t)
    (hes : RestoresEntries S es t) : RestoresEntries S ((key, v) :: es) t := by
  refine ⟨?_, ⟨hv.supported, hes.supported⟩, ⟨hv.finite, hes.finite⟩⟩
  rw [Value.encodeEntries, Tree.decodeEntries_cons, hv.decoded, hes.decoded]
  rfl

/-- A member that is no `null` is found again. -/
theorem restoresFields_cons_held {w : Value} {assigned : List (Nat × Value)}
    (hkey : r.target? f.key = some (i, f.type)) (hv : v = if f.nullable then .just w else w)
    (hw : Restores S w f.type) (hkind : (w.encode S f.type).kind ≠ .null)
    (hfs : RestoresFields S r vs (i + 1) fs assigned) :
    RestoresFields S r (v :: vs) i (f :: fs) ((i, w.sorted) :: assigned) := by
  have hencode : v.encode S f.declared = w.encode S f.type := by
    rw [hv, Field.declared]
    cases f.nullable <;> rfl
  have hfinite : v.Finite := by
    rw [hv]
    cases f.nullable <;> exact hw.finite
  have hsorted : v.sorted = if f.nullable then .just w.sorted else w.sorted := by
    rw [hv]
    cases f.nullable <;> rfl
  refine ⟨?_, ⟨hencode ▸ hw.supported, hfs.supported⟩, ⟨hfinite, hfs.finite⟩, fun k hk => ?_,
    fun all hall => ?_⟩
  · rw [Value.encodeFields, Tree.decodeMembers, hencode, if_neg hkind, hkey]
    simp only [hw.decoded, hfs.decoded, Option.join_some, Option.bind_eq_bind, Option.bind_some,
      Option.pure_def]
  · rw [lastFor, hfs.behind k (by omega), if_neg (by omega)]
    rfl
  · refine Record.fieldValuesFrom_cons.2 ⟨v.sorted, _, ?_, hfs.assembled all fun k hk => ?_, rfl⟩
    · -- no later member is one for this field
      have hlast : lastFor i all = some w.sorted := by
        rw [hall i (Nat.le_refl i), lastFor, hfs.behind i (Nat.lt_succ_self i), if_pos rfl]
        rfl
      rw [Record.fieldValue, hlast, hsorted]
    · rw [hall k (by omega), lastFor, if_neg (by omega), Option.or_none]

/-- A member that is `null` leaves its field to what reading supplies. -/
theorem restoresFields_cons_missing {assigned : List (Nat × Value)}
    (hnull : v.encode S f.declared = .null) (hsorted : v.sorted = v) (hfinite : v.Finite)
    (hmissing : r.fieldValue [] i f = some v)
    (hfs : RestoresFields S r vs (i + 1) fs assigned) :
    RestoresFields S r (v :: vs) i (f :: fs) assigned := by
  refine ⟨?_, ⟨?_, hfs.supported⟩, ⟨hfinite, hfs.finite⟩, fun k hk => hfs.behind k (by omega),
    fun all hall => ?_⟩
  · rw [Value.encodeFields, hnull]
    exact hfs.decoded
  · rw [hnull]
    trivial
  · refine Record.fieldValuesFrom_cons.2
      ⟨v.sorted, _, ?_, hfs.assembled all fun k hk => hall k (by omega), rfl⟩
    have hlast : lastFor i all = lastFor i ([] : List (Nat × Value)) :=
      (hall i (Nat.le_refl i)).trans (hfs.behind i (Nat.lt_succ_self i))
    rw [Record.fieldValue_congr hlast, hmissing, hsorted]

/-! ## All values -/

/-- The value is restored from its tree, whatever its type is. -/
def RestoresValue (S : Schema) (v : Value) : Prop :=
  ∀ ⦃t⦄, v.HasType S t → v.Stable S t → S.FloatFree t → Restores S v t

/-- The values of fields are restored from the members of a record. -/
def RestoresMembers (S : Schema) (vs : List Value) : Prop :=
  ∀ ⦃r i fs⦄, (r.fields.flatMap Field.keys).Nodup → r.fields.drop i = fs →
    Value.FieldsHaveType S vs fs → Value.FieldsStable S r vs i fs →
    (∀ f ∈ fs, S.FloatFree f.type) → ∃ assigned, RestoresFields S r vs i fs assigned

/-- A value that is written as `null` has no numbers. -/
theorem Value.finite_of_null : {v : Value} → {t : Ty} → v.HasType S t →
    (v.encode S t).kind = .null → v.Finite
  | .nothing, _, _, _ => trivial
  | .just v, .option t, htype, hnull | .box v, .box t, htype, hnull =>
    finite_of_null (v := v) (t := t) htype hnull
  | .bool _, _, _, _ | .int _, _, _, _ | .string _, _, _, _ => trivial
  | .single _, .scalar .single, _, hnull | .double _, .scalar .double, _, hnull => nomatch hnull
  | .vec _, .vec _, _, hnull => nomatch hnull
  | .map _, .hashMap _, _, hnull | .map _, .treeMap _, _, hnull => nomatch hnull
  | .record .., .record _, _, hnull => nomatch hnull

/-- One field is restored, and then the others. -/
theorem RestoresMembers.cons (hv : RestoresValue S v)
    (hjust : ∀ w, v = .just w → RestoresValue S w) (hvs : RestoresMembers S vs) :
    RestoresMembers S (v :: vs) := by
  intro r i fs hkeys hdrop htypes hstable hfree
  cases fs with
  | nil => exact htypes.elim
  | cons f fs =>
  obtain ⟨htype, htypes⟩ := htypes
  obtain ⟨hf, hstable⟩ := hstable
  have hfreef : S.FloatFree f.type := hfree f (List.mem_cons_self ..)
  obtain ⟨hindex, hdrop⟩ := Record.fields_of_drop hdrop
  have hkey : r.target? f.key = some (i, f.type) := Record.target?_key hkeys hindex
  obtain ⟨assigned, hrest⟩ : ∃ assigned, RestoresFields S r vs (i + 1) fs assigned :=
    hvs hkeys hdrop htypes hstable fun g hg => hfree g (List.mem_cons_of_mem f hg)
  obtain ⟨hstablev, hkind⟩ | ⟨hnull, hmissing⟩ := hf
  · cases hnullable : f.nullable with
    | false =>
      rw [Field.declared_eq_type hnullable] at htype hstablev hkind
      exact ⟨_, restoresFields_cons_held hkey (by simp [hnullable]) (hv htype hstablev hfreef) hkind
        hrest⟩
    -- the member of a nullable field is what is in the option
    | true =>
      rw [Field.declared_eq_option hnullable] at htype hstablev hkind
      cases v with
      | just w =>
        exact ⟨_, restoresFields_cons_held hkey (by simp [hnullable])
          (hjust w rfl htype hstablev.1 hfreef) hstablev.2 hrest⟩
      | nothing => exact absurd rfl hkind
      | _ => exact htype.elim
  · exact ⟨assigned, restoresFields_cons_missing (Tree.kind_eq_iff.1 hnull)
      (Value.sorted_of_null htype hnull) (Value.finite_of_null htype hnull) hmissing hrest⟩

theorem RestoresMembers.nil : RestoresMembers S [] := by
  intro r i fs _ _ htypes _ _
  cases fs with
  | cons => exact htypes.elim
  | nil => exact ⟨[], rfl, trivial, trivial, fun _ _ => rfl, fun _ _ => rfl⟩

/-- Fields of a record of the schema are restored. -/
theorem RestoresMembers.record {id : RecordId} {skipped : List Value} (hvs : RestoresMembers S vs)
    (hkeys : S.KeysDistinct) (htype : (Value.record vs skipped).HasType S (.record id))
    (hstable : (Value.record vs skipped).Stable S (.record id))
    (hfree : S.FloatFree (.record id)) : Restores S (.record vs skipped) (.record id) := by
  obtain ⟨r, hr, htypes⟩ := htype
  obtain ⟨r', hr', rfl, hfields⟩ := hstable
  obtain rfl : r = r' := Option.some.inj (hr.symm.trans hr')
  obtain ⟨assigned, hrestores⟩ : ∃ assigned, RestoresFields S r vs 0 r.fields assigned := by
    exact hvs (hkeys id r hr) rfl htypes hfields fun f hf => hfree.part (Ty.mem_parts_record hr hf)
  exact restores_record hr hrestores

mutual

/-- Every value is restored. -/
theorem restoresValue (hkeys : S.KeysDistinct) : (v : Value) → RestoresValue S v
  | .bool _, .scalar .bool, _, _, _ => ⟨rfl, trivial, trivial⟩
  | .string _, .scalar .string, _, _, _ => ⟨rfl, trivial, trivial⟩
  -- without floating-point types, these two cases do not arise
  | .single _, .scalar .single, _, _, hfree => absurd rfl (hfree _ .self).1
  | .double _, .scalar .double, _, _, hfree => absurd rfl (hfree _ .self).2
  | .int _, .scalar (.signed _), htype, _, _ => restores_int (.inl rfl) htype.1 htype.2
  | .int _, .scalar (.unsigned _), htype, _, _ => restores_int (.inr rfl) htype.1 htype.2
  | .vec vs, .vec _, htype, hstable, hfree =>
    restores_vec (restoresItems hkeys vs htype hstable (hfree.part (List.mem_singleton.2 rfl)))
  | .nothing, .option _, _, _, _ => ⟨rfl, trivial, trivial⟩
  | .just v, .option _, htype, hstable, hfree =>
    restores_just (restoresValue hkeys v htype hstable.1 (hfree.part (List.mem_singleton.2 rfl)))
      hstable.2
  | .box v, .box _, htype, hstable, hfree =>
    restores_box (restoresValue hkeys v htype hstable (hfree.part (List.mem_singleton.2 rfl)))
  | .map es, .hashMap _, htype, hstable, hfree =>
    restores_hashMap (restoresEntries hkeys es htype.1 hstable
      (hfree.part (List.mem_singleton.2 rfl)))
  | .map es, .treeMap _, htype, hstable, hfree =>
    restores_treeMap (restoresEntries hkeys es htype.1 hstable
      (hfree.part (List.mem_singleton.2 rfl)))
  | .record vs _, .record _, htype, hstable, hfree =>
    (restoresMembers hkeys vs).record hkeys htype hstable hfree

theorem restoresItems (hkeys : S.KeysDistinct) : (vs : List Value) → ∀ {t}, Value.HaveType S vs t →
    Value.AllStable S vs t → S.FloatFree t → RestoresItems S vs t
  | [], _, _, _, _ => ⟨rfl, trivial, trivial⟩
  | v :: vs, _, htype, hstable, hfree =>
    restoresItems_cons (restoresValue hkeys v htype.1 hstable.1 hfree)
      (restoresItems hkeys vs htype.2 hstable.2 hfree)

theorem restoresEntries (hkeys : S.KeysDistinct) : (es : List (String × Value)) → ∀ {t},
    Value.EntriesHaveType S es t → Value.EntriesStable S es t → S.FloatFree t →
    RestoresEntries S es t
  | [], _, _, _, _ => ⟨rfl, trivial, trivial⟩
  | (_, v) :: es, _, htype, hstable, hfree =>
    restoresEntries_cons (restoresValue hkeys v htype.1 hstable.1 hfree)
      (restoresEntries hkeys es htype.2 hstable.2 hfree)

theorem restoresMembers (hkeys : S.KeysDistinct) : (vs : List Value) → RestoresMembers S vs
  | [] => .nil
  | v :: vs => .cons (restoresValue hkeys v)
      (fun _ h => match v, h with | .just w, h => Value.just.inj h ▸ restoresValue hkeys w)
      (restoresMembers hkeys vs)

end

end JsonAdapters
