import JsonAdapters.Adapter.Read
import JsonAdapters.Proofs.Adapter.Decoding

/-!
# Members of records

A record is read by noting down, field by field, the value of the last member that came by. Decoding
lists the members and looks for the last one afterwards. Both put the same record together.

## Main definitions

* `assign`: note down the value of one member.
* `Record.Noted`: what was noted down for the fields that are left.

## Main statements

* `Record.ofMembers_eq_ok_iff`: the two ways to put a record together.
* `Record.ofMembers_eq_error`: a record is not put together when a field has no value.
-/

namespace JsonAdapters

/-- Note down the value of a member for the field at a position. -/
def assign (values : Assignments) (a : Nat × Value) : Assignments :=
  values.set a.1 (some (some a.2))

/-- At each position, the last value that was noted down stays. -/
theorem getElem?_foldl_assign (as : List (Nat × Value)) (values : Assignments) (k : Nat) :
    (as.foldl assign values)[k]? =
      values[k]?.map fun old => ((lastFor k as).map some).or old := by
  -- the first member is noted down before the others, and they may replace it
  induction as generalizing values with
  | nil =>
    cases h : values[k]? <;> simp [lastFor, h]
  | cons a as ih =>
    obtain ⟨i, v⟩ := a
    rw [List.foldl_cons, ih, assign, List.getElem?_set, lastFor]
    by_cases hi : i = k
    · subst hi
      by_cases hlt : i < values.length
      · rw [if_pos rfl, if_pos hlt, if_pos rfl, List.getElem?_eq_getElem hlt]
        cases lastFor i as <;> rfl
      · rw [if_pos rfl, if_neg hlt, if_pos rfl, List.getElem?_eq_none (by omega)]
        rfl
    · rw [if_neg hi, if_neg hi, Option.or_none]

theorem length_foldl_assign (as : List (Nat × Value)) (values : Assignments) :
    (as.foldl assign values).length = values.length := by
  induction as generalizing values with
  | nil => rfl
  | cons a as ih => rw [List.foldl_cons, ih, assign, List.length_set]

private theorem except_cons_eq_ok_iff {ε α : Type} {x : Except ε α} {y : Except ε (List α)}
    {l : List α} : (do
      let v ← x
      let vs ← y
      return v :: vs : Except ε (List α)) = .ok l ↔
      ∃ v vs, x = .ok v ∧ y = .ok vs ∧ v :: vs = l := by
  cases x with
  | error e => exact ⟨nofun, by rintro ⟨_, _, h, -⟩; cases h⟩
  | ok v =>
    cases y with
    | error e => exact ⟨nofun, by rintro ⟨_, _, -, h, -⟩; cases h⟩
    | ok vs =>
      constructor
      · intro h
        cases h
        exact ⟨v, vs, rfl, rfl, rfl⟩
      · rintro ⟨_, _, ⟨⟩, ⟨⟩, rfl⟩
        rfl

private theorem except_cons_eq_error {ε α : Type} {x : Except ε α} {y : Except ε (List α)} {e : ε}
    (h : (do
      let v ← x
      let vs ← y
      return v :: vs : Except ε (List α)) = .error e) : x = .error e ∨ y = .error e := by
  cases x with
  | error e' =>
    cases h
    exact .inl rfl
  | ok v =>
    cases y with
    | error e' =>
      cases h
      exact .inr rfl
    | ok vs => cases h

namespace Record

variable {r : Record}

/-- What was noted down for the fields of a record, once all members came by. -/
theorem getElem?_assigned {as : List (Nat × Value)} {k : Nat} (hk : k < r.fields.length) :
    (as.foldl assign r.unassigned)[k]? = some ((lastFor k as).map some) := by
  rw [getElem?_foldl_assign, unassigned, List.getElem?_map, List.getElem?_eq_getElem hk]
  cases lastFor k as <;> rfl

/-- The value of a field from what was noted down for it, or from the default value. -/
def notedValue (r : Record) (f : Field) (noted : Option (Option Value)) (default : Option Value) :
    Except AdapterError Value :=
  match default with
  | none => r.ownValue f noted.join
  | some d =>
    match noted with
    | some read => r.ownValue f read
    | none => .ok d

theorem notedValue_eq_ok_iff {f : Field} {as : List (Nat × Value)} {i : Nat} {w : Value}
    (hi : ∀ d, r.default = some d → i < d.fields.length) :
    r.notedValue f ((lastFor i as).map some) (r.default.bind fun d => d.fields[i]?) = .ok w ↔
      r.fieldValue as i f = some w := by
  rw [fieldValue]
  cases hd : r.default with
  | none =>
    cases lastFor i as with
    | some v => simp [notedValue, ownValue]
    | none => cases hn : f.nullable <;> simp [notedValue, ownValue, hn]
  | some d =>
    have hget := List.getElem?_eq_getElem (hi d hd)
    cases lastFor i as with
    | some v => simp [notedValue, ownValue, hget]
    | none => simp [notedValue, hget]

/-- One step of putting values of fields together. -/
theorem fieldValues_cons {f : Field} {fs : List Field} {a : Option (Option Value)}
    {values : Assignments} {i : Nat} (hi : ∀ d, r.default = some d → i < d.fields.length) :
    r.fieldValues (f :: fs) (a :: values) (r.default.map fun d => d.fields.drop i) = (do
      let v ← r.notedValue f a (r.default.bind fun d => d.fields[i]?)
      let vs ← r.fieldValues fs values (r.default.map fun d => d.fields.drop (i + 1))
      return v :: vs) := by
  cases hd : r.default with
  | none => rfl
  | some d =>
    have hget := List.getElem?_eq_getElem (hi d hd)
    simp only [Option.map_some, Option.bind_some, List.drop_eq_getElem_cons (hi d hd), hget,
      fieldValues, notedValue]
    cases a <;> rfl

/-- The fields from position `i` on are left, and the values are what members gave to them. -/
structure Noted (r : Record) (as : List (Nat × Value)) (i : Nat) (fs : List Field)
    (values : Assignments) : Prop where
  length : values.length = fs.length
  noted : ∀ k, k < fs.length → values[k]? = some ((lastFor (i + k) as).map some)
  default : ∀ d, r.default = some d → d.fields.length = i + fs.length

variable {as : List (Nat × Value)} {vs : List Value} {i : Nat} {f : Field} {fs : List Field}
  {values : Assignments} {e : AdapterError}

theorem Noted.all (hdefault : ∀ d, r.default = some d → d.fields.length = r.fields.length) :
    r.Noted as 0 r.fields (as.foldl assign r.unassigned) := by
  refine ⟨?_, fun k hk => ?_, fun d hd => ?_⟩
  · rw [length_foldl_assign, unassigned, List.length_map]
  · rw [getElem?_assigned hk, Nat.zero_add]
  · rw [hdefault d hd, Nat.zero_add]

/-- The default instance is walked in step with the fields. -/
theorem Noted.lt (h : r.Noted as i (f :: fs) values) (d : DefaultInstance)
    (hd : r.default = some d) : i < d.fields.length := by
  rw [h.default d hd, List.length_cons]
  omega

theorem Noted.cons (h : r.Noted as i (f :: fs) values) :
    ∃ rest, values = (lastFor i as).map some :: rest ∧ r.Noted as (i + 1) fs rest := by
  cases values with
  | nil => cases h.length
  | cons a values =>
    obtain rfl : a = (lastFor i as).map some := by simpa using h.noted 0 (Nat.zero_lt_succ _)
    refine ⟨values, rfl, Nat.succ.inj h.length, fun k hk => ?_, fun d hd => ?_⟩
    · have hnoted := h.noted (k + 1) (Nat.succ_lt_succ hk)
      rwa [List.getElem?_cons_succ, Nat.add_comm k 1, ← Nat.add_assoc] at hnoted
    · rw [h.default d hd, List.length_cons]
      omega

/-- Values of fields are put together alike, whatever is left of the fields. -/
theorem fieldValues_eq_ok_iff (h : r.Noted as i fs values) :
    r.fieldValues fs values (r.default.map fun d => d.fields.drop i) = .ok vs ↔
      r.fieldValuesFrom as i fs = some vs := by
  induction fs generalizing i values vs with
  | nil => cases hd : r.default <;> simp [fieldValues, fieldValuesFrom]
  | cons f fs ih =>
    obtain ⟨rest, rfl, hrest⟩ := h.cons
    rw [fieldValues_cons h.lt, fieldValuesFrom, except_cons_eq_ok_iff]
    simp only [notedValue_eq_ok_iff h.lt, ih hrest, Option.bind_eq_bind, Option.bind_eq_some_iff,
      Option.pure_def, Option.some.injEq]
    constructor
    · rintro ⟨v, ws, hv, hws, rfl⟩
      exact ⟨v, hv, ws, hws, rfl⟩
    · rintro ⟨v, hv, ws, hws, rfl⟩
      exact ⟨v, ws, hv, hws, rfl⟩

/-- A record is put together from what was noted down as it is from the list of its members. -/
theorem ofMembers_eq_ok_iff {v : Value}
    (hdefault : ∀ d, r.default = some d → d.fields.length = r.fields.length) :
    r.ofMembers (as.foldl assign r.unassigned) = .ok v ↔ r.assemble as = some v := by
  -- the values of the fields are found in the assignments, or in the default
  have hfields {vs : List Value} :
      r.fieldValues r.fields (as.foldl assign r.unassigned) (r.default.map fun d => d.fields) =
        .ok vs ↔ r.fieldValuesFrom as 0 r.fields = some vs := fieldValues_eq_ok_iff (.all hdefault)
  rw [assemble, Option.map_eq_some_iff]
  constructor
  · intro h
    cases hf : r.fieldValues r.fields (as.foldl assign r.unassigned)
        (r.default.map fun d => d.fields) with
    | error e =>
      simp only [ofMembers, hf] at h
      cases h
    | ok vs =>
      simp only [ofMembers, hf] at h
      cases h
      exact ⟨vs, hfields.1 hf, rfl⟩
  · rintro ⟨vs, hvs, rfl⟩
    simp only [ofMembers, hfields.2 hvs]
    rfl

/-- All that can be wrong with a field is that it is missing. -/
theorem ownValue_error {o : Option Value} (h : r.ownValue f o = .error e) :
    e = .missingField r.id.ident f.name := by
  unfold ownValue at h
  split at h
  · cases h
  · split at h <;> cases h
    rfl

/-- All that can be wrong with the members of a record is that one is missing. -/
theorem ofMembers_error (h : r.ofMembers values = .error e) :
    ∃ f ∈ r.fields, e = .missingField r.id.ident f.name := by
  have hgo (fs : List Field) (values : Assignments) (ds : Option (List Value))
      (h : r.fieldValues fs values ds = .error e) :
      ∃ f ∈ fs, e = .missingField r.id.ident f.name := by
    have hcons {f : Field} {fs : List Field} {x : Except AdapterError Value}
        {y : Except AdapterError (List Value)} (hx : x = .error e → ∃ o, r.ownValue f o = .error e)
        (hy : y = .error e → ∃ f ∈ fs, e = .missingField r.id.ident f.name)
        (h : (do
          let v ← x
          let vs ← y
          return v :: vs : Except AdapterError (List Value)) = .error e) :
        ∃ f' ∈ f :: fs, e = .missingField r.id.ident f'.name := by
      obtain h | h := except_cons_eq_error h
      · obtain ⟨o, ho⟩ := hx h
        exact ⟨f, List.mem_cons_self .., ownValue_error ho⟩
      · obtain ⟨f', hf', he⟩ := hy h
        exact ⟨f', List.mem_cons_of_mem _ hf', he⟩
    -- one field without default instance, one with a member, and one with a default
    fun_induction r.fieldValues fs values ds with
    | case1 f fs a as ih => exact hcons (fun h => ⟨_, h⟩) ih h
    | case2 f fs as d ds rest read ih => exact hcons (fun h => ⟨read, h⟩) ih h
    | case3 f fs as d ds rest ih =>
      exact hcons (x := .ok d) (fun hd => by cases hd) ih h
    | case4 => cases h
  cases hf : r.fieldValues r.fields values (r.default.map (·.fields)) with
  | error e' =>
    simp only [ofMembers, hf] at h
    cases h
    exact hgo _ _ _ hf
  | ok vs =>
    simp only [ofMembers, hf] at h
    cases h

/-- A field that is reported, of the ones that are left, has no value. -/
theorem fieldValues_eq_error (h : r.Noted as i fs values)
    (he : r.fieldValues fs values (r.default.map fun d => d.fields.drop i) = .error e) :
    ∃ k f, fs[k]? = some f ∧ r.fieldValue as (i + k) f = none ∧
      e = .missingField r.id.ident f.name := by
  induction fs generalizing i values with
  | nil => cases hd : r.default <;> simp [fieldValues] at he
  | cons f fs ih =>
    obtain ⟨rest, rfl, hrest⟩ := h.cons
    rw [fieldValues_cons h.lt] at he
    -- the first field that fails is the one that is reported
    obtain hfirst | hlater := except_cons_eq_error he
    · refine ⟨0, f, rfl, ?_, ?_⟩
      · rw [Nat.add_zero, Option.eq_none_iff_forall_ne_some]
        intro w hw
        cases hfirst.symm.trans ((notedValue_eq_ok_iff h.lt).2 hw)
      · unfold notedValue at hfirst
        split at hfirst
        · exact ownValue_error hfirst
        · split at hfirst
          · exact ownValue_error hfirst
          · cases hfirst
    · obtain ⟨k, g, hg, hnone, he⟩ := ih hrest hlater
      exact ⟨k + 1, g, hg, by rwa [Nat.add_right_comm, Nat.add_assoc] at hnone, he⟩

/-- When a record is not put together, a field that is reported has no value. -/
theorem ofMembers_eq_error
    (hdefault : ∀ d, r.default = some d → d.fields.length = r.fields.length)
    (h : r.ofMembers (as.foldl assign r.unassigned) = .error e) :
    ∃ i f, r.fields[i]? = some f ∧ r.fieldValue as i f = none ∧
      e = .missingField r.id.ident f.name := by
  cases hf : r.fieldValues r.fields (as.foldl assign r.unassigned)
      (r.default.map fun d => d.fields) with
  | ok vs =>
    simp only [ofMembers, hf] at h
    cases h
  | error e' =>
    simp only [ofMembers, hf] at h
    cases h
    obtain ⟨k, f, hk, hnone, he⟩ := fieldValues_eq_error (.all hdefault) hf
    exact ⟨k, f, hk, by rwa [Nat.zero_add] at hnone, he⟩

end Record

end JsonAdapters
