import JsonAdapters.Proofs.Adapter.Documents
import JsonAdapters.Proofs.Adapter.Restoring

/-!
# Round trips

What is written is read back. `null` stands for too many things for that to hold of all values: a
value is faithful when none of its parts is mistaken for an absent one. Maps are read back in the
order of their keys, however they were walked.

## Main definitions

* `Value.Faithful`: no part of the value is lost in its tree.

## Main statements

* `Value.stable_of_faithful`: what is faithful is restored from its tree.
* `Registry.decode_encode`: reading the text of a value.
-/

namespace JsonAdapters

open Json (Tree maxDepth)
open Samples (address addressId bool i32 i64 registryOf registryOf_valid_of_tables schema
  schema_keysDistinct schema_sound string u32 user)

/-! ## Faithful values -/

namespace Value

mutual

/-- What is written for the value is read as the value. Something is told from nothing, values of
fields are no `null`, but where nothing is read as nothing, and skipped fields hold what reading
gives to them. -/
def Faithful (S : Schema) : Value → Ty → Prop
  | .vec vs, .vec t => AllFaithful S vs t
  | .just v, .option t => Faithful S v t ∧ (v.encode S t).kind ≠ .null
  | .box v, .box t => Faithful S v t
  | .map es, .hashMap t | .map es, .treeMap t => EntriesFaithful S es t
  | .record vs skipped, .record id => ∃ r, S.find? id = some r ∧ skipped = r.suppliedSkipped ∧
      FieldsFaithful S r vs 0 r.fields
  | _, _ => True

/-- All values of a list are faithful. -/
def AllFaithful (S : Schema) : List Value → Ty → Prop
  | [], _ => True
  | v :: vs, t => Faithful S v t ∧ AllFaithful S vs t

/-- The values of all entries are faithful. -/
def EntriesFaithful (S : Schema) : List (String × Value) → Ty → Prop
  | [], _ => True
  | (_, v) :: es, t => Faithful S v t ∧ EntriesFaithful S es t

/-- The values of fields are faithful, the first of which is at position `i` of the record. A field
may hold nothing if that is what it holds in the default instance, or if there is none. -/
def FieldsFaithful (S : Schema) (r : Record) : List Value → Nat → List Field → Prop
  | v :: vs, i, f :: fs =>
    ((Faithful S v f.declared ∧ (v.encode S f.declared).kind ≠ .null) ∨
      (f.nullable = true ∧ v = .nothing ∧
        ∀ d, r.default = some d → d.fields[i]? = some .nothing)) ∧
    FieldsFaithful S r vs (i + 1) fs
  | _, _, _ => True

end

variable {S : Schema}

/-- A field that holds nothing is one that the record supplies with nothing. -/
theorem fieldValue_of_nothing {r : Record} {i : Nat} {f : Field} (hnullable : f.nullable = true)
    (hdefault : ∀ d, r.default = some d → d.fields[i]? = some .nothing) :
    r.fieldValue [] i f = some .nothing := by
  simp only [Record.fieldValue, lastFor]
  cases hd : r.default with
  | some d => exact hdefault d hd
  | none => exact if_pos hnullable

mutual

/-- Faithful values are stable: nothing is the only value of a field that may be written as
`null`. -/
theorem stable_of_faithful : (v : Value) → {t : Ty} → v.HasType S t → v.Faithful S t → v.Stable S t
  | .vec vs, .vec _, htype, h => allStable_of_faithful vs htype h
  | .just v, .option _, htype, h => ⟨stable_of_faithful v htype h.1, h.2⟩
  | .box v, .box _, htype, h => stable_of_faithful v htype h
  | .map es, .hashMap _, htype, h | .map es, .treeMap _, htype, h =>
    entriesStable_of_faithful es htype.1 h
  | .record vs _, .record _, ⟨r, hr, htypes⟩, ⟨r', hr', hskipped, hfields⟩ => by
    obtain rfl : r = r' := Option.some.inj (hr.symm.trans hr')
    exact ⟨r, hr, hskipped, fieldsStable_of_faithful vs htypes hfields⟩
  | .bool _, .scalar .bool, _, _ | .string _, .scalar .string, _, _
  | .single _, .scalar .single, _, _ | .double _, .scalar .double, _, _
  | .int _, .scalar (.signed _), _, _ | .int _, .scalar (.unsigned _), _, _
  | .nothing, .option _, _, _ => trivial

theorem allStable_of_faithful : (vs : List Value) → {t : Ty} → HaveType S vs t →
    AllFaithful S vs t → AllStable S vs t
  | [], _, _, _ => trivial
  | v :: vs, _, htype, h =>
    ⟨stable_of_faithful v htype.1 h.1, allStable_of_faithful vs htype.2 h.2⟩

theorem entriesStable_of_faithful : (es : List (String × Value)) → {t : Ty} →
    EntriesHaveType S es t → EntriesFaithful S es t → EntriesStable S es t
  | [], _, _, _ => trivial
  | (_, v) :: es, _, htype, h =>
    ⟨stable_of_faithful v htype.1 h.1, entriesStable_of_faithful es htype.2 h.2⟩

theorem fieldsStable_of_faithful {r : Record} : (vs : List Value) → {i : Nat} → {fs : List Field} →
    FieldsHaveType S vs fs → FieldsFaithful S r vs i fs → FieldsStable S r vs i fs
  | [], _, _, _, _ => trivial
  | v :: vs, i, f :: fs, htype, ⟨hf, hfs⟩ => by
    refine ⟨?_, fieldsStable_of_faithful vs htype.2 hfs⟩
    obtain ⟨hv, hkind⟩ | ⟨hnullable, rfl, hdefault⟩ := hf
    · exact .inl ⟨stable_of_faithful v htype.1 hv, hkind⟩
    · exact .inr ⟨rfl, fieldValue_of_nothing hnullable hdefault⟩

end

end Value

/-! ## Registries -/

/-- A value that its tree restores is written, and its text is read as the value. The registry stays
one that can be asked. -/
theorem Registry.decode_encode_of_restores {T : Ty} {r : Registry} {v : Value}
    (hv : r.Valid fun S c => ¬S.Needs T c.serves) (hsound : r.schema.Sound) (hs : Served r T)
    (htype : v.HasType r.schema T) (hrestores : Restores r.schema v T)
    (hdepth : (v.encode r.schema T).depth ≤ maxDepth) :
    ∃ text r', r.encode T (some v) = (.ok text, r') ∧
      r'.Valid (fun S c => ¬S.Needs T c.serves) ∧ r.Grows r' ∧
      (r'.decode T (.ofText text)).1 = .ok (some v.sorted) := by
  have hp : Plain (fun S c => ¬S.Needs T c.serves) r.schema T := ⟨hsound, fun _ h => h⟩
  obtain ⟨text, r', hencode, hv', hg, hdoc⟩ :=
    Registry.encode_eq_ok Schema.writesLawfully_of_unneeded hv hp hs
      (fun x hx => Option.some.inj hx ▸ htype) (fun x hx => Option.some.inj hx ▸ hrestores.finite)
  refine ⟨text, r', hencode, hv', hg, ?_⟩
  have hdecoded : (v.encode r.schema T).decode r'.schema T = some (some v.sorted) := by
    rw [hg.schema]
    exact hrestores.decoded
  exact (Registry.decode_eq_ok_iff Schema.readsLawfully_of_unneeded hv' (hp.of_grows hg)
    (hs.grows hg) ⟨hdoc, rfl, hdepth⟩ hrestores.supported).2 hdecoded

/-- A faithful value of a type without floating point numbers is written, and its text is read as
the value, however the entries of its maps were walked. -/
theorem Registry.decode_encode {T : Ty} {r : Registry} {v : Value}
    (hv : r.Valid fun S c => ¬S.Needs T c.serves) (hsound : r.schema.Sound)
    (hkeys : r.schema.KeysDistinct) (hs : Served r T) (hfree : r.schema.FloatFree T)
    (htype : v.HasType r.schema T) (hfaithful : v.Faithful r.schema T)
    (hdepth : (v.encode r.schema T).depth ≤ maxDepth) :
    ∃ text r', r.encode T (some v) = (.ok text, r') ∧
      (r'.decode T (.ofText text)).1 = .ok (some v.sorted) := by
  have hstable := v.stable_of_faithful htype hfaithful
  have hrestores := restoresValue hkeys v htype hstable hfree
  obtain ⟨text, r', hencode, -, -, hdecode⟩ :=
    Registry.decode_encode_of_restores hv hsound hs htype hrestores hdepth
  exact ⟨text, r', hencode, hdecode⟩

/-- A user with scores that are walked out of order is read with scores in order. -/
theorem Samples.decode_encode_user :
    let scores (es : List (String × Value)) : Value := .record
      [.int 7, .string "Ann", .nothing, .vec [.string "a", .string ""], .map es,
        .map [("on", .bool true)], .record [.string "Main St", .string "X", .just (.int 1)] [],
        .vec []] []
    ∃ text r', (registryOf ["provider"]).encode (.record user.id)
        (some (scores [("b", .int 2), ("a", .int (-1))])) = (.ok text, r') ∧
      (r'.decode (.record user.id) (.ofText text)).1 =
        .ok (some (scores [("a", .int (-1)), ("b", .int 2)])) := by
  intro scores
  -- all types that the record needs
  let types : List Ty := [.record user.id, .record addressId, .vec (.record addressId),
    .vec string, .hashMap i32, .treeMap bool, i64, i32, u32, bool, string]
  have htypes : ∀ t ∈ types, t.parts schema ⊆ types := by decide
  have hserved : Served (registryOf ["provider"]) (.record user.id) :=
    .of_closed rfl (List.mem_cons_self ..) htypes (by decide)
  have hfree : schema.FloatFree (.record user.id) :=
    .of_closed (List.mem_cons_self ..) htypes (by decide)
  have haddress : Value.HasType schema
      (.record [.string "Main St", .string "X", .just (.int 1)] []) (.record addressId) :=
    ⟨address, rfl, trivial, trivial, ⟨by decide, by decide⟩, trivial⟩
  have htype : (scores [("b", .int 2), ("a", .int (-1))]).HasType schema (.record user.id) :=
    ⟨user, rfl, ⟨by decide, by decide⟩, trivial, trivial, ⟨trivial, trivial, trivial⟩,
      ⟨⟨⟨by decide, by decide⟩, ⟨by decide, by decide⟩, trivial⟩, by decide⟩,
      ⟨⟨trivial, trivial⟩, List.pairwise_singleton ..⟩, haddress, trivial, trivial⟩
  have haddress' : Value.Faithful schema
      (.record [.string "Main St", .string "X", .just (.int 1)] []) (.record addressId) :=
    ⟨address, rfl, rfl, .inl ⟨trivial, nofun⟩, .inl ⟨trivial, nofun⟩,
      .inl ⟨⟨trivial, nofun⟩, nofun⟩, trivial⟩
  have hfaithful :
      (scores [("b", .int 2), ("a", .int (-1))]).Faithful schema (.record user.id) :=
    ⟨user, rfl, rfl, .inl ⟨trivial, nofun⟩, .inl ⟨trivial, nofun⟩, .inr ⟨rfl, rfl, nofun⟩,
      .inl ⟨⟨trivial, trivial, trivial⟩, nofun⟩, .inl ⟨⟨trivial, trivial, trivial⟩, nofun⟩,
      .inl ⟨⟨trivial, trivial⟩, nofun⟩, .inl ⟨haddress', nofun⟩, .inl ⟨trivial, nofun⟩, trivial⟩
  exact Registry.decode_encode (v := scores [("b", .int 2), ("a", .int (-1))])
    (registryOf_valid_of_tables (by decide)) schema_sound schema_keysDistinct hserved hfree htype
    hfaithful (by decide)

end JsonAdapters
