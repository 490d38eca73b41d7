import JsonAdapters.Proofs.Adapter.Missing
import JsonAdapters.Proofs.Adapter.Stability
import JsonAdapters.Proofs.Adapter.Texts

/-!
# Omitted fields

Whether a field must be given is told by the look of its type, and whether its value is written as
`null` by the adapters that the value meets. The two do not always agree: nothing in a box is
`null`, and a member that is `null` does not count for its field. A value with such a part leaves
out the field. Its own text is not read back, and no other text of a value lacks a field.

## Main definitions

* `Value.Vanishes`: the value is nothing, however it is wrapped.
* `Value.LeavesOut`: a field that must be given vanishes in a part of the value.

## Main statements

* `Value.LeavesOut.lacks`, `Json.Tree.Lacks.leavesOut`: the tree of a value lacks the fields that
  the value leaves out, and no others.
* `Registry.decode_encode_missingField`: reading the text of a value that leaves out a field.
-/

namespace JsonAdapters

open Json (IsDocument Reader Tree)

variable {S : Schema} {id id' : RecordId} {f g : Field} {r : Record} {t T : Ty} {i : Nat} {j : Tree}
  {v w : Value} {vs : List Value}

/-! ## Values that leave out a field -/

namespace Value

/-- The value is nothing, however it is wrapped. -/
def Vanishes : Value → Prop
  | .nothing => True
  | .just v | .box v => Vanishes v
  | _ => False

/-- The values that vanish are the ones that are written as `null`. -/
theorem vanishes_iff : {v : Value} → {t : Ty} → v.HasType S t →
    (v.Vanishes ↔ (v.encode S t).kind = .null)
  | .nothing, .option _, _ => iff_of_true trivial rfl
  | .just v, .option t, h | .box v, .box t, h => vanishes_iff (v := v) (t := t) h
  | .bool _, _, _ | .int _, _, _ | .single _, _, _ | .double _, _, _ | .string _, _, _
  | .vec _, .vec _, _ | .map _, .hashMap _, _ | .map _, .treeMap _, _ | .record .., .record _, _ =>
    iff_of_false id nofun

/-- Somewhere in the value there is a record with a field that must be given, and the value of this
field vanishes. -/
inductive LeavesOut (S : Schema) (id : RecordId) (f : Field) : Ty → Value → Prop
  | field {r : Record} {i : Nat} {vs skipped : List Value} {w : Value} : S.find? id = some r →
    r.Requires i f → vs[i]? = some w → w.Vanishes →
    LeavesOut S id f (.record id) (.record vs skipped)
  | vec {t : Ty} {vs : List Value} {v : Value} : v ∈ vs → LeavesOut S id f t v →
    LeavesOut S id f (.vec t) (.vec vs)
  | just {t : Ty} {v : Value} : LeavesOut S id f t v → LeavesOut S id f (.option t) (.just v)
  | box {t : Ty} {v : Value} : LeavesOut S id f t v → LeavesOut S id f (.box t) (.box v)
  | map {t u : Ty} {es : List (String × Value)} {e : String × Value} :
    (u = .hashMap t ∨ u = .treeMap t) → e ∈ es → LeavesOut S id f t e.2 →
    LeavesOut S id f u (.map es)
  | record {id' : RecordId} {r : Record} {i : Nat} {g : Field} {vs skipped : List Value}
    {w : Value} : S.find? id' = some r → r.fields[i]? = some g → vs[i]? = some w →
    LeavesOut S id f g.declared w → LeavesOut S id f (.record id') (.record vs skipped)

/-! ## Members of records -/

/-- A member that is written for a field counts for this field if it is no `null`. -/
theorem counted?_encode (hkeys : (r.fields.flatMap Field.keys).Nodup) (hg : r.fields[i]? = some g) :
    r.counted? (g.key, v.encode S g.declared) =
      if (v.encode S g.declared).kind = .null then none else some (i, g.type) := by
  rw [Record.counted?, Record.target?_key hkeys hg]

/-- The members that count are the ones of fields whose values do not vanish. -/
theorem mem_positions_encodeFields (hkeys : (r.fields.flatMap Field.keys).Nodup)
    (htypes : FieldsHaveType S vs r.fields) (hw : vs[i]? = some w) :
    i ∈ r.positions (encodeFields S vs r.fields) ↔ ¬w.Vanishes := by
  obtain ⟨hi, -⟩ := List.getElem?_eq_some_iff.1 hw
  obtain ⟨g, hg⟩ : ∃ g, r.fields[i]? = some g :=
    ⟨_, List.getElem?_eq_getElem (htypes.length ▸ hi)⟩
  rw [vanishes_iff (htypes.get hw hg), Record.positions, List.mem_filterMap]
  constructor
  · rintro ⟨m, hm, hi⟩
    obtain ⟨k, g', w', hg', hw', rfl⟩ := mem_encodeFields.1 hm
    rw [counted?_encode hkeys hg'] at hi
    split at hi
    · cases hi
    · next hnull =>
      cases hi
      cases hg.symm.trans hg'
      cases hw.symm.trans hw'
      exact hnull
  · intro hnull
    refine ⟨_, mem_encodeFields.2 ⟨i, g, w, hg, hw, rfl⟩, ?_⟩
    rw [counted?_encode hkeys hg, if_neg hnull, Option.map_some]

/-- The parts of a record that is written are the members of fields whose values do not vanish. -/
theorem mem_parts_record {x : Ty × Tree} (hr : S.find? id = some r)
    (hkeys : (r.fields.flatMap Field.keys).Nodup)
    (hx : x ∈ (Tree.object (encodeFields S vs r.fields)).parts S (.record id)) :
    ∃ (i : Nat) (g : Field) (w : Value), r.fields[i]? = some g ∧ vs[i]? = some w ∧
      (w.encode S g.declared).kind ≠ .null ∧ (g.type, w.encode S g.declared) = x := by
  rw [Tree.parts, hr] at hx
  obtain ⟨m, hm, hx⟩ := List.mem_filterMap.1 hx
  obtain ⟨i, g, w, hg, hw, rfl⟩ := mem_encodeFields.1 hm
  obtain ⟨field, hfield, rfl⟩ := Option.map_eq_some_iff.1 hx
  rw [counted?_encode hkeys hg] at hfield
  split at hfield
  · cases hfield
  · next hnull =>
    cases hfield
    exact ⟨i, g, w, hg, hw, hnull, rfl⟩

/-! ## Trees of values that leave out a field -/

/-- What a value leaves out is lacking in its tree. -/
theorem LeavesOut.lacks (h : v.LeavesOut S id f t) (htype : v.HasType S t)
    (hgenerated : S.Generated t) : (v.encode S t).Lacks S id f t := by
  induction h with
  -- a field is missing just where its content vanishes
  | @field r i vs skipped w hr hrequires hw hvanishes =>
    obtain ⟨r', hr', htypes⟩ := htype
    obtain rfl : r = r' := Option.some.inj (hr.symm.trans hr')
    have hmem := mem_positions_encodeFields (hgenerated.nodup_keys hr) htypes hw
    rw [encode_record hr]
    exact .field hr hrequires fun hi => hmem.1 hi hvanishes
  | @vec t vs v hv _ ih =>
    have hlacks := ih (HaveType.of_mem htype hv) (hgenerated.part (List.mem_singleton.2 rfl))
    rw [encode, encodeItems_eq_map]
    exact .item (List.mem_map_of_mem hv) hlacks
  | @just t v _ ih =>
    have hlacks := ih htype (hgenerated.part (List.mem_singleton.2 rfl))
    refine .part (x := (t, v.encode S t)) ?_ hlacks
    rw [encode, Tree.parts, if_neg hlacks.kind_ne_null]
    exact List.mem_singleton.2 rfl
  | @box t v _ ih =>
    exact .part (x := (t, v.encode S t)) (List.mem_singleton.2 rfl)
      (ih htype (hgenerated.part (List.mem_singleton.2 rfl)))
  | @map t u es e hu he _ ih =>
    have htree : (Value.map es).encode S u = .object (encodeEntries S es t) := by
      obtain rfl | rfl := hu <;> rfl
    have hlacks : (e.2.encode S t).Lacks S id f t := by
      obtain rfl | rfl := hu <;>
        exact ih (htype.1.of_mem he) (hgenerated.part (List.mem_singleton.2 rfl))
    rw [htree, encodeEntries_eq_map]
    exact .entry hu (List.mem_map_of_mem he) hlacks
  | @record id' r i g vs skipped w hr hg hw _ ih =>
    obtain ⟨r', hr', htypes⟩ := htype
    obtain rfl : r = r' := Option.some.inj (hr.symm.trans hr')
    have hlacks := ih (htypes.get hw hg) (hgenerated.declared hr (List.mem_of_getElem? hg))
    have hcounted := counted?_encode (S := S) (v := w) (hgenerated.nodup_keys hr) hg
    rw [if_neg hlacks.kind_ne_null] at hcounted
    rw [encode_record hr]
    refine .member hr (mem_encodeFields.2 ⟨i, g, w, hg, hw, rfl⟩) hcounted ?_
    -- a nullable field is encoded as what its option holds
    cases hnullable : g.nullable with
    | false => rwa [Field.declared_eq_type hnullable] at hlacks ⊢
    | true =>
      rw [Field.declared_eq_option hnullable] at hlacks ⊢
      exact hlacks.of_option

/-- A value of a field leaves out what its content leaves out. -/
theorem leavesOut_declared (htype : v.HasType S g.declared)
    (hnull : (v.encode S g.declared).kind ≠ .null)
    (h : ∀ w : Value, w.HasType S g.type → w.encode S g.type = v.encode S g.declared →
      w.LeavesOut S id f g.type) : v.LeavesOut S id f g.declared := by
  cases hnullable : g.nullable with
  | false =>
    rw [Field.declared_eq_type hnullable] at htype h ⊢
    exact h v htype rfl
  | true =>
    rw [Field.declared_eq_option hnullable] at htype hnull h ⊢
    cases v with
    | nothing => exact absurd rfl hnull
    | just w => exact .just (h w htype rfl)
    | _ => exact htype.elim

/-- A record in whose tree no member counts for a field that must be given leaves out the field. -/
theorem leavesOut_field {ms : List (String × Tree)} (hr : S.find? id = some r)
    (hrequires : r.Requires i f) (hi : i ∉ r.positions ms) (htype : v.HasType S (.record id))
    (hgenerated : S.Generated (.record id)) (hj : v.encode S (.record id) = .object ms) :
    v.LeavesOut S id f (.record id) := by
  cases v with
  | record vs skipped =>
    obtain ⟨r', hr', htypes⟩ := htype
    obtain rfl : r = r' := Option.some.inj (hr.symm.trans hr')
    rw [encode_record hr] at hj
    cases hj
    obtain ⟨w, hw⟩ : ∃ w, vs[i]? = some w := by
      obtain ⟨hlt, -⟩ := List.getElem?_eq_some_iff.1 hrequires.field
      exact ⟨_, List.getElem?_eq_getElem (htypes.length ▸ hlt)⟩
    have hmem := mem_positions_encodeFields (hgenerated.nodup_keys hr) htypes hw
    exact .field hr hrequires hw (Classical.not_not.1 (mt hmem.2 hi))
  | _ => exact htype.elim

/-- What a part of the tree of a record leaves out is left out by the value of its field. -/
theorem leavesOut_member {x : Ty × Tree} (htype : v.HasType S (.record id'))
    (hgenerated : S.Generated (.record id'))
    (hx : x ∈ (v.encode S (.record id')).parts S (.record id'))
    (h : ∀ w : Value, w.HasType S x.1 → S.Generated x.1 → w.encode S x.1 = x.2 →
      w.LeavesOut S id f x.1) : v.LeavesOut S id f (.record id') := by
  cases v with
  | record vs skipped =>
    obtain ⟨r, hr, htypes⟩ := htype
    rw [encode_record hr] at hx
    obtain ⟨i, g, w, hg, hw, hnull, rfl⟩ := mem_parts_record hr (hgenerated.nodup_keys hr) hx
    have hslot := Ty.mem_parts_record hr (List.mem_of_getElem? hg)
    refine .record hr hg hw (leavesOut_declared (htypes.get hw hg) hnull fun w' htype' hw' => ?_)
    exact h w' htype' (hgenerated.part hslot) hw'
  | _ => exact htype.elim

/-- Parts of the tree of a value are trees of parts of the value, but for options around members.
There is one case for each kind of type. -/
theorem leavesOut_of_part {x : Ty × Tree} (htype : v.HasType S t) (hgenerated : S.Generated t)
    (hx : x ∈ (v.encode S t).parts S t)
    (h : ∀ w : Value, w.HasType S x.1 → S.Generated x.1 → w.encode S x.1 = x.2 →
      w.LeavesOut S id f x.1) : v.LeavesOut S id f t := by
  cases t with
  | scalar => cases hx
  | vec u =>
    have hu : S.Generated u := hgenerated.part (List.mem_singleton.2 rfl)
    cases v with
    | vec vs =>
      obtain ⟨k, hk, rfl⟩ := List.mem_map.1 hx
      rw [encode, Tree.items, encodeItems_eq_map] at hk
      obtain ⟨w, hw, rfl⟩ := List.mem_map.1 hk
      exact .vec hw (h w (HaveType.of_mem htype hw) hu rfl)
    | _ => exact htype.elim
  | option u =>
    have hu : S.Generated u := hgenerated.part (List.mem_singleton.2 rfl)
    rw [Tree.parts] at hx
    split at hx
    · cases hx
    -- only a value that is there is a part of an option
    · next hnull =>
      obtain rfl := List.mem_singleton.1 hx
      cases v with
      | nothing => exact absurd rfl hnull
      | just w => exact .just (h w htype hu rfl)
      | _ => exact htype.elim
  | box u =>
    have hu : S.Generated u := hgenerated.part (List.mem_singleton.2 rfl)
    obtain rfl := List.mem_singleton.1 hx
    cases v with
    | box w => exact .box (h w htype hu rfl)
    | _ => exact htype.elim
  | hashMap u | treeMap u =>
    have hu : S.Generated u := hgenerated.part (List.mem_singleton.2 rfl)
    cases v with
    | map es =>
      obtain ⟨m, hm, rfl⟩ := List.mem_map.1 hx
      rw [encode, Tree.members, encodeEntries_eq_map] at hm
      obtain ⟨e, he, rfl⟩ := List.mem_map.1 hm
      exact .map (by simp) he (h e.2 (htype.1.of_mem he) hu rfl)
    | _ => exact htype.elim
  | record id' => exact leavesOut_member htype hgenerated hx h

end Value

/-- Trees that lack a field are the ones of values that leave it out. -/
theorem Json.Tree.Lacks.leavesOut (h : j.Lacks S id f t) (htype : v.HasType S t)
    (hgenerated : S.Generated t) (hj : v.encode S t = j) : v.LeavesOut S id f t := by
  induction h generalizing v with
  | field hr hrequires hi => exact Value.leavesOut_field hr hrequires hi htype hgenerated hj
  | part hx _ ih =>
    subst hj
    exact Value.leavesOut_of_part htype hgenerated hx fun w hw hg htree => ih hw hg htree

/-! ## Documents -/

/-- When the text of a value is read, a missing field is reported only if the value leaves it out,
and the text of a value that leaves out a field is not read. -/
theorem Registry.decode_encode_missingField {r r' : Registry} {v : Value} {text : String}
    (hv : r.Valid fun S c => ¬S.Needs T c.serves) (hsound : r.schema.Sound)
    (hgenerated : r.schema.Generated T) (htype : v.HasType r.schema T)
    (hencode : r.encode T (some v) = (.ok text, r')) :
    (∀ record field,
      (r'.decode T (.ofText text)).1 = .error (.error (.missingField record field)) →
      ∃ id f, id.ident = record ∧ f.name = field ∧ v.LeavesOut r.schema id f T) ∧
    ((∃ id f, v.LeavesOut r.schema id f T) → ∀ x, (r'.decode T (.ofText text)).1 ≠ .ok x) := by
  have hp : Plain (fun S c => ¬S.Needs T c.serves) r.schema T := ⟨hsound, fun _ h => h⟩
  obtain ⟨hv', hg, hdoc, -⟩ := Registry.encode_document Schema.writesLawfully_of_unneeded hv hp
    (fun x hx => Option.some.inj hx ▸ htype) hencode
  have hS := hg.schema
  have hdoc : IsDocument (v.encode r.schema T) (Json.Source.ofText text).chars := hdoc
  rw [Registry.decode_fst]
  constructor
  · intro record field herror
    have hblames := readDocument_blames (r := r') ⟨hv', hS ▸ hsound⟩ hdoc rfl
    cases hrun : readDocument T ⟨r', Reader.ofSource (.ofText text)⟩ with
    | ok x s =>
      rw [hrun] at herror
      cases herror
    | error e s =>
      rw [hrun] at herror
      cases herror
      obtain ⟨id, f, hid, hf, hlacks⟩ := hblames.error hrun
      rw [hS] at hlacks
      exact ⟨id, f, hid, hf, hlacks.leavesOut htype hgenerated rfl⟩
  · rintro ⟨id, f, hleaves⟩ x hok
    have hends := readDocument_ends Schema.readsLawfully_of_unneeded hv' (.ofText text)
    cases hrun : readDocument T ⟨r', Reader.ofSource (.ofText text)⟩ with
    | ok y s =>
      -- the document that was read is the tree of the value
      obtain ⟨-, -, k, hk, hdecode⟩ := hends.ok hrun
      obtain rfl := hdoc.eq_of_depth hk.document hk.depth
      have hread := hdecode ⟨hS ▸ hsound, fun _ h => h⟩
      rw [hS, (hleaves.lacks htype hgenerated).decode] at hread
      cases hread
    | error e s =>
      rw [hrun] at hok
      cases hok

/-- The text of a value that is not read back, and why it is not. -/
def Registry.refused? (r : Registry) (T : Ty) (v : Value) : Option (String × AdapterFailure) :=
  match r.encode T (some v) with
  | (.ok text, r') =>
    match (r'.decode T (.ofText text)).1 with
    | .error e => some (text, e)
    | .ok _ => none
  | (.error _, _) => none

theorem Registry.refused?_eq_some {r : Registry} {v : Value} {text : String} {e : AdapterFailure}
    (h : r.refused? T v = some (text, e)) :
    ∃ r', r.encode T (some v) = (.ok text, r') ∧ (r'.decode T (.ofText text)).1 = .error e := by
  unfold refused? at h
  split at h
  · next text' r' hencode =>
    split at h
    · next e' hdecode =>
      cases h
      exact ⟨r', hencode, hdecode⟩
    · cases h
  · cases h

namespace Samples

/-- A type that is written as a name with arguments. -/
def typeExpr (name : String) (arguments : List Code.TypeExpr) : Code.TypeExpr :=
  .path (.mk false [if arguments.isEmpty then .plain name else
    .applied name false (arguments.map .type) false])

/-- The declaration of a record without settings, with wrapped values of many kinds. -/
def nestDeclaration : Code.Declaration where
  attributes := []
  visibility := []
  name := "Nest"
  generic := false
  shape :=
    let vec t := typeExpr "Vec" [t]
    let option t := typeExpr "Option" [t]
    let box t := typeExpr "Box" [t]
    let string := typeExpr "String" []
    let u8 := typeExpr "u8" []
    .named ([("a", vec (vec (option (typeExpr "i64" [])))),
      ("b", typeExpr "BTreeMap" [string, vec (typeExpr "f32" [])]),
      ("c", option (option string)), ("d", box (option (typeExpr "bool" []))),
      ("e", option (box (typeExpr "Self" []))), ("f", option (vec (box u8))),
      ("g", option (typeExpr "HashMap" [string, typeExpr "BTreeMap" [string, option u8]]))].map
        fun member => { attributes := [], name := member.1, type := member.2 })

/-- The types that a nest needs. -/
def nestTypes : List Ty := [.record nestId, .vec (.vec (.option i64)), .vec (.option i64),
  .option i64, i64, .treeMap (.vec (.scalar .single)), .vec (.scalar .single), .scalar .single,
  .option string, string, .box (.option bool), .option bool, bool, .box (.record nestId),
  .vec (.box u8), .box u8, u8, .hashMap (.treeMap (.option u8)), .treeMap (.option u8), .option u8]

theorem nest_generated : schema.Generated (.record nestId) := by
  intro id r hneeds hr
  have hid : Ty.record id ∈ nestTypes := hneeds.mem_of_closed (by decide) (by decide)
  obtain rfl : id = nestId := by simpa [nestTypes] using hid
  cases hr
  exact ⟨nestDeclaration, _, rfl, rfl, rfl, rfl⟩

/-- A nest without anything in it. -/
def hollow : Value :=
  .record [.vec [], .map [], .nothing, .box .nothing, .nothing, .nothing, .nothing] []

def hollowText : String :=
  "\x7b\"a\":[],\"b\":\x7b\x7d,\"c\":null,\"d\":null,\"e\":null,\"f\":null,\"g\":null\x7d"

theorem hollow_hasType : hollow.HasType schema (.record nestId) :=
  ⟨nest, rfl, trivial, ⟨trivial, .nil⟩, trivial, trivial, trivial, trivial, trivial, trivial⟩

/-- What is in the box of a nest is written as `null`, and is missing when the nest is read. -/
theorem hollow_refused : (registryOf ["oracle"]).refused? (.record nestId) hollow =
    some (hollowText, .error (.missingField "Nest" "d")) := by decide +kernel

/-- A nest without anything in it leaves out its box. -/
theorem hollow_leavesOut : ∃ text r',
    (registryOf ["oracle"]).encode (.record nestId) (some hollow) = (.ok text, r') ∧
    (∃ id f, id.ident = "Nest" ∧ f.name = "d" ∧ hollow.LeavesOut schema id f (.record nestId)) ∧
    ∀ x, (r'.decode (.record nestId) (.ofText text)).1 ≠ .ok x := by
  obtain ⟨r', hencode, hdecode⟩ := Registry.refused?_eq_some hollow_refused
  obtain ⟨honly, hno⟩ := Registry.decode_encode_missingField
    (registryOf_valid_of_tables (by decide)) schema_sound nest_generated hollow_hasType hencode
  obtain ⟨id, f, hid, hf, hleaves⟩ := honly _ _ hdecode
  exact ⟨_, r', hencode, ⟨id, f, hid, hf, hleaves⟩, hno ⟨id, f, hleaves⟩⟩

/-- A value of an accepted record without a default whose own text misses a field that must be
given. -/
theorem missingField_hollow : schema.Generated (.record nestId) ∧
    schema.find? nestId = some nest ∧ nest.default = none ∧
    hollow.HasType schema (.record nestId) ∧
    ∃ r', (registryOf ["oracle"]).encode (.record nestId) (some hollow) = (.ok hollowText, r') ∧
      (r'.decode (.record nestId) (.ofText hollowText)).1 =
        .error (.error (.missingField "Nest" "d")) :=
  ⟨nest_generated, rfl, rfl, hollow_hasType, Registry.refused?_eq_some hollow_refused⟩

end Samples

end JsonAdapters
