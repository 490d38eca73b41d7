import JsonAdapters.Proofs.Adapter.Documents
import JsonAdapters.Proofs.Derive.Keys

/-!
# Texts of values

The text of a value is the compact text of its tree, and the tree is laid out as the type says: a
map has its names once, and a sorted map has them in order; a record has its keys, each of them
once, in order of declaration. That no name is repeated in a record comes from the check of
declarations, and that the text can be had from the bytes at the sink comes from the writer, which
hands on whole characters only when it is done.

## Main definitions

* `RecordPlan.Describes`, `Schema.Generated`: records of accepted declarations.
* `Schema.Laid`: the layout of the trees of a type.
* `Json.Tree.NamesDistinct`: no object repeats a name.

## Main statements

* `Schema.Generated.laid`: trees of values are laid out as the type says.
* `Registry.encode_text`: the text of a value.
-/

namespace JsonAdapters

open Json (IsDocument Sink Tree Writer)
open Outcome

variable {S : Schema} {t u T : Ty} {j : Tree}

/-! ## Records of accepted declarations -/

/-- The record has the fields of the plan, under the same names and keys, and skips the same
fields. What the types of fields stand for is left open. -/
structure RecordPlan.Describes (p : RecordPlan) (r : Record) : Prop where
  name : r.id.ident = p.name
  fields : r.fields.map (fun f => (f.name, f.keys, f.nullable)) =
    p.fields.map (fun f => (f.name, f.keys, f.nullable))
  skipped : r.skipped.map (·.name) = p.skipped

/-- The records that values of the type are made of are records of accepted declarations. -/
def Schema.Generated (S : Schema) (t : Ty) : Prop :=
  ∀ id r, S.Needs t (.record id) → S.find? id = some r →
    ∃ d p, RecordPlan.ofDeclaration d = .ok p ∧ p.Describes r

theorem RecordPlan.Describes.keys {p : RecordPlan} {r : Record} (h : p.Describes r) :
    r.fields.flatMap Field.keys = p.fields.flatMap FieldPlan.keys := by
  have hkeys := congrArg (List.map fun x => x.2.1) h.fields
  simp only [List.map_map, Function.comp_def] at hkeys
  rw [List.flatMap_def, List.flatMap_def, hkeys]

theorem Schema.Needs.of_option (h : S.Needs (.option t) u) : u = .option t ∨ S.Needs t u := by
  induction h with
  | self => exact .inl rfl
  | part _ hv ih =>
    obtain rfl | hu := ih
    · obtain rfl := List.mem_singleton.1 hv
      exact .inr .self
    · exact .inr (.part hu hv)

namespace Schema.Generated

theorem part (h : S.Generated t) (hu : u ∈ t.parts S) : S.Generated u :=
  fun id r hneeds => h id r (.trans (.part .self hu) hneeds)

/-- A field of a record holds a value of the type of its member, or nothing. -/
theorem declared {id : RecordId} {r : Record} {f : Field} (h : S.Generated (.record id))
    (hr : S.find? id = some r) (hf : f ∈ r.fields) : S.Generated f.declared := by
  have htype : S.Generated f.type := h.part (Ty.mem_parts_record hr hf)
  unfold Field.declared
  split
  · intro id r hneeds hr
    obtain hid | hneeds := hneeds.of_option
    · cases hid
    · exact htype id r hneeds hr
  · exact htype

/-- No name stands for two things in a record. -/
theorem nodup_keys {id : RecordId} {r : Record} (h : S.Generated (.record id))
    (hr : S.find? id = some r) : (r.fields.flatMap Field.keys).Nodup := by
  obtain ⟨d, p, hd, hp⟩ := h id r .self hr
  rw [hp.keys]
  exact RecordPlan.nodup_keys_of_accepted hd

end Schema.Generated

/-! ## Layout -/

/-- The tree is one that a value of the type is written as. Nothing is `null`, and a box is its
content. -/
inductive Schema.Laid (S : Schema) : Ty → Tree → Prop
  | bool (b : Bool) : Laid S (.scalar .bool) (.bool b)
  | string (s : String) : Laid S (.scalar .string) (.string s)
  | number {c : Scalar} (text : String) : c ≠ .bool → c ≠ .string →
    Laid S (.scalar c) (.number text)
  | vec {t : Ty} {js : List Tree} : (∀ j ∈ js, Laid S t j) → Laid S (.vec t) (.array js)
  | nothing {t : Ty} : Laid S (.option t) .null
  | just {t : Ty} {j : Tree} : Laid S t j → Laid S (.option t) j
  | box {t : Ty} {j : Tree} : Laid S t j → Laid S (.box t) j
  | hashMap {t : Ty} {ms : List (String × Tree)} : (∀ m ∈ ms, Laid S t m.2) →
    (ms.map Prod.fst).Nodup → Laid S (.hashMap t) (.object ms)
  | treeMap {t : Ty} {ms : List (String × Tree)} : (∀ m ∈ ms, Laid S t m.2) →
    (ms.map Prod.fst).Pairwise (· < ·) → Laid S (.treeMap t) (.object ms)
  /-- The members are the fields, and none of them is named by an alias. -/
  | record {id : RecordId} {r : Record} {ms : List (String × Tree)} : S.find? id = some r →
    ms.map Prod.fst = r.fields.map Field.key → (ms.map Prod.fst).Nodup →
    (∀ f ∈ r.fields, ∀ a ∈ f.aliases, a ∉ ms.map Prod.fst) →
    (∀ p ∈ r.fields.zip ms, Laid S p.1.declared p.2.2) → Laid S (.record id) (.object ms)

/-- When no name stands for two fields, the keys are different, and none of them is an alias. -/
theorem Record.nodup_key {fs : List Field} (h : (fs.flatMap Field.keys).Nodup) :
    (fs.map Field.key).Nodup ∧ ∀ f ∈ fs, ∀ a ∈ f.aliases, a ∉ fs.map Field.key := by
  induction fs with
  | nil => exact ⟨.nil, nofun⟩
  | cons f fs ih =>
    rw [List.flatMap_cons, List.nodup_append] at h
    obtain ⟨hown, hrest, hdisjoint⟩ := h
    obtain ⟨hkeys, haliases⟩ := ih hrest
    -- names of this field are none of the keys of the others
    have hfree (k : String) (hk : k ∈ f.keys) : k ∉ fs.map Field.key := fun hmem => by
      obtain ⟨g, hg, rfl⟩ := List.mem_map.1 hmem
      exact hdisjoint _ hk _ (List.mem_flatMap.2 ⟨g, hg, List.mem_cons_self⟩) rfl
    refine ⟨List.nodup_cons.2 ⟨hfree _ List.mem_cons_self, hkeys⟩, fun g hg a ha => ?_⟩
    rw [List.map_cons, List.mem_cons, not_or]
    obtain rfl | hg := List.mem_cons.1 hg
    · refine ⟨?_, hfree a (List.mem_cons_of_mem _ ha)⟩
      rintro rfl
      exact (List.nodup_cons.1 hown).1 ha
    · refine ⟨?_, haliases g hg a ha⟩
      rintro rfl
      exact hdisjoint _ List.mem_cons_self _
        (List.mem_flatMap.2 ⟨g, hg, List.mem_cons_of_mem _ ha⟩) rfl

/-- A record is laid out as it says, if what its fields hold is. -/
theorem Schema.Generated.laid_record {id : RecordId} {vs skipped : List Value}
    (h : S.Generated (.record id)) (htype : (Value.record vs skipped).HasType S (.record id))
    (hfields : ∀ {fs}, (∀ f ∈ fs, S.Generated f.declared) → Value.FieldsHaveType S vs fs →
      ∀ p ∈ fs.zip (Value.encodeFields S vs fs), S.Laid p.1.declared p.2.2) :
    S.Laid (.record id) ((Value.record vs skipped).encode S (.record id)) := by
  obtain ⟨r, hr, htypes⟩ := htype
  obtain ⟨hkeys, haliases⟩ := Record.nodup_key (h.nodup_keys hr)
  have hnames := Value.names_encodeFields htypes
  rw [Value.encode_record hr]
  refine .record hr hnames (hnames ▸ hkeys) (hnames ▸ haliases) ?_
  exact hfields (fun f hf => h.declared hr hf) htypes

mutual

/-- The tree of a value is laid out as its type says. -/
theorem Schema.Generated.laid : (v : Value) → {t : Ty} → S.Generated t → v.HasType S t →
    S.Laid t (v.encode S t)
  | .bool b, .scalar .bool, _, _ => .bool b
  | .string s, .scalar .string, _, _ => .string s
  | .int _, .scalar (.signed _), _, _ => .number _ nofun nofun
  | .int _, .scalar (.unsigned _), _, _ => .number _ nofun nofun
  | .single _, .scalar .single, _, _ => .number _ nofun nofun
  | .double _, .scalar .double, _, _ => .number _ nofun nofun
  | .vec vs, .vec _, h, htype => .vec (laid_items vs (h.part (List.mem_singleton.2 rfl)) htype)
  | .nothing, .option _, _, _ => .nothing
  | .just v, .option _, h, htype => .just (laid v (h.part (List.mem_singleton.2 rfl)) htype)
  | .box v, .box _, h, htype => .box (laid v (h.part (List.mem_singleton.2 rfl)) htype)
  | .map es, .hashMap _, h, htype =>
    .hashMap (laid_entries es (h.part (List.mem_singleton.2 rfl)) htype.1)
      (by rw [Value.names_encodeEntries]; exact htype.2)
  | .map es, .treeMap _, h, htype =>
    .treeMap (laid_entries es (h.part (List.mem_singleton.2 rfl)) htype.1)
      (by rw [Value.names_encodeEntries, List.pairwise_map]; exact htype.2)
  | .record vs _, .record _, h, htype => h.laid_record htype (laid_fields vs)

theorem Schema.Generated.laid_items : (vs : List Value) → {t : Ty} → S.Generated t →
    Value.HaveType S vs t → ∀ j ∈ Value.encodeItems S vs t, S.Laid t j
  | [], _, _, _ => nofun
  | v :: vs, _, h, htype => by
    rw [Value.encodeItems, List.forall_mem_cons]
    exact ⟨laid v h htype.1, laid_items vs h htype.2⟩

theorem Schema.Generated.laid_entries : (es : List (String × Value)) → {t : Ty} → S.Generated t →
    Value.EntriesHaveType S es t → ∀ m ∈ Value.encodeEntries S es t, S.Laid t m.2
  | [], _, _, _ => nofun
  | (_, v) :: es, _, h, htype => by
    rw [Value.encodeEntries, List.forall_mem_cons]
    exact ⟨laid v h htype.1, laid_entries es h htype.2⟩

theorem Schema.Generated.laid_fields : (vs : List Value) → {fs : List Field} →
    (∀ f ∈ fs, S.Generated f.declared) → Value.FieldsHaveType S vs fs →
    ∀ p ∈ fs.zip (Value.encodeFields S vs fs), S.Laid p.1.declared p.2.2
  | [], [], _, _ => nofun
  | v :: vs, _ :: _, h, htype => by
    rw [List.forall_mem_cons] at h
    rw [Value.encodeFields, List.zip_cons_cons, List.forall_mem_cons]
    exact ⟨laid v h.1 htype.1, laid_fields vs h.2 htype.2⟩

end

/-! ## Names -/

namespace Json.Tree

mutual

/-- No object in the tree repeats a name. -/
def NamesDistinct : Tree → Prop
  | array js => ItemsDistinct js
  | object ms => (ms.map Prod.fst).Nodup ∧ MembersDistinct ms
  | null | bool _ | number _ | string _ => True

/-- No object in the items repeats a name. -/
def ItemsDistinct : List Tree → Prop
  | [] => True
  | j :: js => NamesDistinct j ∧ ItemsDistinct js

/-- No object in the values of members repeats a name. -/
def MembersDistinct : List (String × Tree) → Prop
  | [] => True
  | (_, j) :: ms => NamesDistinct j ∧ MembersDistinct ms

end

theorem itemsDistinct_of_forall {js : List Tree} (h : ∀ j ∈ js, j.NamesDistinct) :
    ItemsDistinct js := by
  induction js with
  | nil => trivial
  | cons j js ih => exact ⟨h j List.mem_cons_self, ih fun k hk => h k (List.mem_cons_of_mem j hk)⟩

theorem membersDistinct_of_forall {ms : List (String × Tree)}
    (h : ∀ m ∈ ms, m.2.NamesDistinct) : MembersDistinct ms := by
  induction ms with
  | nil => trivial
  | cons m ms ih => exact ⟨h m List.mem_cons_self, ih fun k hk => h k (List.mem_cons_of_mem m hk)⟩

end Json.Tree

/-- No object of a tree that is laid out as a type says repeats a name. -/
theorem Schema.Laid.namesDistinct (h : S.Laid t j) : j.NamesDistinct := by
  induction h with
  | bool | string | number | nothing => trivial
  | just _ ih | box _ ih => exact ih
  | vec _ ih => exact Tree.itemsDistinct_of_forall ih
  | hashMap _ hnames ih => exact ⟨hnames, Tree.membersDistinct_of_forall ih⟩
  | treeMap _ hnames ih =>
    exact ⟨hnames.imp fun hlt => String.ne_of_lt hlt, Tree.membersDistinct_of_forall ih⟩
  | @record id r ms _ hnames hnodup _ _ ih =>
    -- every member stands beside a field
    refine ⟨hnodup, Tree.membersDistinct_of_forall fun m hm => ?_⟩
    have hlength : ms.length = r.fields.length := by simpa using congrArg List.length hnames
    obtain ⟨i, hi, rfl⟩ := List.mem_iff_getElem.1 hm
    have hi' : i < r.fields.length := hlength ▸ hi
    have hzip : i < (r.fields.zip ms).length := by
      rw [List.length_zip]
      omega
    exact ih (r.fields[i], ms[i]) (List.mem_iff_getElem.2 ⟨i, hzip, List.getElem_zip⟩)

/-! ## Texts -/

/-- When a value of a type of built-in and generated adapters is written, its text is the compact
text of its tree, which is laid out as the type says and repeats no name in any object. The bytes
that were written are always a text. -/
theorem Registry.encode_text {r : Registry} {v : Option Value}
    (hv : r.Valid fun S c => ¬S.Needs T c.serves) (hsound : r.schema.Sound)
    (hgenerated : r.schema.Generated T) (htype : ∀ x, v = some x → x.HasType r.schema T) :
    (∀ text, (r.encode T v).1 = .ok text →
      text.toList = (Value.encodeOption r.schema T v).compact ∧
      IsDocument (Value.encodeOption r.schema T v) text.toList ∧
      (v = none ∨ r.schema.Laid T (Value.encodeOption r.schema T v)) ∧
      (Value.encodeOption r.schema T v).NamesDistinct) ∧
    ∀ fault, (r.encode T v).1 ≠ .error (.error (.utf8 fault)) := by
  have hends := writeDocument_delivers Schema.writesLawfully_of_unneeded hv htype {}
  cases hrun : writeDocument T v ⟨r, Writer.ofSink {}⟩ with
  | ok a s =>
    have hdelivered := hends.ok hrun
    rw [Registry.encode_of_delivered hrun hdelivered]
    refine ⟨fun text htext => ?_, by simp⟩
    cases htext
    obtain ⟨j, hj, hmeans⟩ := hdelivered.document
    -- the tree that was written is the encoding, as all adapters are lawful
    obtain ⟨rfl, hcompact⟩ := hmeans ⟨hsound, fun _ h => h⟩
    refine ⟨hcompact, hj, ?_⟩
    cases v with
    | none => exact ⟨.inl rfl, trivial⟩
    | some v =>
      have hlaid := hgenerated.laid v (htype v rfl)
      exact ⟨.inr hlaid, hlaid.namesDistinct⟩
  | error e s =>
    have hencode : (r.encode T v).1 = .error e := by
      rw [Registry.encode, Registry.run, hrun]
      rfl
    rw [hencode]
    refine ⟨by simp, fun fault hfault => (hends.error hrun).readable fault ?_⟩
    exact Except.error.inj hfault

namespace Samples

/-- The declaration of a record without settings, one of whose fields is a list of the record. -/
def treeNodeDeclaration : Code.Declaration where
  attributes := []
  visibility := []
  name := "TreeNode"
  generic := false
  shape := .named [
    { attributes := [], name := "name", type := .path (.mk false [.plain "String"]) },
    { attributes := [], name := "children", type := .path (.mk false
        [.applied "Vec" false [.type (.path (.mk false [.plain "Self"]))] false]) }]

/-- The types that a tree needs. -/
def treeNodeTypes : List Ty := [.record treeNodeId, string, .vec (.record treeNodeId)]

theorem treeNodeTypes_closed : ∀ t ∈ treeNodeTypes, t.parts schema ⊆ treeNodeTypes := by decide

theorem treeNode_generated : schema.Generated (.record treeNodeId) := by
  intro id r hneeds hr
  have hid : Ty.record id ∈ treeNodeTypes := hneeds.mem_of_closed (by decide) treeNodeTypes_closed
  obtain rfl : id = treeNodeId := by simpa [treeNodeTypes] using hid
  cases hr
  exact ⟨treeNodeDeclaration, _, rfl, rfl, rfl, rfl⟩

/-- A tree of two nodes is written without blanks, the name of each node first. -/
theorem encode_text_treeNode :
    ((registryOf ["provider"]).encode (.record treeNodeId) (some (.record [.string "x",
      .vec [.record [.string "y", .vec []] []]] []))).1 =
      .ok "\x7b\"name\":\"x\",\"children\":[\x7b\"name\":\"y\",\"children\":[]\x7d]\x7d" := by
  have hserved : Served (registryOf ["provider"]) (.record treeNodeId) :=
    .of_closed (L := treeNodeTypes) rfl (by decide) treeNodeTypes_closed (by decide)
  have hvalid : (registryOf ["provider"]).Valid fun S c => ¬S.Needs (.record treeNodeId) c.serves :=
    registryOf_valid_of_tables (by decide)
  have htype : Value.HasType schema (.record [.string "x",
      .vec [.record [.string "y", .vec []] []]] []) (.record treeNodeId) :=
    ⟨treeNode, rfl, trivial, ⟨⟨treeNode, rfl, trivial, trivial, trivial⟩, trivial⟩, trivial⟩
  have htypes (x : Value) (hx : some (Value.record [.string "x",
      .vec [.record [.string "y", .vec []] []]] []) = some x) :
      x.HasType schema (.record treeNodeId) := Option.some.inj hx ▸ htype
  obtain ⟨text, r', hencode, -⟩ := Registry.encode_eq_ok Schema.writesLawfully_of_unneeded hvalid
    ⟨schema_sound, fun _ h => h⟩ hserved htypes fun x hx => by
      cases hx
      simp [Value.Finite, Value.AllFinite]
  -- the text is that of the theorem, whatever the steps that wrote it
  have htext := (Registry.encode_text hvalid schema_sound treeNode_generated htypes).1 text
    (congrArg Prod.fst hencode)
  rw [hencode]
  refine congrArg Except.ok (String.toList_injective (htext.1.trans ?_))
  decide

end Samples

end JsonAdapters
