import JsonAdapters.Proofs.Adapter.RoundTrip
import JsonAdapters.Proofs.Adapter.Stability

/-!
# Documents that are read and written

Once a document was read and written, another pass changes nothing: what is read again is the same
value, up to the order in which its maps are walked.

## Main definitions

* `Registry.Passes`: reading and writing a document several times.

## Main statements

* `Registry.Passes.keeps`: passes over a document change nothing.
* `Registry.decode_encode_of_decode`: a value that was read is written and read again.
-/

namespace JsonAdapters

open Json (IsDocument Spells SpellsMembers Tree maxDepth quote quote_spells)

/-- A document that is read leaves a valid registry behind, and its tree stands for the value. -/
theorem Registry.decode_eq_ok {T : Ty} {r : Registry} {source : Json.Source} {v : Option Value}
    (hv : r.Valid fun S c => ¬S.Needs T c.serves) (hsound : r.schema.Sound)
    (hread : (r.decode T source).1 = .ok v) :
    (r.decode T source).2.Valid (fun S c => ¬S.Needs T c.serves) ∧
      r.Grows (r.decode T source).2 ∧ ∃ j, Holds source j ∧ j.decode r.schema T = some v := by
  obtain ⟨stream, hrun⟩ := Registry.readDocument_of_decode hread
  obtain ⟨hv', hg, j, hj, hdecode⟩ :=
    (readDocument_ends Schema.readsLawfully_of_unneeded hv source).ok hrun
  exact ⟨hv', hg, j, hj, hdecode ⟨hsound, fun _ h => h⟩⟩

/-- A value of a type without floating point numbers that was read is written, in whichever order
its maps are walked, and its text is read as the value again. -/
theorem Registry.decode_encode_of_read {T : Ty} {r : Registry} {source : Json.Source} {v w : Value}
    (hv : r.Valid fun S c => ¬S.Needs T c.serves) (hkeys : r.schema.KeysDistinct)
    (hs : Served r T) (hfree : r.schema.FloatFree T) (hdefaults : r.schema.DefaultsTyped)
    (hback : r.schema.DefaultsReadBack T) (hread : (r.decode T source).1 = .ok (some v))
    (hw : w.HasType r.schema T) (hsame : w.sorted = v.sorted)
    (hdepth : (w.encode r.schema T).depth ≤ maxDepth) :
    ∃ text r', (r.decode T source).2.encode T (some w) = (.ok text, r') ∧
      r'.Valid (fun S c => ¬S.Needs T c.serves) ∧ r.Grows r' ∧
      (r'.decode T (.ofText text)).1 = .ok (some v.sorted) := by
  obtain ⟨hv', hg, j, -, hdecode⟩ := Registry.decode_eq_ok hv hdefaults.sound hread
  obtain ⟨htype, hstable⟩ := (kept_of_decode hkeys hdefaults j hback hdecode).1
  -- what was read is stable, and so is each value with the same sorted form
  have hstablew : w.Stable r.schema T := by
    rw [← w.stable_sorted_iff hw, hsame, v.stable_sorted_iff htype]
    exact hstable
  have hrestores := restoresValue hkeys w hw hstablew hfree
  rw [← hg.schema] at hdefaults hw hrestores hdepth
  obtain ⟨text, r', hencode, hv'', hg', hagain⟩ :=
    Registry.decode_encode_of_restores hv' hdefaults.sound (hs.grows hg) hw hrestores hdepth
  rw [← hsame]
  exact ⟨text, r', hencode, hv'', hg.trans hg', hagain⟩

/-- Passes over a document: it is read, and what was read is written, in whichever order its maps
are walked. -/
inductive Registry.Passes (T : Ty) (r : Registry) (text : String) : Registry → String → Prop
  | refl : Passes T r text r text
  | pass {r₁ r₂ : Registry} {text₁ text₂ : String} {v w : Value} :
    Passes T r text r₁ text₁ → (r₁.decode T (.ofText text₁)).1 = .ok (some v) →
    w.HasType r₁.schema T → w.sorted = v.sorted → (w.encode r₁.schema T).depth ≤ maxDepth →
    (r₁.decode T (.ofText text₁)).2.encode T (some w) = (.ok text₂, r₂) →
    Passes T r text r₂ text₂

/-- Passes change nothing for a document of a value whose maps are in order. -/
theorem Registry.Passes.keeps {T : Ty} {r r' : Registry} {text text' : String} {v : Value}
    (h : Passes T r text r' text') (hv : r.Valid fun S c => ¬S.Needs T c.serves)
    (hkeys : r.schema.KeysDistinct) (hs : Served r T) (hfree : r.schema.FloatFree T)
    (hdefaults : r.schema.DefaultsTyped) (hback : r.schema.DefaultsReadBack T)
    (hsorted : v.sorted = v) (hread : (r.decode T (.ofText text)).1 = .ok (some v)) :
    r'.Valid (fun S c => ¬S.Needs T c.serves) ∧ r.Grows r' ∧
      (r'.decode T (.ofText text')).1 = .ok (some v) := by
  -- each pass starts from a registry that has grown, and from the same value
  induction h with
  | refl => exact ⟨hv, .refl r, hread⟩
  | pass _ hread' hw hsame hdepth hencode ih =>
    obtain ⟨hv₁, hg₁, hread₁⟩ := ih
    obtain rfl : v = _ := Option.some.inj (Except.ok.inj (hread₁.symm.trans hread'))
    rw [← hg₁.schema] at hkeys hfree hdefaults hback
    obtain ⟨text, r₂, hencode', hv₂, hg₂, hagain⟩ := Registry.decode_encode_of_read hv₁ hkeys
      (hs.grows hg₁) hfree hdefaults hback hread' hw hsame hdepth
    cases hencode'.symm.trans hencode
    rw [hsorted] at hagain
    exact ⟨hv₂, hg₁.trans hg₂, hagain⟩

/-- A value of a type without floating point numbers that was read from a document is written, in
whichever order its maps are walked, and its text is read as the value again. Further passes over
the text change nothing. -/
theorem Registry.decode_encode_of_decode {T : Ty} {r : Registry} {source : Json.Source} {v : Value}
    (hv : r.Valid fun S c => ¬S.Needs T c.serves) (hkeys : r.schema.KeysDistinct)
    (hs : Served r T) (hfree : r.schema.FloatFree T) (hdefaults : r.schema.DefaultsTyped)
    (hback : r.schema.DefaultsReadBack T) (hread : (r.decode T source).1 = .ok (some v)) :
    v.HasType r.schema T ∧ ∀ w : Value, w.HasType r.schema T → w.sorted = v.sorted →
      (w.encode r.schema T).depth ≤ maxDepth →
        ∃ text r', (r.decode T source).2.encode T (some w) = (.ok text, r') ∧
          (r'.decode T (.ofText text)).1 = .ok (some v.sorted) ∧
          ∀ r'' text', Passes T r' text r'' text' →
            (r''.decode T (.ofText text')).1 = .ok (some v.sorted) := by
  obtain ⟨-, -, j, -, hdecode⟩ := Registry.decode_eq_ok hv hdefaults.sound hread
  refine ⟨(kept_of_decode hkeys hdefaults j hback hdecode).1.type, fun w hw hsame hdepth => ?_⟩
  obtain ⟨text, r', hencode, hv', hg, hagain⟩ :=
    Registry.decode_encode_of_read hv hkeys hs hfree hdefaults hback hread hw hsame hdepth
  refine ⟨text, r', hencode, hagain, fun r'' text' hpasses => ?_⟩
  rw [← hg.schema] at hkeys hfree hdefaults hback
  exact (hpasses.keeps hv' hkeys (hs.grows hg) hfree hdefaults hback v.sorted_sorted hagain).2.2

namespace Samples

/-- Default instances of sample records have the types of their fields. -/
theorem schema_defaultsTyped : schema.DefaultsTyped := by
  have h : ∀ r ∈ schema.records, ∀ d, r.default = some d →
      Value.FieldsHaveType schema d.fields r.fields := by
    simp only [schema, List.forall_mem_cons, List.not_mem_nil, false_imp_iff, implies_true,
      and_true]
    repeat' apply And.intro
    all_goals
      intro d hd
      cases hd
    -- article, settings and toggle
    · exact ⟨trivial, trivial, ⟨by decide, by decide⟩, trivial, trivial⟩
    · exact ⟨trivial, trivial, trivial, trivial⟩
    · exact ⟨trivial, trivial, trivial⟩
    -- the listings of both catalogs
    · exact ⟨trivial, ⟨by decide, by decide⟩, trivial, trivial⟩
    · exact ⟨trivial, ⟨by decide, by decide⟩, trivial, trivial⟩
    · exact ⟨⟨by decide, by decide⟩, ⟨by decide, by decide⟩, ⟨trivial, trivial, trivial⟩, trivial,
        ⟨leaf, rfl, trivial, ⟨empty, rfl, trivial⟩, trivial⟩, trivial⟩
    · trivial
    · trivial
  exact fun id r d hr hd => h r (List.mem_of_find?_eq_some hr) d hd

/-- The types that a record with a default of every sort needs. -/
def defaultedTypes : List Ty :=
  [.record defaulted.id, i32, .vec string, string, .option i32, .record leafId,
    .box (.record emptyId), .record emptyId]

theorem defaultedTypes_closed : ∀ t ∈ defaultedTypes, t.parts schema ⊆ defaultedTypes := by decide

theorem defaulted_readBack : schema.DefaultsReadBack (.record defaulted.id) := by
  intro id r d hneeds hr hd
  have hid : Ty.record id ∈ defaultedTypes := hneeds.mem_of_closed (by decide) defaultedTypes_closed
  simp only [defaultedTypes, List.mem_cons, List.not_mem_nil, Ty.record.injEq, reduceCtorEq,
    false_or, or_false] at hid
  obtain rfl | rfl | rfl := hid
  · cases hr
    cases hd
    intro i f v hf hv hkind
    match i, hf, hv with
    | 0, rfl, rfl => rfl
    | 1, rfl, rfl => rfl
    | 2, rfl, rfl => rfl
    -- a present nothing is written as `null`
    | 3, rfl, rfl => exact absurd rfl hkind
    | 4, rfl, rfl => rfl
  -- the other records have no defaults
  · cases hr
    cases hd
  · cases hr
    cases hd

/-- A record is read from a document with a `null` and an unknown member. -/
theorem decode_encode_of_decode_defaulted :
    let d : Value := .record [.int (-7), .just (.int 11), .vec [.string "x", .string "y"],
      .just .nothing, .record [.string "dflt", .just (.box (.record [] []))] []] [.string "kept"]
    ∃ text r', ((registryOf ["oracle"]).decode (.record defaulted.id)
        (.ofText "\x7b\"nested\":null,\"zz\":true\x7d")).2.encode (.record defaulted.id) (some d) =
        (.ok text, r') ∧
      (r'.decode (.record defaulted.id) (.ofText text)).1 = .ok (some d) := by
  intro d
  have hmem : .record defaulted.id ∈ defaultedTypes := by decide
  have hserved : Served (registryOf ["oracle"]) (.record defaulted.id) :=
    .of_closed rfl hmem defaultedTypes_closed (by decide)
  have hfree : schema.FloatFree (.record defaulted.id) :=
    .of_closed hmem defaultedTypes_closed (by decide)
  have hvalid : (registryOf ["oracle"]).Valid fun S c => ¬S.Needs (.record defaulted.id) c.serves :=
    registryOf_valid_of_tables (by decide)
  have hread : ((registryOf ["oracle"]).decode (.record defaulted.id)
      (.ofText "\x7b\"nested\":null,\"zz\":true\x7d")).1 = .ok (some d) := by
    have hspells : SpellsMembers .first [("nested", .null), ("zz", .bool true)]
        ((quote "nested").toList ++ ([':'] ++ ("null".toList ++ ([','] ++
          ((quote "zz").toList ++ ([':'] ++ ("true".toList ++ []))))))) :=
      ⟨[], _, _, _, _, rfl, .none, quote_spells "nested", .colon, rfl,
        _, _, _, _, _, rfl, .comma, quote_spells "zz", .colon, rfl, .nil⟩
    have hdoc : IsDocument (.object [("nested", .null), ("zz", .bool true)])
        "\x7b\"nested\":null,\"zz\":true\x7d".toList :=
      Spells.isDocument ⟨_, by decide, hspells⟩
    refine (Registry.decode_eq_ok_iff Schema.readsLawfully_of_unneeded hvalid
      ⟨schema_sound, fun _ h => h⟩ hserved ⟨hdoc, rfl, by decide⟩ ?_).2 rfl
    simp [Tree.Supported, Tree.SupportedMembers]
  obtain ⟨htype, hagain⟩ := Registry.decode_encode_of_decode hvalid schema_keysDistinct hserved
    hfree schema_defaultsTyped defaulted_readBack hread
  obtain ⟨text, r', hencode, hdecode, -⟩ := hagain d htype rfl (by decide)
  exact ⟨text, r', hencode, hdecode⟩

end Samples

end JsonAdapters
