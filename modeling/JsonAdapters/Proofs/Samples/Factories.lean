import JsonAdapters.Proofs.Adapter.Reading
import JsonAdapters.Proofs.Adapter.Writing
import JsonAdapters.Samples.Factories

/-!
# Sample factories

The dispatch tables over the sample records list what the schema has. Registries over them are valid
whatever their order is.

## Main statements

* `Samples.registryOf_valid_of_tables`, `Samples.registryOf_valid`.
* `Samples.upper_readsLawfully`, `Samples.absent_readsLawfully`, `Samples.writeShouted_ends`: the
  adapters for strings.
-/

namespace JsonAdapters

open Json (Reader Writer)
open Outcome

namespace Samples

variable {P : Schema → CustomCodec → Prop} {names : List String} {name : String}

theorem schema_ids_nodup : (schema.records.map (·.id)).Nodup := by decide

theorem schema_sound : schema.Sound := by
  have h : ∀ r ∈ schema.records, ∀ d ∈ r.default, d.fields.length = r.fields.length := by decide
  exact fun id r d hr hd => h r (List.mem_of_find?_eq_some hr) d hd

theorem schema_keysDistinct : schema.KeysDistinct := by
  have h : ∀ r ∈ schema.records, (r.fields.flatMap Field.keys).Nodup := by decide
  exact fun id r hr => h r (List.mem_of_find?_eq_some hr)

theorem tableRecords_subset {rs : List Record} (h : tableRecords? name = some rs) :
    rs ⊆ schema.records := by
  unfold tableRecords? at h
  split at h <;> cases h <;> simp [schema]

/-- What a sample table answers fits the schema. -/
theorem table_fits {t : FactoryTable} {token : TypeToken Ty} {c : Codec} (h : table? name = some t)
    (hc : t.factory.create token = some (some c)) : c.Fits schema P := by
  obtain ⟨rs, hrs, rfl⟩ := Option.map_eq_some_iff.1 h
  refine FactoryTable.fits (fun e he => ?_) hc
  obtain ⟨r, hr, rfl⟩ := List.mem_map.1 he
  exact Schema.find?_of_mem schema_ids_nodup (tableRecords_subset hrs hr)

/-- A registry over dispatch tables is valid, whichever other adapters are admitted. -/
theorem registryOf_valid_of_tables (h : ∀ name ∈ names, (table? name).isSome) :
    (registryOf names).Valid P := by
  refine Registry.valid_of_new fun f hf token c hc => ?_
  obtain ⟨name, hname, hf⟩ := List.mem_filterMap.1 hf
  have hsome := h name hname
  unfold factory? at hf
  split at hf
  · cases hsome
  · cases hsome
  · cases hsome
  · obtain ⟨t, ht, rfl⟩ := Option.map_eq_some_iff.1 hf
    exact table_fits ht hc

/-- A registry over sample factories is valid when their adapters for strings are admitted. -/
theorem registryOf_valid (hupper : P schema upper) (habsent : P schema absent) :
    (registryOf names).Valid P := by
  refine Registry.valid_of_new fun f hf token c hc => ?_
  obtain ⟨name, -, hf⟩ := List.mem_filterMap.1 hf
  unfold factory? at hf
  split at hf
  · cases hf
    simp only [forStrings, Option.ite_none_right_eq_some, Option.some.injEq] at hc
    exact hc.2 ▸ hupper
  · cases hf
    simp only [forStrings, Option.ite_none_right_eq_some, Option.some.injEq] at hc
    exact hc.2 ▸ habsent
  · cases hf
    cases hc
    exact hupper
  · obtain ⟨t, ht, rfl⟩ := Option.map_eq_some_iff.1 hf
    exact table_fits ht hc

/-! ## Adapters for strings -/

theorem upper_readsLawfully : upper.ReadsLawfully := by
  intro r hr
  cases hs : Reader.string r with
  | ok s r' => exact .of_ok (bind_of_ok hs) ⟨.string s, hs⟩
  | error e r' => exact .of_error (bind_of_error hs) (hr.string_innocent hs)

theorem absent_readsLawfully : absent.ReadsLawfully := by
  intro r hr
  refine (hr.skip_ends.mono (fun _ _ _ h => h) fun _ _ h => h.1).bind fun _ r' _ h => ?_
  exact .pure h

/-- What strings are written as is one value, whichever it is. -/
theorem writeShouted_ends {v : Option Value} {w : Writer} {S : Schema}
    (hv : ∀ x, v = some x → x.HasType S .string) (hw : Writer.AtValue w) :
    Ends (writeShouted v) w (fun _ w' => ∃ j, Writer.Wrote j w w') (fun e _ => e ≠ .misuse) := by
  cases v with
  | none => exact (Writer.null_ends hw).mono (fun _ _ _ h => ⟨.null, h.wrote⟩) fun _ _ h => h.1
  | some x =>
    cases x with
    | string s =>
      exact (Writer.string_ends (shout s) hw).mono (fun _ _ _ h => ⟨.string (shout s), h.wrote⟩)
        fun _ _ h => h.1
    | _ => exact (hv _ rfl).elim

end Samples

end JsonAdapters
