import JsonAdapters.Proofs.Adapter.Reading
import JsonAdapters.Proofs.Samples.Factories

/-!
# Dispatch tables

A table answers for each record that it lists, wherever the record stands in it. A record that is
not listed is served as the first listed record that it extends. All of this takes tokens that end:
a search that comes to the entry of a record that extends itself never ends.

## Main statements

* `FactoryTable.find?_eq`: what a table finds when all tokens have an end.
* `FactoryTable.dispatch_to_ancestor`: subtypes, and what tables answer.
-/

namespace JsonAdapters

open Outcome Relation

namespace FactoryTable

variable {S : Schema} {rs before after : List Record} {R x : Record} {t : TypeToken Ty}

/-- When no record extends itself, every search through a table has an end. -/
theorem exists_find? (hS : S.Acyclic) (rs : List Record) (t : TypeToken Ty) :
    ∃ found, (of S rs).find? t = some found := by
  have htest (test : TypeToken Ty → Bool) : ∀ e ∈ (of S rs).entries, ∃ b,
      (do return test (← e.token) : Option Bool) = some b := by
    intro e he
    obtain ⟨x, -, rfl⟩ := List.mem_map.1 he
    obtain ⟨u, hu⟩ : ∃ u, S.token x.id = some u := hS.exists_token (.record x.id)
    exact ⟨test u, Option.bind_eq_some_iff.2 ⟨u, hu, rfl⟩⟩
  obtain ⟨exact, hexact⟩ := exists_findM?_of_ends (htest fun u => u.sameType t)
  cases exact with
  | some e => exact ⟨some e, Option.bind_eq_some_iff.2 ⟨some e, hexact, rfl⟩⟩
  | none =>
    obtain ⟨found, hfound⟩ := exists_findM?_of_ends (htest fun u => t.isSubtypeOf u)
    exact ⟨found, Option.bind_eq_some_iff.2 ⟨none, hexact, hfound⟩⟩

/-- So the factory of a table comes to an answer. -/
theorem exists_create (hS : S.Acyclic) (rs : List Record) (t : TypeToken Ty) :
    ∃ answer, (of S rs).factory.create t = some answer := by
  obtain ⟨found, hfound⟩ := exists_find? hS rs t
  exact ⟨_, Option.bind_eq_some_iff.2 ⟨found, hfound, rfl⟩⟩

/-- When no record extends itself, a table finds the record of the request, or the first one that it
extends. -/
theorem find?_eq (hS : S.Acyclic) (ht : S.token R.id = some t) (rs : List Record) :
    (of S rs).find? t = some (((rs.find? fun x => x.id = R.id).or
      (rs.find? fun x => .record x.id ∈ t.supertypes)).map (TableEntry.of S)) := by
  have htoken (x : Record) : ∃ u, S.token x.id = some u := hS.exists_token (.record x.id)
  have hfirst : ((of S rs).entries.findM? fun e => return (← e.token).sameType t) =
      some ((rs.find? fun x => x.id = R.id).map (TableEntry.of S)) := by
    rw [findM?_of_ends (q := fun e => decide (e.record.id = R.id)) fun e he => ?_, of,
      List.find?_map]
    · rfl
    · obtain ⟨x, -, rfl⟩ := List.mem_map.1 he
      obtain ⟨u, hu⟩ := htoken x
      simp only [TableEntry.of, hu, Option.bind_eq_bind, Option.bind_some, Option.pure_def,
        ← Schema.sameType_iff hu ht, Bool.decide_eq_true]
  rw [find?, hfirst, Option.bind_eq_bind, Option.bind_some]
  cases hfind : rs.find? fun x => x.id = R.id with
  | some x => rfl
  | none =>
    -- no entry is of the requested type itself
    have hne : ∀ x ∈ rs, R.id ≠ x.id := fun x hx hid =>
      List.find?_eq_none.1 hfind x hx (decide_eq_true hid.symm)
    rw [Option.map_none, Option.none_or]
    dsimp only
    rw [findM?_of_ends (q := fun e => decide (.record e.record.id ∈ t.supertypes)) fun e he => ?_,
      of, List.find?_map]
    · rfl
    · obtain ⟨x, hx, rfl⟩ := List.mem_map.1 he
      obtain ⟨u, hu⟩ := htoken x
      have hsub : t.isSubtypeOf u = decide (.record x.id ∈ t.supertypes) := by
        rw [Bool.eq_iff_iff, Schema.isSubtypeOf_iff ht hu, decide_eq_true_eq,
          Schema.mem_supertypes_iff ht, or_iff_right (hne x hx)]
      simp only [TableEntry.of, hu, Option.bind_eq_bind, Option.bind_some, Option.pure_def, hsub]

/-- A listed record is found under its own token. -/
theorem find?_of_mem (hS : S.Acyclic) (hfound : ∀ x ∈ rs, S.find? x.id = some x) (hR : R ∈ rs)
    (ht : S.token R.id = some t) : (of S rs).find? t = some (some (TableEntry.of S R)) := by
  rw [find?_eq hS ht]
  -- names are unique in the schema, so that an entry of the same type is the record itself
  cases hfind : rs.find? fun x => x.id = R.id with
  | none => exact absurd (decide_eq_true rfl) (List.find?_eq_none.1 hfind R hR)
  | some x =>
    have hx := hfound x (List.mem_of_find?_eq_some hfind)
    have hid : x.id = R.id := by simpa using List.find?_some hfind
    rw [hid, hfound R hR] at hx
    cases hx
    rfl

/-- A record that is not listed is served as the first listed record that it extends. -/
theorem find?_of_ne (hS : S.Acyclic) (hR : ∀ x ∈ rs, x.id ≠ R.id) (ht : S.token R.id = some t) :
    (of S rs).find? t =
      some ((rs.find? fun x => .record x.id ∈ t.supertypes).map (TableEntry.of S)) := by
  have hnone : (rs.find? fun x => x.id = R.id) = none :=
    List.find?_eq_none.2 fun x hx hid => hR x hx (of_decide_eq_true hid)
  rw [find?_eq hS ht, hnone, Option.none_or]

/-- What a table finds is the record itself or one of its ancestors. -/
theorem of_find?_eq_some {e : TableEntry} (hS : S.Acyclic) (ht : S.token R.id = some t)
    (he : (of S rs).find? t = some (some e)) :
    ∃ x ∈ rs, e = TableEntry.of S x ∧ (x.id = R.id ∨ S.Extends R.id x.id) := by
  rw [find?_eq hS ht] at he
  obtain ⟨x, hx, rfl⟩ := Option.map_eq_some_iff.1 (Option.some.inj he)
  obtain hfind | ⟨-, hfind⟩ := Option.or_eq_some_iff.1 hx
  · exact ⟨x, List.mem_of_find?_eq_some hfind, rfl, .inl (by simpa using List.find?_some hfind)⟩
  · have hmem : .record x.id ∈ t.supertypes := by simpa using List.find?_some hfind
    exact ⟨x, List.mem_of_find?_eq_some hfind, rfl, .inr ((Schema.mem_supertypes_iff ht).1 hmem)⟩

/-- The first listed ancestor answers for a record that is not listed. -/
theorem find?_of_first (hS : S.Acyclic) (hR : ∀ y ∈ before ++ x :: after, y.id ≠ R.id)
    (ht : S.token R.id = some t) (hbefore : ∀ y ∈ before, ¬S.Extends R.id y.id)
    (hx : S.Extends R.id x.id) :
    (of S (before ++ x :: after)).find? t = some (some (TableEntry.of S x)) := by
  have hfind : ((before ++ x :: after).find? fun x => .record x.id ∈ t.supertypes) = some x := by
    refine List.find?_eq_some_iff_append.2
      ⟨decide_eq_true ((Schema.mem_supertypes_iff ht).2 hx), before, after, rfl, fun y hy => ?_⟩
    rw [Bool.not_eq_true', decide_eq_false_iff_not, Schema.mem_supertypes_iff ht]
    exact hbefore y hy
  rw [find?_of_ne hS hR ht, hfind]
  rfl

/-- A table without the record and without its ancestors answers nothing. -/
theorem find?_of_none (hS : S.Acyclic) (hR : ∀ x ∈ rs, x.id ≠ R.id) (ht : S.token R.id = some t)
    (hall : ∀ x ∈ rs, ¬S.Extends R.id x.id) : (of S rs).find? t = some none := by
  have hnone : (rs.find? fun x => .record x.id ∈ t.supertypes) = none := by
    refine List.find?_eq_none.2 fun x hx hmem => hall x hx ?_
    exact (Schema.mem_supertypes_iff ht).1 (of_decide_eq_true hmem)
  rw [find?_of_ne hS hR ht, hnone]
  rfl

/-- The token of a record is its own name, extended by the token of its parent. -/
theorem own_token (ht : S.token R.id = some t) (hR : S.find? R.id = some R) :
    match R.parent with
    | none => t = .named (.record R.id) R.id.ident
    | some p => ∃ parent, S.token p = some parent ∧
      t = (TypeToken.named (.record R.id) R.id.ident).extending parent := by
  have hparent : S.parent? R.id = R.parent := by rw [Schema.parent?, hR, Option.bind_some]
  rw [Schema.token_eq, hparent] at ht
  cases hp : R.parent with
  | none =>
    rw [hp] at ht
    exact (Option.some.inj ht).symm
  | some p =>
    rw [hp] at ht
    obtain ⟨parent, hparent, rfl⟩ := Option.map_eq_some_iff.1 ht
    exact ⟨parent, hparent, rfl⟩

/-- When records have distinct names and none extends itself, the token of a record is its own name,
extended by the token of the parent that it declares. It lists the ancestors of the record, nearest
first and each once, so that a record is a subtype of itself and of its ancestors. A table answers
for a record with the record itself, if it is listed, and otherwise with the first listed ancestor,
if there is one: never with a descendant or with an unrelated record. -/
theorem dispatch_to_ancestor (hS : S.Acyclic) (hids : (S.records.map (·.id)).Nodup)
    (hR : R ∈ S.records) :
    ∃ t, S.token R.id = some t ∧
      (match R.parent with
        | none => t = .named (.record R.id) R.id.ident
        | some p => ∃ parent, S.token p = some parent ∧
          t = (TypeToken.named (.record R.id) R.id.ident).extending parent) ∧
      (∃ l, Lineage S.parent? R.id l ∧ t.supertypes = l.map .record ∧ (R.id :: l).Nodup ∧
        ∀ b, b ∈ l ↔ S.Extends R.id b) ∧
      (∀ b, ∃ other, S.token b = some other ∧
        (t.isSubtypeOf other = true ↔ R.id = b ∨ S.Extends R.id b)) ∧
      ∀ rs ⊆ S.records,
        (R ∈ rs → (of S rs).find? t = some (some (TableEntry.of S R))) ∧
        (R ∉ rs → ∀ before x after, rs = before ++ x :: after →
          (∀ y ∈ before, ¬S.Extends R.id y.id) → S.Extends R.id x.id →
          (of S rs).find? t = some (some (TableEntry.of S x))) ∧
        (R ∉ rs → (∀ x ∈ rs, ¬S.Extends R.id x.id) → (of S rs).find? t = some none) ∧
        ∃ found, (of S rs).find? t = some found ∧ ∀ e, found = some e →
          ∃ x ∈ rs, e = TableEntry.of S x ∧ (x.id = R.id ∨ S.Extends R.id x.id) := by
  have hfound {x : Record} (hx : x ∈ S.records) : S.find? x.id = some x :=
    Schema.find?_of_mem hids hx
  -- names are distinct, so that another record has another name
  have hne {rs : List Record} (hrs : rs ⊆ S.records) (hno : R ∉ rs) : ∀ y ∈ rs, y.id ≠ R.id := by
    intro y hy hid
    have hyR : some y = some R := by rw [← hfound (hrs hy), ← hfound hR, hid]
    exact hno (Option.some.inj hyR ▸ hy)
  obtain ⟨t, ht⟩ : ∃ t, S.token R.id = some t := hS.exists_token (.record R.id)
  obtain ⟨l, hl⟩ := Schema.exists_lineage_of_token ht
  refine ⟨t, ht, ?_, ⟨l, hl, Schema.supertypes_of_token ht hl, hl.nodup, fun b => hl.mem_iff⟩,
    fun b => ?_, fun rs hrs => ⟨fun hmem => ?_, ?_, fun hno hall => ?_, ?_⟩⟩
  · exact own_token ht (hfound hR)
  · obtain ⟨other, hother⟩ : ∃ other, S.token b = some other := hS.exists_token (.record b)
    exact ⟨other, hother, Schema.isSubtypeOf_iff ht hother⟩
  · exact find?_of_mem hS (fun x hx => hfound (hrs hx)) hmem ht
  · rintro hno before x after rfl hbefore hx
    exact find?_of_first hS (hne hrs hno) ht hbefore hx
  · exact find?_of_none hS (hne hrs hno) ht hall
  · refine ⟨_, find?_eq hS ht rs, fun e he => of_find?_eq_some hS ht ?_⟩
    rw [find?_eq hS ht rs, he]

end FactoryTable

namespace Samples

/-- Every parent in the schema lists fewer supertypes than its children. -/
theorem schema_acyclic : schema.Acyclic := by
  have hends : ∀ r ∈ schema.records, (schema.token r.id).isSome = true := by decide
  intro a hself
  obtain ⟨p, hp, -⟩ := TransGen.head'_iff.1 hself
  obtain ⟨r, hr, hid⟩ := List.mem_map.1 (Schema.mem_ids_of_parent? hp)
  obtain ⟨t, ht⟩ := Option.isSome_iff_exists.1 (hends r hr)
  obtain ⟨l, hl⟩ := Schema.exists_lineage_of_token ht
  exact hl.not_transGen_self (hid ▸ hself)

/-- Squares extend polygons, which extend shapes: a polygon is served as a shape, and never as a
square. -/
theorem dispatch_to_ancestor_polygon :
    ∃ t, schema.token polygonId = some t ∧
      (∃ l, Lineage schema.parent? polygonId l ∧ t.supertypes = l.map .record ∧
        (polygonId :: l).Nodup ∧ ∀ b, b ∈ l ↔ schema.Extends polygonId b) ∧
      (FactoryTable.of schema [shape, polygon]).find? t =
        some (some (TableEntry.of schema polygon)) ∧
      (FactoryTable.of schema [square, shape]).find? t =
        some (some (TableEntry.of schema shape)) ∧
      (FactoryTable.of schema [square]).find? t = some none := by
  have hshape : schema.Extends polygon.id shape.id := .single (by rfl)
  have hother {rs : List Record} (h : polygon.id ∉ rs.map (·.id)) : polygon ∉ rs :=
    fun hmem => h (List.mem_map_of_mem hmem)
  obtain ⟨t, ht, -, hline, -, htables⟩ := FactoryTable.dispatch_to_ancestor (R := polygon)
    schema_acyclic schema_ids_nodup (by simp [schema])
  -- neither the polygon nor its ancestors are squares
  have hsquare : ∀ y ∈ [square], ¬schema.Extends polygon.id y.id := by
    rw [List.forall_mem_singleton, ← Schema.mem_supertypes_iff ht]
    cases ht
    decide
  refine ⟨t, ht, hline, (htables [shape, polygon] (by simp [schema])).1 (by simp), ?_, ?_⟩
  · exact (htables [square, shape] (by simp [schema])).2.1 (hother (by decide)) [square] shape []
      rfl hsquare hshape
  · exact (htables [square] (by simp [schema])).2.2.1 (hother (by decide)) hsquare

end Samples

end JsonAdapters
