import JsonAdapters.Proofs.Code.NormalTypes
import JsonAdapters.Proofs.Derive.TypeGrammar

/-!
# Emitted field types

A field type is emitted as a type in normal form, which is read again as the field type itself,
whatever the record.

## Main definitions

* `FieldType.HasForm`: a type in normal form that is emitted as a field type, and stands for it in
  every record.

## Main statements

* `FieldType.Writes.exists_hasForm`: what stands for a field type has a normal form.
* `FieldType.tokens_reread`.
-/

namespace JsonAdapters

open Code

namespace Code

variable {absolute : Bool} {before : List Segment} {s s' : Segment}

/-- The last name of a path may get or lose its arguments. -/
theorem Path.IsNamed.replaceLast (h : (Path.mk absolute (before ++ [s])).IsNamed)
    (hs : s'.IsNamed) (hname : s'.name = s.name) :
    (Path.mk absolute (before ++ [s'])).IsNamed := by
  refine ⟨fun r hr => ?_, fun ha r hr => ?_⟩
  · rcases List.mem_append.1 hr with hr | hr
    · exact h.1 r (List.mem_append_left _ hr)
    · exact List.mem_singleton.1 hr ▸ hs
  · cases before with
    | nil =>
      cases hr
      rw [hname]
      exact h.2 ha s rfl
    | cons r' before =>
      cases hr
      exact h.2 ha r rfl

theorem Path.IsNamed.last (h : (Path.mk absolute (before ++ [s])).IsNamed) : s.IsNamed :=
  h.1 s (List.mem_append_right _ List.mem_cons_self)

theorem Segment.IsNamed.plain (h : s.IsNamed) : (Segment.plain s.name).IsNamed := by
  cases s with
  | plain n => exact h
  | applied n _ _ _ | called n _ =>
    refine h.imp_right ?_
    rintro rfl
    exact List.mem_of_elem_eq_true rfl

theorem segmentTokens_replaceLast {ts : Tokens} (h : s'.tokens = s.tokens ++ ts) :
    segmentTokens (before ++ [s']) = segmentTokens (before ++ [s]) ++ ts := by
  induction before with
  | nil => simp [segmentTokens, h]
  | cons r before ih =>
    rw [List.cons_append, List.cons_append, segmentTokens, segmentTokens, ih]
    simp

end Code

namespace FieldType

variable {record : String} {absolute : Bool} {around : List String} {s : Segment} {name : TypeName}

/-- The name that a path stands for can be written in place of the path, in every record. -/
theorem exists_name (hrecord : record ∉ keywords)
    (hpath : (Code.Path.mk absolute (around.map .plain ++ [s])).IsNamed)
    (h : TypeName.Names record absolute (around ++ [s.name]) name) :
    ∃ (absolute' : Bool) (around' : List String) (n : String),
      name = ⟨absolute', around' ++ [n]⟩ ∧
      (absolute' = false → around' ++ [n] ≠ ["Self"]) ∧
      (Code.Path.mk absolute' (around'.map .plain ++ [s.rename n])).IsNamed := by
  generalize hnames : around ++ [s.name] = names at h
  cases h with
  -- `Self` stands for the record, whose name is no keyword
  | self =>
    have hword (w : String) (hw : w ∈ keywords) : record ≠ w := fun h => hrecord (h ▸ hw)
    refine ⟨false, [], record, rfl, fun _ h => ?_, fun r hr => ?_, fun _ r hr => ?_⟩
    · exact hword "Self" (by decide) (List.singleton_inj.1 h)
    · obtain rfl := List.mem_singleton.1 hr
      cases s <;> exact .inl hrecord
    · cases hr
      have hname : (s.rename record).name = record := by cases s <;> rfl
      rw [hname]
      exact hword "try" (by decide)
  | path hself =>
    have hsame : s.rename s.name = s := by cases s <;> rfl
    refine ⟨absolute, around, s.name, by rw [hnames], hnames ▸ hself, ?_⟩
    rwa [hsame]

/-- A type in normal form that is emitted as the field type, and stands for it in every record. -/
structure HasForm (f : FieldType) (u : TypeExpr) : Prop where
  isNormal : u.IsNormal
  wellNamed : u.WellNamed
  tokens_eq : u.tokens = f.tokens
  writes : ∀ record, Writes record u f

theorem hasForm_simple {n : String} (hself : absolute = false → around ++ [n] ≠ ["Self"])
    (hpath : (Code.Path.mk absolute (around.map .plain ++ [.plain n])).IsNamed) :
    (simple ⟨absolute, around ++ [n]⟩).HasForm
      (.path (.mk absolute (around.map .plain ++ [.plain n]))) := by
  have hsegments : around.map Segment.plain ++ [.plain n] = (around ++ [n]).map .plain := by
    rw [List.map_append]
    rfl
  refine ⟨?_, ?_, ?_, fun r => .path (.plain (.path hself))⟩
  · rw [hsegments]
    exact .simple (by simp) hself
  · rw [TypeExpr.wellNamed_path_last, Segment.paths]
    exact ⟨hpath, List.forall_mem_nil _⟩
  · rw [hsegments, TypeExpr.tokens, tokens, TypeName.path]

variable {fs : List FieldType} {us : List TypeExpr}

theorem exists_hasForm_of_mem (h : List.Forall₂ HasForm fs us) : ∀ u ∈ us, ∃ f, HasForm f u := by
  induction h with
  | nil => exact List.forall_mem_nil _
  | cons hu _ ih => exact List.forall_mem_cons.2 ⟨⟨_, hu⟩, ih⟩

theorem map_tokens_eq (h : List.Forall₂ HasForm fs us) : us.map (·.tokens) = tokensOf fs := by
  induction h with
  | nil => rfl
  | cons hu _ ih => rw [List.map_cons, tokensOf, hu.tokens_eq, ih]

theorem allWrite_of_hasForm (h : List.Forall₂ HasForm fs us) (record : String) :
    AllWrite record (us.map .type) fs := by
  induction h with
  | nil => exact .nil
  | cons hu _ ih => exact .cons (hu.writes record) ih

theorem hasForm_applied {n : String} (hself : absolute = false → around ++ [n] ≠ ["Self"])
    (hpath : (Code.Path.mk absolute
      (around.map .plain ++ [.applied n false (us.map .type) false])).IsNamed)
    (hne : us ≠ []) (h : List.Forall₂ HasForm fs us) :
    (applied ⟨absolute, around ++ [n]⟩ fs).HasForm
      (.path (.mk absolute (around.map .plain ++ [.applied n false (us.map .type) false]))) := by
  have hforms := exists_hasForm_of_mem h
  refine ⟨?_, ?_, ?_, fun r => .path (.applied (.path hself) (by simpa using hne)
    (allWrite_of_hasForm h r))⟩
  · exact .applied hself hne fun u hu => (hforms u hu).elim fun _ hu => hu.isNormal
  · rw [TypeExpr.wellNamed_path_last]
    refine ⟨hpath, (Segment.wellNamed_applied.2 ⟨hpath.last, fun a ha => ?_⟩).2⟩
    obtain ⟨u, hu, rfl⟩ := List.mem_map.1 ha
    obtain ⟨f, hu⟩ := hforms u hu
    exact Argument.wellNamed_type.2 hu.wellNamed
  · have hlast : (Segment.applied n false (us.map .type) false).tokens =
        (Segment.plain n).tokens ++
          (.punct '<' false :: commaSeparated (tokensOf fs) ++ [.punct '>' false]) := by
      rw [Segment.tokens, Segment.tokens, arrangeArguments_types, map_tokens_eq h]
      rfl
    rw [TypeExpr.tokens, Path.tokens, segmentTokens_replaceLast hlast, tokens, TypeName.path,
      Path.tokens, List.map_append]
    simp

mutual

/-- What stands for a field type has a normal form. -/
theorem Writes.exists_hasForm (hrecord : record ∉ keywords) :
    ∀ {t : TypeExpr} {f : FieldType}, Writes record t f → t.WellNamed → ∃ u, f.HasForm u
  | _, _, .paren h, ht => h.exists_hasForm hrecord (TypeExpr.wellNamed_paren.1 ht)
  | _, _, .group h, ht => h.exists_hasForm hrecord (TypeExpr.wellNamed_group.1 ht)
  | _, _, .path h, ht => by
    obtain ⟨hpath, hinner⟩ := TypeExpr.wellNamed_path_last.1 ht
    exact h.exists_hasForm hrecord hpath hinner

theorem EndWrites.exists_hasForm (hrecord : record ∉ keywords) : ∀ {absolute : Bool}
    {around : List String} {s : Segment} {f : FieldType}, EndWrites record absolute around s f →
      (Code.Path.mk absolute (around.map .plain ++ [s])).IsNamed → (∀ q ∈ s.paths, q.IsNamed) →
      ∃ u, f.HasForm u
  | _, _, _, _, .plain h, hpath, _ => by
    obtain ⟨absolute, around, n, rfl, hself, hpath⟩ := exists_name hrecord hpath h
    exact ⟨_, hasForm_simple hself hpath⟩
  | _, _, _, _, .empty h, hpath, _ => by
    obtain ⟨absolute, around, n, rfl, hself, hpath⟩ := exists_name hrecord hpath h
    exact ⟨_, hasForm_simple hself (hpath.replaceLast (hpath.last.plain) rfl)⟩
  | _, _, _, _, .applied h hne hall, hsource, hinner => by
    obtain ⟨absolute, around, n, rfl, hself, hpath⟩ := exists_name hrecord hsource h
    have hargs := (Segment.wellNamed_applied.1 ⟨hsource.last, hinner⟩).2
    obtain ⟨us, hus⟩ := hall.exists_hasForms hrecord hargs
    have hne : us ≠ [] := by
      cases hall with
      | nil => exact absurd rfl hne
      | cons => cases hus; simp
    exact ⟨_, hasForm_applied hself (hpath.replaceLast hpath.last rfl) hne hus⟩

theorem AllWrite.exists_hasForms (hrecord : record ∉ keywords) : ∀ {args : List Argument}
    {fs : List FieldType}, AllWrite record args fs → (∀ a ∈ args, a.WellNamed) →
      ∃ us, List.Forall₂ HasForm fs us
  | _, _, .nil, _ => ⟨[], .nil⟩
  | _, _, .cons h hall, hargs => by
    obtain ⟨ht, hargs⟩ := List.forall_mem_cons.1 hargs
    obtain ⟨u, hu⟩ := h.exists_hasForm hrecord (Argument.wellNamed_type.1 ht)
    obtain ⟨us, hus⟩ := hall.exists_hasForms hrecord hargs
    exact ⟨u :: us, .cons hu hus⟩

end

/-- The field type and all types in it have a form in which they are emitted. -/
inductive HasForms : FieldType → Prop
  | simple {n : TypeName} {u : TypeExpr} : (simple n).HasForm u → HasForms (simple n)
  | applied {n : TypeName} {as : List FieldType} {u : TypeExpr} : (applied n as).HasForm u →
      as ≠ [] → (∀ a ∈ as, a.HasForms) → HasForms (applied n as)

theorem HasForms.exists_hasForm {f : FieldType} (h : f.HasForms) : ∃ u, f.HasForm u := by
  cases h with
  | simple hu | applied hu _ _ => exact ⟨_, hu⟩

mutual

/-- What stands for a field type can be emitted, and so can all types in it. -/
theorem Writes.hasForms (hrecord : record ∉ keywords) :
    ∀ {t : TypeExpr} {f : FieldType}, Writes record t f → t.WellNamed → f.HasForms
  | _, _, .paren h, ht => h.hasForms hrecord (TypeExpr.wellNamed_paren.1 ht)
  | _, _, .group h, ht => h.hasForms hrecord (TypeExpr.wellNamed_group.1 ht)
  | _, _, .path h, ht => by
    obtain ⟨u, hu⟩ := Writes.exists_hasForm hrecord (.path h) ht
    obtain ⟨hpath, hinner⟩ := TypeExpr.wellNamed_path_last.1 ht
    exact h.hasForms hrecord hpath.last hinner hu

theorem EndWrites.hasForms (hrecord : record ∉ keywords) : ∀ {absolute : Bool}
    {around : List String} {s : Segment} {f : FieldType}, EndWrites record absolute around s f →
      s.IsNamed → (∀ q ∈ s.paths, q.IsNamed) → ∀ {u : TypeExpr}, f.HasForm u → f.HasForms
  | _, _, _, _, .plain _, _, _, _, hu | _, _, _, _, .empty _, _, _, _, hu => .simple hu
  | _, _, _, _, .applied _ hne hall, hnamed, hinner, _, hu => by
    have hargs := (Segment.wellNamed_applied.1 ⟨hnamed, hinner⟩).2
    refine .applied hu ?_ (hall.hasForms hrecord hargs)
    cases hall with
    | nil => exact absurd rfl hne
    | cons => exact List.cons_ne_nil _ _

theorem AllWrite.hasForms (hrecord : record ∉ keywords) : ∀ {args : List Argument}
    {fs : List FieldType}, AllWrite record args fs → (∀ a ∈ args, a.WellNamed) →
      ∀ f ∈ fs, f.HasForms
  | _, _, .nil, _ => List.forall_mem_nil _
  | _, _, .cons h hall, hargs => by
    obtain ⟨ht, hargs⟩ := List.forall_mem_cons.1 hargs
    exact List.forall_mem_cons.2
      ⟨h.hasForms hrecord (Argument.wellNamed_type.1 ht), hall.hasForms hrecord hargs⟩

end

/-! ## Main result -/

/-- The tokens that a field type is emitted as can be read, as a type without a lone `Self`, without
parentheses or groups and without empty brackets, which stands for the same field type in every
record. -/
theorem tokens_reread {t : TypeExpr} {f : FieldType} (hrecord : record ∉ keywords)
    (ht : t.WellNamed) (h : ofTypeExpr record t = .ok f) :
    ∃ u, readTokens? (fun g => g.type true) f.tokens = some u ∧ u.IsNormal ∧
      ∀ record', ofTypeExpr record' u = .ok f := by
  obtain ⟨u, hu⟩ := Writes.exists_hasForm hrecord (ofTypeExpr_eq_ok_iff.1 h) ht
  refine ⟨u, ?_, hu.isNormal, fun record' => ofTypeExpr_eq_ok_iff.2 (hu.writes record')⟩
  rw [← hu.tokens_eq]
  exact hu.isNormal.readTokens?_eq hu.wellNamed

end FieldType

namespace Samples

/-- The type `::map::Pair<(Self), Unit<>,>`. -/
def groupedPair : TypeExpr :=
  .path (.mk true [.plain "map", .applied "Pair" false
    [.type (.paren (.path (.ofName "Self"))), .type (appliedType "Unit" [])] true])

/-- In the record `Node`, a type that can be read stands for `::map::Pair<Node, Unit>`, and what is
emitted for it stands for the same in another record. -/
theorem groupedPair_reread :
    let f : FieldType := .applied ⟨true, ["map", "Pair"]⟩
      [.simple ⟨false, ["Node"]⟩, .simple ⟨false, ["Unit"]⟩]
    readTokens? (fun g => g.type true) groupedPair.tokens = some groupedPair ∧
    FieldType.ofTypeExpr "Node" groupedPair = .ok f ∧
    ∃ u, readTokens? (fun g => g.type true) f.tokens = some u ∧ u.IsNormal ∧
      FieldType.ofTypeExpr "Other" u = .ok f := by
  intro f
  have hread : readTokens? (fun g => g.type true) groupedPair.tokens = some groupedPair := rfl
  have hnamed : groupedPair.WellNamed := (grammar_wellNamed _ true).of_runAll? hread
  obtain ⟨u, hu, hnormal, hwrites⟩ := @FieldType.tokens_reread "Node" groupedPair f
    (by decide) hnamed rfl
  exact ⟨hread, rfl, u, hu, hnormal, hwrites "Other"⟩

end Samples

end JsonAdapters
