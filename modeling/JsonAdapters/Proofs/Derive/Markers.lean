import JsonAdapters.Proofs.Derive.Fields

/-!
# Fields that only mark

A field of type `PhantomData<A>` holds no value: it is neither read nor written, and the record is
the same without it, but for the list of fields that are skipped. That a type only marks is asked
when all of it has been read, so such a field is accepted only if `A` is a type that fields can
have; the setting that skips a field is asked for before.

## Main definitions

* `markerType`: the type `PhantomData<A>`, by itself or through a standard package.
* `Code.Declaration.withField`: a declaration with one field more.

## Main statements

* `ofTypeExpr_markerType`: how the type is read.
* `ofDeclaration_withMarker`: what one more field of such a type changes.
-/

namespace JsonAdapters

open Code Outcome

variable {record : String} {absolute : Bool} {around : List String}

/-! ## The type -/

/-- The type `PhantomData<A>` behind the given names. -/
def markerType (absolute : Bool) (around : List String) (turbofish trailing : Bool) (a : TypeExpr) :
    TypeExpr :=
  .path (.mk absolute
    (around.map .plain ++ [.applied "PhantomData" turbofish [.type a] trailing]))

/-- The path starts with a standard package, or there is none. -/
def IsStandardPath (around : List String) : Prop :=
  ∀ root ∈ around.head?, root ∈ TypeName.standardRoots

theorem ofSegments_plain (before names : List String) (s : Segment) :
    FieldType.ofSegments record absolute before (names.map .plain ++ [s]) =
      FieldType.ofLastSegment record absolute (names.reverse ++ before) s := by
  induction names generalizing before with
  | nil => simp [FieldType.ofSegments]
  | cons n names ih =>
    have hpass : (Segment.plain n).isPlain = true := rfl
    rw [List.map_cons, List.cons_append, FieldType.ofSegments, if_neg (by simp), if_pos hpass, ih]
    simp [Segment.name]

/-- The type is one that fields can have if its argument is. -/
theorem ofTypeExpr_markerType (turbofish trailing : Bool) (a : TypeExpr) :
    FieldType.ofTypeExpr record (markerType absolute around turbofish trailing a) =
      (FieldType.ofTypeExpr record a).map fun t =>
        .applied ⟨absolute, around ++ ["PhantomData"]⟩ [t] := by
  have hname : TypeName.ofPath record absolute (around ++ ["PhantomData"]) =
      ⟨absolute, around ++ ["PhantomData"]⟩ := by
    unfold TypeName.ofPath
    rw [if_neg]
    cases around <;> simp
  rw [markerType, FieldType.ofTypeExpr, FieldType.ofPath, ofSegments_plain, FieldType.ofLastSegment]
  simp only [FieldType.ofArguments, FieldType.ofArgument, List.append_nil, List.reverse_cons,
    List.reverse_reverse, hname]
  cases FieldType.ofTypeExpr record a <;> rfl

theorem marksOnly_marker (h : IsStandardPath around) (ts : List FieldType) :
    (FieldType.applied ⟨absolute, around ++ ["PhantomData"]⟩ ts).marksOnly := by
  have hcanonical :
      (TypeName.mk absolute (around ++ ["PhantomData"])).canonical = "PhantomData" := by
    match around, h with
    | [], _ => rfl
    | root :: rest, h =>
      have hroot : root ∈ TypeName.standardRoots := h root rfl
      cases rest with
      | nil => simp [TypeName.canonical, TypeName.ident, hroot]
      | cons n rest =>
        have hlast : (root :: n :: rest ++ ["PhantomData"]).getLast? = some "PhantomData" :=
          List.getLast?_concat
        simp only [TypeName.canonical, TypeName.ident, List.cons_append, if_pos hroot] at hlast ⊢
        rw [hlast]
        rfl
  simp [FieldType.marksOnly, FieldType.name, hcanonical]

/-! ## One more field -/

/-- The declaration with one more field among the given ones. -/
def Code.Declaration.withField (d : Declaration) (before : List FieldDecl) (x : FieldDecl)
    (after : List FieldDecl) : Declaration :=
  { d with shape := .named (before ++ x :: after) }

section Inserted

variable {d : Declaration} {r : RecordPlan} {before after : List FieldDecl} {x : FieldDecl}

/-- One more field that is no field of the record: the declaration is refused for what is wrong with
the field, or only the list of skipped fields changes. -/
theorem ofDeclaration_withField (h : RecordPlan.ofDeclaration d = .ok r)
    (hshape : d.shape = .named (before ++ after)) (hx : (fieldSettings x.attributes).faults = [])
    (hplanned : plannedField? d.name x = none) :
    RecordPlan.ofDeclaration (d.withField before x after) =
      match fieldFault? d.name x with
      | some e => .error e
      | none => .ok
        { r with skipped := before.filterMap (skippedField? d.name) ++ x.name ::
            after.filterMap (skippedField? d.name) } := by
  obtain ⟨ds, hds, hnone, rfl⟩ := ofDeclaration_eq_ok_iff.1 h
  obtain rfl : ds = before ++ after := Shape.named.inj (hds.shape.symm.trans hshape)
  have hunderstood : (d.withField before x after).Understood (before ++ x :: after) :=
    { shape := rfl
      record := hds.record
      fields := by
        obtain ⟨hbefore, hafter⟩ := List.forall_mem_append.1 hds.fields
        exact List.forall_mem_append.2 ⟨hbefore, List.forall_mem_cons.2 ⟨hx, hafter⟩⟩ }
  have hfields : ((d.withField before x after).plan (before ++ x :: after)).fields =
      (d.plan (before ++ after)).fields := by
    simp only [Declaration.plan, Declaration.withField, List.filterMap_append, List.filterMap_cons,
      hplanned]
  -- all faults that there are now are those of the new field
  have hfaults : (d.withField before x after).faults (before ++ x :: after) =
      (fieldFault? d.name x).toList := by
    rw [Declaration.faults, List.append_eq_nil_iff, List.append_eq_nil_iff, List.filterMap_append,
      List.append_eq_nil_iff] at hnone
    obtain ⟨⟨hgeneric, hbefore, hafter⟩, hchecks⟩ := hnone
    rw [Declaration.faults, hfields, hchecks, List.append_nil]
    change (if d.generic then _ else _) ++ List.filterMap (fieldFault? d.name) _ = _
    rw [hgeneric, List.nil_append, List.filterMap_append, hbefore, List.nil_append,
      List.filterMap_cons]
    cases fieldFault? d.name x <;> simp [hafter]
  rw [ofDeclaration_of_understood hunderstood, hfaults]
  cases hfault : fieldFault? d.name x with
  | some e => rfl
  | none =>
    refine Report.check_eq_ok.2 ⟨rfl, ?_⟩
    simp only [Declaration.plan, Declaration.withField, List.filterMap_append, List.filterMap_cons,
      hplanned, skippedField?_eq_some hplanned hfault]

end Inserted

/-- A field whose type only marks is no field of the record. -/
theorem plannedField?_marker {attributes : List Attribute} {name : String}
    {turbofish trailing : Bool} {a : TypeExpr} (h : IsStandardPath around) : plannedField? record
      ⟨attributes, name, markerType absolute around turbofish trailing a⟩ = none := by
  rw [plannedField?, ofTypeExpr_markerType]
  cases FieldType.ofTypeExpr record a with
  | error e => exact ite_self _
  | ok t =>
    simp only [Except.map, if_pos (marksOnly_marker h [t])]
    exact ite_self _

/-- One more field of a type that only marks, anywhere in an accepted declaration, changes nothing
but the list of skipped fields, in which it is found at its place. The declaration stays accepted if
the settings of the field skip it, or if the argument of its type is a type that fields can have;
else it is refused for what is wrong with the argument. -/
theorem ofDeclaration_withMarker {d : Declaration} {r : RecordPlan} {before after : List FieldDecl}
    (h : RecordPlan.ofDeclaration d = .ok r) (hshape : d.shape = .named (before ++ after))
    (hpath : IsStandardPath around) {attributes : List Attribute}
    (hattributes : (fieldSettings attributes).faults = []) (name : String)
    (turbofish trailing : Bool) (a : TypeExpr) :
    let x : FieldDecl := ⟨attributes, name, markerType absolute around turbofish trailing a⟩
    (x.settings.skip ∨ (∃ t, FieldType.ofTypeExpr d.name a = .ok t) →
      RecordPlan.ofDeclaration (d.withField before x after) =
        .ok { r with skipped := before.filterMap (skippedField? d.name) ++ name ::
          after.filterMap (skippedField? d.name) }) ∧
      ∀ e, ¬x.settings.skip → FieldType.ofTypeExpr d.name a = .error e →
        RecordPlan.ofDeclaration (d.withField before x after) = .error e := by
  intro x
  -- the field is planned as no field, so only its faults matter
  rw [ofDeclaration_withField h hshape hattributes (plannedField?_marker hpath)]
  constructor
  · intro hfine
    have hfault : fieldFault? d.name x = none := by
      refine fieldFault?_eq_none_iff.2 fun hskip => ?_
      obtain ⟨t, ht⟩ := hfine.resolve_left hskip
      rw [ofTypeExpr_markerType, ht]
      exact ⟨_, rfl⟩
    rw [hfault]
  · intro e hskip he
    have hfault : fieldFault? d.name x = some e := by
      refine fieldFault?_eq_some_iff.2 ⟨hskip, ?_⟩
      rw [ofTypeExpr_markerType, he]
      rfl
    rw [hfault]

namespace Samples

def plainField (name type : String) : FieldDecl :=
  { attributes := [], name, type := .path (.ofName type) }

/-- A declaration with the given fields. -/
def itemDeclaration (fields : List FieldDecl) : Declaration where
  attributes := []
  visibility := []
  name := "Item"
  generic := false
  shape := .named fields

def itemPlan : RecordPlan where
  name := "Item"
  visibility := []
  module := []
  fields := [
    { name := "id", key := "id", aliases := [], type := .simple ⟨false, ["i32"]⟩,
      nullable := false },
    { name := "tag", key := "tag", aliases := [], type := .simple ⟨false, ["String"]⟩,
      nullable := false }]
  skipped := []
  default := none
  extending := none

/-- The type `std::marker::PhantomData<A>`. -/
def longMarker (a : TypeExpr) : TypeExpr := markerType false ["std", "marker"] false false a

theorem itemPlan_accepted :
    RecordPlan.ofDeclaration (itemDeclaration [plainField "id" "i32", plainField "tag" "String"]) =
      .ok itemPlan :=
  rfl

/-- A marker of `Vec<Self>` between two fields. -/
theorem marked_between : RecordPlan.ofDeclaration (itemDeclaration
      [plainField "id" "i32",
        ⟨[], "owner", longMarker (.path (.mk false
          [.applied "Vec" false [.type (.path (.ofName "Self"))] false]))⟩,
        plainField "tag" "String"]) =
    .ok { itemPlan with skipped := ["owner"] } := by
  have hplace : (itemDeclaration [plainField "id" "i32", plainField "tag" "String"]).shape =
      .named ([plainField "id" "i32"] ++ [plainField "tag" "String"]) := rfl
  have hroot : IsStandardPath ["std", "marker"] := by
    unfold IsStandardPath
    decide
  have hsettings : (fieldSettings []).faults = [] := rfl
  obtain ⟨haccepted, -⟩ := @ofDeclaration_withMarker false _ _ _ _ _ itemPlan_accepted hplace hroot
    _ hsettings "owner" false false _
  exact haccepted (.inr ⟨_, rfl⟩)

/-- The type `&'static str`. -/
def borrowedText : TypeExpr :=
  .other [.punct '&' false, .punct '\'' true, .ident "static", .ident "str"]

/-- A marker of borrowed texts is refused for its argument. -/
theorem marked_borrowed_refused : RecordPlan.ofDeclaration (itemDeclaration
      [plainField "id" "i32", ⟨[], "owner", longMarker borrowedText⟩, plainField "tag" "String"]) =
    .error (.of .notAPath) :=
  rfl

end Samples

end JsonAdapters
