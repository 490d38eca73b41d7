import JsonAdapters.Proofs.Derive.Fields
import JsonAdapters.Proofs.Text.Lowercase

/-!
# Names in field types

All names in a field type are names in the type expression that writes it, or the name of the record
in place of `Self`. The name of a part joins them, in lower case. It is an identifier unless one of
them is raw, for the mark of a raw identifier may only stand in front.

## Main definitions

* `Code.TypeExpr.names`: the names of the paths in a type expression.
* `IsUnmarked`: an identifier that is not raw.

## Main statements

* `FieldType.idents_ofTypeExpr`: where the names in a field type come from.
* `FieldType.not_isRaw_of_isIdentWord`, `FieldType.isIdentWord_adapterName`: which names of parts
  are identifiers.
-/

namespace JsonAdapters

open Code Outcome

/-! ## Names in type expressions -/

namespace Code

mutual

/-- Names of the paths in a type. -/
def TypeExpr.names : TypeExpr → List String
  | .path p => p.names
  | .paren t | .group t => t.names
  | .other _ => []

def Path.names : Path → List String
  | .mk _ ss => segmentNames ss

def segmentNames : List Segment → List String
  | [] => []
  | s :: ss => s.names ++ segmentNames ss

def Segment.names : Segment → List String
  | .plain n | .called n _ => [n]
  | .applied n _ args _ => n :: argumentNames args

def argumentNames : List Argument → List String
  | [] => []
  | a :: as => a.names ++ argumentNames as

def Argument.names : Argument → List String
  | .type t => t.names
  | .lifetime _ | .other _ => []

end

end Code

namespace FieldType

variable {record : String} {absolute : Bool} {before : List String}

theorem ident_ofPath (n : String) : (TypeName.ofPath record absolute (n :: before).reverse).ident ∈
    [record, n] := by
  unfold TypeName.ofPath
  split
  · exact List.mem_cons_self
  · simp [TypeName.ident]

theorem idents_apply (name : TypeName) (ts : List FieldType) :
    (apply name ts).idents = name.ident :: identsOf ts := by
  cases ts <;> rfl

theorem idents_simple (n : String) :
    (simple (.ofPath record absolute (n :: before).reverse)).idents ⊆ [record, n] := by
  simpa [idents] using ident_ofPath n

theorem idents_applied {ts : List FieldType} {ns : List String} (n : String)
    (h : identsOf ts ⊆ record :: ns) :
    (apply (.ofPath record absolute (n :: before).reverse) ts).idents ⊆ record :: n :: ns := by
  rw [idents_apply, List.cons_subset]
  constructor
  · exact List.mem_append_left ns (ident_ofPath n)
  · exact List.Subset.trans h (List.cons_subset_cons _ (List.subset_cons_self _ _))

mutual

/-- The names in a field type are written, or they are the name of the record. -/
theorem idents_ofTypeExpr : ∀ {t : TypeExpr} {f : FieldType}, ofTypeExpr record t = .ok f →
    f.idents ⊆ record :: t.names
  | .paren t, f, h | .group t, f, h => by
    rw [ofTypeExpr] at h
    rw [TypeExpr.names]
    exact idents_ofTypeExpr h
  | .path p, f, h => by
    rw [ofTypeExpr] at h
    rw [TypeExpr.names]
    exact idents_ofPath h
  | .other _, f, h => by
    rw [ofTypeExpr] at h
    cases h

theorem idents_ofPath : ∀ {p : Path} {f : FieldType}, ofPath record p = .ok f →
    f.idents ⊆ record :: p.names
  | .mk _ ss, f, h => by
    rw [ofPath] at h
    rw [Path.names]
    exact idents_ofSegments h

theorem idents_ofSegments : ∀ {ss : List Segment} {absolute : Bool} {before : List String}
    {f : FieldType}, ofSegments record absolute before ss = .ok f →
      f.idents ⊆ record :: segmentNames ss
  | [], _, _, f, h => by
    rw [ofSegments] at h
    cases h
  | s :: ss, _, _, f, h => by
    rw [ofSegments] at h
    rw [segmentNames]
    split at h
    · exact List.Subset.trans (idents_ofLastSegment h)
        (List.cons_subset_cons _ (List.subset_append_left _ _))
    · split at h
      · exact List.Subset.trans (idents_ofSegments h)
          (List.cons_subset_cons _ (List.subset_append_right _ _))
      · cases h

theorem idents_ofLastSegment : ∀ {s : Segment} {absolute : Bool} {before : List String}
    {f : FieldType}, ofLastSegment record absolute before s = .ok f → f.idents ⊆ record :: s.names
  | .plain n, _, _, f, h => by
    rw [ofLastSegment] at h
    cases h
    exact idents_simple n
  | .applied n _ args _, _, _, f, h => by
    rw [ofLastSegment] at h
    obtain ⟨-, rfl⟩ := Report.check_eq_ok.1 h
    exact idents_applied n (idents_ofArguments args)
  | .called _ _, _, _, f, h => by
    rw [ofLastSegment] at h
    cases h

theorem idents_ofArguments : ∀ args : List Argument,
    identsOf (ofArguments record args).1 ⊆ record :: argumentNames args
  | [] => by
    rw [ofArguments]
    exact List.nil_subset _
  | a :: as => by
    have hrest := List.Subset.trans (idents_ofArguments as)
      (List.cons_subset_cons record (List.subset_append_right a.names (argumentNames as)))
    rw [ofArguments, argumentNames]
    cases ha : ofArgument record a with
    | error e => exact hrest
    | ok t =>
      have hfirst := List.Subset.trans (idents_ofArgument ha)
        (List.cons_subset_cons record (List.subset_append_left a.names (argumentNames as)))
      exact List.append_subset.2 ⟨hfirst, hrest⟩

theorem idents_ofArgument : ∀ {a : Argument} {f : FieldType}, ofArgument record a = .ok f →
    f.idents ⊆ record :: a.names
  | .type t, f, h => by
    rw [ofArgument] at h
    rw [Argument.names]
    exact idents_ofTypeExpr h
  | .lifetime _, f, h | .other _, f, h => by
    rw [ofArgument] at h
    cases h

end

/-- The names under an option are those of the type in it. -/
theorem idents_optional (t : FieldType) : (t.optional?.getD t).idents ⊆ t.idents := by
  cases h : t.optional? with
  | none => exact List.Subset.refl _
  | some u =>
    unfold optional? at h
    split at h
    · split at h
      · cases h
        simp [idents, identsOf]
      · cases h
    · cases h

end FieldType

/-! ## Raw identifiers -/

/-- The name has the mark of a raw identifier. -/
def IsRaw (name : String) : Prop := ['r', '#'] <+: name.toList

instance (name : String) : Decidable (IsRaw name) :=
  inferInstanceAs (Decidable (_ <+: _))

theorem unmarked_of_not_isRaw {name : String} (h : ¬IsRaw name) : unmarked name = name := by
  unfold unmarked
  split
  · next cs hname => exact absurd ⟨cs, hname.symm⟩ h
  · rfl

/-- An identifier is raw, or it is a word. -/
theorem isIdentWord_iff_not_isRaw {n : String} (h : isIdentifier n) :
    isIdentWord n.toList ↔ ¬IsRaw n := by
  unfold isIdentifier at h
  split at h
  · next cs hn =>
    have hraw : IsRaw n := ⟨cs, hn.symm⟩
    refine iff_of_false (fun hword => ?_) (not_not.2 hraw)
    have hmark : '#' ∈ n.toList := by simp [hn]
    exact absurd (isIdentContinue_of_word hword '#' hmark) (by decide)
  · next hraw =>
    refine iff_of_true h ?_
    rintro ⟨cs, hn⟩
    exact hraw cs hn.symm

/-- A word is an identifier, as it has no mark. -/
theorem isIdentifier_of_isIdentWord {n : String} (h : isIdentWord n.toList) : isIdentifier n := by
  unfold isIdentifier
  split
  · next cs hn =>
    have hmark : '#' ∈ n.toList := by simp [hn]
    exact absurd (isIdentContinue_of_word h '#' hmark) (by decide)
  · exact h

/-- Without its mark, an identifier is a word. -/
theorem isIdentWord_unmarked {n : String} (h : isIdentifier n) :
    isIdentWord (unmarked n).toList := by
  unfold isIdentifier at h
  unfold unmarked
  split
  · next cs hn =>
    simp only [hn, Bool.and_eq_true] at h
    simpa using h.1
  · next hraw =>
    split at h
    · next cs hn => exact absurd hn (hraw cs)
    · exact h

namespace FieldType

variable {t : FieldType}

theorem toList_adapterName (t : FieldType) : t.adapterName.toList =
    lowerAfter [] (['_'].intercalate ((t.idents ++ ["adapter"]).map String.toList)) := by
  rw [adapterName, lowercase, String.toList_ofList, String.toList_intercalate]
  rfl

/-- A part cannot be named after a type with a raw name in it. -/
theorem not_isRaw_of_isIdentWord (h : isIdentWord t.adapterName.toList) :
    ∀ n ∈ t.idents, ¬IsRaw n := by
  rw [toList_adapterName] at h
  intro n hn hraw
  have hmem : n.toList ∈ (t.idents ++ ["adapter"]).map String.toList :=
    List.mem_map_of_mem (List.mem_append_left _ hn)
  have hmark : '#' ∈ n.toList := hraw.subset (by simp)
  have hjoined : '#' ∈ ['_'].intercalate ((t.idents ++ ["adapter"]).map String.toList) :=
    subset_intercalate hmem hmark
  -- the mark of a raw name is still there in lower case
  have hlower := mem_lowerAfter_of_mem [] (by decide) (by decide) hjoined
  exact absurd (isIdentContinue_of_word h '#' hlower) (by decide)

/-- The name of a part is an identifier unless a name in its type is raw. -/
theorem isIdentWord_adapterName (h : ∀ n ∈ t.idents, isIdentifier n) :
    isIdentWord t.adapterName.toList ↔ ∀ n ∈ t.idents, ¬IsRaw n := by
  refine ⟨not_isRaw_of_isIdentWord, fun hplain => ?_⟩
  rw [toList_adapterName]
  refine isIdentWord_lowerAfter [] (isIdentWord_intercalate (by simp) ?_)
  rw [List.forall_mem_map, List.forall_mem_append]
  refine ⟨fun n hn => (isIdentWord_iff_not_isRaw (h n hn)).2 (hplain n hn), ?_⟩
  simpa using by decide

end FieldType

/-! ## Names in declarations -/

/-- The name of a declared type, and the names in the types of its named fields. -/
def Code.Declaration.typeNames (d : Declaration) : List String :=
  d.name ::
    match d.shape with
    | .named ds => ds.flatMap (·.type.names)
    | _ => []

/-- No name in the type of a field is raw. -/
def RecordPlan.RawFree (r : RecordPlan) : Prop := ∀ f ∈ r.fields, ∀ n ∈ f.type.idents, ¬IsRaw n

theorem isIdentifier_of_accepted {d : Declaration} {r : RecordPlan}
    (h : RecordPlan.ofDeclaration d = .ok r) (hnames : ∀ n ∈ d.typeNames, isIdentifier n) :
    ∀ f ∈ r.fields, ∀ n ∈ f.type.idents, isIdentifier n := by
  obtain ⟨ds, hds, -, rfl⟩ := ofDeclaration_eq_ok_iff.1 h
  intro f hf n hn
  obtain ⟨x, hx, hplan⟩ := List.mem_filterMap.1 hf
  obtain ⟨t, ht, rfl⟩ := plannedField?_eq_some hplan
  have hwritten := FieldType.idents_ofTypeExpr ht (FieldType.idents_optional t hn)
  refine hnames n ?_
  rw [Declaration.typeNames, hds.shape]
  rcases List.mem_cons.1 hwritten with rfl | hmem
  · exact List.mem_cons_self
  · exact List.mem_cons_of_mem _ (List.mem_flatMap.2 ⟨x, hx, hmem⟩)

end JsonAdapters
