import JsonAdapters.Emit.Expansion
import JsonAdapters.Proofs.Derive.Idents
import JsonAdapters.Proofs.Derive.TypeGrammar
import JsonAdapters.Proofs.Package.OutputNames
import JsonAdapters.Proofs.Package.Walking

/-!
# Which adapters can be emitted

An adapter is emitted if its parts can be named. For an accepted record this is so unless the type
of a field has a raw name in it, wherever the adapter is to stand: beside its record, or in the file
that holds all adapters. Nothing else in a package with identifiers for names keeps a pass from
giving its files.

## Main definitions

* `Discovery.HasIdentifiers`: all names that were found are identifiers.

## Main statements

* `parts_named_iff`: when the parts of an accepted record can be named.
* `Emit.AdapterCode.code_ok_iff`, `Emit.expandRecord_ok_iff`: its adapter and its expansion.
* `generate_ok_iff`: a pass over accepted records.
* `emitted_iff_rawFree`: names of parts, adapters, expansions and passes.
-/

namespace JsonAdapters

open Code Emit Outcome

/-! ## Single adapters -/

section Declared

variable {d : Declaration} {r : RecordPlan}

/-- The parts of an accepted record can be named unless the type of a field has a raw name. -/
theorem parts_named_iff (h : RecordPlan.ofDeclaration d = .ok r)
    (hnames : ∀ n ∈ d.typeNames, isIdentifier n) :
    (∀ f ∈ r.fields, isIdentWord f.adapter.toList) ↔ r.RawFree := by
  refine forall₂_congr fun f hf => ?_
  exact FieldType.isIdentWord_adapterName (isIdentifier_of_accepted h hnames f hf)

theorem Emit.AdapterCode.code_ok_iff (h : RecordPlan.ofDeclaration d = .ok r)
    (hnames : ∀ n ∈ d.typeNames, isIdentifier n) (v : Visibility) (as : List Attribute) :
    (∃ code, (AdapterCode.mk r v as).code = .ok code) ↔ r.RawFree :=
  (AdapterCode.code_gives _).exists_ok.trans (parts_named_iff h hnames)

theorem Emit.expandRecord_ok_iff (h : RecordPlan.ofDeclaration d = .ok r)
    (hnames : ∀ n ∈ d.typeNames, isIdentifier n) :
    (∃ code, expandRecord d = .ok code) ↔ r.RawFree := by
  rw [← AdapterCode.code_ok_iff h hnames r.visibility [standAside], expandRecord, h]
  constructor
  · rintro ⟨code, hcode⟩
    obtain ⟨adapter, hadapter, -⟩ := except_bind_eq_ok.1 hcode
    exact ⟨adapter, hadapter⟩
  · rintro ⟨adapter, hadapter⟩
    exact ⟨_, except_bind_eq_ok.2 ⟨adapter, hadapter, rfl⟩⟩

end Declared

/-! ## Passes -/

/-- The name of a factory after a marker is an identifier if that of the marker is one. -/
theorem isIdentifier_factoryTypeName {n : String} (h : isIdentifier n) :
    isIdentifier (factoryTypeName n) := by
  have hname : (factoryTypeName n).toList = ['K', 's', 'o', 'n'] ++ (unmarked n).toList := by
    rw [factoryTypeName, String.toList_append]
    rfl
  have hword : isIdentWord (factoryTypeName n).toList := by
    rw [hname]
    exact isIdentWord_append (by decide) (isIdentContinue_of_word (isIdentWord_unmarked h))
  exact isIdentifier_of_isIdentWord hword

/-- All names that a walk has found are identifiers. -/
structure Discovery.HasIdentifiers (d : Discovery) : Prop where
  modules : ∀ f ∈ d.records, ∀ n ∈ f.module, isIdentifier n
  types : ∀ f ∈ d.records, ∀ n ∈ f.declaration.typeNames, isIdentifier n
  markers : ∀ m ∈ d.markers, isIdentifier m.name
  scopes : ∀ path s, d.scopes.lookup path = some s → ∀ n ∈ s.path, isIdentifier n

section Pass

variable {d : Discovery} {o : Options} {rs : List RecordPlan}

/-- A record of a pass is accepted, and it is in the module of its declaration. -/
theorem exists_found_of_plansOf (hrs : plansOf d.records = .ok rs) : ∀ r ∈ rs, ∃ f ∈ d.records,
    ∃ p, RecordPlan.ofDeclaration f.declaration = .ok p ∧ p.placedIn f.module = r := by
  intro r hr
  obtain ⟨f, hf, hplan⟩ := exists_mem_of_mapM_eq_ok hrs r hr
  split at hplan
  · next p hp => exact ⟨f, hf, p, hp, Except.ok.inj hplan⟩
  · cases hplan

variable (hd : d.HasIdentifiers) (hrs : plansOf d.records = .ok rs)

include hd hrs

theorem modules_named : ∀ r ∈ rs, ∀ n ∈ r.module, isIdentifier n := by
  intro r hr
  obtain ⟨f, hf, p, -, rfl⟩ := exists_found_of_plansOf hrs r hr
  exact hd.modules f hf

theorem nameable_iff_rawFree {module : String} (hmodule : isIdentifier module) :
    Nameable module d.scopes rs ↔ ∀ r ∈ rs, r.RawFree := by
  have hparts : ∀ r ∈ rs, (∀ f ∈ r.fields, isIdentWord f.adapter.toList) ↔ r.RawFree := by
    intro r hr
    obtain ⟨f, hf, p, hp, rfl⟩ := exists_found_of_plansOf hrs r hr
    have hplan := parts_named_iff hp (hd.types f hf)
    exact hplan
  rw [← forall₂_congr hparts]
  exact ⟨fun h => h.parts, fun h =>
    { wrapper := hmodule
      modules := modules_named hd hrs
      parts := h
      scopes := fun path s _ hs => hd.scopes path s hs }⟩

/-- One marker gives a factory, and none gives none. -/
theorem exists_markerOutput (hone : d.markers.length ≤ 1) :
    ∃ fw, markerOutput o rs d.markers = .ok fw := by
  unfold markerOutput
  split
  · exact ⟨_, rfl⟩
  · next m hm =>
    have hname := isIdentifier_factoryTypeName (hd.markers m (by simp [hm]))
    obtain ⟨file, hfile⟩ :=
      (markedFactory_gives m rs).exists_ok.2 ⟨hname, modules_named hd hrs⟩
    exact ⟨_, by rw [hfile]; rfl⟩
  · next hnil hsingle =>
    match hms : d.markers with
    | [] => exact absurd hms hnil
    | [m] => exact absurd hms (hsingle m)
    | _ :: _ :: _ =>
      rw [hms] at hone
      exact absurd hone (by simp)

/-- A pass over accepted records gives its files unless they are to hold the adapter of a record
that has a raw name in the type of a field. -/
theorem generate_ok_iff (hone : d.markers.length ≤ 1) (hmodule : isIdentifier o.module) :
    (∃ out, generate d o = .ok out) ↔ (o.granularity = .aggregate → ∀ r ∈ rs, r.RawFree) := by
  have haggregate : (∃ files, aggregateOutput o d.scopes rs = .ok files) ↔
      (o.granularity = .aggregate → ∀ r ∈ rs, r.RawFree) := by
    rw [← nameable_iff_rawFree hd hrs hmodule]
    unfold aggregateOutput
    split
    · next hgranularity => simp [hgranularity]
    · next hgranularity =>
      have hfile := (adaptersFile_gives o.module d.scopes rs).exists_ok
      simp [hgranularity, ← hfile, map_eq_ok, mapError_eq_ok]
  rw [← haggregate]
  constructor
  · rintro ⟨out, h⟩
    obtain ⟨rs', _, _, files, hrs', -, hfiles, -⟩ := generate_ok h
    cases hrs.symm.trans hrs'
    exact ⟨files, hfiles⟩
  · rintro ⟨files, hfiles⟩
    obtain ⟨⟨fs, ws⟩, hmarker⟩ := exists_markerOutput (o := o) hd hrs hone
    exact ⟨_, except_bind_eq_ok.2 ⟨rs, hrs, except_bind_eq_ok.2
      ⟨(fs, ws), hmarker, except_bind_eq_ok.2 ⟨files, hfiles, rfl⟩⟩⟩⟩

end Pass

/-! ## All adapters -/

/-- The name of a part is an identifier unless a name in its type is raw. So an accepted record has
an adapter, in its expansion and in the file with all adapters, unless the type of a field has a raw
name; and a pass fails for no other name. -/
theorem emitted_iff_rawFree (record : String) (t : TypeExpr) (f : FieldType) (s : Declaration)
    (r : RecordPlan) (d : Discovery) (o : Options) (rs : List RecordPlan) :
    (isIdentifier record → (∀ n ∈ t.names, isIdentifier n) →
      FieldType.ofTypeExpr record t = .ok f →
        (isIdentWord f.adapterName.toList ↔ ∀ n ∈ f.idents, ¬IsRaw n)) ∧
      ((∀ n ∈ s.typeNames, isIdentifier n) → RecordPlan.ofDeclaration s = .ok r →
        (∀ v as, (∃ code, (AdapterCode.mk r v as).code = .ok code) ↔ r.RawFree) ∧
          ((∃ code, expandRecord s = .ok code) ↔ r.RawFree)) ∧
      (d.HasIdentifiers → d.markers.length ≤ 1 → isIdentifier o.module →
        plansOf d.records = .ok rs →
          ((∃ out, generate d o = .ok out) ↔
            (o.granularity = .aggregate → ∀ p ∈ rs, p.RawFree))) := by
  refine ⟨fun hrecord hnames hf => ?_, fun hnames h => ⟨?_, ?_⟩, fun hd hone hmodule hrs => ?_⟩
  · refine FieldType.isIdentWord_adapterName fun n hn => ?_
    rcases List.mem_cons.1 (FieldType.idents_ofTypeExpr hf hn) with rfl | hmem
    · exact hrecord
    · exact hnames n hmem
  · exact AdapterCode.code_ok_iff h hnames
  · exact expandRecord_ok_iff h hnames
  · exact generate_ok_iff hd hrs hone hmodule

namespace Samples

/-- A type of a tree: `HashMap<String, Vec<Self>>`. -/
def branches : TypeExpr :=
  .path (.mk false [.applied "HashMap" false [.type (namedType ["String"]),
    .type (.path (.mk false [.applied "Vec" false [.type (namedType ["Self"])] false]))] false])

/-- A record with a name beyond ASCII, of which its branches are made. -/
def treeDeclaration : Declaration where
  attributes := []
  visibility := []
  name := "Ärger"
  generic := false
  shape := .named [{ attributes := [], name := "branches", type := branches }]

def treeBranches : FieldType :=
  .applied ⟨false, ["HashMap"]⟩ [.simple ⟨false, ["String"]⟩,
    .applied ⟨false, ["Vec"]⟩ [.simple ⟨false, ["Ärger"]⟩]]

def treePlan : RecordPlan where
  name := "Ärger"
  visibility := []
  module := []
  fields := [
    { name := "branches", key := "branches", aliases := [], type := treeBranches,
      nullable := false }]
  skipped := []
  default := none
  extending := none

def treeFound : Discovery where
  records := [{ module := ["forest"], declaration := treeDeclaration }]
  markers := [{ module := [], name := "Forest" }]
  scopes := [(["forest"], { path := ["forest"] })]

theorem treePlan_accepted : RecordPlan.ofDeclaration treeDeclaration = .ok treePlan := rfl

theorem treePlan_rawFree : treePlan.RawFree := by
  unfold RecordPlan.RawFree
  decide

theorem tree_names : ∀ n ∈ treeDeclaration.typeNames, isIdentifier n := by decide

theorem tree_hasIdentifiers : treeFound.HasIdentifiers where
  modules := by decide
  types := List.forall_mem_singleton.2 tree_names
  markers := by decide
  scopes := by
    intro path s hs
    obtain ⟨front, rest, hscopes, -⟩ := List.lookup_eq_some_iff.1 hs
    have hmem : (path, s) ∈ treeFound.scopes := by simp [hscopes]
    have hall : ∀ x ∈ treeFound.scopes, ∀ n ∈ x.2.path, isIdentifier n := by decide
    exact hall _ hmem

theorem emitted_tree :
    isIdentWord treeBranches.adapterName.toList ∧
      (∃ code, expandRecord treeDeclaration = .ok code) ∧
        ∃ out, generate treeFound { granularity := .aggregate } = .ok out := by
  obtain ⟨hname, hadapter, hpass⟩ := emitted_iff_rawFree "Ärger" branches treeBranches
    treeDeclaration treePlan treeFound { granularity := .aggregate } [treePlan.placedIn ["forest"]]
  refine ⟨?_, ?_, ?_⟩
  · have hrecord : isIdentifier "Ärger" := tree_names _ List.mem_cons_self
    exact (hname hrecord (by decide) rfl).2 (by decide)
  · exact (hadapter tree_names treePlan_accepted).2.2 treePlan_rawFree
  · refine (hpass tree_hasIdentifiers (by decide) (by decide) rfl).2 fun _ r hr => ?_
    rw [List.mem_singleton.1 hr]
    exact treePlan_rawFree

/-- A record whose field has a type with a raw name. -/
def rawDeclaration : Declaration where
  attributes := []
  visibility := []
  name := "S"
  generic := false
  shape := .named [{ attributes := [], name := "x", type := namedType ["r#type"] }]

/-- The record is accepted, all names in it are identifiers, and its adapter cannot be emitted. -/
theorem rawNamed_not_emitted :
    (∃ r, RecordPlan.ofDeclaration rawDeclaration = .ok r) ∧
      (∀ n ∈ rawDeclaration.typeNames, isIdentifier n) ∧
        expandRecord rawDeclaration = .error ⟨"r#type_adapter"⟩ :=
  ⟨⟨_, rfl⟩, by decide, rfl⟩

end Samples

end JsonAdapters
