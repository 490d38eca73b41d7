import JsonAdapters.Proofs.Derive.TypeFaults
import JsonAdapters.Proofs.Emit.Unambiguous
import Mathlib.Algebra.Ring.Nat

/-!
# Validation

A declaration whose settings are understood is refused for parameters, for types that fields cannot
have, for keys that stand in two places, and for fields whose part already serves another type. All
this is reported at once, and nothing else is: a key that stands in several places is reported once
for each place but its first, and a field once if its type differs from that of the first field with
its part.

## Main definitions

* `IsLastOwner`: the field that had a key last before another place of the key.

## Main statements

* `length_claimFaults`: how many keys are given again.
* `mem_claimFaults_iff`: the fault about a key names the field that had it last.
* `accepted_iff`, `count_faults`, `sharedKey_mem_leaves_iff`: what the checks come to.
* `ofDeclaration_exact`: which declarations are accepted, and what is reported about the others.
-/

namespace JsonAdapters

open Code Emit

/-! ## Keys -/

section Claims

variable {cs : List (String × String)} {c : String × String}

/-- A key that stands in several places is reported for each of them but the first. -/
theorem length_claimFaults (cs : List (String × String)) :
    (claimAll cs).2.length + (cs.map Prod.fst).eraseDups.length = cs.length := by
  induction cs using List.reverseRecOn with
  | nil => rfl
  | append_singleton cs c ih =>
    rw [faults_claimAll_append, List.map_append, List.map_singleton, List.length_append,
      List.length_append, List.length_singleton]
    by_cases hmem : c.1 ∈ cs.map Prod.fst
    · have hfault : claimFault? cs c ≠ none := fun hnone => claimFault?_eq_none_iff.1 hnone hmem
      obtain ⟨r, hr⟩ := Option.ne_none_iff_exists'.1 hfault
      rw [eraseDups_concat_of_mem hmem, hr, Option.toList_some, List.length_singleton]
      omega
    · rw [eraseDups_concat_of_notMem hmem, claimFault?_eq_none_iff.2 hmem, Option.toList_none,
        List.length_append, List.length_singleton, List.length_nil]
      omega

/-- The last place before another one of the same key, and its field. -/
def IsLastOwner (cs : List (String × String)) (key field owner : String) : Prop :=
  ∃ before between after, cs = before ++ (key, owner) :: between ++ (key, field) :: after ∧
    key ∉ between.map Prod.fst

theorem claimFault?_eq_some_iff {r : FaultReport} : claimFault? cs c = some r ↔
    ∃ owner, r = .of (.sharedKey c.1 c.2 owner) ∧
      ∃ before between, cs = before ++ (c.1, owner) :: between ∧ c.1 ∉ between.map Prod.fst := by
  simp only [claimFault?, Option.map_eq_some_iff, List.lookup_eq_some_iff]
  constructor
  · rintro ⟨owner, ⟨between, before, hcs, hbetween⟩, rfl⟩
    refine ⟨owner, rfl, before.reverse, between.reverse, ?_, ?_⟩
    · rw [← List.reverse_reverse cs, hcs]
      simp
    · rw [List.map_reverse, List.mem_reverse]
      intro hmem
      obtain ⟨p, hp, hkey⟩ := List.mem_map.1 hmem
      simpa [hkey] using hbetween p hp
  · rintro ⟨owner, rfl, before, between, rfl, hbetween⟩
    refine ⟨owner, ⟨between.reverse, before.reverse, by simp, fun p hp => ?_⟩, rfl⟩
    have hne : c.1 ≠ p.1 := fun heq =>
      hbetween (heq ▸ List.mem_map_of_mem (List.mem_reverse.1 hp))
    simpa using hne

/-- The faults about keys are those of the places whose key was given before; each one names the
field that had the key last. -/
theorem mem_claimFaults_iff {cs : List (String × String)} {r : FaultReport} : r ∈ (claimAll cs).2 ↔
    ∃ key field owner, r = .of (.sharedKey key field owner) ∧ IsLastOwner cs key field owner := by
  induction cs using List.reverseRecOn with
  | nil => simp [claimAll, IsLastOwner]
  | append_singleton cs c ih =>
    rw [faults_claimAll_append, List.mem_append, Option.mem_toList, ih, claimFault?_eq_some_iff]
    constructor
    · rintro (⟨key, field, owner, rfl, before, between, after, rfl, hbetween⟩ |
        ⟨owner, rfl, before, between, rfl, hbetween⟩)
      · exact ⟨key, field, owner, rfl, before, between, after ++ [c], by simp, hbetween⟩
      · exact ⟨c.1, c.2, owner, rfl, before, between, [], by simp, hbetween⟩
    · rintro ⟨key, field, owner, rfl, before, between, after, hcs, hbetween⟩
      -- the later place of the key is the last one of all, or it was there before
      obtain rfl | ⟨after, x, rfl⟩ := List.eq_nil_or_concat' after
      · have hsplit : cs ++ [c] = (before ++ (key, owner) :: between) ++ [(key, field)] := by
          simpa using hcs
        obtain ⟨rfl, hlast⟩ := List.append_inj' hsplit rfl
        obtain rfl := List.singleton_injective hlast
        exact .inr ⟨owner, rfl, before, between, rfl, hbetween⟩
      · have hsplit : cs ++ [c] =
            (before ++ (key, owner) :: between ++ (key, field) :: after) ++ [x] := by
          simpa using hcs
        obtain ⟨rfl, -⟩ := List.append_inj' hsplit rfl
        exact .inl ⟨key, field, owner, rfl, before, between, after, rfl, hbetween⟩

end Claims

/-! ## Declarations -/

/-- A report that says one thing. -/
def IsSingle (r : FaultReport) : Prop := ∃ cause, r = .of cause

theorem length_leaves_of_single {rs : List FaultReport} (h : ∀ r ∈ rs, IsSingle r) :
    (rs.flatMap Report.leaves).length = rs.length := by
  induction rs with
  | nil => rfl
  | cons r rs ih =>
    obtain ⟨⟨cause, rfl⟩, hrs⟩ := List.forall_mem_cons.1 h
    rw [List.flatMap_cons, List.length_append, ih hrs, List.length_cons]
    exact Nat.add_comm _ _

theorem isSingle_claimFault {cs : List (String × String)} : ∀ r ∈ (claimAll cs).2, IsSingle r := by
  intro r hr
  obtain ⟨key, field, owner, rfl, -⟩ := mem_claimFaults_iff.1 hr
  exact ⟨_, rfl⟩

theorem exists_of_shapeFault? {fields : List FieldPlan} {f : FieldPlan} {r : FaultReport}
    (h : shapeFault? fields f = some r) :
    ∃ g : FieldPlan, r = .of (.sharedAdapter f.name f.type.text f.adapter g.type.text) := by
  obtain ⟨g, -, hg⟩ := Option.bind_eq_some_iff.1 h
  split at hg
  · cases hg
  · exact ⟨g, (Option.some.inj hg).symm⟩

section Declared

variable {d : Declaration} {ds : List FieldDecl} {e : FaultReport}

/-- All that a report about a declaration says. -/
theorem leaves_faults (d : Declaration) (ds : List FieldDecl) :
    (d.faults ds).flatMap Report.leaves =
      (if d.generic then [.generic] else []) ++
        (ds.filterMap (fieldFault? d.name)).flatMap Report.leaves ++
          ((claimAll (claims (d.plan ds).fields)).2.flatMap Report.leaves ++
            (shapeFaults (d.plan ds).fields).flatMap Report.leaves) := by
  rw [Declaration.faults, List.flatMap_append, List.flatMap_append, Declaration.checkFaults,
    Report.leaves_collect, List.flatMap_append, keyFaults_eq_claimAll]
  congr 2
  split <;> rfl

/-- What is reported about keys, among all that is reported. -/
theorem sharedKey_mem_leaves_iff (h : d.Understood ds) (he : RecordPlan.ofDeclaration d = .error e)
    {key field owner : String} : .sharedKey key field owner ∈ e.leaves ↔
      IsLastOwner (claims (d.plan ds).fields) key field owner := by
  rw [ofDeclaration_of_understood h] at he
  rw [Report.leaves_of_check he, leaves_faults]
  simp only [List.mem_append]
  constructor
  -- no other check reports this fault
  · rintro ((hgeneric | htype) | (hkey | hshape))
    · split at hgeneric <;> simp at hgeneric
    · obtain ⟨r, hr, hc⟩ := List.mem_flatMap.1 htype
      obtain ⟨x, -, hx⟩ := List.mem_filterMap.1 hr
      exact absurd (isOfType_fieldFault? hx _ hc) (by simp [DeclarationFault.IsOfType])
    · obtain ⟨r, hr, hc⟩ := List.mem_flatMap.1 hkey
      obtain ⟨key', field', owner', rfl, howner⟩ := mem_claimFaults_iff.1 hr
      cases List.mem_singleton.1 hc
      exact howner
    · obtain ⟨r, hr, hc⟩ := List.mem_flatMap.1 hshape
      rw [shapeFaults_eq] at hr
      obtain ⟨f, -, hf⟩ := List.mem_filterMap.1 hr
      obtain ⟨g, rfl⟩ := exists_of_shapeFault? hf
      cases List.mem_singleton.1 hc
  · intro howner
    have hkey := mem_claimFaults_iff.2 ⟨key, field, owner, rfl, howner⟩
    exact .inr (.inl (List.mem_flatMap.2 ⟨_, hkey, List.mem_singleton_self _⟩))

/-- How many faults there are. -/
theorem count_faults (h : d.Understood ds) (he : RecordPlan.ofDeclaration d = .error e) :
    e.count = (if d.generic then 1 else 0) +
      ((ds.filterMap (fieldFault? d.name)).map (·.count)).sum +
        (((d.plan ds).fields.flatMap (·.keys)).length -
          ((d.plan ds).fields.flatMap (·.keys)).eraseDups.length) +
        (d.plan ds).fields.countP (differs (d.plan ds).fields) := by
  rw [ofDeclaration_of_understood h] at he
  have hkeys := length_claimFaults (claims (d.plan ds).fields)
  rw [keys_claims] at hkeys
  have hclaims : (claims (d.plan ds).fields).length =
      ((d.plan ds).fields.flatMap (·.keys)).length := by
    rw [← keys_claims, List.length_map]
  have hshapes : (shapeFaults (d.plan ds).fields).length =
      (d.plan ds).fields.countP (differs (d.plan ds).fields) := by
    rw [shapeFaults_eq, List.length_filterMap_eq_countP]
    exact List.countP_congr fun f _ => by rw [isSome_shapeFault?]
  -- faults of keys and of shapes are reported one by one, faults of types in groups
  have hsingle : ∀ r ∈ shapeFaults (d.plan ds).fields, IsSingle r := by
    intro r hr
    rw [shapeFaults_eq] at hr
    obtain ⟨f, -, hf⟩ := List.mem_filterMap.1 hr
    obtain ⟨g, rfl⟩ := exists_of_shapeFault? hf
    exact ⟨_, rfl⟩
  have hgeneric : (if d.generic then [DeclarationFault.generic] else []).length =
      if d.generic then 1 else 0 := by
    split <;> rfl
  have htypes : ((ds.filterMap (fieldFault? d.name)).flatMap Report.leaves).length =
      ((ds.filterMap (fieldFault? d.name)).map (·.count)).sum :=
    List.length_flatMap
  rw [Report.count, Report.leaves_of_check he, leaves_faults, List.length_append,
    List.length_append, List.length_append, hgeneric, htypes,
    length_leaves_of_single isSingle_claimFault, length_leaves_of_single hsingle, hshapes]
  omega

/-- Which declarations are accepted. -/
theorem accepted_iff (h : d.Understood ds) : (∃ r, RecordPlan.ofDeclaration d = .ok r) ↔
    d.generic = false ∧
      (∀ x ∈ ds, ¬x.settings.skip → ∃ t, FieldType.ofTypeExpr d.name x.type = .ok t) ∧
      ((d.plan ds).fields.flatMap (·.keys)).Nodup ∧
      ∀ f ∈ (d.plan ds).fields, ∀ g ∈ (d.plan ds).fields,
        f.adapter = g.adapter → f.type.agrees g.type := by
  have hchecked : (∃ r, RecordPlan.ofDeclaration d = .ok r) ↔ d.faults ds = [] := by
    rw [ofDeclaration_of_understood h]
    simp [Report.check_eq_ok]
  have hgeneric : (if d.generic then [Report.of DeclarationFault.generic] else []) = [] ↔
      d.generic = false := by
    cases d.generic <;> simp
  rw [hchecked, Declaration.faults, List.append_eq_nil_iff, List.append_eq_nil_iff, hgeneric,
    List.filterMap_eq_nil_iff, Declaration.checkFaults, Report.collect_toList_eq_nil,
    List.append_eq_nil_iff, keyFaults_eq_nil_iff, shapeFaults_eq_nil_iff, and_assoc]
  simp only [fieldFault?_eq_none_iff]

/-- The checks of a declaration whose settings are understood are exact, and report everything. It
is accepted exactly if it has no parameters, each field that is not skipped has a type that fields
can have, no key stands in two places of the fields that are read, and those of one part have types
that agree. Else one fault is reported for parameters, those of each type, one for each place of a
key but the first, which names the field that had the key last, and one for each field whose type
differs from that of the first field of its part. -/
theorem ofDeclaration_exact (h : d.Understood ds) :
    ((∃ r, RecordPlan.ofDeclaration d = .ok r) ↔
      d.generic = false ∧
        (∀ x ∈ ds, ¬x.settings.skip → ∃ t, FieldType.ofTypeExpr d.name x.type = .ok t) ∧
        ((d.plan ds).fields.flatMap (·.keys)).Nodup ∧
        ∀ f ∈ (d.plan ds).fields, ∀ g ∈ (d.plan ds).fields,
          f.adapter = g.adapter → f.type.agrees g.type) ∧
      ∀ e, RecordPlan.ofDeclaration d = .error e →
        e.count = (if d.generic then 1 else 0) +
          ((ds.filterMap (fieldFault? d.name)).map (·.count)).sum +
            (((d.plan ds).fields.flatMap (·.keys)).length -
              ((d.plan ds).fields.flatMap (·.keys)).eraseDups.length) +
            (d.plan ds).fields.countP (differs (d.plan ds).fields) ∧
        ∀ key field owner, .sharedKey key field owner ∈ e.leaves ↔
          IsLastOwner (claims (d.plan ds).fields) key field owner :=
  ⟨accepted_iff h, fun _ he => ⟨count_faults h he, fun _ _ _ => sharedKey_mem_leaves_iff h he⟩⟩

end Declared

namespace Samples

/-- The setting of a field by a text, such as `alias = "a"`. -/
def textSettingOf (name text : String) : Attribute where
  path := .ofName "kson"
  body := .list .paren [.ident name, .punct '=' false, .literal ("\"" ++ text ++ "\"")]

def faultyFields : List FieldDecl := [
  { attributes := [textSettingOf "rename" "a", textSettingOf "alias" "b"], name := "one",
    type := namedType ["String"] },
  { attributes := [textSettingOf "alias" "a"], name := "a", type := namedType ["x", "Item"] },
  { attributes := [], name := "b", type := namedType ["y", "Item"] },
  { attributes := [], name := "pair", type := .path (.mk false
      [.applied "HashMap" false [.type (.other []), .type (.other [])] false]) }]

/-- Parameters, two types that fields cannot have, five places of two keys, and two types in one
part. -/
def faultyDeclaration : Declaration where
  attributes := []
  visibility := []
  name := "Faulty"
  generic := true
  shape := .named faultyFields

theorem faulty_understood : faultyDeclaration.Understood faultyFields where
  shape := rfl
  record := rfl
  fields := by simpa [faultyFields] using ⟨rfl, rfl, rfl⟩

theorem faulty_reported : ∃ e, RecordPlan.ofDeclaration faultyDeclaration = .error e ∧
    e.count = 7 ∧ .sharedKey "a" "a" "a" ∈ e.leaves ∧ .sharedKey "b" "b" "one" ∈ e.leaves := by
  obtain ⟨-, hreport⟩ := ofDeclaration_exact faulty_understood
  obtain ⟨hcount, howner⟩ := hreport _ rfl
  refine ⟨_, rfl, hcount.trans (by decide), ?_, ?_⟩
  · exact (howner _ _ _).2 ⟨[("a", "one"), ("b", "one")], [], [("b", "b")], rfl, by decide⟩
  · exact (howner _ _ _).2 ⟨[("a", "one")], [("a", "a"), ("a", "a")], [], rfl, by decide⟩

end Samples

end JsonAdapters
