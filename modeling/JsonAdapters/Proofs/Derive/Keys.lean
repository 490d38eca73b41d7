import JsonAdapters.Derive.Record
import Mathlib.Data.List.Induction
import Mathlib.Data.List.Nodup
import Mathlib.Tactic.Tauto

/-!
# Keys of accepted declarations

The check of keys walks over all keys of all fields and remembers which keys it has met. It finds
no fault exactly when it meets no key twice, so that the keys of an accepted record are all
different, the ones that are written as well as the ones that are only read.

## Main definitions

* `claims`, `claimAll`: all keys in the order of the walk, and the walk over them.
* `claimFault?`: what the walk finds at one key.

## Main statements

* `faults_claimAll_append`: one step of the walk.
* `keyFaults_eq_nil_iff`: what the check of keys finds.
* `RecordPlan.nodup_keys_of_accepted`: no key stands in two places of an accepted record.
-/

namespace JsonAdapters

/-! ## Reports -/

theorem Report.check_eq_ok {ε α : Type} {rs : List (Report ε)} {a b : α} :
    Report.check rs a = .ok b ↔ rs = [] ∧ a = b := by
  unfold Report.check
  cases rs with
  | nil => simp [Report.collect]
  | cons r rs => cases rs <;> simp [Report.collect]

theorem Report.check_bind_eq_ok {ε α β : Type} {rs : List (Report ε)} {a : α}
    {f : α → Except (Report ε) β} {b : β} :
    (Report.check rs a >>= f) = .ok b ↔ rs = [] ∧ f a = .ok b := by
  cases h : Report.check rs a with
  | error e =>
    have hne : rs ≠ [] := fun hnil => by
      rw [hnil] at h
      cases h
    exact ⟨nofun, fun hb => absurd hb.1 hne⟩
  | ok a' =>
    obtain ⟨rfl, rfl⟩ := check_eq_ok.1 h
    exact ⟨fun hb => ⟨rfl, hb⟩, fun hb => hb.2⟩

theorem Report.collect_toList_eq_nil {ε : Type} {rs : List (Report ε)} :
    (Report.collect rs).toList = [] ↔ rs = [] := by
  cases rs with
  | nil => simp [Report.collect]
  | cons r rs => cases rs <;> simp [Report.collect]

/-! ## The check of keys -/

/-- Somebody has the key. -/
def KeyOwners.Taken (owners : KeyOwners) (key : String) : Prop := key ∈ owners.map Prod.fst

theorem KeyOwners.lookup_eq_none_iff {owners : KeyOwners} {key : String} :
    owners.lookup key = none ↔ ¬owners.Taken key := by
  rw [List.lookup_eq_none_iff]
  constructor
  · rintro h hmem
    obtain ⟨p, hp, rfl⟩ := List.mem_map.1 hmem
    simpa using h p hp
  · intro h p hp
    have hne : key ≠ p.1 := fun heq => h (heq ▸ List.mem_map_of_mem hp)
    simpa using hne

/-- All keys in the order in which they are given to fields, each with the name of its field. -/
def claims (fields : List FieldPlan) : List (String × String) :=
  fields.flatMap fun f => f.keys.map fun key => (key, f.name)

/-- Give all keys to their fields. -/
def claimAll (cs : List (String × String)) : KeyOwners × List FaultReport :=
  cs.foldl (fun state c => claimKey c.2 state c.1) ([], [])

theorem keyFaults_eq_claimAll (fields : List FieldPlan) :
    keyFaults fields = (claimAll (claims fields)).2 := by
  rw [keyFaults, claimAll, claims, List.foldl_flatMap]
  simp only [List.foldl_map]

theorem keys_claims (fields : List FieldPlan) :
    (claims fields).map Prod.fst = fields.flatMap (·.keys) := by
  simp [claims, List.map_flatMap, Function.comp_def]

section Claims

variable {cs : List (String × String)} {c : String × String}

/-- What is reported if a key is given after the others. -/
def claimFault? (cs : List (String × String)) (c : String × String) : Option FaultReport :=
  (cs.reverse.lookup c.1).map fun owner => .of (.sharedKey c.1 c.2 owner)

/-- Giving one key more. -/
theorem claimKey_eq (faults : List FaultReport) (cs : List (String × String))
    (c : String × String) : claimKey c.2 (cs.reverse, faults) c.1 =
      ((cs ++ [c]).reverse, faults ++ (claimFault? cs c).toList) := by
  unfold claimKey claimFault?
  cases h : cs.reverse.lookup c.1 <;> simp [h]

theorem claimAll_append_eq_claimKey : claimAll (cs ++ [c]) = claimKey c.2 (claimAll cs) c.1 := by
  rw [claimAll, List.foldl_append, List.foldl_cons, List.foldl_nil, claimAll]

theorem owners_claimAll (cs : List (String × String)) : (claimAll cs).1 = cs.reverse := by
  induction cs using List.reverseRecOn with
  | nil => rfl
  | append_singleton cs c ih =>
    have hstate : claimAll cs = (cs.reverse, (claimAll cs).2) := by rw [← ih]
    rw [claimAll_append_eq_claimKey, hstate, claimKey_eq]

/-- The faults of one key more. -/
theorem faults_claimAll_append :
    (claimAll (cs ++ [c])).2 = (claimAll cs).2 ++ (claimFault? cs c).toList := by
  have hstate : claimAll cs = (cs.reverse, (claimAll cs).2) := by rw [← owners_claimAll]
  rw [claimAll_append_eq_claimKey, hstate, claimKey_eq]

theorem claimFault?_eq_none_iff : claimFault? cs c = none ↔ c.1 ∉ cs.map Prod.fst := by
  rw [claimFault?, Option.map_eq_none_iff, KeyOwners.lookup_eq_none_iff, KeyOwners.Taken,
    List.map_reverse, List.mem_reverse]

theorem claimFaults_eq_nil_iff (cs : List (String × String)) :
    (claimAll cs).2 = [] ↔ (cs.map Prod.fst).Nodup := by
  induction cs using List.reverseRecOn with
  | nil => simp [claimAll]
  | append_singleton cs c ih =>
    rw [faults_claimAll_append, List.append_eq_nil_iff, ih, Option.toList_eq_nil_iff,
      claimFault?_eq_none_iff, List.map_append, List.map_singleton, ← List.concat_eq_append,
      List.nodup_concat]
    tauto

end Claims

/-- The check of keys finds no fault exactly when no key stands in two places. -/
theorem keyFaults_eq_nil_iff {fields : List FieldPlan} :
    keyFaults fields = [] ↔ (fields.flatMap FieldPlan.keys).Nodup := by
  rw [keyFaults_eq_claimAll, claimFaults_eq_nil_iff, keys_claims]

/-! ## Accepted declarations -/

/-- All checks of an accepted declaration found nothing, and its record has the fields of its
shape. -/
theorem RecordPlan.ofDeclaration_eq_ok {d : Code.Declaration} {p : RecordPlan}
    (h : RecordPlan.ofDeclaration d = .ok p) : ∃ fields,
      fieldsOfShape d.shape = .ok fields ∧ planFields d.name fields = (p.fields, p.skipped, []) ∧
        keyFaults p.fields = [] ∧ shapeFaults p.fields = [] := by
  unfold RecordPlan.ofDeclaration at h
  cases hfound : fieldsOfShape d.shape with
  | error e =>
    simp only [hfound] at h
    simpa using (Report.check_bind_eq_ok.1 h).1
  | ok fields =>
    simp only [hfound] at h
    obtain ⟨hnone, rfl⟩ := Report.check_eq_ok.1 (Report.check_bind_eq_ok.1 h).2
    obtain ⟨hplans, hchecks⟩ := List.append_eq_nil_iff.1 hnone
    obtain ⟨hkeys, hshapes⟩ := List.append_eq_nil_iff.1 (Report.collect_toList_eq_nil.1 hchecks)
    exact ⟨fields, rfl, by rw [← (List.append_eq_nil_iff.1 hplans).2], hkeys, hshapes⟩

/-- The keys of an accepted record are all different. -/
theorem RecordPlan.nodup_keys_of_accepted {d : Code.Declaration} {p : RecordPlan}
    (h : RecordPlan.ofDeclaration d = .ok p) : (p.fields.flatMap FieldPlan.keys).Nodup := by
  obtain ⟨_, _, _, hkeys, _⟩ := ofDeclaration_eq_ok h
  exact keyFaults_eq_nil_iff.1 hkeys

end JsonAdapters
