import JsonAdapters.Proofs.Package.Ending
import JsonAdapters.Proofs.Package.Locating

/-!
# Where modules without a path are looked for

A module without a path is looked for by its name, in the directory of the modules of the file that
declares it. This directory is the file's own one for the root file and for a file `mod.rs`, and the
one with the file's name for any other file. Inline modules extend it by their names. Names count
without the mark of raw names, which walks do not take off.

## Main definitions

* `SourceFile.ownDirectory`, `SourceFile.lookupDirectory`: where modules are looked for.
* `SourceFile.ByName`, `ReachedByName`: files that are reached through modules without paths.
* `LacksModule`: a file of a package declares a module that is not found.

## Main statements

* `ReachedByName.directory_eq`: the directory that a walk has for a file's modules.
* `Discovery.ofRoot_eq_error`: why walks fail.
* `Discovery.module_of_name`: modules without a path are found where the rule says, or named.
-/

namespace JsonAdapters

open Code FilePath Relation

/-! ## The rule -/

namespace SourceFile

/-- The directory of the modules of a file, by its name. -/
def ownDirectory (root : FilePath) (F : SourceFile) : FilePath :=
  if F = .root root ∨ F.file.fileName? = some "mod.rs" then F.file.directory
  else ⟨String.ofList (F.file.text.toList.rdrop 3)⟩

/-- Where a module is looked for that is inside of inline modules of the file. -/
def lookupDirectory (root : FilePath) (F : SourceFile) (around : List (List Attribute × String)) :
    FilePath :=
  (around.map fun o => unmarked o.2).foldl child (F.ownDirectory root)

/-- The files in which the rule lets a module be. -/
def ruledFiles (root : FilePath) (F : SourceFile) (m : ModuleSite) : List FilePath :=
  let dir := F.lookupDirectory root m.around
  let name := unmarked m.name
  [dir.child (name ++ ".rs"), (dir.child name).child "mod.rs"]

/-- Neither the module nor one around it in the file has a path. -/
def HasName (m : ModuleSite) : Prop :=
  ∀ o ∈ m.around ++ [(m.attributes, m.name)], pathAttribute? o.1 = none

/-- Neither the module nor one around it in the file has a raw name. -/
def HasPlainName (m : ModuleSite) : Prop :=
  ∀ o ∈ m.around ++ [(m.attributes, m.name)], unmarked o.2 = o.2

instance : DecidablePred HasName := fun m =>
  inferInstanceAs (Decidable (∀ o ∈ m.around ++ [(m.attributes, m.name)], _))

instance : DecidablePred HasPlainName := fun m =>
  inferInstanceAs (Decidable (∀ o ∈ m.around ++ [(m.attributes, m.name)], _))

/-- A file has a module without a path whose file is the other one. -/
def ByName (tree : FileTree) (F G : SourceFile) : Prop :=
  ∃ is, F.items tree = .ok is ∧ ∃ m ∈ fileSites is, HasName m ∧ F.enter tree m = .ok G

end SourceFile

open SourceFile

/-- Files that are entered from the root file on, through modules without paths. -/
abbrev ReachedByName (tree : FileTree) (root : FilePath) : SourceFile → Prop :=
  ReflTransGen (ByName tree) (.root root)

variable {tree : FileTree} {root : FilePath} {F G : SourceFile} {m : ModuleSite}

theorem SourceFile.exists_site_iff {p : ModuleSite → Prop} [DecidablePred p] :
    (∃ is, F.items tree = .ok is ∧ ∃ m ∈ fileSites is, p m) ↔
      (F.items tree).toOption.any (fun is => (fileSites is).any fun m => p m) = true := by
  cases F.items tree with
  | error e => simp [Except.toOption]
  | ok is => simp [Except.toOption]

instance : DecidableRel (ByName tree) := fun F G =>
  decidable_of_iff _ <|
    (@exists_site_iff tree F (fun m => HasName m ∧ (F.enter tree m).toOption = some G) _).symm.trans
      (by simp only [Outcome.toOption_eq_some, ByName])

theorem SourceFile.ByName.enters (h : ByName tree F G) : F.Enters tree G := by
  obtain ⟨is, his, m, hm, -, henter⟩ := h
  exact ⟨is, his, m, hm, henter⟩

theorem ReachedByName.reached (h : ReachedByName tree root F) : Reached tree root F :=
  ReflTransGen.mono (fun _ _ => ByName.enters) _ _ h

/-- A file that is found by the name of its module is flat unless its own name is `mod.rs`. -/
theorem SourceFile.ByName.isFlat_eq (h : ByName tree F G) :
    G.isFlat = !decide (G.file.fileName? = some "mod.rs") := by
  obtain ⟨is, -, m, -, hname, henter⟩ := h
  obtain ⟨file, -, rfl⟩ := enter_eq_ok.1 henter
  have hpath : pathAttribute? m.attributes = none := hname (m.attributes, m.name) (by simp)
  simp [ofModule, hpath]

/-- A walk looks for the modules of a file where the rule says. -/
theorem ReachedByName.directory_eq (h : ReachedByName tree root F) :
    F.directory = F.ownDirectory root := by
  have hplaced := (isPlaced_of_reached h.reached).directory_eq
  rw [ownDirectory]
  by_cases hroot : F = .root root
  · rw [if_pos (.inl hroot), hroot, SourceFile.root]
  obtain rfl | ⟨E, -, hE⟩ := ReflTransGen.cases_tail h
  · exact absurd rfl hroot
  · rw [hplaced, moduleDirectory, hE.isFlat_eq]
    by_cases hmod : F.file.fileName? = some "mod.rs"
    · simp [hmod]
    · simp [hmod, hroot]

/-- A walk looks for a module in the files that the rule gives. -/
theorem ReachedByName.candidates_eq (h : ReachedByName tree root F) (hname : HasName m)
    (hplain : HasPlainName m) : F.candidates m = F.ruledFiles root m := by
  have around_of {p : List Attribute × String → Prop}
      (hall : ∀ o ∈ m.around ++ [(m.attributes, m.name)], p o) : ∀ o ∈ m.around, p o :=
    fun o ho => hall o (List.mem_append_left _ ho)
  have hpath : pathAttribute? m.attributes = none := hname (m.attributes, m.name) (by simp)
  have hraw : unmarked m.name = m.name := hplain (m.attributes, m.name) (by simp)
  have hdir : F.directoryAt m.around = F.lookupDirectory root m.around := by
    rw [directoryAt, foldl_extended fun o ho _ => around_of hplain o ho, lookupDirectory,
      List.foldl_map, h.directory_eq]
    refine List.foldl_ext _ _ _ fun dir o ho => ?_
    rw [extended, around_of hname o ho]
  rw [candidates, moduleFiles, hpath, ruledFiles, hdir, hraw]

/-! ## Modules that are not found -/

theorem SourceFile.enter_eq_error {e : DiscoveryFault} : F.enter tree m = .error e ↔
    (∀ p ∈ F.candidates m, ¬ tree.isFile p) ∧
      e = .moduleNotFound (F.moduleAt m.around ++ [m.name]) (F.candidates m) := by
  rw [enter]
  cases h : (F.candidates m).find? tree.isFile with
  | none =>
    have hnone := List.find?_eq_none.1 h
    rw [Except.error.injEq, eq_comm, and_iff_right hnone]
  | some file =>
    refine iff_of_false nofun fun hnone => ?_
    exact hnone.1 file (List.mem_of_find?_eq_some h) (List.find?_some h)

/-- A file that is reached declares a module that is in none of its candidates. -/
def LacksModule (tree : FileTree) (root : FilePath) (module : List String)
    (candidates : List FilePath) : Prop :=
  ∃ F is m, Reached tree root F ∧ F.items tree = .ok is ∧ m ∈ fileSites is ∧
    F.enter tree m = .error (.moduleNotFound module candidates)

/-- A visit fails where it is cut off, at a file that is not read, or at a module without a file. -/
theorem SourceFile.visits_eq_error {n : Nat} {e : DiscoveryFault}
    (h : F.visits tree n = .error e) :
    (∃ f, e = .endless f) ∨ ∃ G, ReflTransGen (Enters tree) F G ∧
      (G.items tree = .error e ∨
        ∃ is, G.items tree = .ok is ∧ ∃ m ∈ fileSites is, G.enter tree m = .error e) := by
  induction n generalizing F with
  | zero => exact .inl ⟨F.file, (Except.error.inj h).symm⟩
  | succ n ih =>
    rw [visits] at h
    cases his : F.items tree with
    | error e' =>
      rw [his] at h
      cases h
      exact .inr ⟨F, .refl, .inl his⟩
    | ok is =>
      rw [his] at h
      change (do
        let inner ← (fileSites is).mapM fun m => do visits tree n (← F.enter tree m)
        return F.file :: inner.flatten) = Except.error e at h
      cases hinner : (fileSites is).mapM fun m => do visits tree n (← F.enter tree m) with
      | ok inner =>
        rw [hinner] at h
        cases h
      | error e' =>
        rw [hinner] at h
        cases h
        -- the first module that fails is the one whose fault is reported
        obtain ⟨m, hm, hvisit⟩ := exists_mem_of_mapM_eq_error hinner
        cases henter : F.enter tree m with
        | error e' =>
          rw [henter] at hvisit
          cases hvisit
          exact .inr ⟨F, .refl, .inr ⟨is, his, m, hm, henter⟩⟩
        | ok G =>
          rw [henter] at hvisit
          have hstep : F.Enters tree G := ⟨is, his, m, hm, henter⟩
          rcases ih hvisit with hcut | ⟨E, hE, hfault⟩
          · exact .inl hcut
          · exact .inr ⟨E, .head hstep hE, hfault⟩

/-- A walk fails as it is cut off, at a file that is not read, or at a module that is not found. -/
theorem Discovery.ofRoot_eq_error {e : DiscoveryFault} (h : ofRoot tree root = .error e) :
    ComesBack tree root ∨ (∃ F, Reached tree root F ∧ F.items tree = .error e) ∨
      ∃ module candidates, e = .moduleNotFound module candidates ∧
        LacksModule tree root module candidates := by
  have hvisits := files_ofFile tree tree.nesting root
  rw [← ofRoot, h] at hvisits
  rcases SourceFile.visits_eq_error hvisits.symm with ⟨f, rfl⟩ | ⟨F, hF, hitems | hsite⟩
  · exact .inl (.of_endless h)
  · exact .inr (.inl ⟨F, hF, hitems⟩)
  · obtain ⟨is, his, m, hm, henter⟩ := hsite
    have he := (enter_eq_error.1 henter).2
    exact .inr (.inr ⟨_, _, he, F, is, m, hF, his, hm, he ▸ henter⟩)

/-! ## Modules without a path -/

/-- Modules without a path are looked for where the rule says. They are found just if one of the
files is there, and the walk goes on with the first one. If none is, the module is named as not
found: the walk fails, and with this fault if it meets no other one. -/
theorem Discovery.module_of_name {is : List Item} (hF : ReachedByName tree root F)
    (his : F.items tree = .ok is) (hm : m ∈ fileSites is) (hname : HasName m)
    (hplain : HasPlainName m) :
    F.candidates m = F.ruledFiles root m ∧
    ((∃ G, F.enter tree m = .ok G) ↔ ∃ p ∈ F.ruledFiles root m, tree.isFile p) ∧
    (∀ G, F.enter tree m = .ok G →
      (F.ruledFiles root m).find? tree.isFile = some G.file ∧ ReachedByName tree root G ∧
      G.module = F.moduleAt m.around ++ [m.name] ∧
      ∀ d, ofRoot tree root = .ok d → G.file ∈ d.files) ∧
    ((∀ p ∈ F.ruledFiles root m, ¬ tree.isFile p) →
      let fault := .moduleNotFound (F.moduleAt m.around ++ [m.name]) (F.ruledFiles root m)
      F.enter tree m = .error fault ∧ (∀ d, ofRoot tree root ≠ .ok d) ∧
      ((∀ M cs, LacksModule tree root M cs → .moduleNotFound M cs = fault) →
        (∀ G, Reached tree root G → ∃ is, G.items tree = .ok is) → ¬ ComesBack tree root →
        ofRoot tree root = .error fault)) := by
  have hcand := hF.candidates_eq hname hplain
  refine ⟨hcand, ?_, ?_, ?_⟩
  · rw [← hcand]
    constructor
    · rintro ⟨G, henter⟩
      obtain ⟨file, hfind, -⟩ := enter_eq_ok.1 henter
      exact ⟨file, List.mem_of_find?_eq_some hfind, List.find?_some hfind⟩
    · rintro ⟨p, hp, hfile⟩
      cases henter : F.enter tree m with
      | ok G => exact ⟨G, rfl⟩
      | error e => exact absurd hfile ((enter_eq_error.1 henter).1 p hp)
  · intro G henter
    have hG : ReachedByName tree root G := hF.tail ⟨is, his, m, hm, hname, henter⟩
    obtain ⟨file, hfind, rfl⟩ := enter_eq_ok.1 henter
    rw [← hcand]
    exact ⟨hfind, hG, rfl, fun d hd => file_mem_of_ofRoot hd hG.reached⟩
  · intro hnone fault
    have henter : F.enter tree m = .error fault := by
      rw [← hcand] at hnone
      exact enter_eq_error.2 ⟨hnone, by rw [hcand]⟩
    -- a discovery would have visited the module
    have hfails (d : Discovery) : ofRoot tree root ≠ .ok d := by
      intro hd
      obtain ⟨k, files, hvisits, -⟩ := visits_of_ofRoot hd hF.reached
      obtain ⟨G, hG⟩ := enter_of_visits hvisits his hm
      rw [henter] at hG
      cases hG
    refine ⟨henter, hfails, fun honly hread hback => ?_⟩
    cases hend : ofRoot tree root with
    | ok d => exact absurd hend (hfails d)
    | error e =>
      -- every other end of the walk is ruled out
      obtain hcut | ⟨G, hG, hitems⟩ | ⟨M, cs, rfl, hlacks⟩ := ofRoot_eq_error hend
      · exact absurd hcut hback
      · obtain ⟨is', his'⟩ := hread G hG
        rw [hitems] at his'
        cases his'
      · rw [honly M cs hlacks]

namespace Samples

/-- A flat file with a module inside of another one, whose file is a `mod.rs`. -/
def layered : FileTree where
  nodes := [(["src"], .directory), (["src", "flat"], .directory),
    (["src", "flat", "inner"], .directory), (["src", "flat", "inner", "deep"], .directory),
    (["src", "lib.rs"], .file "mod flat;".toUTF8.toList),
    (["src", "flat.rs"], .file "mod inner \x7b mod deep; \x7d".toUTF8.toList),
    (["src", "flat", "inner", "deep", "mod.rs"], .file [])]

/-- The flat file, as a walk enters it. -/
def layeredFile : SourceFile := ⟨⟨"src/flat.rs"⟩, ⟨"src/flat"⟩, ["flat"], true⟩

theorem module_of_layered : ∃ is m, ReachedByName layered ⟨"src/lib.rs"⟩ layeredFile ∧
    layeredFile.items layered = .ok is ∧ m ∈ fileSites is ∧ HasName m ∧ HasPlainName m ∧
    layeredFile.candidates m = [⟨"src/flat/inner/deep.rs"⟩, ⟨"src/flat/inner/deep/mod.rs"⟩] ∧
    ∃ G, layeredFile.enter layered m = .ok G ∧ G.file = ⟨"src/flat/inner/deep/mod.rs"⟩ := by
  have hF : ReachedByName layered ⟨"src/lib.rs"⟩ layeredFile := .single (by decide +kernel)
  obtain ⟨is, his, m, hm, hname, hplain, hfiles⟩ : ∃ is, layeredFile.items layered = .ok is ∧
      ∃ m ∈ fileSites is, HasName m ∧ HasPlainName m ∧
        layeredFile.ruledFiles ⟨"src/lib.rs"⟩ m =
          [⟨"src/flat/inner/deep.rs"⟩, ⟨"src/flat/inner/deep/mod.rs"⟩] :=
    exists_site_iff.2 (by decide +kernel)
  obtain ⟨hcand, hfound, hfirst, -⟩ := Discovery.module_of_name hF his hm hname hplain
  rw [hfiles] at hcand hfound hfirst
  obtain ⟨G, henter⟩ := hfound.2 ⟨⟨"src/flat/inner/deep/mod.rs"⟩, by simp, by decide⟩
  have hfile : some G.file = some ⟨"src/flat/inner/deep/mod.rs"⟩ :=
    (hfirst G henter).1.symm.trans (by decide)
  exact ⟨is, m, hF, his, hm, hname, hplain, hcand, G, henter, Option.some.inj hfile⟩

/-- A module with a raw name, and the file of its name. -/
def rawNamed : FileTree where
  nodes := [(["src"], .directory), (["src", "lib.rs"], .file "mod r#type;".toUTF8.toList),
    (["src", "type.rs"], .file [])]

/-- The file is looked for by the raw name, so that the module is not found. -/
theorem rawNamed_not_found :
    rawNamed.isFile ⟨"src/type.rs"⟩ ∧
    (match Discovery.ofRoot rawNamed ⟨"src/lib.rs"⟩ with
      | .error e => some e
      | .ok _ => none) =
        some (.moduleNotFound ["r#type"] [⟨"src/r#type.rs"⟩, ⟨"src/r#type/mod.rs"⟩]) := by
  decide +kernel

end Samples

end JsonAdapters
