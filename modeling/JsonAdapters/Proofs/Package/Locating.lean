import JsonAdapters.Derive.GeneratedName
import JsonAdapters.Proofs.Package.Paths
import JsonAdapters.Proofs.Package.Walking

/-!
# Where modules with a path are looked for

A module may carry the path of its file. Outside inline modules the path starts in the directory of
the file that declares the module. Inside inline modules it starts in the directory of that file's
modules, extended by the names of the inline modules, or by their own paths. Walks follow this rule
but for two cases: in a flat file, a path of an outermost module is taken from the directory of the
file's modules; and names of inline modules keep their mark of raw names.

## Main definitions

* `SourceFile.moduleDirectory`, `SourceFile.ruledDirectory`: where the rule lets paths start.
* `SourceFile.Follows`: none of the two cases applies to a module of the file.

## Main statements

* `SourceFile.place_of_reached`: files that are reached, and the directories of their modules.
* `Discovery.module_of_path`: modules with a path are found where the rule says.
* `SourceFile.candidates_of_flat`: what happens in a flat file instead.
-/

namespace JsonAdapters

open Code FilePath

/-! ## Names of files -/

namespace FilePath

theorem text_child_append (p : FilePath) (name : String) {t : String}
    (hslash : t.toList.head? ≠ some '/') :
    (p.child (name ++ t)).text = (p.child name).text ++ t := by
  have habs : isAbsolute ⟨name ++ t⟩ = isAbsolute ⟨name⟩ := by
    by_cases hname : name = ""
    · simp [hname, isAbsolute, hslash]
    · exact isAbsolute_append hname
  rw [child, child, join, join, habs]
  split
  · rfl
  · split
    · exact (String.append_assoc ..).symm
    · exact (String.append_assoc ..).symm

end FilePath

/-! ## The rule -/

namespace SourceFile

/-- The directory of the file's modules: for `foo.rs` it is `foo`, unless the file was found by its
name `mod.rs` or by a path. -/
def moduleDirectory (F : SourceFile) : FilePath :=
  if F.isFlat then ⟨String.ofList (F.file.text.toList.rdrop 3)⟩ else F.file.directory

/-- A directory extended by an inline module. -/
def extended (dir : FilePath) (m : List Attribute × String) : FilePath :=
  match pathAttribute? m.1 with
  | some q => dir.join q
  | none => dir.child (unmarked m.2)

/-- Where paths of modules start, inside inline modules of the file. -/
def ruledDirectory (F : SourceFile) : List (List Attribute × String) → FilePath
  | [] => F.file.directory
  | m :: inner =>
    inner.foldl extended <|
      match pathAttribute? m.1 with
      | some q => F.file.directory.join q
      | none => F.moduleDirectory.child (unmarked m.2)

/-- The outermost module around a module, or the module itself, has no path if the file is flat,
and no inline module around it has a raw name. -/
def Follows (F : SourceFile) (m : ModuleSite) : Prop :=
  (F.isFlat → ∀ o ∈ (m.around ++ [(m.attributes, m.name)]).head?, pathAttribute? o.1 = none) ∧
    ∀ o ∈ m.around, pathAttribute? o.1 = none → unmarked o.2 = o.2

instance (F : SourceFile) : DecidablePred F.Follows := fun m =>
  inferInstanceAs <| Decidable <|
    (F.isFlat → ∀ o ∈ (m.around ++ [(m.attributes, m.name)]).head?, pathAttribute? o.1 = none) ∧
      ∀ o ∈ m.around, pathAttribute? o.1 = none → unmarked o.2 = o.2

/-! ## Files that are reached -/

/-- How a file and the directory of its modules belong together. -/
def IsPlaced (F : SourceFile) : Prop :=
  if F.isFlat then F.file.text = F.directory.text ++ ".rs" else F.directory = F.file.directory

variable {tree : FileTree} {F G : SourceFile} {m : ModuleSite} {root p : FilePath}

theorem isPlaced_of_enter (h : F.enter tree m = .ok G) : G.IsPlaced := by
  obtain ⟨file, hfind, rfl⟩ := enter_eq_ok.1 h
  obtain ⟨place, hplace⟩ := tree.leadsTo_of_isFile (List.find?_some hfind)
  rw [IsPlaced, ofModule, fileModuleDirectory]
  cases hpath : pathAttribute? m.attributes with
  | some q => simp
  | none =>
    generalize hname : file.fileName? = name
    by_cases hmod : name = some "mod.rs"
    · simp [hmod]
    -- the second candidate is called `mod.rs`, so the file is the first one
    · have hfile : file = (F.directoryAt m.around).child (m.name ++ ".rs") := by
        have hmem := List.mem_of_find?_eq_some hfind
        rw [candidates, moduleFiles, hpath] at hmem
        rcases List.mem_cons.1 hmem with h | h
        · exact h
        · obtain rfl := List.mem_singleton.1 h
          rw [← hname, hplace.fileName?_child (by decide) (by decide)] at hmod
          exact absurd rfl hmod
      have hdot : ".rs".toList.head? ≠ some '/' := by decide
      rw [hfile]
      simp only [hmod, Option.isSome_none, Bool.false_or, decide_false, Bool.not_false,
        Bool.false_eq_true, ↓reduceIte]
      exact text_child_append (F.directoryAt m.around) m.name hdot

theorem isPlaced_of_reached (h : Reached tree root F) : F.IsPlaced := by
  induction h with
  | refl => simp [IsPlaced, SourceFile.root]
  | tail _ hstep _ =>
    obtain ⟨is, -, m, -, henter⟩ := hstep
    exact isPlaced_of_enter henter

theorem IsPlaced.directory_eq (h : F.IsPlaced) : F.directory = F.moduleDirectory := by
  by_cases hflat : F.isFlat
  · rw [IsPlaced, if_pos hflat] at h
    have hdrop (cs : List Char) : (cs ++ ".rs".toList).rdrop 3 = cs := by
      simp [List.rdrop]
    rw [moduleDirectory, if_pos hflat, h, String.toList_append, hdrop, String.ofList_toList,
      mk_text]
  · rw [IsPlaced, if_neg hflat] at h
    rw [moduleDirectory, if_neg hflat, h]

theorem foldl_extended {ms : List (List Attribute × String)}
    (h : ∀ o ∈ ms, pathAttribute? o.1 = none → unmarked o.2 = o.2) (dir : FilePath) :
    ms.foldl (fun dir m => inlineModuleDirectory dir m.1 m.2) dir = ms.foldl extended dir := by
  refine List.foldl_ext _ _ _ fun dir o ho => ?_
  rw [inlineModuleDirectory, extended]
  cases hpath : pathAttribute? o.1 with
  | some q => rfl
  | none => rw [Option.getD_none, h o ho hpath, child]

/-- Paths start where the rule says. -/
theorem directoryAt_join (h : F.IsPlaced) (hm : F.Follows m)
    (hp : pathAttribute? m.attributes = some p) :
    (F.directoryAt m.around).join p = (F.ruledDirectory m.around).join p := by
  obtain ⟨hflat, hraw⟩ := hm
  -- a `path` on the outermost module excludes flat files, so modules are looked up beside the file
  have directory_of_path {o : List Attribute × String} {q : FilePath}
      (ho : (m.around ++ [(m.attributes, m.name)]).head? = some o)
      (hq : pathAttribute? o.1 = some q) : F.directory = F.file.directory := by
    have hnot : ¬ F.isFlat := fun hf => by simp [hflat hf o ho] at hq
    rwa [IsPlaced, if_neg hnot] at h
  cases haround : m.around with
  | nil =>
    rw [directoryAt, List.foldl_nil, ruledDirectory,
      directory_of_path (o := (m.attributes, m.name)) (by simp [haround]) hp]
  | cons o inner =>
    rw [haround] at hraw
    rw [directoryAt, List.foldl_cons, ruledDirectory,
      foldl_extended fun o ho => hraw o (List.mem_cons_of_mem _ ho), inlineModuleDirectory]
    cases hpath : pathAttribute? o.1 with
    | some q =>
      have hdir := directory_of_path (o := o) (by simp [haround]) hpath
      rw [Option.getD_some, hdir]
    | none =>
      rw [Option.getD_none, h.directory_eq, hraw o List.mem_cons_self hpath, child]

/-- In a flat file, paths outside inline modules start in the directory of the file's modules. -/
theorem candidates_of_flat (h : F.IsPlaced) (hm : m.around = [])
    (hp : pathAttribute? m.attributes = some p) : F.candidates m = [F.moduleDirectory.join p] := by
  rw [candidates, moduleFiles, hp, hm, directoryAt, List.foldl_nil, h.directory_eq]

end SourceFile

/-- Modules with a path are looked for where the rule says, and found there. -/
theorem Discovery.module_of_path {tree : FileTree} {root p : FilePath} {F : SourceFile}
    {is : List Item} {m : ModuleSite} (hF : Reached tree root F) (his : F.items tree = .ok is)
    (hm : m ∈ moduleSites [] is) (hrule : F.Follows m)
    (hp : pathAttribute? m.attributes = some p) :
    (m.isInline = true →
      inlineModuleDirectory (F.directoryAt m.around) m.attributes m.name =
        (F.ruledDirectory m.around).join p) ∧
    (m.isInline = false →
      F.candidates m = [(F.ruledDirectory m.around).join p] ∧
      (tree.isFile ((F.ruledDirectory m.around).join p) →
        ∃ G, Reached tree root G ∧ G.file = (F.ruledDirectory m.around).join p) ∧
      ∀ d, Discovery.ofRoot tree root = .ok d →
        tree.isFile ((F.ruledDirectory m.around).join p) ∧
          (F.ruledDirectory m.around).join p ∈ d.files) := by
  have hstart := SourceFile.directoryAt_join (SourceFile.isPlaced_of_reached hF) hrule hp
  refine ⟨fun _ => ?_, fun hfile => ?_⟩
  · rw [inlineModuleDirectory, hp, Option.getD_some, hstart]
  · have hcand : F.candidates m = [(F.ruledDirectory m.around).join p] := by
      rw [SourceFile.candidates, moduleFiles, hp, ← hstart]
    have hsite : m ∈ fileSites is := List.mem_filter.2 ⟨hm, by simp [hfile]⟩
    -- whichever file is found, the walk comes to it
    have reached {file : FilePath} (hfind : (F.candidates m).find? tree.isFile = some file) :
        Reached tree root (F.ofModule m file) :=
      hF.tail ⟨is, his, m, hsite, SourceFile.enter_eq_ok.2 ⟨file, hfind, rfl⟩⟩
    refine ⟨hcand, fun hq => ?_, fun d hd => ?_⟩
    · have hfind : (F.candidates m).find? tree.isFile =
          some ((F.ruledDirectory m.around).join p) := by
        rw [hcand, List.find?_cons_of_pos hq]
      exact ⟨_, reached hfind, rfl⟩
    · obtain ⟨k, files, hvisits, -⟩ := Discovery.visits_of_ofRoot hd hF
      obtain ⟨G, henter⟩ := SourceFile.enter_of_visits hvisits his hsite
      obtain ⟨file, hfind, rfl⟩ := SourceFile.enter_eq_ok.1 henter
      have hmem := List.mem_of_find?_eq_some hfind
      rw [hcand, List.mem_singleton] at hmem
      rw [← hmem]
      exact ⟨List.find?_some hfind, Discovery.file_mem_of_ofRoot hd (reached hfind)⟩

namespace Samples

/-- A flat file with a module that has a path, inside of another module. -/
def nested : FileTree where
  nodes := [(["src"], .directory), (["src", "foo"], .directory),
    (["src", "foo", "inner"], .directory), (["src", "foo", "inner", "deep"], .directory),
    (["src", "lib.rs"], .file "mod foo;".toUTF8.toList),
    (["src", "foo.rs"],
      .file "mod inner \x7b #[path = \"deep/bar.rs\"] mod bar; \x7d".toUTF8.toList),
    (["src", "foo", "inner", "deep", "bar.rs"], .file [])]

/-- The flat file, as a walk enters it. -/
def nestedFile : SourceFile := ⟨⟨"src/foo.rs"⟩, ⟨"src/foo"⟩, ["foo"], true⟩

theorem module_of_nested : ∃ is m, Reached nested ⟨"src/lib.rs"⟩ nestedFile ∧
    nestedFile.items nested = .ok is ∧ m ∈ moduleSites [] is ∧ nestedFile.Follows m ∧
    pathAttribute? m.attributes = some ⟨"deep/bar.rs"⟩ ∧
    nestedFile.candidates m = [⟨"src/foo/inner/deep/bar.rs"⟩] ∧
    ∃ G, Reached nested ⟨"src/lib.rs"⟩ G ∧ G.file = ⟨"src/foo/inner/deep/bar.rs"⟩ := by
  have hF : Reached nested ⟨"src/lib.rs"⟩ nestedFile := .single (by decide +kernel)
  have hsite : (nestedFile.items nested).toOption.any (fun is => (moduleSites [] is).any fun m =>
      nestedFile.Follows m ∧ pathAttribute? m.attributes = some ⟨"deep/bar.rs"⟩ ∧
        m.isInline = false ∧ (nestedFile.ruledDirectory m.around).join ⟨"deep/bar.rs"⟩ =
          ⟨"src/foo/inner/deep/bar.rs"⟩) = true := by
    decide +kernel
  -- the items are computed once, and the module is found among them
  cases his : nestedFile.items nested with
  | error e =>
    rw [his] at hsite
    cases hsite
  | ok is =>
    rw [his] at hsite
    obtain ⟨m, hm, h⟩ := List.any_eq_true.1 hsite
    obtain ⟨hrule, hp, hfile, hplace⟩ := of_decide_eq_true h
    have hfound := (Discovery.module_of_path hF his hm hrule hp).2 hfile
    rw [hplace] at hfound
    exact ⟨is, m, hF, rfl, hm, hrule, hp, hfound.1, hfound.2.1 (by decide)⟩

/-- A flat file with a module that has a path, and the file that lies beside it. -/
def beside : FileTree where
  nodes := [(["src"], .directory), (["src", "lib.rs"], .file "mod foo;".toUTF8.toList),
    (["src", "foo.rs"], .file "#[path = \"bar.rs\"] mod bar;".toUTF8.toList),
    (["src", "bar.rs"], .file [])]

/-- The path is taken from the directory of the file's modules, so that the module is not found. -/
theorem beside_not_found :
    beside.isFile ((FilePath.directory ⟨"src/foo.rs"⟩).join ⟨"bar.rs"⟩) ∧
    (match Discovery.ofRoot beside ⟨"src/lib.rs"⟩ with
      | .error e => some e
      | .ok _ => none) = some (.moduleNotFound ["foo", "bar"] [⟨"src/foo/bar.rs"⟩]) := by
  decide +kernel

end Samples

end JsonAdapters
