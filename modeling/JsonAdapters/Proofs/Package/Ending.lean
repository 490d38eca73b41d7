import JsonAdapters.Proofs.Code.ModuleNames
import JsonAdapters.Proofs.Package.Fates
import JsonAdapters.Proofs.Package.Locating
import Mathlib.Data.Finset.Prod
import Mathlib.Data.Nat.Digits.Lemmas

/-!
# Which walks end

What a walk does in a file depends on the place of the file and on the directory of its modules.
Such a directory is not longer than paths of files may be, so that there are only so many of them.
In a chain of files that is longer than `FileTree.nesting`, one place therefore comes back with one
directory. From there on, the walk would go round for ever. Without paths of modules it never does,
since directories then get longer on the way down.

## Main definitions

* `SourceFile.HasNoPaths`: no path leads to the file of a module of this file.
* `Discovery.bounded`: the walk of a package with a bound on files within files.

## Main statements

* `SourceFile.Enters.directory_grows`: without paths, directories get longer.
* `Descent.exists_alike`: in long chains, files come back.
* `Discovery.ofRoot_ne_endless_of_no_paths`: walks end where modules have no paths.
* `Discovery.ofRoot_ends`: walks end below the bound, unless they come back to a file.
-/

namespace JsonAdapters

open Code FilePath

/-! ## Names of modules -/

namespace Code

theorem NamesModule.no_slash {name : String} (h : NamesModule name) : '/' ∉ name.toList := by
  have hall := h.1
  rw [namesFile, Bool.and_eq_true, List.all_eq_true] at hall
  exact fun hc => by simpa using hall.2 _ hc

theorem NamesModule.not_idle {name : String} (h : NamesModule name) : ¬ isIdle name := by
  have hall := h.1
  rw [namesFile, Bool.and_eq_true, decide_eq_true_iff, List.all_eq_true] at hall
  have hdot : name ≠ "." := fun hd => by simpa [hd] using hall.2 '.'
  simp [isIdle, hall.1, hdot]

mutual

/-- A module and all modules around it have names of modules. -/
theorem Item.moduleSites_namesModule {around : List (List Attribute × String)}
    (haround : ∀ o ∈ around, NamesModule o.2) :
    ∀ i : Item, i.NamesModules → ∀ m ∈ i.moduleSites around,
      ∀ o ∈ m.around ++ [(m.attributes, m.name)], NamesModule o.2
  | .module attrs name none, h => by
    intro m hm o ho
    obtain rfl := List.mem_singleton.1 hm
    rcases List.mem_append.1 ho with ho | ho
    · exact haround o ho
    · obtain rfl := List.mem_singleton.1 ho
      exact h
  | .module attrs name (some is), h => by
    have hall : ∀ o ∈ around ++ [(attrs, name)], NamesModule o.2 := by
      intro o ho
      rcases List.mem_append.1 ho with ho | ho
      · exact haround o ho
      · obtain rfl := List.mem_singleton.1 ho
        exact h.1
    intro m hm
    rcases List.mem_cons.1 hm with rfl | hm
    · exact hall
    · exact moduleSites_namesModule hall is h.2 m hm
  | .use _, _ | .type _, _ | .named _ _, _ | .other, _ => nofun

theorem moduleSites_namesModule {around : List (List Attribute × String)}
    (haround : ∀ o ∈ around, NamesModule o.2) :
    ∀ is : List Item, allNameModules is → ∀ m ∈ moduleSites around is,
      ∀ o ∈ m.around ++ [(m.attributes, m.name)], NamesModule o.2
  | [], _ => nofun
  | i :: is, h => by
    intro m hm
    rw [moduleSites] at hm
    rcases List.mem_append.1 hm with hm | hm
    · split at hm
      · cases hm
      · exact i.moduleSites_namesModule haround h.1 m hm
    · exact moduleSites_namesModule haround is h.2 m hm

end

end Code

/-! ## Directories of modules -/

namespace SourceFile

variable {tree : FileTree} {F G : SourceFile} {m : ModuleSite} {file : FilePath} {place : Place}

/-- A file whose items are read has a place. -/
theorem leadsTo_of_items {is : List Item} (h : F.items tree = .ok is) :
    ∃ place, tree.LeadsTo F.file place := by
  rw [items] at h
  split at h
  · cases h
  · exact tree.leadsTo_of_readText ‹_›

theorem namesModule_of_fileSites {is : List Item} (h : F.items tree = .ok is)
    (hm : m ∈ fileSites is) : ∀ o ∈ m.around ++ [(m.attributes, m.name)], NamesModule o.2 := by
  rw [items] at h
  split at h
  · cases h
  · split at h
    · cases h
    · cases h
      have hall := allNameModules_iff.2 (parseItems?_namesModules ‹_›)
      exact moduleSites_namesModule (List.forall_mem_nil _) is hall m (List.mem_filter.1 hm).1

/-- A file starts with the directory of its modules. -/
theorem IsPlaced.starts (h : F.IsPlaced) : ∃ b, F.file.text = F.directory.text ++ b := by
  rw [IsPlaced] at h
  split at h
  · exact ⟨_, h⟩
  · rw [h]
    exact F.file.starts_with_directory

/-- Paths that lead from a directory into inline modules. -/
def inlinePaths (around : List (List Attribute × String)) : List FilePath :=
  around.map fun o => (pathAttribute? o.1).getD ⟨o.2⟩

theorem directoryAt_eq (F : SourceFile) (around : List (List Attribute × String)) :
    F.directoryAt around = (inlinePaths around).foldl join F.directory := by
  rw [inlinePaths, List.foldl_map]
  rfl

/-- The directory of the modules of a file that is entered has the name of the module, or it is the
one that the file is in. -/
theorem directory_of_enter (h : F.enter tree m = .ok G) :
    G.isFlat ∧ G.directory = (F.directoryAt m.around).child m.name ∨
      ¬ G.isFlat ∧ G.directory = G.file.directory := by
  by_cases hflat : G.isFlat
  · obtain ⟨file, -, rfl⟩ := enter_eq_ok.1 h
    have hboth := hflat
    simp only [ofModule, Bool.not_eq_true', Bool.or_eq_false_iff, decide_eq_false_iff_not] at hboth
    exact .inl ⟨hflat, by simp [ofModule, fileModuleDirectory, hboth]⟩
  · have hplaced := isPlaced_of_enter h
    rw [IsPlaced, if_neg hflat] at hplaced
    exact .inr ⟨hflat, hplaced⟩

/-- The directory of a module without a path has its name. -/
theorem text_directory_of_no_path (henter : F.enter tree m = .ok G) (hname : NamesModule m.name)
    (hp : pathAttribute? m.attributes = none) :
    G.directory.text = ((F.directoryAt m.around).child m.name).text := by
  have hfate := directory_of_enter henter
  obtain ⟨file, hfind, rfl⟩ := enter_eq_ok.1 henter
  obtain ⟨place, hplace⟩ := tree.leadsTo_of_isFile (List.find?_some hfind)
  rcases hfate with ⟨-, hdir⟩ | ⟨hflat, hdir⟩
  · rw [hdir]
  · have hmod : file.fileName? = some "mod.rs" := by simpa [ofModule, hp] using hflat
    have hmem := List.mem_of_find?_eq_some hfind
    rw [candidates, moduleFiles, hp] at hmem
    rcases List.mem_cons.1 hmem with rfl | hmem
    · have hslash : '/' ∉ (m.name ++ ".rs").toList := by simp [hname.no_slash]
      have hup : m.name ++ ".rs" ≠ ".." := by
        intro h
        have hlen := congrArg String.length h
        rw [String.length_append] at hlen
        have hrs : ".rs".length = 3 := rfl
        have hdots : "..".length = 2 := rfl
        omega
      rw [hplace.fileName?_child hslash hup] at hmod
      have hchars := congrArg String.toList (Option.some.inj hmod)
      rw [String.toList_append] at hchars
      exact absurd (String.toList_inj.1 (List.append_cancel_right hchars)) hname.2
    · obtain rfl := List.mem_singleton.1 hmem
      have hlast := endsWithName_child hname.no_slash hname.not_idle (F.directoryAt m.around)
      rw [hdir]
      exact text_directory_child (by decide) (by decide) hlast

/-- No module with a file of its own has a path, and no module around it has an absolute one. -/
def HasNoPaths (tree : FileTree) (F : SourceFile) : Prop :=
  ∀ is, F.items tree = .ok is → ∀ m ∈ fileSites is, pathAttribute? m.attributes = none ∧
    ∀ o ∈ m.around, ∀ q ∈ pathAttribute? o.1, ¬ q.isAbsolute

/-- Without paths, directories get longer. -/
theorem Enters.directory_grows (h : F.Enters tree G) (hpaths : F.HasNoPaths tree) :
    F.directory.text.length < G.directory.text.length := by
  obtain ⟨is, his, m, hm, henter⟩ := h
  obtain ⟨hpath, haround⟩ := hpaths is his m hm
  have hnames := namesModule_of_fileSites his hm
  have hname : NamesModule m.name := hnames (m.attributes, m.name) (by simp)
  have hrelative : ∀ q ∈ inlinePaths m.around, ¬ q.isAbsolute := by
    intro q hq
    obtain ⟨o, ho, rfl⟩ := List.mem_map.1 hq
    cases hp : pathAttribute? o.1 with
    | some q => exact haround o ho q hp
    | none => exact isAbsolute_of_no_slash (hnames o (List.mem_append_left _ ho)).no_slash
  obtain ⟨b, hb⟩ := joins_start hrelative F.directory
  have hchild := length_lt_child hname.no_slash hname.not_idle (F.directoryAt m.around)
  rw [text_directory_of_no_path henter hname hpath]
  refine lt_of_le_of_lt ?_ hchild
  rw [directoryAt_eq, hb, String.length_append]
  exact Nat.le_add_right _ _

end SourceFile

/-! ## Texts as numbers -/

/-- The bytes of a text as digits of a number. None of the digits is zero, so that texts of
different lengths have different numbers. -/
def textNumber (s : String) : Nat := Nat.ofDigits 257 (s.toByteArray.data.toList.map (·.toNat + 1))

theorem textNumber_lt {s : String} {n : Nat} (h : s.utf8ByteSize ≤ n) :
    textNumber s < Nat.pow 257 n := by
  have hdigits : ∀ d ∈ s.toByteArray.data.toList.map (·.toNat + 1), d < 257 := by
    intro d hd
    obtain ⟨b, -, rfl⟩ := List.mem_map.1 hd
    have := b.toNat_lt
    omega
  have hlt := Nat.ofDigits_lt_base_pow_length (by decide : 1 < 257) hdigits
  refine hlt.trans_le (Nat.pow_le_pow_right (by decide) ?_)
  rw [List.length_map, Array.length_toList]
  exact h

theorem textNumber_inj {s s' : String} (h : textNumber s = textNumber s') : s = s' := by
  have digits (s : String) :
      Nat.digits 257 (textNumber s) = s.toByteArray.data.toList.map (·.toNat + 1) := by
    refine Nat.digits_ofDigits 257 (by decide) _ ?_ ?_
    · intro d hd
      obtain ⟨b, -, rfl⟩ := List.mem_map.1 hd
      have := b.toNat_lt
      omega
    · intro hne hzero
      obtain ⟨b, -, hb⟩ := List.mem_map.1 (List.getLast_mem hne)
      omega
  have hmap : s.toByteArray.data.toList.map (·.toNat + 1) =
      s'.toByteArray.data.toList.map (·.toNat + 1) := by
    rw [← digits, h, digits]
  have hsucc : Function.Injective fun b : UInt8 => b.toNat + 1 :=
    fun b b' hb => UInt8.toNat_inj.1 (Nat.succ.inj hb)
  exact String.toByteArray_inj.1 (ByteArray.ext (Array.toList_inj.1 (hsucc.list_map hmap)))

/-! ## Long chains come back -/

namespace Descent

open SourceFile

variable {tree : FileTree} {root : FilePath} {n : Nat} {c : Nat → SourceFile}

theorem reached (h : Descent tree n c) (hroot : c n = .root root) {k : Nat} (hk : k ≤ n) :
    Reached tree root (c k) := by
  apply reached_of_comes
  rw [← hroot]
  rcases hk.lt_or_eq with hlt | rfl
  · exact (h.comes hlt le_rfl).to_reflTransGen
  · exact .refl

/-- All files above the bound are read. -/
theorem leadsTo (h : Descent tree n c) {k : Nat} (hk : k < n) :
    ∃ place, tree.LeadsTo (c (k + 1)).file place := by
  obtain ⟨is, his, -⟩ := h k hk
  exact leadsTo_of_items his

/-- Directories are not longer than paths of files may be. -/
theorem short (h : Descent tree n c) (hroot : c n = .root root) {k : Nat} (hk : k < n) :
    (c (k + 1)).directory.text.utf8ByteSize ≤ FileTree.maxPath := by
  obtain ⟨place, hplace⟩ := h.leadsTo hk
  obtain ⟨b, hb⟩ := (isPlaced_of_reached (h.reached hroot hk)).starts
  have hshort := hplace.resolves.1
  rw [hb, String.utf8ByteSize_append] at hshort
  exact (Nat.le_add_right _ _).trans hshort

/-- In a chain that is longer than there are places and directories, a place comes back with a
directory. -/
theorem exists_alike (h : Descent tree n c) {bound : Nat}
    (hbound : ∀ k < n, textNumber (c (k + 1)).directory.text < bound)
    (hn : bound * tree.nodes.length < n) :
    ∃ i j, i < j ∧ j ≤ n ∧ Alike tree (c j) (c i) := by
  -- The file at the bound need not be read, so that the others are counted.
  let key (k : Nat) : Nat × Place :=
    (textNumber (c (k + 1)).directory.text, (tree.resolve (c (k + 1)).file).toOption.getD [])
  let keys := Finset.range bound ×ˢ (tree.nodes.map (·.1)).toFinset
  have hcard : keys.card < (Finset.range n).card := by
    have hplaces := (tree.nodes.map (·.1)).toFinset_card_le
    rw [List.length_map] at hplaces
    rw [Finset.card_product, Finset.card_range, Finset.card_range]
    exact (Nat.mul_le_mul_left _ hplaces).trans_lt hn
  have hkeys : ∀ k ∈ Finset.range n, key k ∈ keys := by
    intro k hk
    have hlt := Finset.mem_range.1 hk
    obtain ⟨place, hplace⟩ := h.leadsTo hlt
    have hkey : key k = (textNumber (c (k + 1)).directory.text, place) := by
      simp only [key, hplace.1]
      rfl
    rw [hkey]
    exact Finset.mem_product.2 ⟨Finset.mem_range.2 (hbound k hlt),
      List.mem_toFinset.2 hplace.mem_nodes⟩
  obtain ⟨i, hi, j, hj, hne, heq⟩ :=
    Finset.exists_ne_map_eq_of_card_lt_of_maps_to hcard hkeys
  wlog hij : i < j generalizing i j
  · exact this j hj i hi hne.symm heq.symm (by omega)
  have htexts := textNumber_inj (congrArg Prod.fst heq)
  have hplaces : (tree.resolve (c (i + 1)).file).toOption.getD [] =
      (tree.resolve (c (j + 1)).file).toOption.getD [] := congrArg Prod.snd heq
  obtain ⟨p, hp, -⟩ := h.leadsTo (Finset.mem_range.1 hi)
  obtain ⟨q, hq, -⟩ := h.leadsTo (Finset.mem_range.1 hj)
  refine ⟨i + 1, j + 1, Nat.succ_lt_succ hij, Finset.mem_range.1 hj, ?_, ?_⟩
  · rw [hp, hq] at hplaces ⊢
    exact congrArg Except.ok hplaces.symm
  · rw [← mk_text (c (j + 1)).directory, ← htexts]

end Descent

/-! ## Packages -/

namespace Discovery

open SourceFile

variable (tree : FileTree) (root : FilePath)

/-- Walk the modules of a package, with at most `n` files within files. -/
def bounded (n : Nat) : Except DiscoveryFault Discovery :=
  ofWalk (Walk.file tree n root root.directory [])

variable {tree root}

theorem bounded_eq_endless {n : Nat} : (∃ f, bounded tree root n = .error (.endless f)) ↔
    (SourceFile.root root).fate tree n = .cutOff := by
  rw [fate, ← files_ofFile, ← bounded, Fate.of_eq_cutOff]
  cases bounded tree root n with
  | error e => simp [Except.map]
  | ok d => simp [Except.map]

/-- With a larger bound, the same is found, unless the walk was cut off. -/
theorem bounded_of_le {n k : Nat} (h : n ≤ k)
    (hn : ∀ f, bounded tree root n ≠ .error (.endless f)) :
    bounded tree root k = bounded tree root n := by
  rcases Walk.file_extends h root root.directory [] {} with ⟨f, hf⟩ | heq
  · refine absurd ?_ (hn f)
    rw [bounded, ofWalk, StateT.run, hf]
    rfl
  · rw [bounded, ofWalk, StateT.run, heq]
    rfl

end Discovery

theorem ComesBack.of_endless {tree : FileTree} {root f : FilePath}
    (h : Discovery.ofRoot tree root = .error (.endless f)) : ComesBack tree root := by
  obtain ⟨c, hroot, hc⟩ := exists_descent (Discovery.bounded_eq_endless.1 ⟨f, h⟩)
  obtain ⟨i, j, hij, hj, halike⟩ :=
    hc.exists_alike (fun k hk => textNumber_lt (hc.short hroot hk)) (Nat.lt_add_one _)
  refine ⟨c j, c i, ?_, hc.comes hij hj, halike⟩
  rw [← hroot]
  rcases hj.lt_or_eq with hlt | rfl
  · exact (hc.comes hlt le_rfl).to_reflTransGen
  · exact .refl

open Relation in
/-- Packages without paths are walked to the end: no bound is reached. -/
theorem Discovery.ofRoot_ne_endless_of_no_paths {tree : FileTree} {root : FilePath}
    (h : ∀ F, Reached tree root F → F.HasNoPaths tree) (f : FilePath) :
    ofRoot tree root ≠ .error (.endless f) := by
  intro hcut
  obtain ⟨F, G, hF, hG, -, hdir⟩ := ComesBack.of_endless hcut
  have grows {E : SourceFile} (hE : TransGen (SourceFile.Comes tree) F E) :
      Reached tree root E ∧ F.directory.text.length < E.directory.text.length := by
    have step {E E' : SourceFile} (hE : Reached tree root E) (h' : SourceFile.Comes tree E E') :
        Reached tree root E' ∧ E.directory.text.length < E'.directory.text.length := by
      exact ⟨hE.tail h'.enters, h'.enters.directory_grows (h E hE)⟩
    induction hE with
    | single hstep => exact step (reached_of_comes hF) hstep
    | tail _ hstep ih =>
      obtain ⟨hE, hlt⟩ := ih
      obtain ⟨hE', hlt'⟩ := step hE hstep
      exact ⟨hE', hlt.trans hlt'⟩
  exact absurd (congrArg (·.text.length) hdir) (grows hG).2.ne

/-- The walk of a package ends, with what it has found or with a fault, and does the same with every
larger bound, unless it comes back to a file that is visited. Then it is cut off at every bound. -/
theorem Discovery.ofRoot_ends (tree : FileTree) (root : FilePath) :
    (¬ ComesBack tree root ∧ (∀ f, ofRoot tree root ≠ .error (.endless f)) ∧
      ∀ n ≥ tree.nesting, bounded tree root n = ofRoot tree root) ∨
    (ComesBack tree root ∧ ∀ n, ∃ f, bounded tree root n = .error (.endless f)) := by
  by_cases hback : ComesBack tree root
  · exact .inr ⟨hback, fun n => bounded_eq_endless.2 (hback.cutOff n)⟩
  · have hends (f : FilePath) : ofRoot tree root ≠ .error (.endless f) :=
      fun h => hback (.of_endless h)
    exact .inl ⟨hback, hends, fun n hn => bounded_of_le hn hends⟩

namespace Samples

open Relation SourceFile

/-- The root file is the file of its module. -/
def again : FileTree where
  nodes := [(["src"], .directory),
    (["src", "lib.rs"], .file "#[path = \"lib.rs\"] mod again;".toUTF8.toList)]

theorem again_endless (n : Nat) :
    ∃ f, Discovery.bounded again ⟨"src/lib.rs"⟩ n = .error (.endless f) := by
  have hcomes : Comes again (.root ⟨"src/lib.rs"⟩)
      ⟨⟨"src/lib.rs"⟩, ⟨"src"⟩, ["again"], false⟩ :=
    comes_of_first (by decide +kernel)
  have hback : ComesBack again ⟨"src/lib.rs"⟩ :=
    ⟨_, _, .refl, .single hcomes, rfl, by decide⟩
  exact Discovery.bounded_eq_endless.2 (hback.cutOff n)

/-- A file leads back to the file that declares it, by a path that makes another directory. -/
def turned : FileTree where
  nodes := [(["src"], .directory), (["src", "foo"], .directory), (["src", "foo", "x"], .directory),
    (["src", "lib.rs"], .file "mod foo;".toUTF8.toList),
    (["src", "foo.rs"], .file "mod x;".toUTF8.toList),
    (["src", "foo", "x.rs"], .file "#[path = \"../../foo.rs\"] mod back;".toUTF8.toList),
    (["src", "x.rs"], .file [])]

/-- The walk enters the file again while it is visited, and succeeds. -/
theorem turned_enters_again : ∃ F G, Reached turned ⟨"src/lib.rs"⟩ F ∧
    TransGen (Enters turned) F G ∧
    (turned.resolve F.file).toOption = some ["src", "foo.rs"] ∧
    (turned.resolve G.file).toOption = some ["src", "foo.rs"] ∧
    (Discovery.ofRoot turned ⟨"src/lib.rs"⟩).toOption.map (·.files) =
      some [⟨"src/lib.rs"⟩, ⟨"src/foo.rs"⟩, ⟨"src/foo/x.rs"⟩, ⟨"src/foo/x/../../foo.rs"⟩,
        ⟨"src/foo/x/../../x.rs"⟩] := by
  let F : SourceFile := ⟨⟨"src/foo.rs"⟩, ⟨"src/foo"⟩, ["foo"], true⟩
  let X : SourceFile := ⟨⟨"src/foo/x.rs"⟩, ⟨"src/foo/x"⟩, ["foo", "x"], true⟩
  let G : SourceFile :=
    ⟨⟨"src/foo/x/../../foo.rs"⟩, ⟨"src/foo/x/../.."⟩, ["foo", "x", "back"], false⟩
  have hF : Enters turned (.root ⟨"src/lib.rs"⟩) F := by decide +kernel
  have hX : Enters turned F X := by decide +kernel
  have hG : Enters turned X G := by decide +kernel
  exact ⟨F, G, .single hF, .head hX (.single hG), by decide +kernel⟩

end Samples

end JsonAdapters
