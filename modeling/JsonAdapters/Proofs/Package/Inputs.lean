import JsonAdapters.Proofs.Package.Ending
import JsonAdapters.Proofs.Package.Writing

/-!
# What walks look at

A walk reads the files that it reaches, and looks for the file of each module among its candidates,
up to the first one that exists. In a tree where all this is as before, the walk finds the same.

## Main definitions

* `SourceFile.Unchanged`: a second tree has the same items in a file, and the same files for its
  modules.
* `SeeksInVain`: a walk looks for a file that is not there.

## Main statements

* `Walk.file_congr`: walks through files that are unchanged.
* `Discovery.ofRoot_congr`: walks of packages.
* `Discovery.ofRoot_of_same`: walks of packages in whose files the same is read.
-/

namespace JsonAdapters

open Code Outcome Relation

/-! ## Walks in two trees -/

namespace SourceFile

variable {tree tree' : FileTree}

/-- The second tree has the same items in the file, and the same files for its modules. -/
structure Unchanged (tree tree' : FileTree) (F : SourceFile) : Prop where
  items : F.items tree' = F.items tree
  found : ∀ is, F.items tree = .ok is → ∀ m ∈ fileSites is,
    (F.candidates m).find? tree'.isFile = (F.candidates m).find? tree.isFile

end SourceFile

namespace Walk

open SourceFile

variable {tree tree' : FileTree} {enter enter' : FilePath → FilePath → List String → Walk Unit}

theorem file_eq (n : Nat) (F : SourceFile) :
    file tree (n + 1) F.file F.directory F.module =
      (match F.items tree with
      | .error e => throw e
      | .ok is =>
        noteFile F.file >>= fun _ => items tree (file tree n) F.directory F.module is) := by
  rw [file_succ, SourceFile.items]
  cases tree.readText F.file with
  | error e => rfl
  | ok source =>
    dsimp only
    cases parseItems? source <;> rfl

/-- Both walks find the same file for a module, and go on alike in it. -/
def GoesOnAlike (tree tree' : FileTree)
    (enter enter' : FilePath → FilePath → List String → Walk Unit)
    (F : SourceFile) (m : ModuleSite) : Prop :=
  (F.candidates m).find? tree'.isFile = (F.candidates m).find? tree.isFile ∧
    ∀ G, F.enter tree m = .ok G →
      enter' G.file G.directory G.module = enter G.file G.directory G.module

mutual

theorem item_congr (F : SourceFile) (around : List (List Attribute × String)) : ∀ i : Item,
    (∀ m ∈ i.moduleSites around, m.isInline = false → GoesOnAlike tree tree' enter enter' F m) →
    item tree' enter' (F.directoryAt around) (F.moduleAt around) i =
      item tree enter (F.directoryAt around) (F.moduleAt around) i
  | .module attrs name none, h => by
    obtain ⟨hfind, henter⟩ := h _ (List.mem_singleton.2 rfl) rfl
    rw [SourceFile.candidates] at hfind
    simp only [item, hfind]
    cases hfile : (moduleFiles (F.directoryAt around) attrs name).find? tree.isFile with
    | none => rfl
    | some file => exact henter _ (enter_eq_ok.2 ⟨file, hfile, rfl⟩)
  | .module attrs name (some is), h => by
    have hinner := itemList_congr F (around ++ [(attrs, name)]) is
      fun m hm => h m (List.mem_cons_of_mem _ hm)
    rw [directoryAt_concat, moduleAt_concat] at hinner
    rw [item, item, hinner]
  | .type _, _ | .use _, _ | .named _ _, _ | .other, _ => by
    rw [item, item]

theorem itemList_congr (F : SourceFile) (around : List (List Attribute × String)) :
    ∀ is : List Item,
    (∀ m ∈ moduleSites around is, m.isInline = false → GoesOnAlike tree tree' enter enter' F m) →
    itemList tree' enter' (F.directoryAt around) (F.moduleAt around) is =
      itemList tree enter (F.directoryAt around) (F.moduleAt around) is
  | [], _ => by
    rw [itemList, itemList]
  | i :: is, h => by
    rw [moduleSites] at h
    have hrest := itemList_congr F around is fun m hm => h m (List.mem_append_right _ hm)
    rw [itemList, itemList, hrest]
    split
    · rfl
    · next hcompiled =>
      rw [if_neg hcompiled] at h
      rw [item_congr F around i fun m hm => h m (List.mem_append_left _ hm)]

end

/-- A walk through a file does the same in a second tree where all files that it reaches are
unchanged. -/
theorem file_congr (n : Nat) {F : SourceFile}
    (h : ∀ G, ReflTransGen (Enters tree) F G → G.Unchanged tree tree') :
    file tree' n F.file F.directory F.module = file tree n F.file F.directory F.module := by
  induction n generalizing F with
  | zero => rfl
  | succ n ih =>
    have hF := h F .refl
    rw [file_eq, file_eq, hF.items]
    cases his : F.items tree with
    | error e => rfl
    | ok is =>
      -- files of the modules are those of before, and so are the walks below them
      have hsites : ∀ m ∈ moduleSites [] is, m.isInline = false →
          GoesOnAlike tree tree' (file tree n) (file tree' n) F m := by
        intro m hm hfile
        have hmem : m ∈ fileSites is := List.mem_filter.2 ⟨hm, by simp [hfile]⟩
        refine ⟨hF.found is his m hmem, fun G hG => ih fun K hK => h K ?_⟩
        exact .head ⟨is, his, m, hmem, hG⟩ hK
      have hlist := itemList_congr F [] is hsites
      rw [moduleAt, List.map_nil, List.append_nil] at hlist
      have hitems : items tree' (file tree' n) F.directory F.module is =
          items tree (file tree n) F.directory F.module is := by
        rw [items, items]
        exact congrArg (· >>= fun _ => noteScope F.module is) hlist
      dsimp only
      rw [hitems]

end Walk

/-! ## Files that are looked for -/

/-- A walk of a package looks for a file that is not there: it is a candidate for the file of a
module, and stands in front of the first one that exists. -/
def SeeksInVain (tree : FileTree) (root p : FilePath) : Prop :=
  ∃ F, Reached tree root F ∧ ∃ is, F.items tree = .ok is ∧ ∃ m ∈ fileSites is,
    p ∈ (F.candidates m).takeWhile fun q => !tree.isFile q

/-- All that a walk of a package looks at: the files that it enters, and files that it looks for in
vain. -/
def IsSurvey (tree : FileTree) (root : FilePath) (Fs : List SourceFile) (ps : List FilePath) :
    Prop :=
  .root root ∈ Fs ∧ ∀ F ∈ Fs, (F.items tree).toOption.all (fun is => (fileSites is).all fun m =>
    (F.enter tree m).toOption.all (· ∈ Fs) &&
      ((F.candidates m).takeWhile fun q => !tree.isFile q).all (· ∈ ps)) = true

instance (tree : FileTree) (root : FilePath) (Fs : List SourceFile) (ps : List FilePath) :
    Decidable (IsSurvey tree root Fs ps) :=
  inferInstanceAs (Decidable (_ ∧ _))

namespace IsSurvey

variable {tree : FileTree} {root p : FilePath} {Fs : List SourceFile} {ps : List FilePath}
  {F : SourceFile}

theorem site (h : IsSurvey tree root Fs ps) (hF : F ∈ Fs) {is : List Item}
    (his : F.items tree = .ok is) {m : ModuleSite} (hm : m ∈ fileSites is) :
    (∀ G, F.enter tree m = .ok G → G ∈ Fs) ∧
      ∀ q ∈ (F.candidates m).takeWhile fun q => !tree.isFile q, q ∈ ps := by
  have hall := h.2 F hF
  rw [toOption_eq_some.2 his, Option.all_some, List.all_eq_true] at hall
  obtain ⟨henter, hvain⟩ := Bool.and_eq_true_iff.1 (hall m hm)
  refine ⟨fun G hG => ?_, fun q hq => of_decide_eq_true (List.all_eq_true.1 hvain q hq)⟩
  rw [toOption_eq_some.2 hG] at henter
  exact of_decide_eq_true henter

theorem mem_of_reached (h : IsSurvey tree root Fs ps) (hF : Reached tree root F) : F ∈ Fs := by
  induction hF with
  | refl => exact h.1
  | tail _ hstep ih =>
    obtain ⟨is, his, m, hm, henter⟩ := hstep
    exact (h.site ih his hm).1 _ henter

theorem mem_of_seeksInVain (h : IsSurvey tree root Fs ps) (hp : SeeksInVain tree root p) :
    p ∈ ps := by
  obtain ⟨F, hF, is, his, m, hm, hmem⟩ := hp
  exact (h.site (h.mem_of_reached hF) his hm).2 p hmem

end IsSurvey

namespace SourceFile

variable {tree tree' : FileTree} {F : SourceFile} {is : List Item}

/-- Where the same is read in a file, its items are the same. -/
theorem items_of_read (hread : (tree'.read F.file).toOption = (tree.read F.file).toOption)
    (h : F.items tree = .ok is) : F.items tree' = .ok is := by
  rw [items] at h
  cases hbytes : tree.read F.file with
  | error e =>
    rw [FileTree.readText, hbytes] at h
    cases h
  | ok bytes =>
    rw [hbytes] at hread
    have hbytes' := toOption_eq_some.1 hread
    rw [items, FileTree.readText, hbytes', ← hbytes, ← FileTree.readText]
    exact h

/-- The first candidate that exists is found in a second tree as well, if it exists there and none
in front of it does. -/
theorem find?_of_same {ps : List FilePath} {file : FilePath} (h : ps.find? tree.isFile = some file)
    (hfile : tree'.isFile file) (hvain : ∀ p ∈ ps.takeWhile (!tree.isFile ·), ¬ tree'.isFile p) :
    ps.find? tree'.isFile = some file := by
  obtain ⟨-, front, rest, rfl, hfront⟩ := List.find?_eq_some_iff_append.1 h
  refine List.find?_eq_some_iff_append.2 ⟨hfile, front, rest, rfl, fun p hp => ?_⟩
  have hmem : p ∈ (front ++ file :: rest).takeWhile (!tree.isFile ·) := by
    rw [List.takeWhile_append_of_pos hfront]
    exact List.mem_append_left _ hp
  simpa using hvain p hmem

end SourceFile

namespace Discovery

open SourceFile

variable {tree tree' : FileTree} {root : FilePath} {d : Discovery}

/-- In a second tree where all files that are reached are unchanged, a walk finds the same. The
bounds on files within files may differ. -/
theorem ofRoot_congr (h : ofRoot tree root = .ok d)
    (hsame : ∀ F, Reached tree root F → F.Unchanged tree tree') : ofRoot tree' root = .ok d := by
  have hbounded (n : Nat) : bounded tree' root n = bounded tree root n := by
    have hwalk := @Walk.file_congr tree tree' n (.root root) hsame
    simp only [SourceFile.root] at hwalk
    rw [bounded, bounded, hwalk]
  have hbound : bounded tree root tree.nesting = .ok d := h
  have hboth : bounded tree' root (max tree.nesting tree'.nesting) = .ok d := by
    have hends (f : FilePath) : bounded tree root tree.nesting ≠ .error (.endless f) := by
      intro hf
      rw [hbound] at hf
      cases hf
    rw [hbounded, bounded_of_le (le_max_left _ _) hends, hbound]
  -- A walk that is cut off in the second tree is cut off at the larger bound, too.
  have hends (f : FilePath) : bounded tree' root tree'.nesting ≠ .error (.endless f) := by
    intro hf
    obtain ⟨g, hg⟩ := bounded_eq_endless.2
      ((ComesBack.of_endless hf).cutOff (max tree.nesting tree'.nesting))
    rw [hboth] at hg
    cases hg
  have hsecond := bounded_of_le (le_max_right tree.nesting tree'.nesting) hends
  exact hsecond.symm.trans hboth

/-- Where the same is read in all files of a package, and files that were not there still are not, a
walk finds the same. -/
theorem ofRoot_of_same (h : ofRoot tree root = .ok d)
    (hread : ∀ F, Reached tree root F → (tree'.read F.file).toOption = (tree.read F.file).toOption)
    (hvain : ∀ p, SeeksInVain tree root p → ¬ tree'.isFile p) : ofRoot tree' root = .ok d := by
  refine ofRoot_congr h fun F hF => ?_
  obtain ⟨k, files, hvisits, -⟩ := visits_of_ofRoot h hF
  obtain ⟨is, -, his, -, -⟩ := visits_succ hvisits
  refine ⟨by rw [items_of_read (hread F hF) his, his], fun is' his' m hm => ?_⟩
  obtain ⟨G, hG⟩ := enter_of_visits hvisits his' hm
  have hreached : Reached tree root G := hF.tail ⟨is', his', m, hm, hG⟩
  obtain ⟨file, hfind, rfl⟩ := enter_eq_ok.1 hG
  obtain ⟨bytes, hbytes⟩ := FileTree.isFile_iff.1 (List.find?_some hfind)
  have hsame : (tree'.read file).toOption = (tree.read file).toOption := hread _ hreached
  rw [hbytes] at hsame
  have hthere := FileTree.isFile_iff.2 ⟨bytes, toOption_eq_some.1 hsame⟩
  rw [hfind]
  exact find?_of_same hfind hthere fun p hp => hvain p ⟨F, hF, is', his', m, hm, hp⟩

end Discovery

end JsonAdapters
