import JsonAdapters.Package.Discovery
import JsonAdapters.Proofs.Outcome
import Mathlib.Logic.Relation

/-!
# Walks through files

A walk enters a file, looks at the modules in it, and enters the files of those that have one of
their own. This module sums up which files a walk finds and how it fails, by a function on files
that knows nothing of records and scopes, and says which files are reached from which.

## Main definitions

* `ModuleSite`, `moduleSites`: a module that a file declares, and the modules around it in the file.
* `SourceFile`: a file as it is entered. `SourceFile.enter` enters the file of a module.
* `SourceFile.visits`: the files that are visited from a file on, or why the walk fails.
* `SourceFile.Enters`, `Reached`: files that are entered from a file, and from the root file on.

## Main statements

* `Walk.file_finds`: a walk finds the files that are visited.
* `Discovery.visits_of_ofRoot`: a walk that succeeds visits all files that are reached.
-/

namespace JsonAdapters

open Code

/-! ## Modules of a file -/

/-- A module that a file declares. -/
structure ModuleSite where
  /-- Attributes and names of the modules around it in the file, from the outside to the inside. -/
  around : List (List Attribute × String)
  attributes : List Attribute
  name : String
  /-- Whether its content stands where it is declared. -/
  isInline : Bool

mutual

/-- The modules of an item that are not for tests, in their order. -/
def Code.Item.moduleSites (around : List (List Attribute × String)) : Item → List ModuleSite
  | .module attrs name (some items) =>
    ⟨around, attrs, name, true⟩ :: moduleSites (around ++ [(attrs, name)]) items
  | .module attrs name none => [⟨around, attrs, name, false⟩]
  | .use _ | .type _ | .named _ _ | .other => []

def moduleSites (around : List (List Attribute × String)) : List Item → List ModuleSite
  | [] => []
  | i :: is =>
    (if isForTests i.outerAttributes then [] else i.moduleSites around) ++ moduleSites around is

end

/-- The modules that have files of their own. -/
def fileSites (is : List Item) : List ModuleSite := (moduleSites [] is).filter (!·.isInline)

/-! ## Files that are entered -/

/-- A file as a walk enters it. -/
structure SourceFile where
  file : FilePath
  /-- Where the files of its modules are. -/
  directory : FilePath
  /-- Names of the module whose file it is, from the root on. -/
  module : List String
  /-- Whether the directory has the name of the module, and stands beside the file. -/
  isFlat : Bool
deriving DecidableEq

namespace SourceFile

/-- The root file of a package. -/
def root (file : FilePath) : SourceFile := ⟨file, file.directory, [], false⟩

/-- Where the files of modules are, inside inline modules of the file. -/
def directoryAt (F : SourceFile) (around : List (List Attribute × String)) : FilePath :=
  around.foldl (fun dir m => inlineModuleDirectory dir m.1 m.2) F.directory

def moduleAt (F : SourceFile) (around : List (List Attribute × String)) : List String :=
  F.module ++ around.map (·.2)

/-- The directory of an inline module is below that of the module around it. -/
theorem directoryAt_concat (F : SourceFile) (around : List (List Attribute × String))
    (attrs : List Attribute) (name : String) : F.directoryAt (around ++ [(attrs, name)]) =
      inlineModuleDirectory (F.directoryAt around) attrs name := by
  simp [directoryAt]

/-- The path of an inline module is below that of the module around it. -/
theorem moduleAt_concat (F : SourceFile) (around : List (List Attribute × String))
    (attrs : List Attribute) (name : String) :
    F.moduleAt (around ++ [(attrs, name)]) = F.moduleAt around ++ [name] := by
  simp [moduleAt]

def candidates (F : SourceFile) (m : ModuleSite) : List FilePath :=
  moduleFiles (F.directoryAt m.around) m.attributes m.name

variable (tree : FileTree)

/-- A file that is entered as that of a module. -/
def ofModule (F : SourceFile) (m : ModuleSite) (file : FilePath) : SourceFile where
  file := file
  directory := fileModuleDirectory (F.directoryAt m.around) m.attributes m.name file
  module := F.moduleAt m.around ++ [m.name]
  isFlat := !((pathAttribute? m.attributes).isSome || file.fileName? = some "mod.rs")

/-- The file of a module that has one of its own. -/
def enter (F : SourceFile) (m : ModuleSite) : Except DiscoveryFault SourceFile :=
  match (F.candidates m).find? tree.isFile with
  | none => .error (.moduleNotFound (F.moduleAt m.around ++ [m.name]) (F.candidates m))
  | some file => .ok (F.ofModule m file)

/-- The items of a file. -/
def items (F : SourceFile) : Except DiscoveryFault (List Item) :=
  match tree.readText F.file with
  | .error e => .error (.unreadable F.file e)
  | .ok source =>
    match parseItems? source with
    | none => .error (.unparsable F.file)
    | some is => .ok is

/-- The files that are visited from a file on, with at most `n` files within files. -/
def visits : Nat → SourceFile → Except DiscoveryFault (List FilePath)
  | 0, F => .error (.endless F.file)
  | n + 1, F => do
    let is ← F.items tree
    let inner ← (fileSites is).mapM fun m => do visits n (← F.enter tree m)
    return F.file :: inner.flatten

/-- The first file that exists is entered. -/
theorem enter_eq_ok {tree : FileTree} {F G : SourceFile} {m : ModuleSite} :
    F.enter tree m = .ok G ↔
      ∃ file, (F.candidates m).find? tree.isFile = some file ∧ G = F.ofModule m file := by
  rw [enter]
  cases (F.candidates m).find? tree.isFile with
  | none => exact ⟨nofun, by rintro ⟨_, ⟨⟩, -⟩⟩
  | some file =>
    constructor
    · intro h
      exact ⟨file, rfl, (Except.ok.inj h).symm⟩
    · rintro ⟨_, ⟨⟩, rfl⟩
      rfl

/-- A file has a module whose file is the other one. -/
def Enters (F G : SourceFile) : Prop :=
  ∃ is, F.items tree = .ok is ∧ ∃ m ∈ fileSites is, F.enter tree m = .ok G

/-- Files that are entered can be computed. -/
theorem enters_iff_any {tree : FileTree} {F G : SourceFile} : F.Enters tree G ↔
    (F.items tree).toOption.any
      (fun is => (fileSites is).any fun m => (F.enter tree m).toOption = some G) = true := by
  have toOption_eq (r : Except DiscoveryFault SourceFile) : r.toOption = some G ↔ r = .ok G := by
    cases r <;> simp [Except.toOption]
  rw [Enters]
  cases F.items tree with
  | error e => simp [Except.toOption]
  | ok is =>
    change _ ↔ (fileSites is).any _ = true
    simp [toOption_eq]

instance : DecidableRel (Enters tree) := fun _ _ => decidable_of_iff _ enters_iff_any.symm

end SourceFile

/-- Files that are entered from the root file on. -/
abbrev Reached (tree : FileTree) (root : FilePath) : SourceFile → Prop :=
  Relation.ReflTransGen (SourceFile.Enters tree) (.root root)

/-! ## What walks find -/

namespace Walk

/-- From every start, the walk finds these files in this order, or fails as given. -/
def Finds (w : Walk Unit) : Except DiscoveryFault (List FilePath) → Prop
  | .error e => ∀ d, w d = .error e
  | .ok files => ∀ d, ∃ d', w d = .ok ((), d') ∧ d'.files = d.files ++ files

namespace Finds

variable {w w' : Walk Unit} {r r' : Except DiscoveryFault (List FilePath)}

/-- A step that adds files finds them. -/
theorem modify (f : Discovery → Discovery) {files : List FilePath}
    (h : ∀ d, (f d).files = d.files ++ files) : Finds (modify f) (.ok files) :=
  fun d => ⟨f d, rfl, h d⟩

theorem nothing : Finds (pure ()) (.ok []) := fun d => ⟨d, rfl, by simp⟩

theorem fault (e : DiscoveryFault) : Finds (throw e) (.error e) := fun _ => rfl

/-- Two steps find the files of the first, and then those of the second. -/
theorem bind (h : Finds w r) (h' : Finds w' r') :
    Finds (w >>= fun _ => w') (do return (← r) ++ (← r')) := by
  have hrun (d : Discovery) : (w >>= fun _ => w') d = w d >>= fun x => w' x.2 := rfl
  cases r with
  | error e =>
    intro d
    rw [hrun, h d]
    rfl
  | ok files =>
    cases r' with
    | error e =>
      intro d
      obtain ⟨d₁, hw, -⟩ := h d
      rw [hrun, hw]
      exact h' d₁
    | ok files' =>
      intro d
      obtain ⟨d₁, hw, hfiles⟩ := h d
      obtain ⟨d₂, hw', hfiles'⟩ := h' d₁
      exact ⟨d₂, by rw [hrun, hw]; exact hw', by rw [hfiles', hfiles, List.append_assoc]⟩

/-- A step in front of which nothing is found. -/
theorem before (h : Finds w (.ok [])) (h' : Finds w' r') : Finds (w >>= fun _ => w') r' := by
  have := h.bind h'
  cases r' <;> exact this

/-- A step behind which nothing is found. -/
theorem behind (h : Finds w r) (h' : Finds w' (.ok [])) : Finds (w >>= fun _ => w') r := by
  have := h.bind h'
  cases r with
  | error e => exact this
  | ok files =>
    change Finds _ (.ok (files ++ [])) at this
    rwa [List.append_nil] at this

end Finds

/-- To note a type finds no file. -/
theorem noteType_finds (module : List String) (d : Declaration) :
    Finds (noteType module d) (.ok []) := by
  have hrecord : Finds (if (derivedNames d.attributes).contains "Kson" && !module.isEmpty then
      modify fun s => { s with records := s.records ++ [⟨module, d⟩] } else pure ()) (.ok []) := by
    split
    · exact .modify _ fun d => by simp
    · exact .nothing
  unfold noteType
  dsimp only
  split
  · exact .before (.modify _ fun d => by simp) hrecord
  · exact hrecord

/-- To note a scope finds no file. -/
theorem noteScope_finds (module : List String) (is : List Item) :
    Finds (noteScope module is) (.ok []) := by
  unfold noteScope
  split
  · exact .nothing
  · exact .modify _ fun d => by simp

variable {tree : FileTree} {enter : FilePath → FilePath → List String → Walk Unit}
  {go : SourceFile → Except DiscoveryFault (List FilePath)}

/-- What is found in modules of a file. -/
def found (tree : FileTree) (go : SourceFile → Except DiscoveryFault (List FilePath))
    (F : SourceFile) (ms : List ModuleSite) : Except DiscoveryFault (List FilePath) :=
  List.flatten <$> ((ms.filter (!·.isInline)).mapM fun m => do go (← F.enter tree m))

/-- Modules are looked for in their order. -/
theorem found_append (F : SourceFile) (ms ms' : List ModuleSite) :
    found tree go F (ms ++ ms') = do return (← found tree go F ms) ++ (← found tree go F ms') := by
  simp only [found, List.filter_append, List.mapM_append]
  simp

/-- A module in a file is looked for. -/
theorem found_file (F : SourceFile) {m : ModuleSite} (hm : m.isInline = false) :
    found tree go F [m] = F.enter tree m >>= go := by
  simp [found, hm]

/-- An inline module needs no file. -/
theorem found_inline (F : SourceFile) {m : ModuleSite} (hm : m.isInline = true)
    (ms : List ModuleSite) : found tree go F (m :: ms) = found tree go F ms := by
  simp [found, hm]

mutual

/-- The visit of an item finds the files of the modules in it. -/
theorem item_finds (F : SourceFile)
    (hgo : ∀ G : SourceFile, Finds (enter G.file G.directory G.module) (go G))
    (around : List (List Attribute × String)) : ∀ i : Item,
    Finds (item tree enter (F.directoryAt around) (F.moduleAt around) i)
      (found tree go F (i.moduleSites around))
  | .type d => by
    rw [item]
    split
    · exact noteType_finds _ d
    · exact .nothing
  | .module attrs name none => by
    rw [Item.moduleSites, found_file F rfl, item, SourceFile.enter]
    simp only [SourceFile.candidates]
    cases h : (moduleFiles (F.directoryAt around) attrs name).find? tree.isFile with
    | none => exact .fault _
    | some file => exact hgo ⟨file, _, _, _⟩
  | .module attrs name (some is) => by
    rw [Item.moduleSites, found_inline F rfl, item]
    have hinner := itemList_finds F hgo (around ++ [(attrs, name)]) is
    rw [SourceFile.directoryAt_concat, SourceFile.moduleAt_concat] at hinner
    exact hinner.behind (noteScope_finds _ is)
  | .use _ | .named _ _ | .other => .nothing

/-- The visit of items finds the files of the modules in them. -/
theorem itemList_finds (F : SourceFile)
    (hgo : ∀ G : SourceFile, Finds (enter G.file G.directory G.module) (go G))
    (around : List (List Attribute × String)) : ∀ is : List Item,
    Finds (itemList tree enter (F.directoryAt around) (F.moduleAt around) is)
      (found tree go F (moduleSites around is))
  | [] => .nothing
  | i :: is => by
    rw [moduleSites, itemList]
    split
    · exact itemList_finds F hgo around is
    · rw [found_append]
      exact (item_finds F hgo around i).bind (itemList_finds F hgo around is)

end

/-- A file is read, parsed and noted before its items are visited. -/
theorem file_succ (n : Nat) (f dir : FilePath) (module : List String) :
    file tree (n + 1) f dir module = (do
      match tree.readText f with
      | .error e => throw (.unreadable f e)
      | .ok source =>
        match parseItems? source with
        | none => throw (.unparsable f)
        | some is =>
          noteFile f
          items tree (file tree n) dir module is) := by
  rfl

/-- A walk through a file finds the files that are visited from there on. -/
theorem file_finds (n : Nat) (F : SourceFile) :
    Finds (file tree n F.file F.directory F.module) (F.visits tree n) := by
  induction n generalizing F with
  | zero => exact .fault _
  | succ n ih =>
    rw [file_succ, SourceFile.visits, SourceFile.items]
    cases tree.readText F.file with
    | error e => exact .fault _
    | ok source =>
      dsimp only
      cases parseItems? source with
      | none => exact .fault _
      | some is =>
        -- a file is listed before the files of its modules
        have hnote : Finds (noteFile F.file) (.ok [F.file]) := .modify _ fun d => rfl
        have hitems : Finds (items tree (file tree n) F.directory F.module is)
            (found tree (SourceFile.visits tree n) F (moduleSites [] is)) := by
          have hlist : Finds (itemList tree (file tree n) F.directory (F.moduleAt []) is) _ :=
            itemList_finds F ih [] is
          rw [SourceFile.moduleAt, List.map_nil, List.append_nil] at hlist
          exact hlist.behind (noteScope_finds _ is)
        have hboth := hnote.bind hitems
        rw [found] at hboth
        change Finds _ (do
          let inner ← (fileSites is).mapM fun m => do SourceFile.visits tree n (← F.enter tree m)
          return F.file :: inner.flatten)
        rw [fileSites]
        cases h : ((moduleSites [] is).filter (!·.isInline)).mapM fun m => do
          SourceFile.visits tree n (← F.enter tree m) with
        | error e => rw [h] at hboth; exact hboth
        | ok inner => rw [h] at hboth; exact hboth

end Walk

section Mapping

variable {ε α β : Type} {f : α → Except ε β} {as : List α} {bs : List β}

/-- Steps that all succeed give their results. -/
theorem map_of_mapM_eq_ok (h : as.mapM f = .ok bs) : as.map f = bs.map .ok := by
  induction as generalizing bs with
  | nil =>
    cases h
    rfl
  | cons a as ih =>
    rw [List.mapM_cons] at h
    obtain ⟨b, ha, h⟩ := Outcome.except_bind_eq_ok.1 h
    obtain ⟨bs', has, h⟩ := Outcome.except_bind_eq_ok.1 h
    cases h
    rw [List.map_cons, List.map_cons, ha, ih has]

/-- When a list is mapped without a fault, each member gives one of the results. -/
theorem mem_of_mapM_eq_ok (h : as.mapM f = .ok bs) : ∀ a ∈ as, ∃ b ∈ bs, f a = .ok b := by
  intro a ha
  have hmem : f a ∈ as.map f := List.mem_map_of_mem ha
  rw [map_of_mapM_eq_ok h] at hmem
  obtain ⟨b, hb, hfa⟩ := List.mem_map.1 hmem
  exact ⟨b, hb, hfa.symm⟩

/-- When a list is mapped without a fault, each result is that of a member. -/
theorem exists_mem_of_mapM_eq_ok (h : as.mapM f = .ok bs) : ∀ b ∈ bs, ∃ a ∈ as, f a = .ok b := by
  intro b hb
  have hmem : (.ok b : Except ε β) ∈ bs.map .ok := List.mem_map_of_mem hb
  rw [← map_of_mapM_eq_ok h] at hmem
  exact List.mem_map.1 hmem

/-- When a list is mapped with a fault, it is that of a member. -/
theorem exists_mem_of_mapM_eq_error {e : ε} (h : as.mapM f = .error e) :
    ∃ a ∈ as, f a = .error e := by
  induction as with
  | nil => cases h
  | cons a as ih =>
    rw [List.mapM_cons] at h
    cases ha : f a with
    | error e' =>
      rw [ha] at h
      cases h
      exact ⟨a, List.mem_cons_self, ha⟩
    | ok b =>
      rw [ha] at h
      cases has : as.mapM f with
      | error e' =>
        rw [has] at h
        cases h
        obtain ⟨a', hmem, ha'⟩ := ih has
        exact ⟨a', List.mem_cons_of_mem a hmem, ha'⟩
      | ok bs =>
        rw [has] at h
        cases h

end Mapping

namespace SourceFile

variable {tree : FileTree} {n : Nat} {F G : SourceFile} {files : List FilePath}

/-- A visit that succeeds notes the file, and visits the files of all its modules. -/
theorem visits_succ (h : F.visits tree (n + 1) = .ok files) : ∃ is inner, F.items tree = .ok is ∧
    (fileSites is).mapM (fun m => do visits tree n (← F.enter tree m)) = .ok inner ∧
    files = F.file :: inner.flatten := by
  rw [visits] at h
  cases his : F.items tree with
  | error e =>
    rw [his] at h
    cases h
  | ok is =>
    rw [his] at h
    change (do
      let inner ← (fileSites is).mapM fun m => do visits tree n (← F.enter tree m)
      return F.file :: inner.flatten) = Except.ok files at h
    cases hinner : (fileSites is).mapM fun m => do visits tree n (← F.enter tree m) with
    | error e =>
      rw [hinner] at h
      cases h
    | ok inner =>
      rw [hinner] at h
      cases h
      exact ⟨is, inner, rfl, hinner, rfl⟩

/-- A visit that succeeds visits every file that is entered from the file. -/
theorem visits_of_enters (h : F.visits tree (n + 1) = .ok files) (hG : F.Enters tree G) :
    ∃ files', G.visits tree n = .ok files' ∧ files' ⊆ files := by
  obtain ⟨is, inner, his, hinner, rfl⟩ := visits_succ h
  obtain ⟨is', his', m, hm, henter⟩ := hG
  obtain rfl : is = is' := Except.ok.inj (his.symm.trans his')
  obtain ⟨files', hmem, hvisit⟩ := mem_of_mapM_eq_ok hinner m hm
  rw [henter] at hvisit
  exact ⟨files', hvisit, fun f hf =>
    List.mem_cons_of_mem _ (List.mem_flatten.2 ⟨files', hmem, hf⟩)⟩

/-- A visit that succeeds visits all files that are reached. -/
theorem visits_of_reached (h : F.visits tree n = .ok files)
    (hG : Relation.ReflTransGen (Enters tree) F G) :
    ∃ k files', G.visits tree (k + 1) = .ok files' ∧ files' ⊆ files := by
  induction hG using Relation.ReflTransGen.head_induction_on generalizing n files with
  | refl =>
    cases n with
    | zero => cases h
    | succ n => exact ⟨n, files, h, fun _ => id⟩
  | head hstep _ ih =>
    cases n with
    | zero => cases h
    | succ n =>
      obtain ⟨files₁, hvisit, hsub⟩ := visits_of_enters h hstep
      obtain ⟨k, files', hG, hsub'⟩ := ih hvisit
      exact ⟨k, files', hG, fun f hf => hsub (hsub' hf)⟩

/-- A visit that succeeds finds the file of every module that has one of its own. -/
theorem enter_of_visits (h : F.visits tree (n + 1) = .ok files) {is : List Item}
    (his : F.items tree = .ok is) {m : ModuleSite} (hm : m ∈ fileSites is) :
    ∃ G, F.enter tree m = .ok G := by
  obtain ⟨is', inner, his', hinner, -⟩ := visits_succ h
  obtain rfl : is' = is := Except.ok.inj (his'.symm.trans his)
  obtain ⟨_, -, hvisit⟩ := mem_of_mapM_eq_ok hinner m hm
  cases henter : F.enter tree m with
  | error e =>
    rw [henter] at hvisit
    cases hvisit
  | ok G => exact ⟨G, rfl⟩

end SourceFile

namespace Discovery

/-- A discovery lists the files that its walk finds. -/
theorem files_ofWalk {w : Walk Unit} {r : Except DiscoveryFault (List FilePath)}
    (h : w.Finds r) : (ofWalk w).map (·.files) = r := by
  cases r with
  | error e => rw [ofWalk, StateT.run, h {}]; rfl
  | ok files =>
    obtain ⟨d, hd, hfiles⟩ := h {}
    rw [ofWalk, StateT.run, hd]
    exact congrArg Except.ok hfiles

/-- The files of a package are those that are visited from its root file on. -/
theorem files_ofFile (tree : FileTree) (n : Nat) (root : FilePath) :
    (ofWalk (Walk.file tree n root root.directory [])).map (·.files) =
      (SourceFile.root root).visits tree n := by
  have h := @Walk.file_finds tree n (.root root)
  simp only [SourceFile.root] at h
  rw [files_ofWalk h, SourceFile.root]

/-- A walk that succeeds visits all files that are reached. -/
theorem visits_of_ofRoot {tree : FileTree} {root : FilePath} {d : Discovery} {F : SourceFile}
    (h : ofRoot tree root = .ok d) (hF : Reached tree root F) :
    ∃ k files, F.visits tree (k + 1) = .ok files ∧ files ⊆ d.files := by
  have hvisits := files_ofFile tree tree.nesting root
  rw [← ofRoot, h] at hvisits
  exact SourceFile.visits_of_reached hvisits.symm hF

/-- A walk that succeeds finds all files that are reached. -/
theorem file_mem_of_ofRoot {tree : FileTree} {root : FilePath} {d : Discovery} {F : SourceFile}
    (h : ofRoot tree root = .ok d) (hF : Reached tree root F) : F.file ∈ d.files := by
  obtain ⟨k, files, hvisits, hsub⟩ := visits_of_ofRoot h hF
  obtain ⟨is, inner, -, -, rfl⟩ := SourceFile.visits_succ hvisits
  exact hsub List.mem_cons_self

end Discovery

end JsonAdapters
