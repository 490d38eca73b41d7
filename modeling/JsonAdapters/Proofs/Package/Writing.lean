import JsonAdapters.Package.Build
import JsonAdapters.Proofs.Outcome
import JsonAdapters.Proofs.Package.Paths

/-!
# Writing files

What a path leads to depends on directories only, and on the working directory if it is relative. A
file is written to the place to which its path leads, where no directory stands; every other place
stays as it is, so that all paths lead where they led before.

## Main definitions

* `FileTree.place?`: the place to which a path leads, if it leads to one.
* `FileTree.SameDirectories`: two trees have the same directories, and the same working directory.
* `FileTree.Writable`: a text can be written to a path.
* `FilePath.IsFileName`: a name under which a file can stand in a directory.
* `Build.lastAt`: the last one of some files that is written to a place.

## Main statements

* `FileTree.place?_seenFrom`: absolute paths lead to the same places from all working directories.
* `FileTree.SameDirectories.place?_eq`: paths lead to the same places.
* `Build.writeFiles_ok`, `Build.writeFiles_of_writable`: what is written, and when.
* `Build.writeFiles_report`: which files are told to be written.
* `Build.writeFiles_of_holds`: nothing is written where all files have their contents.
-/

namespace JsonAdapters

open Outcome

/-! ## Places -/

namespace FileTree

variable {t t' t'' : FileTree} {p : FilePath} {place q : Place} {n : FileNode} {text : String}

theorem get?_root (t : FileTree) : t.get? [] = some .directory := if_pos rfl

/-- What is put at a place is found there, and all else where it was. -/
theorem get?_set (hplace : place ≠ []) (n : FileNode) (q : Place) :
    (t.set place n).get? q = if q = place then some n else t.get? q := by
  by_cases hroot : q = []
  · rw [hroot, get?_root, get?_root, if_neg hplace.symm]
  -- what was at the place is dropped, and nothing else
  have hfilter : (t.nodes.filter (·.1 ≠ place)).lookup q =
      if q = place then none else t.nodes.lookup q := by
    induction t.nodes with
    | nil => simp
    | cons x nodes ih =>
      obtain ⟨p, m⟩ := x
      by_cases hp : p = place
      · rw [List.filter_cons_of_neg (by simpa using hp), ih, List.lookup_cons]
        by_cases hq : q = place
        · rw [if_pos hq, if_pos hq]
        · have hne : (q == p) = false := by simpa [hp] using hq
          rw [if_neg hq, if_neg hq, hne]
      · rw [List.filter_cons_of_pos (by simpa using hp), List.lookup_cons, List.lookup_cons, ih]
        by_cases hq : q = p
        · have hne : q ≠ place := hq ▸ hp
          simp [hq, hp]
        · have hne : (q == p) = false := by simpa using hq
          rw [hne]
  rw [get?, if_neg hroot, set, List.lookup_append, hfilter]
  by_cases hq : q = place
  · simp [hq]
  · have hne : (q == place) = false := by simpa using hq
    rw [if_neg hq, if_neg hq, get?, if_neg hroot, List.lookup_cons, hne, List.lookup_nil,
      Option.or_none]

/-- A path is followed part by part. -/
theorem follow_append_ok {front rest : List String} :
    t.follow place (front ++ rest) = .ok q ↔
      ∃ next, t.follow place front = .ok next ∧ t.follow next rest = .ok q := by
  induction front generalizing place with
  | nil => simp [follow]
  | cons part front ih =>
    simp only [List.cons_append, follow_cons_ok, ih]
    constructor
    · rintro ⟨hdir, next, hstep, last, hfront, hrest⟩
      exact ⟨last, ⟨hdir, next, hstep, hfront⟩, hrest⟩
    · rintro ⟨last, ⟨hdir, next, hstep, hfront⟩, hrest⟩
      exact ⟨hdir, next, hstep, last, hfront, hrest⟩

/-- The place to which a path leads, if it leads to one. -/
def place? (t : FileTree) (p : FilePath) : Option Place := (t.resolve p).toOption

/-- A path has a place if it is not too long, and can be followed. -/
theorem place?_eq_some : t.place? p = some place ↔
    (p.text.utf8ByteSize ≤ maxPath ∧ p.text ≠ "") ∧
      t.follow (t.start p) p.parts = .ok place := by
  rw [place?, toOption_eq_some, resolve]
  by_cases hlong : maxPath < p.text.utf8ByteSize
  · simp [hlong, Nat.not_le.2 hlong]
  · rw [if_neg hlong]
    by_cases hnone : p.text = ""
    · simp [hnone]
    · rw [if_neg hnone, iff_and_self]
      exact fun _ => ⟨Nat.not_lt.1 hlong, hnone⟩

/-! ## Trees with the same directories -/

/-- From one place on, paths lead to the same places where the same places are directories. -/
theorem follow_ok_iff (h : ∀ q, t'.get? q = some .directory ↔ t.get? q = some .directory)
    {parts : List String} : t'.follow place parts = .ok q ↔ t.follow place parts = .ok q := by
  induction parts generalizing place with
  | nil => exact Iff.rfl
  | cons part rest ih => simp only [follow_cons_ok, h place, ih]

/-- The same files and directories, seen from another working directory. -/
def seenFrom (t : FileTree) (base : Place) : FileTree := ⟨t.nodes, base⟩

/-- Absolute paths lead to the same places from all working directories. -/
theorem place?_seenFrom (h : p.isAbsolute) (base : Place) :
    (t.seenFrom base).place? p = t.place? p := by
  have hget (q : Place) : (t.seenFrom base).get? q = t.get? q := rfl
  apply Option.ext
  intro place
  have hfollow : (t.seenFrom base).follow [] p.parts = .ok place ↔
      t.follow [] p.parts = .ok place := follow_ok_iff fun q => by rw [hget]
  rw [place?_eq_some, place?_eq_some, start, start, if_pos h, if_pos h, hfollow]

/-- The same places are directories, and one of them is the working directory of both trees. -/
structure SameDirectories (t t' : FileTree) : Prop where
  base : t'.base = t.base
  get? : ∀ q, t'.get? q = some .directory ↔ t.get? q = some .directory

namespace SameDirectories

theorem refl (t : FileTree) : SameDirectories t t := ⟨rfl, fun _ => Iff.rfl⟩

/-- Directories stay the same from step to step. -/
theorem trans (h : SameDirectories t t') (h' : SameDirectories t' t'') : SameDirectories t t'' :=
  ⟨h'.base.trans h.base, fun q => (h'.get? q).trans (h.get? q)⟩

/-- Paths lead to the same places. -/
theorem place?_eq (h : SameDirectories t t') (p : FilePath) : t'.place? p = t.place? p := by
  apply Option.ext
  intro place
  rw [place?_eq_some, place?_eq_some, start, start, h.base, follow_ok_iff h.get?]

end SameDirectories

/-! ## Reading -/

/-- A file is read at its place. -/
theorem read_eq_ok {bytes : List UInt8} : t.read p = .ok bytes ↔
    ∃ place, t.place? p = some place ∧ t.get? place = some (.file bytes) := by
  rw [read, except_bind_eq_ok]
  refine exists_congr fun place => and_congr toOption_eq_some.symm ?_
  cases t.get? place with
  | none => simp
  | some n => cases n <;> simp

/-- Files are what can be read. -/
theorem isFile_iff : t.isFile p ↔ ∃ bytes, t.read p = .ok bytes := by
  simp only [read_eq_ok]
  rw [isFile, ← place?]
  cases t.place? p with
  | none => simp
  | some place =>
    simp only [Option.bind_some, Option.some.injEq, exists_eq_left']
    split
    · next bytes h => simp [h]
    · next h =>
      constructor
      · intro hfile
        cases hfile
      · rintro ⟨bytes, hbytes⟩
        exact absurd hbytes (h bytes)

/-- A file holds a text if the bytes of the text are read. -/
theorem holds_iff : t.holds p text ↔ t.read p = .ok text.toUTF8.toList := by
  rw [holds]
  cases t.read p <;> simp

/-- Where the same stands at the place of a path, the same is read. -/
theorem read_congr {t t' : FileTree} (hplace : t'.place? p = t.place? p)
    (hget : ∀ place, t.place? p = some place → t'.get? place = t.get? place) :
    (t'.read p).toOption = (t.read p).toOption := by
  apply Option.ext
  intro bytes
  rw [toOption_eq_some, toOption_eq_some, read_eq_ok, read_eq_ok, hplace]
  refine exists_congr fun place => and_congr_right fun h => ?_
  rw [hget place h]

end FileTree

/-! ## Names of files -/

namespace FilePath

/-- A name under which a file can stand in a directory. -/
def IsFileName (name : String) : Prop := '/' ∉ name.toList ∧ ¬ isIdle name ∧ name ≠ ".."

/-- The place of a file in a directory ends with its name. -/
theorem place?_child {t : FileTree} {dir : FilePath} {name : String} {place : Place}
    (hname : IsFileName name) (h : t.place? (dir.child name) = some place) :
    ∃ front, place = front ++ [name] := by
  obtain ⟨hslash, hidle, hup⟩ := hname
  have hlast : (dir.child name).parts.getLast? = some name := by
    rw [child, getLast?_parts_join, parts_of_name hslash]
    rfl
  obtain ⟨front, hparts⟩ := List.getLast?_eq_some_iff.1 hlast
  have hfollow := (FileTree.place?_eq_some.1 h).2
  rw [hparts, FileTree.follow_append_ok] at hfollow
  obtain ⟨next, -, hfollow⟩ := hfollow
  obtain ⟨-, last, hstep, hlast⟩ := FileTree.follow_cons_ok.1 hfollow
  obtain rfl : last = place := Except.ok.inj hlast
  rw [FileTree.step?, if_neg hidle, if_neg hup] at hstep
  split at hstep
  · cases hstep
  · exact ⟨next, (Option.some.inj hstep).symm⟩

end FilePath

/-! ## Writing one file -/

namespace FileTree

variable {t t' : FileTree} {p : FilePath} {text : String}

/-- A text can be written to the path: it leads to a place that is no directory. -/
def Writable (t : FileTree) (p : FilePath) : Prop :=
  ∃ place, t.place? p = some place ∧ t.get? place ≠ some .directory

/-- Which files can be written depends on the directories only. -/
theorem SameDirectories.writable_iff (h : SameDirectories t t') : t'.Writable p ↔ t.Writable p := by
  rw [Writable, Writable, h.place?_eq]
  exact exists_congr fun place => and_congr_right' (not_congr (h.get? place))

/-- Just the file at a place is changed, which has the text now. -/
structure Wrote (t : FileTree) (place : Place) (text : String) (t' : FileTree) : Prop where
  base : t'.base = t.base
  free : t.get? place ≠ some .directory
  get? : ∀ q, t'.get? q = if q = place then some (.file text.toUTF8.toList) else t.get? q

/-- Writing a file makes no directory. -/
theorem Wrote.sameDirectories {place : Place} (h : Wrote t place text t') :
    SameDirectories t t' := by
  refine ⟨h.base, fun q => ?_⟩
  rw [h.get? q]
  by_cases hq : q = place
  · simp [hq, h.free]
  · rw [if_neg hq]

end FileTree

namespace Build

open FileTree

variable {t t' : FileTree} {p : FilePath} {text : String} {isNew : Bool}

/-- A file is written where it does not hold the text. -/
theorem writeFile_run (p : FilePath) (text : String) (t : FileTree) : writeFile p text t =
    if t.holds p text then .ok false t
    else match t.writeText p text with
      | .ok t' => .ok true t'
      | .error e => .error (.io p e) t := by
  rw [writeFile, get_bind_run]
  split
  · rfl
  · cases t.writeText p text <;> rfl

/-- A text is put at the place of a file, in a directory that exists. -/
theorem writeText_eq_ok : t.writeText p text = .ok t' ↔ ∃ place, t.place? p = some place ∧
    t.get? place ≠ some .directory ∧ t' = t.set place (.file text.toUTF8.toList) := by
  rw [writeText, except_bind_eq_ok]
  refine exists_congr fun place => and_congr toOption_eq_some.symm ?_
  split
  · next hdir => simp [hdir]
  · next hfree => simp [hfree, eq_comm]

/-- A file is written unless it has its contents already. -/
theorem writeFile_ok (h : writeFile p text t = .ok isNew t') :
    (∃ place, t.place? p = some place ∧ Wrote t place text t') ∧ isNew = !t.holds p text := by
  rw [writeFile_run] at h
  by_cases hholds : t.holds p text
  · rw [if_pos hholds] at h
    cases h
    obtain ⟨place, hplace, hget⟩ := read_eq_ok.1 (holds_iff.1 hholds)
    refine ⟨⟨place, hplace, rfl, by simp [hget], fun q => ?_⟩, by simp [hholds]⟩
    by_cases hq : q = place
    · rw [if_pos hq, hq, hget]
    · rw [if_neg hq]
  · rw [if_neg hholds] at h
    cases hwrite : t.writeText p text with
    | error e =>
      rw [hwrite] at h
      cases h
    | ok t₁ =>
      rw [hwrite] at h
      cases h
      obtain ⟨place, hplace, hfree, rfl⟩ := writeText_eq_ok.1 hwrite
      have hroot : place ≠ [] := by
        rintro rfl
        exact hfree (get?_root t)
      exact ⟨⟨place, hplace, rfl, hfree, get?_set hroot _⟩, by simp [hholds]⟩

/-- Where a file can be written, writing does not fail. -/
theorem writeFile_of_writable (h : t.Writable p) (text : String) :
    ∃ isNew t', writeFile p text t = .ok isNew t' := by
  rw [writeFile_run]
  obtain ⟨place, hplace, hfree⟩ := h
  split
  · exact ⟨_, _, rfl⟩
  · rw [writeText_eq_ok.2 ⟨place, hplace, hfree, rfl⟩]
    exact ⟨_, _, rfl⟩

/-! ## Writing several files -/

section Files

variable {out : FilePath} {f : OutputFile} {fs : List OutputFile}
  {r : List FilePath × List FilePath} {place : Place}

/-- Files are written one after the other, and each is reported as new or unchanged. -/
theorem writeFiles_cons_ok : writeFiles out (f :: fs) t = .ok r t' ↔
    ∃ isNew t₁, writeFile (out.child f.name) f.contents t = .ok isNew t₁ ∧
      ∃ r₁, writeFiles out fs t₁ = .ok r₁ t' ∧
        r = if isNew then (out.child f.name :: r₁.1, r₁.2)
          else (r₁.1, out.child f.name :: r₁.2) := by
  rw [writeFiles]
  simp only [bind_eq_ok, pure_run]
  constructor
  · rintro ⟨isNew, t₁, hfile, r₁, t₂, hrest, hr⟩
    cases hr
    exact ⟨isNew, t₁, hfile, r₁, hrest, rfl⟩
  · rintro ⟨isNew, t₁, hfile, r₁, hrest, rfl⟩
    exact ⟨isNew, t₁, hfile, r₁, t', hrest, rfl⟩

/-- The last one of the files that is written to a place. -/
def lastAt (t : FileTree) (out : FilePath) (fs : List OutputFile) (place : Place) :
    Option OutputFile :=
  (fs.filter fun f => t.place? (out.child f.name) = some place).getLast?

/-- A later file at a place hides an earlier one. -/
theorem lastAt_cons : lastAt t out (f :: fs) place = (lastAt t out fs place).or
    (if t.place? (out.child f.name) = some place then some f else none) := by
  by_cases h : t.place? (out.child f.name) = some place
  · rw [lastAt, List.filter_cons_of_pos (by simpa using h), List.getLast?_cons, if_pos h, ← lastAt]
    cases lastAt t out fs place <;> rfl
  · rw [lastAt, List.filter_cons_of_neg (by simpa using h), if_neg h, Option.or_none, lastAt]

/-- Which file is last at a place depends on the places only. -/
theorem lastAt_congr (h : ∀ f ∈ fs, t'.place? (out.child f.name) = t.place? (out.child f.name)) :
    lastAt t' out fs place = lastAt t out fs place := by
  rw [lastAt, lastAt, List.filter_congr fun f hf => by rw [h f hf]]

/-- What stands in the tree behind a run that writes files. -/
structure WroteAll (t : FileTree) (out : FilePath) (fs : List OutputFile) (t' : FileTree) :
    Prop where
  writable : ∀ f ∈ fs, t.Writable (out.child f.name)
  sameDirectories : SameDirectories t t'
  get? : ∀ place, t'.get? place =
    (lastAt t out fs place).elim (t.get? place) fun f => some (.file f.contents.toUTF8.toList)

/-- At the path of a file, the contents of the last one with its place are read. -/
theorem WroteAll.read {g : OutputFile} (h : WroteAll t out fs t')
    (hplace : t.place? (out.child f.name) = some place) (hlast : lastAt t out fs place = some g) :
    t'.read (out.child f.name) = .ok g.contents.toUTF8.toList := by
  rw [read_eq_ok]
  refine ⟨place, by rwa [h.sameDirectories.place?_eq], ?_⟩
  rw [h.get? place, hlast]
  rfl

/-- Directories stay, and at each place stands what was written there last. -/
theorem writeFiles_ok (h : writeFiles out fs t = .ok r t') : WroteAll t out fs t' := by
  induction fs generalizing t r with
  | nil =>
    cases h
    exact ⟨nofun, .refl _, fun _ => rfl⟩
  | cons f fs ih =>
    obtain ⟨isNew, t₁, hfile, r₁, hrest, -⟩ := writeFiles_cons_ok.1 h
    obtain ⟨⟨place, hplace, hwrote⟩, -⟩ := writeFile_ok hfile
    have hdirs := hwrote.sameDirectories
    obtain ⟨hwritable, hdirs', hget⟩ := ih hrest
    refine ⟨?_, hdirs.trans hdirs', fun q => ?_⟩
    · intro g hg
      rcases List.mem_cons.1 hg with rfl | hg
      · exact ⟨place, hplace, hwrote.free⟩
      · exact hdirs.writable_iff.1 (hwritable g hg)
    · rw [hget q, lastAt_congr fun g _ => hdirs.place?_eq _, lastAt_cons, hplace, hwrote.get? q]
      cases lastAt t out fs q with
      | some g => rfl
      | none =>
        by_cases hq : q = place
        · simp [hq]
        · simp [hq, Ne.symm hq]

/-- Where all files can be written, writing does not fail. -/
theorem writeFiles_of_writable (h : ∀ f ∈ fs, t.Writable (out.child f.name)) :
    ∃ r t', writeFiles out fs t = .ok r t' := by
  induction fs generalizing t with
  | nil => exact ⟨_, _, rfl⟩
  | cons f fs ih =>
    obtain ⟨isNew, t₁, hfile⟩ := writeFile_of_writable (h f List.mem_cons_self) f.contents
    obtain ⟨⟨place, -, hwrote⟩, -⟩ := writeFile_ok hfile
    have hdirs := hwrote.sameDirectories
    have hrest : ∀ g ∈ fs, t₁.Writable (out.child g.name) := fun g hg =>
      hdirs.writable_iff.2 (h g (List.mem_cons_of_mem f hg))
    obtain ⟨r₁, t', hrest⟩ := ih hrest
    exact ⟨_, t', writeFiles_cons_ok.2 ⟨isNew, t₁, hfile, r₁, hrest, rfl⟩⟩

/-- Nothing is written where all files have their contents. -/
theorem writeFiles_of_holds (h : ∀ f ∈ fs, t.holds (out.child f.name) f.contents) :
    writeFiles out fs t = .ok ([], fs.map fun f => out.child f.name) t := by
  induction fs with
  | nil => rfl
  | cons f fs ih =>
    have hfile : writeFile (out.child f.name) f.contents t = .ok false t := by
      rw [writeFile_run, if_pos (h f List.mem_cons_self)]
    have hrest := ih fun g hg => h g (List.mem_cons_of_mem f hg)
    exact writeFiles_cons_ok.2 ⟨false, t, hfile, _, hrest, rfl⟩

/-- Each file is told once, as written or as unchanged. -/
theorem writeFiles_perm (h : writeFiles out fs t = .ok r t') :
    (r.1 ++ r.2).Perm (fs.map fun f => out.child f.name) := by
  induction fs generalizing t r with
  | nil =>
    cases h
    exact .refl _
  | cons f fs ih =>
    obtain ⟨isNew, t₁, -, r₁, hrest, rfl⟩ := writeFiles_cons_ok.1 h
    have hperm := (ih hrest).cons (out.child f.name)
    rw [List.map_cons]
    cases isNew with
    | true => exact hperm
    | false => exact List.perm_middle.trans hperm

/-! ## Files at different places -/

/-- No two of the files are written to one place. -/
def Apart (t : FileTree) (out : FilePath) (fs : List OutputFile) : Prop :=
  fs.Pairwise fun f g => ∀ place, t.place? (out.child f.name) = some place →
    t.place? (out.child g.name) ≠ some place

/-- File names that differ lead to places that differ. -/
theorem apart_of_nodup (hnames : ∀ f ∈ fs, FilePath.IsFileName f.name)
    (hnodup : (fs.map (·.name)).Nodup) (t : FileTree) (out : FilePath) : Apart t out fs := by
  rw [List.Nodup, List.pairwise_map] at hnodup
  refine hnodup.imp_of_mem fun {f g} hf hg hne place hplace hplace' => hne ?_
  obtain ⟨front, rfl⟩ := FilePath.place?_child (hnames f hf) hplace
  obtain ⟨front', heq⟩ := FilePath.place?_child (hnames g hg) hplace'
  exact List.singleton_injective (List.append_inj' heq rfl).2

/-- Where places differ, each file is the last one at its place. -/
theorem lastAt_of_apart (h : Apart t out fs) (hf : f ∈ fs)
    (hplace : t.place? (out.child f.name) = some place) : lastAt t out fs place = some f := by
  induction fs with
  | nil => cases hf
  | cons g fs ih =>
    obtain ⟨hg, hrest⟩ := List.pairwise_cons.1 h
    rw [lastAt_cons]
    rcases List.mem_cons.1 hf with rfl | hf
    · have hnone : lastAt t out fs place = none := by
        rw [lastAt, List.getLast?_eq_none_iff, List.filter_eq_nil_iff]
        exact fun k hk => by simpa using hg k hk place hplace
      rw [hnone, if_pos hplace, Option.none_or]
    · rw [ih hrest hf, Option.some_or]

/-- Each of the files can be read back. -/
theorem read_of_writeFiles (h : WroteAll t out fs t') (hapart : Apart t out fs) (hf : f ∈ fs) :
    t'.read (out.child f.name) = .ok f.contents.toUTF8.toList := by
  obtain ⟨place, hplace, -⟩ := h.writable f hf
  exact h.read hplace (lastAt_of_apart hapart hf hplace)

/-- A file is told to be written if it did not have its contents before. -/
theorem writeFiles_report (h : writeFiles out fs t = .ok r t') (hapart : Apart t out fs) :
    r = ((fs.filter fun f => !t.holds (out.child f.name) f.contents).map fun f => out.child f.name,
      (fs.filter fun f => t.holds (out.child f.name) f.contents).map fun f =>
        out.child f.name) := by
  induction fs generalizing t r with
  | nil =>
    cases h
    rfl
  | cons f fs ih =>
    obtain ⟨isNew, t₁, hfile, r₁, hrest, rfl⟩ := writeFiles_cons_ok.1 h
    obtain ⟨⟨place, hplace, hwrote⟩, rfl⟩ := writeFile_ok hfile
    obtain ⟨hothers, htail⟩ := List.pairwise_cons.1 hapart
    have hdirs := hwrote.sameDirectories
    -- the first file is written to a place of its own, so the others hold what they held
    have hholds : ∀ g ∈ fs, t₁.holds (out.child g.name) g.contents =
        t.holds (out.child g.name) g.contents := by
      intro g hg
      have hread :
          (t₁.read (out.child g.name)).toOption = (t.read (out.child g.name)).toOption := by
        refine read_congr (hdirs.place?_eq _) fun q hq => ?_
        have hne : q ≠ place := by
          rintro rfl
          exact hothers g hg _ hplace hq
        rw [hwrote.get? q, if_neg hne]
      rw [Bool.eq_iff_iff, holds_iff, holds_iff, ← toOption_eq_some, ← toOption_eq_some, hread]
    have hapart₁ : Apart t₁ out fs := by
      refine htail.imp fun hne q => ?_
      rw [hdirs.place?_eq, hdirs.place?_eq]
      exact hne q
    rw [ih hrest hapart₁, List.filter_congr hholds,
      List.filter_congr fun g hg => congrArg _ (hholds g hg)]
    cases hf : t.holds (out.child f.name) f.contents <;> simp [hf]

end Files

end Build

end JsonAdapters
