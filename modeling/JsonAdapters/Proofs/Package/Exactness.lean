import JsonAdapters.Proofs.Package.Inputs
import JsonAdapters.Proofs.Package.OutputNames

/-!
# Builds that leave their inputs alone

A build whose files are none of those that it looks at changes just these files. Run again, it finds
what it found before, and has nothing to write. Files are told apart by their places, since several
paths may lead to one.

## Main definitions

* `LooksAt`: a pass reads a file, or looks for one that is not there.
* `Build.KeepsInputs`: no file that is written stands where a pass looks.
* `Build.Exact`: what a run does.

## Main statements

* `Build.run_ok`: the parts of a run.
* `generateFrom_of_same`: passes that find the same give the same.
* `Build.run_exact`: such builds are exact, and a failed pass changes nothing.
-/

namespace JsonAdapters

open Outcome FileTree

/-! ## Passes -/

/-- A pass from a root file reads a file, or looks for one that is not there. -/
def LooksAt (tree : FileTree) (root p : FilePath) : Prop :=
  (∃ F, Reached tree root F ∧ F.file = p) ∨ SeeksInVain tree root p

theorem SeeksInVain.not_isFile {tree : FileTree} {root p : FilePath} (h : SeeksInVain tree root p) :
    ¬ tree.isFile p := by
  obtain ⟨F, -, is, -, m, -, hp⟩ := h
  simpa using List.mem_takeWhile_imp hp

section Passes

variable {tree tree' : FileTree} {o : Options} {out : Output}

theorem generateFrom_ok (h : generateFrom tree o = .ok out) :
    ∃ d, Discovery.ofRoot tree o.root = .ok d ∧ generate d o = .ok out := by
  obtain ⟨d, hd, hgenerate⟩ := except_bind_eq_ok.1 h
  exact ⟨d, mapError_eq_ok.1 hd, hgenerate⟩

theorem sources_of_generate {d : Discovery} (h : generate d o = .ok out) :
    out.sources = d.files := by
  obtain ⟨rs, fs, ws, as, -, -, -, rfl⟩ := generate_ok h
  rfl

/-- A pass that finds the same in a second tree gives the same. -/
theorem generateFrom_of_same (h : generateFrom tree o = .ok out)
    (hread : ∀ F, Reached tree o.root F →
      (tree'.read F.file).toOption = (tree.read F.file).toOption)
    (hvain : ∀ p, SeeksInVain tree o.root p → ¬ tree'.isFile p) :
    generateFrom tree' o = .ok out := by
  obtain ⟨d, hd, hgenerate⟩ := generateFrom_ok h
  have hd' := Discovery.ofRoot_of_same hd hread hvain
  rw [generateFrom, hd']
  exact hgenerate

end Passes

namespace Build

variable {b : Build} {t t' : FileTree} {o : Output} {report : BuildReport}

/-! ## Runs -/

/-- The parts of a run that succeeds. -/
theorem run_ok : b.run t = .ok report t' ↔ ∃ o, generateFrom t b.passOptions = .ok o ∧
    ∃ r, writeFiles b.out o.files t = .ok r t' ∧
      report = ⟨r.1, r.2, o.warnings, b.directives o⟩ := by
  rw [run, get_bind_run]
  cases hgenerate : generateFrom t b.passOptions with
  | error e =>
    constructor
    · nofun
    · rintro ⟨_, ⟨⟩, -⟩
  | ok o =>
    simp only [bind_eq_ok, pure_run]
    constructor
    · rintro ⟨r, t₁, hwrite, hr⟩
      cases hr
      exact ⟨o, rfl, r, hwrite, rfl⟩
    · rintro ⟨_, ⟨⟩, r, hwrite, rfl⟩
      exact ⟨r, t', hwrite, rfl⟩

theorem run_of_error {e : GenerationFault} (h : generateFrom t b.passOptions = .error e) :
    b.run t = .error (.generation e) t := by
  rw [run, get_bind_run, h]
  rfl

/-! ## Exactness -/

/-- No file that is written stands where a pass looks. -/
def KeepsInputs (b : Build) (t : FileTree) (o : Output) : Prop :=
  ∀ p, LooksAt t b.passOptions.root p → ∀ f ∈ o.files, ∀ place, t.place? p = some place →
    t.place? (b.out.child f.name) ≠ some place

/-- What a run does: each file has its contents then, paths lead to the same places and all other
places are as before, those files are told to be unchanged that had their contents, and another run
changes nothing. -/
structure Exact (b : Build) (t : FileTree) (o : Output) (report : BuildReport) (t' : FileTree) :
    Prop where
  contents : ∀ f ∈ o.files, t'.read (b.out.child f.name) = .ok f.contents.toUTF8.toList
  places : ∀ p, t'.place? p = t.place? p
  others : ∀ place, (∀ f ∈ o.files, t.place? (b.out.child f.name) ≠ some place) →
    t'.get? place = t.get? place
  written : report.written =
    (o.files.filter fun f => !t.holds (b.out.child f.name) f.contents).map (b.out.child ·.name)
  unchanged : report.unchanged =
    (o.files.filter fun f => t.holds (b.out.child f.name) f.contents).map (b.out.child ·.name)
  again : b.run t' =
    .ok ⟨[], o.files.map (b.out.child ·.name), report.warnings, report.directives⟩ t'

theorem lastAt_eq_none {out : FilePath} {fs : List OutputFile} {place : Place}
    (h : ∀ f ∈ fs, t.place? (out.child f.name) ≠ some place) : lastAt t out fs place = none := by
  rw [lastAt, List.getLast?_eq_none_iff, List.filter_eq_nil_iff]
  exact fun f hf => by simpa using h f hf

/-- Where a pass looks, a run that keeps its inputs changes nothing. -/
theorem read_of_looksAt (hwrote : WroteAll t b.out o.files t') (hkeeps : b.KeepsInputs t o)
    {p : FilePath} (hp : LooksAt t b.passOptions.root p) :
    (t'.read p).toOption = (t.read p).toOption := by
  refine read_congr (hwrote.sameDirectories.place?_eq p) fun place hplace => ?_
  rw [hwrote.get? place, lastAt_eq_none fun f hf => hkeeps p hp f hf place hplace]
  rfl

theorem exact_of_run (hrun : b.run t = .ok report t')
    (hgenerate : generateFrom t b.passOptions = .ok o) (hnames : (o.files.map (·.name)).Nodup)
    (hkeeps : b.KeepsInputs t o) : b.Exact t o report t' := by
  obtain ⟨o', hgenerate', r, hwrite, rfl⟩ := run_ok.1 hrun
  obtain rfl : o = o' := Except.ok.inj (hgenerate.symm.trans hgenerate')
  obtain ⟨d, -, hd⟩ := generateFrom_ok hgenerate
  have hapart := apart_of_nodup (isFileName_of_generate hd) hnames t b.out
  have hwrote := writeFiles_ok hwrite
  have hcontents : ∀ f ∈ o.files, t'.read (b.out.child f.name) = .ok f.contents.toUTF8.toList :=
    fun f hf => read_of_writeFiles hwrote hapart hf
  have hreport := writeFiles_report hwrite hapart
  -- the inputs are none of the files that are written
  have hlooks {p : FilePath} (hp : LooksAt t b.passOptions.root p) :=
    read_of_looksAt hwrote hkeeps hp
  have hgenerate₂ : generateFrom t' b.passOptions = .ok o := by
    refine generateFrom_of_same hgenerate (fun F hF => hlooks (.inl ⟨F, hF, rfl⟩)) fun p hp => ?_
    have hread := hlooks (.inr hp)
    have hnone := hp.not_isFile
    simp only [isFile_iff, ← toOption_eq_some] at hnone ⊢
    rwa [hread]
  -- all files hold their contents now, so nothing is written again
  have hagain := writeFiles_of_holds fun f hf => holds_iff.2 (hcontents f hf)
  exact
    { contents := hcontents
      places := hwrote.sameDirectories.place?_eq
      others := fun place h => by
        rw [hwrote.get? place, lastAt_eq_none h]
        rfl
      written := congrArg Prod.fst hreport
      unchanged := congrArg Prod.snd hreport
      again := run_ok.2 ⟨o, hgenerate₂, _, hagain, rfl⟩ }

/-- A build that keeps its inputs is exact if its files have different names. A pass that fails
changes nothing. -/
theorem run_exact (b : Build) (t : FileTree) :
    (∀ o report t', generateFrom t b.passOptions = .ok o → b.run t = .ok report t' →
      (o.files.map (·.name)).Nodup → b.KeepsInputs t o → b.Exact t o report t') ∧
    ∀ e, generateFrom t b.passOptions = .error e → b.run t = .error (.generation e) t :=
  ⟨fun _ _ _ hgenerate hrun hnames hkeeps => exact_of_run hrun hgenerate hnames hkeeps,
    fun _ h => run_of_error h⟩

end Build

namespace Samples

/-- A package with a marker, and a module whose file is not the first candidate. -/
def plain : FileTree where
  nodes := [(["crate"], .directory), (["crate", "src"], .directory), (["out"], .directory),
    (["crate", "src", "lib.rs"],
      .file "#[derive(KsonFactory)] pub struct Provider; mod model;".toUTF8.toList),
    (["crate", "src", "model"], .directory),
    (["crate", "src", "model", "mod.rs"], .file "".toUTF8.toList)]

def plainBuild : Build := ⟨⟨"crate"⟩, ⟨"out"⟩, {}, none⟩

theorem root_plain : plainBuild.passOptions.root = ⟨"crate/src/lib.rs"⟩ := by decide

theorem survey_plain : IsSurvey plain ⟨"crate/src/lib.rs"⟩
    [.root ⟨"crate/src/lib.rs"⟩,
      ⟨⟨"crate/src/model/mod.rs"⟩, ⟨"crate/src/model"⟩, ["model"], false⟩]
    [⟨"crate/src/model.rs"⟩] := by
  decide +kernel

theorem names_plain : (generateFrom plain plainBuild.passOptions).toOption.map
    (·.files.map (·.name)) = some ["kson_provider.rs"] := by
  decide +kernel

/-- The sources, and the candidate in front of the module's file. -/
def lookedAt : List FilePath :=
  [⟨"crate/src/lib.rs"⟩, ⟨"crate/src/model/mod.rs"⟩, ⟨"crate/src/model.rs"⟩]

/-- The file that is written has another place than the files that are looked at. -/
theorem places_plain :
    plain.place? (plainBuild.out.child "kson_provider.rs") = some ["out", "kson_provider.rs"] ∧
      ∀ p ∈ lookedAt, plain.place? p ≠ some ["out", "kson_provider.rs"] := by
  decide

theorem keepsInputs_plain {o : Output} (hnames : o.files.map (·.name) = ["kson_provider.rs"]) :
    plainBuild.KeepsInputs plain o := by
  intro p hp f hf place hplace hout
  rw [root_plain] at hp
  have hlooked : p ∈ lookedAt := by
    rcases hp with ⟨F, hF, rfl⟩ | hp
    · have hmem := survey_plain.mem_of_reached hF
      simp only [List.mem_cons, List.not_mem_nil, or_false] at hmem
      rcases hmem with rfl | rfl <;> simp [lookedAt, SourceFile.root]
    · simp [List.mem_singleton.1 (survey_plain.mem_of_seeksInVain hp), lookedAt]
  have hname : f.name = "kson_provider.rs" := by
    have hmem := List.mem_map_of_mem (f := (·.name)) hf
    rw [hnames] at hmem
    exact List.mem_singleton.1 hmem
  rw [hname, places_plain.1] at hout
  exact places_plain.2 p hlooked (hplace.trans hout.symm)

theorem run_exact_plain : ∃ o report t', generateFrom plain plainBuild.passOptions = .ok o ∧
    plainBuild.run plain = .ok report t' ∧ (o.files.map (·.name)).Nodup ∧
      plainBuild.KeepsInputs plain o ∧ plainBuild.Exact plain o report t' := by
  obtain ⟨o, ho, hnames⟩ := Option.map_eq_some_iff.1 names_plain
  have hgenerate := toOption_eq_some.1 ho
  have hwritable : ∀ f ∈ o.files, plain.Writable (plainBuild.out.child f.name) := by
    intro f hf
    have hmem := List.mem_map_of_mem (f := (·.name)) hf
    rw [hnames] at hmem
    rw [List.mem_singleton.1 hmem]
    exact ⟨_, places_plain.1, by decide⟩
  obtain ⟨r, t', hwrite⟩ := Build.writeFiles_of_writable hwritable
  have hrun := Build.run_ok.2 ⟨o, hgenerate, r, hwrite, rfl⟩
  have hnodup : (o.files.map (·.name)).Nodup := by
    rw [hnames]
    decide
  -- the sources are in another directory than the output
  have hkeeps := keepsInputs_plain hnames
  exact ⟨o, _, t', hgenerate, hrun, hnodup, hkeeps,
    (Build.run_exact plainBuild plain).1 o _ t' hgenerate hrun hnodup hkeeps⟩

/-- With absolute directories, the same files are written from any working directory. -/
example : (generateFrom (plain.seenFrom ["crate", "src"]) { root := ⟨"/crate/src/lib.rs"⟩
    }).toOption.map (·.files.map (·.name)) = some ["kson_provider.rs"] := by
  decide +kernel

end Samples

end JsonAdapters
