import JsonAdapters.Proofs.Package.Exactness

/-!
# What a build watches

A build tells which files are watched: it is run again when one of them changes. These are the
configuration, if there is one, and all sources that were read. In another tree that agrees on the
watched files, the build does the same, as long as no file comes up where it has looked in vain:
neither a configuration, nor a file in front of the one that was found for a module.

## Main definitions

* `Build.runIn`: set up the build of a package, and run it.
* `Build.watched`: the files that are watched.
* `Build.Agrees`: another tree has the same in them, and nothing where the build looked in vain.
* `Build.lastNamed`: the last one of some files that has a name.

## Main statements

* `Build.watch_mem_directives`: the directives name just the watched files.
* `Build.runIn_of_agrees`: builds in another tree that agrees on them.
* `Samples.watched_do_not_suffice`: trees that agree on them, and builds that differ.
-/

namespace JsonAdapters

open Outcome FileTree

namespace Build

/-! ## Watched files -/

/-- Files that are watched. -/
def watched (b : Build) (o : Output) : List FilePath :=
  ⟨"build.rs"⟩ :: (b.configPath.toList ++ o.sources)

theorem watch_inj {s s' : String} : watch s = watch s' ↔ s = s' := String.append_right_inj _

/-- Texts differ if the texts at their starts do. -/
theorem append_ne {a b : String} (n : Nat) (ha : n ≤ a.toList.length) (hb : n ≤ b.toList.length)
    (h : a.toList.take n ≠ b.toList.take n) (s t : String) : a ++ s ≠ b ++ t := by
  intro heq
  apply h
  have hchars := congrArg (·.toList.take n) heq
  simp only [String.toList_append] at hchars
  rwa [List.take_append_of_le_length ha, List.take_append_of_le_length hb] at hchars

/-- The directives name just the watched files. -/
theorem watch_mem_directives {b : Build} {o : Output} {p : FilePath} :
    watch p.text ∈ b.directives o ↔ p ∈ b.watched o := by
  -- all other directives differ from it at some character
  have hcheck : watch p.text ≠ "cargo:rustc-check-cfg=cfg(kson_aggregate)" := by
    rw [← String.append_empty (s := "cargo:rustc-check-cfg=cfg(kson_aggregate)")]
    exact append_ne 8 (by decide) (by decide) (by decide) _ _
  have hcfg : watch p.text ∉
      if b.options.granularity = .aggregate then ["cargo:rustc-cfg=kson_aggregate"] else [] := by
    have hne : watch p.text ≠ "cargo:rustc-cfg=kson_aggregate" := by
      rw [← String.append_empty (s := "cargo:rustc-cfg=kson_aggregate")]
      exact append_ne 8 (by decide) (by decide) (by decide) _ _
    split
    · exact fun h => hne (List.mem_singleton.1 h)
    · exact List.not_mem_nil
  have hwarning : watch p.text ∉ o.warnings.map fun w => "cargo:warning=" ++ w.message := by
    intro h
    obtain ⟨w, -, heq⟩ := List.mem_map.1 h
    exact append_ne 8 (by decide) (by decide) (by decide) _ _ heq.symm
  have hfile (q : FilePath) : watch p.text = watch q.text ↔ p = q := by
    rw [watch_inj]
    exact ⟨fun h => by cases p; cases q; exact congrArg _ h, fun h => h ▸ rfl⟩
  have hbuild : watch p.text = watch "build.rs" ↔ p = ⟨"build.rs"⟩ := hfile ⟨"build.rs"⟩
  have hfiles (ps : List FilePath) : watch p.text ∈ ps.map (watch ·.text) ↔ p ∈ ps := by
    rw [List.mem_map]
    constructor
    · rintro ⟨q, hq, heq⟩
      rwa [(hfile q).1 heq.symm]
    · exact fun hp => ⟨p, hp, rfl⟩
  rw [directives, watched]
  simp only [List.mem_append, List.mem_cons, List.not_mem_nil, or_false, hbuild, hfiles, hcheck,
    hcfg, hwarning, or_assoc]

/-! ## Builds in another tree -/

/-- Set up the build of the package in one directory into another one, and run it. -/
def runIn (package out : FilePath) : Action BuildReport := do
  match ofDirectories (← get) package out with
  | .error e => throw e
  | .ok b => b.run

variable {package out : FilePath} {b : Build} {t t' t₁ : FileTree} {o : Output}
  {report : BuildReport}

theorem runIn_ok : runIn package out t = .ok report t₁ ↔
    ∃ b, ofDirectories t package out = .ok b ∧ b.run t = .ok report t₁ := by
  rw [runIn, get_bind_run]
  cases ofDirectories t package out with
  | error e =>
    constructor
    · nofun
    · rintro ⟨_, ⟨⟩, -⟩
  | ok b => simp

/-- A build that is set up has no configuration, or it has read it from its file. -/
theorem config_cases (h : ofDirectories t package out = .ok b) :
    t.read (package.child configName) = .error .notFound ∨
      (∃ bytes, t.read (package.child configName) = .ok bytes) ∧
        b.configPath = some (package.child configName) := by
  rw [ofDirectories] at h
  cases hread : t.read (package.child configName) with
  | ok bytes =>
    have hfile : t.isFile (package.child configName) = true := isFile_iff.2 ⟨bytes, hread⟩
    refine .inr ⟨⟨bytes, rfl⟩, ?_⟩
    cases hload : Config.load t package with
    | error e =>
      rw [hload] at h
      cases h
    | ok c =>
      simp only [hload, hfile, if_true] at h
      cases h
      rfl
  | error e =>
    have htext : t.readText (package.child configName) = .error e := by
      rw [readText, hread]
      rfl
    rw [Config.load] at h
    simp only [htext] at h
    -- a file that is there and cannot be read ends the build
    cases e with
    | notFound => exact .inl rfl
    | isDirectory | notDirectory | nameTooLong | notUtf8 => cases h

/-- Setting up a build reads nothing but the configuration. -/
theorem ofDirectories_congr
    (h : t'.read (package.child configName) = t.read (package.child configName)) :
    ofDirectories t' package out = ofDirectories t package out := by
  have hfile : t'.isFile (package.child configName) = t.isFile (package.child configName) := by
    rw [Bool.eq_iff_iff, isFile_iff, isFile_iff, h]
  simp only [ofDirectories, Config.load, readText, h, hfile]

/-- The other tree agrees with the first one on the watched files, and no file comes up in it where
the build has looked in vain. -/
structure Agrees (package out : FilePath) (t t' : FileTree) (report : BuildReport) : Prop where
  watched : ∀ p : FilePath, watch p.text ∈ report.directives →
    (t'.read p).toOption = (t.read p).toOption
  config : t.read (package.child configName) = .error .notFound →
    t'.read (package.child configName) = .error .notFound
  modules : ∀ b p, ofDirectories t package out = .ok b → SeeksInVain t b.passOptions.root p →
    ¬ t'.isFile p

theorem generateFrom_of_agrees (hb : ofDirectories t package out = .ok b)
    (hrun : b.run t = .ok report t₁) (h : Agrees package out t t' report) :
    ofDirectories t' package out = .ok b ∧
      ∃ o, generateFrom t b.passOptions = .ok o ∧ generateFrom t' b.passOptions = .ok o := by
  obtain ⟨o, hgenerate, r, -, rfl⟩ := run_ok.1 hrun
  have hwatched {p : FilePath} (hp : p ∈ b.watched o) := h.watched p (watch_mem_directives.2 hp)
  have hconfig : t'.read (package.child configName) = t.read (package.child configName) := by
    rcases config_cases hb with hnone | ⟨⟨bytes, hread⟩, hpath⟩
    · rw [hnone, h.config hnone]
    · have hsame := hwatched (p := package.child configName) (by simp [watched, hpath])
      rw [hread] at hsame ⊢
      exact toOption_eq_some.1 hsame
  refine ⟨by rw [ofDirectories_congr hconfig, hb], o, hgenerate, ?_⟩
  refine generateFrom_of_same hgenerate (fun F hF => hwatched ?_) fun p => h.modules b p hb
  obtain ⟨d, hd, hfiles⟩ := generateFrom_ok hgenerate
  have hsource := Discovery.file_mem_of_ofRoot hd hF
  rw [← sources_of_generate hfiles] at hsource
  simp [watched, hsource]

/-- The last one of some files that has a name. -/
def lastNamed (fs : List OutputFile) (name : String) : Option OutputFile :=
  (fs.filter (·.name = name)).getLast?

/-- Places of files end with their names, so that files at one place have one name. -/
theorem lastAt_eq_lastNamed {fs : List OutputFile} {f : OutputFile} {place : Place}
    (hnames : ∀ g ∈ fs, FilePath.IsFileName g.name) (hf : f ∈ fs)
    (hplace : t.place? (out.child f.name) = some place) :
    lastAt t out fs place = lastNamed fs f.name := by
  rw [lastAt, lastNamed, List.filter_congr]
  intro g hg
  rw [decide_eq_decide]
  constructor
  · intro hsame
    obtain ⟨front, rfl⟩ := FilePath.place?_child (hnames f hf) hplace
    obtain ⟨front', heq⟩ := FilePath.place?_child (hnames g hg) hsame
    exact (List.singleton_injective (List.append_inj' heq rfl).2).symm
  · rintro hname
    rw [hname, hplace]

/-- Where files were written, the last one with its name is read. -/
theorem read_of_wroteAll {fs : List OutputFile} (hnames : ∀ g ∈ fs, FilePath.IsFileName g.name)
    (h : WroteAll t out fs t₁) {f : OutputFile} (hf : f ∈ fs) :
    ∃ g, lastNamed fs f.name = some g ∧
      t₁.read (out.child f.name) = .ok g.contents.toUTF8.toList := by
  obtain ⟨place, hplace, -⟩ := h.writable f hf
  have hlast := lastAt_eq_lastNamed hnames hf hplace
  have hmem : f ∈ fs.filter (·.name = f.name) := List.mem_filter.2 ⟨hf, by simp⟩
  obtain ⟨g, hg⟩ := Option.isSome_iff_exists.1 (List.getLast?_isSome.2 (List.ne_nil_of_mem hmem))
  exact ⟨g, hg, h.read hplace (hlast.trans hg)⟩

/-- Files that were written in two trees are read alike, also if their directories have different
places there. -/
theorem read_alike_of_wroteAll {fs : List OutputFile} {t₂ : FileTree}
    (hnames : ∀ g ∈ fs, FilePath.IsFileName g.name) (h : WroteAll t out fs t₁)
    (h' : WroteAll t' out fs t₂) {f : OutputFile} (hf : f ∈ fs) :
    ∃ bytes, t₁.read (out.child f.name) = .ok bytes ∧ t₂.read (out.child f.name) = .ok bytes := by
  obtain ⟨g, hg, hread⟩ := read_of_wroteAll hnames h hf
  obtain ⟨g', hg', hread'⟩ := read_of_wroteAll hnames h' hf
  obtain rfl : g = g' := Option.some.inj (hg.symm.trans hg')
  exact ⟨_, hread, hread'⟩

/-- In another tree that agrees with the first one, a build does the same, as long as its files can
be written there. -/
theorem runIn_of_agrees (hrun : runIn package out t = .ok report t₁)
    (h : Agrees package out t t' report)
    (hwritable : ∀ p ∈ report.written ++ report.unchanged, t'.Writable p) :
    ∃ report' t₂, runIn package out t' = .ok report' t₂ ∧
      (report'.written ++ report'.unchanged).Perm (report.written ++ report.unchanged) ∧
      (∀ p ∈ report.written ++ report.unchanged,
        ∃ bytes, t₁.read p = .ok bytes ∧ t₂.read p = .ok bytes) ∧
      report'.warnings = report.warnings ∧ report'.directives = report.directives := by
  obtain ⟨b, hb, hrun⟩ := runIn_ok.1 hrun
  obtain ⟨hb', o, hgenerate, hgenerate'⟩ := generateFrom_of_agrees hb hrun h
  obtain ⟨o', ho', r, hwrite, rfl⟩ := run_ok.1 hrun
  obtain rfl : o = o' := Except.ok.inj (hgenerate.symm.trans ho')
  have hperm := writeFiles_perm hwrite
  have hfiles : ∀ f ∈ o.files, t'.Writable (b.out.child f.name) := by
    intro f hf
    exact hwritable _ (hperm.mem_iff.2 (List.mem_map_of_mem hf))
  obtain ⟨r', t₂, hwrite'⟩ := writeFiles_of_writable hfiles
  -- the second run makes the same files, and writes them all
  have hrun' := run_ok.2 ⟨o, hgenerate', r', hwrite', rfl⟩
  refine
    ⟨_, t₂, runIn_ok.2 ⟨b, hb', hrun'⟩, (writeFiles_perm hwrite').trans hperm.symm, ?_, rfl, rfl⟩
  intro p hp
  obtain ⟨f, hf, rfl⟩ := List.mem_map.1 (hperm.mem_iff.1 hp)
  obtain ⟨d, -, hd⟩ := generateFrom_ok hgenerate
  exact read_alike_of_wroteAll (isFileName_of_generate hd) (writeFiles_ok hwrite)
    (writeFiles_ok hwrite') hf

end Build

namespace Samples

open Build

/-- A configuration comes up. -/
def configured : FileTree :=
  plain.set ["crate", "kson.toml"] (.file "granularity = \"aggregate\"".toUTF8.toList)

/-- A file comes up in front of the one that was found for a module. -/
def shadowed : FileTree :=
  plain.set ["crate", "src", "model.rs"]
    (.file "#[derive(KsonFactory)] pub struct Other;".toUTF8.toList)

/-- The directory of the files that are written is gone. -/
def blocked : FileTree := plain.remove ["out"]

/-- The trees agree on the files that are watched in the first one, and a build in the second one
fails or has other files. -/
def Uncovered (t t' : FileTree) : Prop :=
  ∃ report t₁, runIn ⟨"crate"⟩ ⟨"out"⟩ t = .ok report t₁ ∧
    (∀ p : FilePath, watch p.text ∈ report.directives →
      (t'.read p).toOption = (t.read p).toOption) ∧
    ∀ report' t₂, runIn ⟨"crate"⟩ ⟨"out"⟩ t' = .ok report' t₂ →
      ¬ (report'.written ++ report'.unchanged).Perm (report.written ++ report.unchanged)

def report? (t : FileTree) : Option BuildReport :=
  match runIn ⟨"crate"⟩ ⟨"out"⟩ t with
  | .ok report _ => some report
  | .error _ _ => none

theorem report?_eq_some {t : FileTree} {report : BuildReport} :
    report? t = some report ↔ ∃ t₁, runIn ⟨"crate"⟩ ⟨"out"⟩ t = .ok report t₁ := by
  rw [report?]
  cases runIn ⟨"crate"⟩ ⟨"out"⟩ t <;> simp

/-- The file that a directive names behind its first characters. -/
def named (directive : String) : FilePath := ⟨String.ofList (directive.toList.drop 23)⟩

theorem named_watch (p : FilePath) : named (watch p.text) = p := by
  have hdrop (a s : String) : String.ofList ((a ++ s).toList.drop a.toList.length) = s := by
    rw [String.toList_append, List.drop_left, String.ofList_toList]
  exact congrArg FilePath.mk (hdrop "cargo:rerun-if-changed=" p.text)

def plainReport : BuildReport where
  written := [⟨"out/kson_provider.rs"⟩]
  unchanged := []
  warnings := []
  directives := ["cargo:rerun-if-changed=build.rs", "cargo:rerun-if-changed=crate/src/lib.rs",
    "cargo:rerun-if-changed=crate/src/model/mod.rs", "cargo:rustc-check-cfg=cfg(kson_aggregate)"]

theorem report_plain : report? plain = some plainReport := by
  decide +kernel

/-- The tree agrees with the plain one on the files that are watched there. -/
def ReadsAlike (t : FileTree) : Prop :=
  ∀ d ∈ plainReport.directives, (t.read (named d)).toOption = (plain.read (named d)).toOption

instance (t : FileTree) : Decidable (ReadsAlike t) :=
  inferInstanceAs (Decidable (∀ d ∈ plainReport.directives, _))

theorem ReadsAlike.read {t : FileTree} (h : ReadsAlike t) (p : FilePath)
    (hp : Build.watch p.text ∈ plainReport.directives) :
    (t.read p).toOption = (plain.read p).toOption := by
  have hread := h _ hp
  rwa [named_watch] at hread

theorem uncovered_of_report {t : FileTree} (hread : ReadsAlike t)
    (hfiles : (report? t).all (fun r => r.written ++ r.unchanged ≠ plainReport.written) = true) :
    Uncovered plain t := by
  obtain ⟨t₁, hrun⟩ := report?_eq_some.1 report_plain
  refine ⟨plainReport, t₁, hrun, hread.read, fun report t₂ hrun' hperm => ?_⟩
  rw [report?_eq_some.2 ⟨t₂, hrun'⟩] at hfiles
  have hsame : report.written ++ report.unchanged = plainReport.written :=
    List.perm_singleton.1 hperm
  simp [hsame] at hfiles

theorem watched_do_not_suffice :
    Uncovered plain configured ∧ Uncovered plain shadowed ∧ Uncovered plain blocked := by
  have hread : ∀ t ∈ [configured, shadowed, blocked], ReadsAlike t := by decide +kernel
  refine ⟨uncovered_of_report (hread _ (by simp)) ?_, uncovered_of_report (hread _ (by simp)) ?_,
    uncovered_of_report (hread _ (by simp)) ?_⟩
  all_goals decide +kernel

/-- A file comes up that the build does not look at. -/
def noted : FileTree := plain.set ["crate", "notes"] (.file "later".toUTF8.toList)

theorem ofDirectories_plain :
    (ofDirectories plain ⟨"crate"⟩ ⟨"out"⟩).toOption = some plainBuild := by
  decide

theorem agrees_noted : Agrees ⟨"crate"⟩ ⟨"out"⟩ plain noted plainReport where
  watched := by
    have hread : ReadsAlike noted := by decide +kernel
    exact hread.read
  config := fun _ => by rfl
  modules := by
    intro b p hb hp
    have hplain := toOption_eq_some.2 hb
    rw [ofDirectories_plain] at hplain
    obtain rfl := Option.some.inj hplain
    rw [root_plain] at hp
    rw [List.mem_singleton.1 (survey_plain.mem_of_seeksInVain hp)]
    decide

theorem runIn_of_agrees_noted : ∃ t₁, runIn ⟨"crate"⟩ ⟨"out"⟩ plain = .ok plainReport t₁ ∧
    Agrees ⟨"crate"⟩ ⟨"out"⟩ plain noted plainReport ∧
    (∀ p ∈ plainReport.written ++ plainReport.unchanged, noted.Writable p) ∧
    ∃ report' t₂, runIn ⟨"crate"⟩ ⟨"out"⟩ noted = .ok report' t₂ ∧
      report'.directives = plainReport.directives := by
  obtain ⟨t₁, hrun⟩ := report?_eq_some.1 report_plain
  have hwritable : ∀ p ∈ plainReport.written ++ plainReport.unchanged, noted.Writable p := by
    intro p hp
    rw [List.mem_singleton.1 hp]
    exact ⟨["out", "kson_provider.rs"], by decide, by decide⟩
  obtain ⟨report', t₂, hrun', -, -, -, hdirectives⟩ :=
    runIn_of_agrees hrun agrees_noted hwritable
  exact ⟨t₁, hrun, agrees_noted, hwritable, report', t₂, hrun', hdirectives⟩

end Samples

end JsonAdapters
