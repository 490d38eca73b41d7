import JsonAdapters.Proofs.Package.Mirroring
import JsonAdapters.Proofs.Package.Writing
import JsonAdapters.Proofs.Text.SnakeCase
import Mathlib.Data.List.Infix

/-!
# Names of generated files

A pass gives at most two files: the factory that is named after a marker, and the file that holds
all adapters. The name of a marker becomes that of a file in snake case, and a few markers get the
name of the other file. For all other ones the files have different names.

## Main definitions

* `adaptersMarkers`: markers whose file has the name of the file that holds all adapters.
* `Clashes`: a pass gives both files, for such a marker.

## Main statements

* `factoryFileName_eq_iff`: which markers get that name.
* `names_of_generate`, `isFileName_of_generate`: the names of files.
* `names_distinct_iff_not_clashes`: when names are different, and what follows.
-/

namespace JsonAdapters

open Emit FilePath Outcome

/-! ## Spellings in small and capital letters -/

/-- The ways to write a text in small and capital letters. -/
def spellings : List Char → List (List Char)
  | [] => [[]]
  | c :: cs => (spellings cs).flatMap fun w => [c :: w, c.toUpper :: w]

theorem spelled_ascii {c : Char} (h : c.toNat < 0x80) : c ∈ [c.toLower, c.toLower.toUpper] :=
  ascii_induction (p := fun c => c ∈ [c.toLower, c.toLower.toUpper]) (by decide) h

theorem mem_spellings {w : List Char} (h : ∀ c ∈ w, c.toNat < 0x80) :
    w ∈ spellings (w.map Char.toLower) := by
  induction w with
  | nil => exact List.mem_singleton.2 rfl
  | cons c w ih =>
    have hw := ih fun c' hc' => h c' (List.mem_cons_of_mem c hc')
    have hc := spelled_ascii (h c List.mem_cons_self)
    rw [List.map_cons, spellings, List.mem_flatMap]
    refine ⟨w, hw, ?_⟩
    simpa using hc

/-! ## Markers with the name of the other file -/

/-- Markers whose file has the name of the file that holds all adapters. -/
def adaptersMarkers : List String := ["Adapters", "ADAPTERS", "_Adapters", "_ADAPTERS", "_adapters"]

theorem snakeCase_of_mem : ∀ x ∈ adaptersMarkers, snakeCase ("Kson" ++ x) = "kson_adapters" := by
  decide

/-- A spelling of the word is a word of its own in few cases. -/
theorem mem_adaptersMarkers_of_spelling : ∀ w ∈ spellings "adapters".toList, ∀ x ∈ [w, '_' :: w],
    (cutWords [] (("Kson".toList ++ x).map ([·]))).map List.flatten = ["Kson".toList, w] →
      x ∈ adaptersMarkers.map String.toList := by
  decide +kernel

theorem eq_kson_of_starts : ∀ u ∈ "Kson".toList.inits, u.flatMap smallForm = "kson".toList →
    u = "Kson".toList := by
  decide

/-- What has a plain text without the letters i and k as its small form is a spelling of it. -/
theorem mem_spellings_of_plain {w t : List Char} (h : w.flatMap smallForm = t) (ht : IsPlainText t)
    (hi : 'i' ∉ t) (hk : 'k' ∉ t) : w ∈ spellings t := by
  have hascii : ∀ c ∈ w, c.toNat < 0x80 := by
    intro c hc
    have hsub : smallForm c ⊆ t := by
      rw [← h]
      exact fun d hd => List.mem_flatMap.2 ⟨c, hc, hd⟩
    have hplain : IsPlainText (smallForm c) := fun d hd => ht d (hsub hd)
    exact smallForm_of_plain hplain (fun h => hi (hsub h)) fun h => hk (hsub h)
  have hlower : w.map Char.toLower = t := by
    rw [← h, List.map_eq_flatMap]
    exact List.flatMap_congr fun c hc => (smallForm_ascii (hascii c hc)).symm
  rw [← hlower]
  exact mem_spellings hascii

/-- The markers with the name of the other file are just these. -/
theorem snakeCase_eq_iff (x : String) :
    snakeCase ("Kson" ++ x) = "kson_adapters" ↔ x ∈ adaptersMarkers := by
  refine ⟨fun h => ?_, snakeCase_of_mem x⟩
  have htext : (snakeCase ("Kson" ++ x)).toList =
      ['_'].intercalate ["kson".toList, "adapters".toList] := by
    rw [h]
    decide
  have hwords := words_of_snakeCase htext (by simp) (by decide)
  have hplain : IsPlainText (snakeCase ("Kson" ++ x)).toList := by
    rw [h]
    decide
  have hgraphemes := graphemes_of_plain_snakeCase hplain
  obtain ⟨u, rest, hcut, hu, hrest⟩ := List.map_eq_cons_iff.1 hwords
  obtain ⟨v, rest, rfl, hv, hnil⟩ := List.map_eq_cons_iff.1 hrest
  obtain rfl := List.map_eq_nil_iff.1 hnil
  have hwhole : u.flatten ++ v.flatten = "Kson".toList ++ x.toList ∨
      u.flatten ++ '_' :: v.flatten = "Kson".toList ++ x.toList := by
    rw [← String.toList_append, ← flatten_graphemes ("Kson" ++ x).toList]
    rcases cutWords_eq_pair hcut with heq | heq
    · exact .inl (by rw [← List.flatten_append, heq]; rfl)
    · exact .inr (by rw [← List.nil_append (graphemes _), ← List.reverse_nil, ← heq]; simp)
  -- The first word starts the name, and it is not longer than its small form.
  have hfirst : u.flatten = "Kson".toList := by
    have hlength := length_le_flatMap_smallForm u.flatten
    rw [hu] at hlength
    have hstarts : u.flatten <+: "Kson".toList ++ x.toList := by
      rcases hwhole with heq | heq <;> exact ⟨_, heq⟩
    have hstarts' := List.prefix_of_prefix_length_le hstarts (List.prefix_append _ _) hlength
    exact eq_kson_of_starts _ ((List.mem_inits _ _).2 hstarts') hu
  have hspelling := mem_spellings_of_plain hv (by decide) (by decide) (by decide)
  have hx : x.toList ∈ [v.flatten, '_' :: v.flatten] := by
    rw [hfirst] at hwhole
    rcases hwhole with heq | heq
    · simp [List.append_cancel_left heq]
    · simp [List.append_cancel_left heq]
  have hwords' : (cutWords [] (("Kson".toList ++ x.toList).map ([·]))).map List.flatten =
      ["Kson".toList, v.flatten] := by
    rw [← String.toList_append, ← hgraphemes, hcut, ← hfirst]
    rfl
  obtain ⟨y, hy, heq⟩ :=
    List.mem_map.1 (mem_adaptersMarkers_of_spelling _ hspelling _ hx hwords')
  rwa [← String.toList_inj.1 heq]

theorem factoryFileName_eq_iff (marker : String) :
    factoryFileName marker = adaptersFileName ↔ unmarked marker ∈ adaptersMarkers := by
  rw [← snakeCase_eq_iff, ← factoryTypeName]
  have hfile : adaptersFileName = "kson_adapters" ++ ".rs" := by decide
  rw [hfile, factoryFileName]
  constructor
  · intro h
    have hchars := congrArg String.toList h
    rw [String.toList_append, String.toList_append] at hchars
    exact String.toList_inj.1 (List.append_cancel_right hchars)
  · intro h
    rw [h]

/-! ## Names of files -/

/-- Characters that are not letters are those of the name itself. -/
theorem not_mem_snakeCase {s : String} {d : Char} (hd : d.toNat < 0x80) (hnul : d ≠ '\x00')
    (hmark : d ≠ '_') (hletter : ¬ d.isAlpha) (h : d ∉ s.toList) : d ∉ (snakeCase s).toList := by
  intro hmem
  obtain hd' | ⟨c, hc, hdc⟩ := mem_snakeCase hmem hd
  · exact hmark hd'
  · rcases mem_smallForm hdc hd hnul with ⟨hascii, rfl⟩ | ⟨-, rfl⟩ | ⟨-, rfl⟩
    · have hsmall : ¬ c.toLower.isLower := fun hlower =>
        hletter (Bool.or_eq_true_iff.2 (.inr hlower))
      rw [toLower_eq_self hascii hsmall] at h
      exact h hc
    · exact hletter (by decide)
    · exact hletter (by decide)

theorem no_slash_of_isIdentifier {name : String} (h : isIdentifier name) : '/' ∉ name.toList := by
  have hword {cs : List Char} (hcs : isIdentWord cs = true) : '/' ∉ cs := by
    cases cs with
    | nil => cases hcs
    | cons c r =>
      rw [isIdentWord, Bool.and_eq_true, List.all_eq_true] at hcs
      intro hslash
      rcases List.mem_cons.1 hslash with rfl | hslash
      · exact absurd hcs.1 (by decide)
      · exact absurd (hcs.2 _ hslash) (by decide)
  rw [isIdentifier] at h
  split at h
  · next r hname =>
    rw [Bool.and_eq_true] at h
    have hrest := hword h.1
    rw [hname]
    simpa using hrest
  · exact hword h

theorem isFileName_of_suffix (front : String) (h : '/' ∉ front.toList) :
    IsFileName (front ++ ".rs") := by
  have hlength : 3 ≤ (front ++ ".rs").length := by
    rw [String.length_append]
    exact Nat.le_add_left 3 _
  have hlong {name : String} (hname : name.length < 3) : front ++ ".rs" ≠ name := by
    rintro rfl
    omega
  refine ⟨by simpa using h, ?_, hlong (by decide)⟩
  rw [isIdle, Bool.or_eq_true, decide_eq_true_iff, decide_eq_true_iff, not_or]
  exact ⟨hlong (by decide), hlong (by decide)⟩

theorem isFileName_factory {marker : String} (h : isIdentifier (factoryTypeName marker)) :
    IsFileName (factoryFileName marker) :=
  isFileName_of_suffix _ <| not_mem_snakeCase (by decide) (by decide) (by decide) (by decide)
    (no_slash_of_isIdentifier h)

theorem isFileName_adapters : IsFileName adaptersFileName :=
  isFileName_of_suffix "kson_adapters" (by decide)

section Generated

variable {d : Discovery} {o : Options} {out : Output} {rs : List RecordPlan}

/-- The parts of what a pass gives. -/
theorem generate_ok (h : generate d o = .ok out) : ∃ rs fs ws as, plansOf d.records = .ok rs ∧
    markerOutput o rs d.markers = .ok (fs, ws) ∧ aggregateOutput o d.scopes rs = .ok as ∧
      out = ⟨fs ++ as, ws, d.files⟩ := by
  rw [generate] at h
  obtain ⟨rs, hrs, h⟩ := except_bind_eq_ok.1 h
  obtain ⟨⟨fs, ws⟩, hmarker, h⟩ := except_bind_eq_ok.1 h
  obtain ⟨as, haggregate, h⟩ := except_bind_eq_ok.1 h
  cases h
  exact ⟨rs, fs, ws, as, hrs, hmarker, haggregate, rfl⟩

theorem markedFactory_gives (m : Marker) (rs : List RecordPlan) : Gives (markedFactory m rs)
    (isIdentifier (factoryTypeName m.name) ∧ ∀ r ∈ rs, ∀ n ∈ r.module, isIdentifier n)
    (.ofCode (factoryFileName m.name)
      (FactoryCode.mk (factoryTypeName m.name) (rs.map (·.cratePath))).code.text) := by
  have hrun : Gives (markedFactory m rs) (isIdentifier (factoryTypeName m.name) ∧
      (∀ r ∈ rs, ∀ n ∈ r.module, isIdentifier n) ∧ True) _ :=
    (identifier_gives _).bind ((FactoryCode.ofRecords_gives _ rs).bind (.pure _))
  exact hrun.congr (by rw [and_true])

/-- Names of the files that markers give. -/
def markerNames : List Marker → List String
  | [m] => [factoryFileName m.name]
  | _ => []

theorem markerOutput_ok {ms : List Marker} {fs : List OutputFile} {ws : List Warning}
    (h : markerOutput o rs ms = .ok (fs, ws)) :
    fs.map (·.name) = markerNames ms ∧ ∀ n ∈ markerNames ms, IsFileName n := by
  unfold markerOutput at h
  split at h
  · cases h
    exact ⟨rfl, nofun⟩
  · next m =>
    obtain ⟨f, hf, heq⟩ := map_eq_ok.1 h
    obtain ⟨⟨hname, -⟩, rfl⟩ := (markedFactory_gives m rs f).1 (mapError_eq_ok.1 hf)
    cases heq
    refine ⟨rfl, fun n hn => ?_⟩
    obtain rfl := List.mem_singleton.1 hn
    exact isFileName_factory hname
  · cases h

theorem aggregateOutput_ok {scopes : Scopes} {fs : List OutputFile}
    (h : aggregateOutput o scopes rs = .ok fs) :
    fs.map (·.name) = if o.granularity = .aggregate then [adaptersFileName] else [] := by
  unfold aggregateOutput at h
  split at h
  · next hgranularity =>
    cases h
    rw [hgranularity]
    rfl
  · next hgranularity =>
    obtain ⟨f, hf, rfl⟩ := map_eq_ok.1 h
    obtain ⟨-, rfl⟩ := (adaptersFile_gives _ _ _ f).1 (mapError_eq_ok.1 hf)
    rw [if_pos hgranularity]
    rfl

/-- The names of the files that a pass gives. -/
theorem names_of_generate (h : generate d o = .ok out) : out.files.map (·.name) =
    markerNames d.markers ++ if o.granularity = .aggregate then [adaptersFileName] else [] := by
  obtain ⟨rs, fs, ws, as, -, hmarker, haggregate, rfl⟩ := generate_ok h
  rw [List.map_append, (markerOutput_ok hmarker).1, aggregateOutput_ok haggregate]

theorem isFileName_of_generate (h : generate d o = .ok out) :
    ∀ f ∈ out.files, IsFileName f.name := by
  intro f hf
  have hname := List.mem_map_of_mem (f := (·.name)) hf
  rw [names_of_generate h] at hname
  obtain ⟨rs, fs, ws, as, -, hmarker, -, -⟩ := generate_ok h
  rcases List.mem_append.1 hname with hname | hname
  · exact (markerOutput_ok hmarker).2 _ hname
  · split at hname
    · rw [List.mem_singleton.1 hname]
      exact isFileName_adapters
    · cases hname

/-! ## Names that clash -/

/-- Both files are given, and the marker's file has the name of the other one. -/
def Clashes (d : Discovery) (o : Options) : Prop :=
  o.granularity = .aggregate ∧ ∃ m, d.markers = [m] ∧ unmarked m.name ∈ adaptersMarkers

theorem nodup_iff_not_clashes (h : generate d o = .ok out) :
    (out.files.map (·.name)).Nodup ↔ ¬ Clashes d o := by
  rw [names_of_generate h, Clashes]
  by_cases hgranularity : o.granularity = .aggregate
  · rw [if_pos hgranularity]
    rcases hms : d.markers with _ | ⟨m, _ | ⟨m', ms⟩⟩
    · simp [markerNames]
    · simp [markerNames, hgranularity, ← factoryFileName_eq_iff]
    · simp [markerNames]
  · rw [if_neg hgranularity, List.append_nil]
    have hone : (markerNames d.markers).Nodup := by
      unfold markerNames
      split <;> simp
    simp [hone, hgranularity]

theorem file?_of_nodup (h : (out.files.map (·.name)).Nodup) {f : OutputFile} (hf : f ∈ out.files) :
    out.file? f.name = some f := by
  rw [Output.file?]
  cases hfind : out.files.find? (·.name = f.name) with
  | none =>
    have hne := List.find?_eq_none.1 hfind f hf
    simp at hne
  | some g =>
    have hname : g.name = f.name := by simpa using List.find?_some hfind
    rw [List.inj_on_of_nodup_map h (List.mem_of_find?_eq_some hfind) hf hname]

/-- The files of a pass have different names unless they clash. Then each is found by its name, and
none is lost when all are written into one directory. -/
theorem names_distinct_iff_not_clashes (h : generate d o = .ok out) :
    ((out.files.map (·.name)).Nodup ↔ ¬ Clashes d o) ∧
      (¬ Clashes d o → (∀ f ∈ out.files, out.file? f.name = some f) ∧
        ∀ dir t r t', Build.writeFiles dir out.files t = .ok r t' →
          ∀ f ∈ out.files, t'.read (dir.child f.name) = .ok f.contents.toUTF8.toList) := by
  refine ⟨nodup_iff_not_clashes h, fun hclash => ?_⟩
  have hnodup := (nodup_iff_not_clashes h).2 hclash
  refine ⟨fun f hf => file?_of_nodup hnodup hf, fun dir t r t' hrun f hf => ?_⟩
  have hapart := Build.apart_of_nodup (isFileName_of_generate h) hnodup t dir
  exact Build.read_of_writeFiles (Build.writeFiles_ok hrun) hapart hf

end Generated

namespace Samples

def aggregated : Options := { granularity := .aggregate }

theorem generate_provider : ∃ out, generate { markers := [⟨[], "Provider"⟩] } aggregated = .ok out ∧
    ((out.files.map (·.name)).Nodup ↔ ¬ Clashes { markers := [⟨[], "Provider"⟩] } aggregated) ∧
      ∀ f ∈ out.files, out.file? f.name = some f := by
  have hsome : (generate { markers := [⟨[], "Provider"⟩] } aggregated).toOption.isSome := by
    decide
  obtain ⟨out, hout⟩ := Option.isSome_iff_exists.1 hsome
  have hok := toOption_eq_some.1 hout
  obtain ⟨hnames, hfound⟩ := names_distinct_iff_not_clashes hok
  have hclash : ¬ Clashes { markers := [⟨[], "Provider"⟩] } aggregated := by
    rintro ⟨-, m, hm, hname⟩
    cases hm
    revert hname
    decide
  exact ⟨out, hok, hnames, (hfound hclash).1⟩

/-- The factory of this marker has the name of the file that holds all adapters, and only one of the
two files is found. -/
theorem generate_adapters_clashes :
    ∃ out, generate { markers := [⟨[], "Adapters"⟩] } aggregated = .ok out ∧
      ¬ (out.files.map (·.name)).Nodup ∧ ∃ f ∈ out.files, out.file? f.name ≠ some f := by
  have hany : (generate { markers := [⟨[], "Adapters"⟩] } aggregated).toOption.any (fun out =>
      decide (¬ (out.files.map (·.name)).Nodup ∧
        ∃ f ∈ out.files, out.file? f.name ≠ some f)) = true := by
    decide +kernel
  obtain ⟨out, hout, hclash⟩ := (Option.any_eq_true _ _).1 hany
  exact ⟨out, toOption_eq_some.1 hout, of_decide_eq_true hclash⟩

end Samples

end JsonAdapters
