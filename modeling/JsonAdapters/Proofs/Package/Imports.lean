import JsonAdapters.Proofs.Package.Leaves

/-!
# What imports mean

A leaf of an import denotes something of the package, or of another one. What it denotes depends on
the module in which it is read, since a path may start with the module itself, with one of the
modules around it, or with a name that the module declares. Imports that are repeated elsewhere
denote what they denoted in their module, as long as all words that lead up stand in one run at the
start of a path and the names that start a path are those of modules and types.

## Main definitions

* `Leaf.target?`: what a leaf denotes in a module.
* `Leaf.Settled`: no word of a path leads up.
* `Leaf.Plain`: only the start of a path leads up.

## Main statements

* `Scope.rootedLeaf_repeats`: a leaf that is repeated is settled just when it was plain, and then
  denotes what it denoted.
* `Scope.rootedUses_meaning`: imports that are repeated denote the same.
-/

namespace JsonAdapters

open Code

/-! ## What leaves denote -/

/-- What a leaf denotes: something of the package, by its path from the root, or of another one. -/
inductive Target
  | inside (path : List String)
  | outside (absolute : Bool) (path : List String)
deriving DecidableEq, Repr

/-- The path from the root to which names lead from a module, whose own names are given from the
inside to the outside. Each `super` leads one module up. -/
def climb : List String → List String → Option (List String)
  | inner, [] => some inner.reverse
  | inner, n :: rest =>
    if n = "super" then
      match inner with
      | [] => none
      | _ :: outer => climb outer rest
    else if n = "self" then climb inner rest
    else some (inner.reverse ++ n :: rest)

/-- Names that the end of a path adds. The word `self` in braces stands for what is before them. -/
def Ending.names (before : List PathWord) : Ending → List String
  | own n | renamed n _ => if n = "self" ∧ before.getLast? = some .brace then [] else [n]
  | everything => []

namespace Leaf

/-- Words from the first name on. -/
def body (l : Leaf) : List PathWord := l.before.dropWhile (· = .brace)

def path (l : Leaf) : List String := l.body.filterMap (·.name?) ++ l.last.names l.body

/-- What a leaf denotes in a module that declares modules and types of some names. -/
def target? (module declared : List String) (l : Leaf) : Option Target :=
  if l.absolute then some (.outside true l.path)
  else
    match l.path with
    | [] => none
    | n :: rest =>
      if n = "crate" then some (.inside rest)
      else if n = "self" then (climb module.reverse rest).map .inside
      else if n = "super" then (climb module.reverse (n :: rest)).map .inside
      else if n ∈ declared then some (.inside (module ++ n :: rest))
      else some (.outside false (n :: rest))

/-- What a leaf denotes, and how it is bound. -/
def meaning? (module declared : List String) (l : Leaf) : Option (Target × Ending) :=
  (l.target? module declared).map (·, l.last)

end Leaf

/-! ## Words that lead up -/

/-- The word leads nowhere up. -/
def PathWord.Level (w : PathWord) : Prop := w ≠ .name "self" ∧ w ≠ .name "super"

/-- The end of a path leads nowhere up, unless it is `self` in braces. -/
def Ending.Level (before : List PathWord) : Ending → Prop
  | own n | renamed n _ => n ≠ "super" ∧ (n = "self" → before.getLast? = some .brace)
  | everything => True

instance (w : PathWord) : Decidable w.Level := inferInstanceAs (Decidable (_ ∧ _))

instance (before : List PathWord) : (e : Ending) → Decidable (e.Level before)
  | .own _ | .renamed _ _ => inferInstanceAs (Decidable (_ ∧ (_ → _)))
  | .everything => inferInstanceAs (Decidable True)

namespace Leaf

/-- The words `self` and `super` stand nowhere but in a last `self` in braces. -/
def Settled (l : Leaf) : Prop := (∀ w ∈ l.body, w.Level) ∧ l.last.Level l.body

/-- Words behind those that lead up at the start: one `self`, or a run of `super`. -/
def behindStart (l : Leaf) : List PathWord :=
  if l.absolute then l.body
  else
    match l.body with
    | .name "self" :: rest => rest
    | words => words.dropWhile (· = .name "super")

/-- The words `self` and `super` stand nowhere but at the start and in a last `self` in braces. -/
def Plain (l : Leaf) : Prop := (∀ w ∈ l.behindStart, w.Level) ∧ l.last.Level l.behindStart

instance (l : Leaf) : Decidable l.Settled := inferInstanceAs (Decidable (_ ∧ _))

instance (l : Leaf) : Decidable l.Plain := inferInstanceAs (Decidable (_ ∧ _))

end Leaf

/-! ## What leaves denote after their words have changed -/

section Endings

variable {ws us : List PathWord} (e : Ending)

/-- What an end adds depends on the last word only. -/
theorem Ending.names_congr (h : ws.getLast? = some .brace ↔ us.getLast? = some .brace) :
    e.names ws = e.names us := by
  cases e <;> simp [names, h]

/-- Whether an end leads up depends on the last word only. -/
theorem Ending.level_congr (h : ws.getLast? = some .brace ↔ us.getLast? = some .brace) :
    e.Level ws ↔ e.Level us := by
  cases e <;> simp [Level, h]

/-- A name before other words leaves the last word as it is. -/
theorem getLast?_behind_name (n : String) (ws : List PathWord) :
    (PathWord.name n :: ws).getLast? = some .brace ↔ ws.getLast? = some .brace := by
  cases ws <;> simp

/-- Words `super` at the start leave a last brace as it is. -/
theorem getLast?_behind_super (ws : List PathWord) :
    (ws.dropWhile (· = .name "super")).getLast? = some .brace ↔ ws.getLast? = some .brace := by
  induction ws with
  | nil => rfl
  | cons w ws ih =>
    by_cases h : w = .name "super"
    · rw [List.dropWhile_cons_of_pos (by simpa using h), ih, h, getLast?_behind_name]
    · rw [List.dropWhile_cons_of_neg (by simpa using h)]

/-- A path from the root leaves a last brace as it is. -/
theorem getLast?_wordsBelow (m : List String) (ws : List PathWord) :
    (wordsBelow m ws).getLast? = some .brace ↔ ws.getLast? = some .brace := by
  rw [wordsBelow, getLast?_behind_name]
  induction m with
  | nil => rfl
  | cons n m ih => rw [List.map_cons, List.cons_append, getLast?_behind_name, ih]

/-- Names of words that lead nowhere up. -/
theorem names_level (hw : ∀ w ∈ ws, w.Level) (he : e.Level ws) :
    ∀ n ∈ ws.filterMap (·.name?) ++ e.names ws, n ≠ "self" ∧ n ≠ "super" := by
  intro n hn
  rcases List.mem_append.1 hn with hn | hn
  · obtain ⟨w, hmem, hname⟩ := List.mem_filterMap.1 hn
    cases w with
    | brace => cases hname
    | name m =>
      obtain rfl : m = n := by simpa [PathWord.name?] using hname
      simpa [PathWord.Level] using hw _ hmem
  · cases e with
    | everything => cases hn
    | own m | renamed m new =>
      by_cases hs : m = "self" ∧ ws.getLast? = some .brace
      · simp [Ending.names, hs] at hn
      · obtain rfl : n = m := by simpa [Ending.names, hs] using hn
        exact ⟨fun h => hs ⟨h, he.2 h⟩, he.1⟩

end Endings

/-- Names that lead nowhere up lead down. -/
theorem climb_level {names : List String} (h : ∀ n ∈ names, n ≠ "self" ∧ n ≠ "super")
    (inner : List String) : climb inner names = some (inner.reverse ++ names) := by
  cases names with
  | nil => simp [climb]
  | cons n rest =>
    obtain ⟨hself, hsuper⟩ := h n List.mem_cons_self
    rw [climb.eq_def]
    simp [hself, hsuper]

/-- Words at the start that lead up lead to the module above. -/
theorem climb_words (inner : List String) (ws : List PathWord) {names : List String}
    (h : ∀ n ∈ (ws.dropWhile (· = .name "super")).filterMap (·.name?) ++ names,
      n ≠ "self" ∧ n ≠ "super") :
    climb inner (ws.filterMap (·.name?) ++ names) = (moduleAbove inner ws).map
      (· ++ ((ws.dropWhile (· = .name "super")).filterMap (·.name?) ++ names)) := by
  induction ws generalizing inner with
  | nil => simpa [moduleAbove] using climb_level h inner
  | cons w ws ih =>
    by_cases hw : w = .name "super"
    · subst hw
      rw [List.dropWhile_cons_of_pos (by simp)] at h ⊢
      cases inner with
      | nil => simp [climb, moduleAbove, PathWord.name?]
      | cons m outer => simpa [climb, moduleAbove, PathWord.name?] using ih outer h
    · have hne : (w :: ws).head? ≠ some (.name "super") := by simpa using hw
      rw [dropWhile_of_ne hne] at h ⊢
      rw [moduleAbove_of_ne hne, climb_level h, Option.map_some]

namespace Leaf

variable {l : Leaf} {m types declared : List String} {ws : List PathWord} {e : Ending}

@[simp] theorem body_behind_brace (l : Leaf) : (l.behind .brace).body = l.body := by
  simp [body, behind]

/-- Words that start with no brace are all of the body. -/
theorem body_of_ne (absolute : Bool) (e : Ending) (h : ws.head? ≠ some .brace) :
    (⟨absolute, ws, e⟩ : Leaf).body = ws := by
  cases ws with
  | nil => rfl
  | cons w ws => exact List.dropWhile_cons_of_neg (by simpa using h)

/-- A path starts with its first name. -/
theorem path_name (n : String) (ws : List PathWord) (e : Ending) :
    (⟨false, .name n :: ws, e⟩ : Leaf).path = n :: (ws.filterMap (·.name?) ++ e.names ws) := by
  rw [path, body_of_ne false e (by simp), e.names_congr (getLast?_behind_name n ws)]
  rfl

/-- Braces around a whole path do not change what it denotes. -/
theorem meaning?_behind_brace (l : Leaf) :
    (l.behind .brace).meaning? m declared = l.meaning? m declared := by
  simp only [meaning?, target?, path, body_behind_brace]
  rfl

/-- Braces around a whole path do not make it settled. -/
theorem settled_behind_brace : (l.behind .brace).Settled ↔ l.Settled := by
  simp only [Settled, body_behind_brace]
  rfl

/-- Braces around a whole path do not make it plain. -/
theorem plain_behind_brace : (l.behind .brace).Plain ↔ l.Plain := by
  simp only [Plain, behindStart, body_behind_brace]
  rfl

/-- A path from the root goes through the module. -/
theorem path_below :
    (⟨false, wordsBelow m ws, e⟩ : Leaf).path =
      "crate" :: (m ++ (ws.filterMap (·.name?) ++ e.names ws)) := by
  have hbody : (⟨false, wordsBelow m ws, e⟩ : Leaf).body = wordsBelow m ws := by
    simp [body, wordsBelow]
  rw [path, hbody, e.names_congr (getLast?_wordsBelow m ws), wordsBelow]
  simp [PathWord.name?]

/-- A leaf below a module denotes what its names are there. -/
theorem meaning?_below (other : List String) :
    (⟨false, wordsBelow m ws, e⟩ : Leaf).meaning? other declared =
      some (.inside (m ++ (ws.filterMap (·.name?) ++ e.names ws)), e) := by
  simp [meaning?, target?, path_below]

/-- A path from the root is settled where its own words lead nowhere up. -/
theorem settled_below (hm : ∀ n ∈ m, n ≠ "self" ∧ n ≠ "super") :
    (⟨false, wordsBelow m ws, e⟩ : Leaf).Settled ↔ (∀ w ∈ ws, w.Level) ∧ e.Level ws := by
  have hwords : (∀ w ∈ wordsBelow m ws, w.Level) ↔ ∀ w ∈ ws, w.Level := by
    refine ⟨fun h w hw => h w (by simp [wordsBelow, hw]), fun h w hw => ?_⟩
    simp only [wordsBelow, List.mem_cons, List.mem_append, List.mem_map] at hw
    rcases hw with rfl | ⟨n, hn, rfl⟩ | hw
    · simp [PathWord.Level]
    · simpa [PathWord.Level] using hm n hn
    · exact h w hw
  rw [Settled, body_of_ne false e (by simp [wordsBelow]), hwords,
    e.level_congr (getLast?_wordsBelow m ws)]

/-- A path without braces at the start is settled where its words lead nowhere up. -/
theorem settled_of_ne (h : ws.head? ≠ some .brace) :
    (⟨false, ws, e⟩ : Leaf).Settled ↔ (∀ w ∈ ws, w.Level) ∧ e.Level ws := by
  rw [Settled, body_of_ne false e h]

/-- A path that leads nowhere up at its start is plain when none of its words leads up. -/
theorem plain_of_ne (h : ws.head? ≠ some .brace) (hself : ws.head? ≠ some (.name "self"))
    (hsuper : ws.head? ≠ some (.name "super")) :
    (⟨false, ws, e⟩ : Leaf).Plain ↔ (∀ w ∈ ws, w.Level) ∧ e.Level ws := by
  have hstart : (⟨false, ws, e⟩ : Leaf).behindStart = ws := by
    rw [behindStart, body_of_ne false e h]
    simp only [Bool.false_eq_true, ↓reduceIte]
    split
    · exact absurd rfl hself
    · exact dropWhile_of_ne hsuper
  rw [Plain, hstart]

end Leaf

/-! ## Repeated leaves denote the same -/

/-- The first name of a path that may be that of something declared. -/
def Leaf.first? (l : Leaf) : Option String := if l.absolute then none else l.path.head?

/-- A scope declares modules and types of some names, among others. -/
structure Scope.Declares (s : Scope) (types : List String) : Prop where
  subset : ∀ n ∈ types, n ∈ s.names
  /-- Neither a module nor a name has one of the words that paths start with. -/
  no_word : ∀ n ∈ s.path ++ s.names, n ≠ "crate" ∧ n ≠ "self" ∧ n ≠ "super"

/-- The first name of a leaf is that of a module or a type if it is declared in the scope. If not,
it is not declared where the leaf is repeated. -/
def Scope.Tells (s : Scope) (types declared : List String) (l : Leaf) : Prop :=
  ∀ n ∈ l.first?, (n ∈ s.names → n ∈ types) ∧ (n ∉ s.names → n ∉ declared)

instance (s : Scope) (types declared : List String) (l : Leaf) :
    Decidable (s.Tells types declared l) :=
  inferInstanceAs (Decidable (∀ n ∈ l.first?, _))

namespace Scope

variable {s : Scope} {types declared : List String} {l l' : Leaf} (other : List String)

/-- A leaf and the one that is put in its place, read elsewhere. -/
structure Repeats (s : Scope) (types other declared : List String) (l l' : Leaf) : Prop where
  settled : l'.Settled ↔ l.Plain
  means : l.Plain → s.Tells types declared l →
    ∃ x, l.meaning? s.path types = some x ∧ l'.meaning? other declared = some x

/-- A module path leads nowhere up. -/
theorem Declares.level (hs : s.Declares types) : ∀ n ∈ s.path, n ≠ "self" ∧ n ≠ "super" :=
  fun n hn => (hs.no_word n (List.mem_append_left _ hn)).2

/-- Braces around a whole path leave its first name as it is. -/
theorem tells_behind_brace :
    s.Tells types declared (l.behind .brace) ↔ s.Tells types declared l := by
  simp only [Tells, Leaf.first?, Leaf.path, Leaf.body_behind_brace]
  rfl

/-- In braces, a leaf is repeated as it is outside. -/
theorem Repeats.behind_brace (h : s.Repeats types other declared l l') :
    s.Repeats types other declared (l.behind .brace) (l'.behind .brace) where
  settled := by rw [Leaf.settled_behind_brace, Leaf.plain_behind_brace, h.settled]
  means hp ht := by
    simpa only [Leaf.meaning?_behind_brace] using
      h.means (Leaf.plain_behind_brace.1 hp) (tells_behind_brace.1 ht)

/-- Absolute paths mean the same everywhere. -/
theorem repeats_absolute (hl : l.absolute = true) : s.Repeats types other declared l l where
  settled := by simp [Leaf.Settled, Leaf.Plain, Leaf.behindStart, hl]
  means _ _ := ⟨(.outside true l.path, l.last), by simp [Leaf.meaning?, Leaf.target?, hl]⟩

section Words

variable {ws : List PathWord} {e : Ending} {n : String} {rest : List String}

/-- Paths from `crate` mean the same everywhere. -/
theorem repeats_crate (hb : ws.head? ≠ some .brace)
    (hplain : (⟨false, ws, e⟩ : Leaf).Plain ↔ (∀ w ∈ ws, w.Level) ∧ e.Level ws)
    (hpath : (⟨false, ws, e⟩ : Leaf).path = "crate" :: rest) :
    s.Repeats types other declared ⟨false, ws, e⟩ ⟨false, ws, e⟩ where
  settled := (Leaf.settled_of_ne hb).trans hplain.symm
  means _ _ := ⟨(.inside rest, e), by simp [Leaf.meaning?, Leaf.target?, hpath]⟩

/-- A leaf that starts with a name of its own is repeated below its module, if the module declares
the name. -/
theorem repeats_anchored (hs : s.Declares types) (hb : ws.head? ≠ some .brace)
    (hplain : (⟨false, ws, e⟩ : Leaf).Plain ↔ (∀ w ∈ ws, w.Level) ∧ e.Level ws)
    (hpath : (⟨false, ws, e⟩ : Leaf).path = n :: rest) (hn : n ≠ "crate") :
    s.Repeats types other declared ⟨false, ws, e⟩ ⟨false, s.anchoredWords n ws, e⟩ where
  settled := by
    rw [hplain, anchoredWords]
    split
    · exact Leaf.settled_below hs.level
    · exact Leaf.settled_of_ne hb
  means hp ht := by
    have hnames : ws.filterMap (·.name?) ++ e.names ws = n :: rest := by
      rw [← hpath, Leaf.path, Leaf.body_of_ne false e hb]
    obtain ⟨hw, he⟩ := hplain.1 hp
    have hlevel := names_level e hw he n (by simp [hnames])
    -- the first name is either declared on both sides, or an outer name on both
    have htells := ht n (by simp [Leaf.first?, hpath])
    by_cases hmem : n ∈ s.names
    · refine ⟨(.inside (s.path ++ n :: rest), e), ?_, ?_⟩
      · simp [Leaf.meaning?, Leaf.target?, hpath, hn, hlevel, htells.1 hmem]
      · rw [anchoredWords, if_pos hmem, Leaf.meaning?_below, hnames]
    · have outside (m d : List String) (h : n ∉ d) :
          (⟨false, ws, e⟩ : Leaf).meaning? m d = some (.outside false (n :: rest), e) := by
        simp [Leaf.meaning?, Leaf.target?, hpath, hn, hlevel, h]
      refine ⟨(.outside false (n :: rest), e), outside _ _ (mt (hs.subset n) hmem), ?_⟩
      rw [anchoredWords, if_neg hmem]
      exact outside _ _ (htells.2 hmem)

/-- A path from `self` is put below the module. -/
theorem repeats_self (hs : s.Declares types) :
    s.Repeats types other declared ⟨false, .name "self" :: ws, e⟩
      ⟨false, wordsBelow s.path ws, e⟩ where
  settled := Leaf.settled_below hs.level
  means hp _ := by
    obtain ⟨hw, he⟩ : (∀ w ∈ ws, w.Level) ∧ e.Level ws := hp
    have hclimb := climb_level (names_level e hw he) s.path.reverse
    rw [List.reverse_reverse] at hclimb
    refine ⟨_, ?_, Leaf.meaning?_below other⟩
    simp [Leaf.meaning?, Leaf.target?, Leaf.path_name, hclimb]

/-- A path from `super` is put below a module further up, and left out where there is none. -/
theorem repeats_super (hs : s.Declares types) :
    (s.rootedLeaf ⟨false, .name "super" :: ws, e⟩).elim
      ((⟨false, .name "super" :: ws, e⟩ : Leaf).Plain →
        (⟨false, .name "super" :: ws, e⟩ : Leaf).meaning? s.path types = none)
      (s.Repeats types other declared ⟨false, .name "super" :: ws, e⟩) := by
  set rest := ws.dropWhile (· = .name "super") with hrest
  have hdrop : (PathWord.name "super" :: ws).dropWhile (· = .name "super") = rest :=
    List.dropWhile_cons_of_pos (by simp)
  have hnames : e.names ws = e.names rest := e.names_congr (getLast?_behind_super ws).symm
  -- in the source, the words `super` climb from the module itself
  have source (hp : (⟨false, .name "super" :: ws, e⟩ : Leaf).Plain) :
      (⟨false, .name "super" :: ws, e⟩ : Leaf).meaning? s.path types =
        (moduleAbove s.path.reverse (.name "super" :: ws)).map
          fun m => (.inside (m ++ (rest.filterMap (·.name?) ++ e.names rest)), e) := by
    obtain ⟨hw, he⟩ : (∀ w ∈ rest, w.Level) ∧ e.Level rest := hp
    have hlevel := names_level e hw he
    have hclimb := climb_words s.path.reverse (.name "super" :: ws) hlevel
    rw [hdrop] at hclimb
    change climb _ ("super" :: (ws.filterMap (·.name?) ++ e.names rest)) = _ at hclimb
    simp [Leaf.meaning?, Leaf.target?, Leaf.path_name, hnames, hclimb, Function.comp_def]
  rw [rootedLeaf_of_not_absolute s rfl]
  simp only [rootedWords, ← hrest]
  cases h : moduleAbove s.path.reverse (.name "super" :: ws) with
  | none => exact fun hp => by rw [source hp, h, Option.map_none]
  | some m =>
    have hm : ∀ n ∈ m, n ≠ "self" ∧ n ≠ "super" := fun n hn =>
      hs.level n (List.mem_reverse.1 (moduleAbove_subset h hn))
    exact ⟨Leaf.settled_below hm, fun hp _ =>
      ⟨_, by rw [source hp, h, Option.map_some], Leaf.meaning?_below other⟩⟩

end Words

/-- A leaf that is plain denotes nothing when nothing is put in its place. -/
theorem rootedLeaf_repeats (hs : s.Declares types) (l : Leaf) :
    (s.rootedLeaf l).elim (l.Plain → l.meaning? s.path types = none)
      (s.Repeats types other declared l) := by
  obtain ⟨absolute, ws, e⟩ := l
  cases absolute with
  | true => exact repeats_absolute other rfl
  | false =>
    -- braces at the start are passed one by one; the first name then tells which rule applies
    induction ws with
    | nil =>
      have hplain : (⟨false, [], e⟩ : Leaf).Plain ↔ _ := Leaf.plain_of_ne nofun nofun nofun
      cases e with
      | everything => exact fun _ => rfl
      | own n | renamed n new =>
        by_cases hn : n = "crate"
        · subst hn
          -- no module declares `crate`, so the word stays what it is
          have hword : s.anchoredWords "crate" [] = [] :=
            if_neg fun h => (hs.no_word _ (List.mem_append_right _ h)).1 rfl
          rw [rootedLeaf_of_not_absolute s rfl, rootedWords, hword]
          exact repeats_crate other nofun hplain
            (show _ = ["crate"] by simp [Leaf.path, Leaf.body, Ending.names])
        · exact repeats_anchored other hs nofun hplain
            (show _ = [n] by simp [Leaf.path, Leaf.body, Ending.names]) hn
    | cons w ws ih =>
      cases w with
      | brace =>
        change (s.rootedLeaf (Leaf.behind .brace ⟨false, ws, e⟩)).elim _ _
        rw [rootedLeaf_behind_brace]
        cases h : s.rootedLeaf ⟨false, ws, e⟩ with
        | none =>
          rw [h] at ih
          exact ih
        | some l' =>
          rw [h] at ih
          exact ih.behind_brace
      | name n =>
        by_cases hself : n = "self"
        · subst hself
          exact repeats_self other hs
        by_cases hsuper : n = "super"
        · subst hsuper
          exact repeats_super other hs
        have hplain : (⟨false, .name n :: ws, e⟩ : Leaf).Plain ↔ _ :=
          Leaf.plain_of_ne (by simp) (by simpa using hself) (by simpa using hsuper)
        rw [rootedLeaf_of_not_absolute s rfl]
        by_cases hcrate : n = "crate"
        · subst hcrate
          exact repeats_crate other (by simp) hplain (Leaf.path_name _ _ _)
        · simp only [rootedWords, hcrate, hself, hsuper, ↓reduceIte]
          exact repeats_anchored other hs (by simp) hplain (Leaf.path_name _ _ _) hcrate

/-- Imports that are repeated denote, in every module, what they denoted in theirs, and none of
their words leads up. Those that denoted nothing are left out. -/
theorem rootedUses_meaning (hs : s.Declares types) (reserved : List String)
    (hl : ∀ u ∈ s.uses, ∀ l ∈ u.leaves, l.isFree reserved → l.Plain ∧ s.Tells types declared l) :
    ((s.rootedUses reserved).flatMap (·.leaves)).map (·.meaning? other declared) =
      (((s.uses.flatMap (·.leaves)).filter (·.isFree reserved)).filterMap
        (·.meaning? s.path types)).map some ∧
    ∀ l ∈ (s.rootedUses reserved).flatMap (·.leaves), l.Settled := by
  -- only free leaves are written again
  have repeats (l : Leaf) (h : l ∈ (s.uses.flatMap (·.leaves)).filter (·.isFree reserved)) :
      (l.Plain ∧ s.Tells types declared l) ∧ (s.rootedLeaf l).elim
        (l.Plain → l.meaning? s.path types = none) (s.Repeats types other declared l) := by
    obtain ⟨hmem, hfree⟩ := List.mem_filter.1 h
    obtain ⟨u, hu, hul⟩ := List.mem_flatMap.1 hmem
    exact ⟨hl u hu l hul hfree, rootedLeaf_repeats other hs l⟩
  rw [leaves_rootedUses, List.map_filterMap, List.map_filterMap]
  constructor
  · refine List.filterMap_congr fun l h => ?_
    obtain ⟨⟨hplain, htells⟩, hrep⟩ := repeats l h
    cases hr : s.rootedLeaf l with
    | none =>
      rw [hr] at hrep
      rw [hrep hplain, Option.map_none, Option.map_none]
    | some l' =>
      rw [hr] at hrep
      obtain ⟨x, hsource, hemitted⟩ := hrep.means hplain htells
      rw [hsource, Option.map_some, hemitted, Option.map_some]
  · intro l' h'
    obtain ⟨l, h, hr⟩ := List.mem_filterMap.1 h'
    obtain ⟨⟨hplain, -⟩, hrep⟩ := repeats l h
    rw [hr] at hrep
    exact hrep.settled.2 hplain

end Scope

namespace Samples

/-- A module with a module `child` and a function `helper`, which imports names in groups, under
other names, and all names of a module. -/
def importing : Scope where
  path := ["model", "user"]
  uses := [
    ⟨[], false, .path "super" (.group [.name "Shared", .name "self", .path "tags" .glob])⟩,
    ⟨[], false, .group [.path "self" (.path "child" (.name "Item")),
      .path "child" (.rename "Other" "Renamed"), .path "super" (.path "super" (.name "Root"))]⟩,
    ⟨[], false, .path "super" (.path "super" (.path "super" (.name "Gone")))⟩,
    ⟨[], false, .path "std" (.path "fmt" (.rename "Display" "Kept"))⟩,
    ⟨[], true, .path "helper" (.group [.name "Taken", .glob])⟩]
  names := ["child", "helper"]

/-- Its one declared module is in its names. -/
theorem importing_declares : importing.Declares ["child"] := ⟨by decide, by decide⟩

theorem importing_meaning :
    (∀ u ∈ importing.uses, ∀ l ∈ u.leaves, l.isFree ["Taken"] →
      l.Plain ∧ importing.Tells ["child"] ["shared"] l) ∧
    ((importing.rootedUses ["Taken"]).flatMap (·.leaves)).map (·.meaning? ["other"] ["shared"]) =
      (((importing.uses.flatMap (·.leaves)).filter (·.isFree ["Taken"])).filterMap
        (·.meaning? importing.path ["child"])).map some ∧
    ((importing.rootedUses ["Taken"]).flatMap (·.leaves)).length = 8 :=
  have hl : ∀ u ∈ importing.uses, ∀ l ∈ u.leaves, l.isFree ["Taken"] →
      l.Plain ∧ importing.Tells ["child"] ["shared"] l := by decide
  ⟨hl, (Scope.rootedUses_meaning ["other"] importing_declares ["Taken"] hl).1, by decide⟩

/-- A scope whose import leads from the module itself to the one around it. -/
def turning : Scope where
  path := ["a", "b"]
  uses := [⟨[], false, .path "self" (.path "super" (.name "X"))⟩]

/-- The second word of such an import is repeated as it is, so that it leads elsewhere. -/
theorem turning_changes :
    (turning.uses.flatMap (·.leaves)).map (·.meaning? turning.path []) =
      [some (.inside ["a", "X"], .own "X")] ∧
    ((turning.rootedUses []).flatMap (·.leaves)).map (·.meaning? [] []) =
      [some (.inside ["a", "b", "super", "X"], .own "X")] ∧
    ¬ ∀ l ∈ (turning.rootedUses []).flatMap (·.leaves), l.Settled := by decide

/-- A function with the name of a package takes the place of the package. -/
example :
    let s : Scope := ⟨["a"], [⟨[], false, .path "core" (.name "fmt")⟩], ["core"]⟩
    (s.uses.flatMap (·.leaves)).map (·.meaning? s.path []) =
      [some (.outside false ["core", "fmt"], .own "fmt")] ∧
    ((s.rootedUses []).flatMap (·.leaves)).map (·.meaning? [] []) =
      [some (.inside ["a", "core", "fmt"], .own "fmt")] := by decide

end Samples

end JsonAdapters
