import JsonAdapters.Package.AdapterModule
import JsonAdapters.Proofs.Package.Imports
import Mathlib.Tactic.MkIffOfInductiveProp

/-!
# Names that imports bind

A leaf of an import binds its new name, else the last name of its path. Imports that are repeated
bind the names that they bound in their module, in the same order, except for the reserved ones and
for those of leaves that lead above the root. The word `self` at the end of a path, in braces, is
taken for the name that it binds; it binds the name in front of the braces instead.

## Main definitions

* `Leaf.bound?`, `boundNames`: the name that a leaf binds, the names that imports bind.
* `Leaf.LeadsOut`: a leaf leads above the root.
* `Leaf.Clear`: a leaf whose first and last words tell what becomes of it.

## Main statements

* `Scope.keepsName`: a leaf is left out just if it leads out, and else binds what it bound.
* `Scope.boundNames_rootedUses`: the names that repeated imports bind.
-/

namespace JsonAdapters

open Code

namespace Leaf

/-! ## Bound names -/

/-- The name that a leaf binds, unless it is one for everything. -/
def bound? (l : Leaf) : Option String :=
  match l.last with
  | .own _ => l.path.getLast?
  | .renamed _ new => some new
  | .everything => none

/-- The leaf ends with `self` in braces, and so binds the name in front of them. -/
def BindsModule (l : Leaf) : Prop := l.last = .own "self" ∧ l.body.getLast? = some .brace

/-- The words at the start of the leaf lead above the root. -/
def LeadsOut (module : List String) (l : Leaf) : Prop :=
  l.absolute = false ∧ climb module.reverse l.path = none

instance (l : Leaf) : Decidable l.BindsModule := inferInstanceAs (Decidable (_ ∧ _))

instance (module : List String) (l : Leaf) : Decidable (l.LeadsOut module) :=
  inferInstanceAs (Decidable (_ ∧ _))

/-- A leaf whose last word tells whether it binds a reserved name, and whose first words tell
whether it leads above the root. -/
@[mk_iff]
structure Clear (module reserved : List String) (l : Leaf) : Prop where
  /-- The word `self` in braces is reserved just if the name is that it stands for. -/
  free : l.BindsModule → ("self" ∈ reserved ↔ ∃ n ∈ l.bound?, n ∈ reserved)
  /-- The name in front of the braces is not one of the words that lead to a module. -/
  named : l.BindsModule → l.bound? ≠ some "self" ∧ l.bound? ≠ some "super"
  plain : l.LeadsOut module → l.Plain

instance (module reserved : List String) (l : Leaf) : Decidable (l.Clear module reserved) :=
  decidable_of_iff _ (clear_iff module reserved l).symm

end Leaf

/-- Names that imports bind. -/
def boundNames (us : List UseItem) : List String := (us.flatMap (·.leaves)).filterMap (·.bound?)

namespace Leaf

variable {l : Leaf} {module reserved : List String} {n : String}

@[simp] theorem bound?_behind_brace (l : Leaf) : (l.behind .brace).bound? = l.bound? := by
  rw [bound?, bound?, path, path, body_behind_brace]
  rfl

theorem bindsModule_behind_brace : (l.behind .brace).BindsModule ↔ l.BindsModule := by
  rw [BindsModule, BindsModule, body_behind_brace]
  rfl

theorem leadsOut_behind_brace : (l.behind .brace).LeadsOut module ↔ l.LeadsOut module := by
  rw [LeadsOut, LeadsOut, path, path, body_behind_brace]
  rfl

theorem clear_behind_brace :
    (l.behind .brace).Clear module reserved ↔ l.Clear module reserved := by
  rw [clear_iff, clear_iff, bindsModule_behind_brace, bound?_behind_brace, leadsOut_behind_brace,
    plain_behind_brace]

/-- Whatever ends with a name binds it, except for `self` in braces. -/
theorem bound?_own (hl : l.last = .own n) (h : ¬ l.BindsModule) : l.bound? = some n := by
  have hnames : l.last.names l.body = [n] := by
    rw [hl, Ending.names, if_neg]
    rintro ⟨rfl, hbrace⟩
    exact h ⟨hl, hbrace⟩
  rw [bound?, path, hnames, hl, List.getLast?_concat]

theorem isFree_iff (hl : l.last ≠ .everything) (h : l.Clear module reserved) :
    l.isFree reserved = true ↔ ∀ n ∈ l.bound?, n ∉ reserved := by
  by_cases hmodule : l.BindsModule
  · rw [isFree, hmodule.1]
    simpa using not_congr (h.free hmodule)
  · cases hlast : l.last with
    | own n => simp [isFree, hlast, bound?_own hlast hmodule]
    | renamed n new => simp [isFree, bound?, hlast]
    | everything => exact absurd hlast hl

end Leaf

/-! ## Names of paths that are repeated -/

/-- The words `super` at the start are among the names of the words. -/
theorem names_behind_super (ws : List PathWord) : ∃ k, ws.filterMap (·.name?) =
    List.replicate k "super" ++ (ws.dropWhile (· = .name "super")).filterMap (·.name?) := by
  induction ws with
  | nil => exact ⟨0, rfl⟩
  | cons w ws ih =>
    by_cases h : w = .name "super"
    · obtain ⟨k, hk⟩ := ih
      refine ⟨k + 1, ?_⟩
      rw [List.dropWhile_cons_of_pos (by simpa using h), List.replicate_succ, List.cons_append,
        ← hk, h]
      rfl
    · refine ⟨0, ?_⟩
      rw [List.dropWhile_cons_of_neg (by simpa using h)]
      rfl

/-- Where the words `super` lead above the root, so do the names of a path that starts with
them. -/
theorem climb_eq_none {inner : List String} {ws : List PathWord} (names : List String)
    (h : moduleAbove inner ws = none) : climb inner (ws.filterMap (·.name?) ++ names) = none := by
  induction inner, ws using moduleAbove.induct with
  | case1 ws => rfl
  | case2 ws n outer ih => exact ih h
  | case3 inner ws hne =>
    rw [moduleAbove.eq_3 inner ws hne] at h
    cases h

theorem climb_isSome {n : String} (inner rest : List String) (hself : n ≠ "self")
    (hsuper : n ≠ "super") : climb inner (n :: rest) ≠ none := by
  rw [climb.eq_def]
  simp [hself, hsuper]

namespace Scope

variable {s : Scope} {l l' : Leaf} {reserved : List String}

theorem last_rootedLeaf (h : s.rootedLeaf l = some l') : l'.last = l.last := by
  rw [rootedLeaf] at h
  split at h
  · rw [Option.some.inj h]
  · obtain ⟨ws, -, rfl⟩ := Option.map_eq_some_iff.1 h
    rfl

/-- A path below a module ends as one that has the same names behind other words. -/
theorem bound?_below {ws : List PathWord} {e : Ending} (lead : List String) {m : List String}
    (hl : l.last = e)
    (hpath : l.path = lead ++ (ws.filterMap (·.name?) ++ e.names ws))
    (hne : ws.filterMap (·.name?) ++ e.names ws ≠ []) :
    (⟨false, wordsBelow m ws, e⟩ : Leaf).bound? = l.bound? := by
  have hbelow : (⟨false, wordsBelow m ws, e⟩ : Leaf).path =
      ("crate" :: m) ++ (ws.filterMap (·.name?) ++ e.names ws) := Leaf.path_below
  rw [Leaf.bound?, Leaf.bound?, hl, hbelow, hpath, List.getLast?_append_of_ne_nil _ hne,
    List.getLast?_append_of_ne_nil _ hne]

/-! ## Repeated leaves -/

/-- What becomes of a leaf that ends with a name: it is left out just if it leads above the root,
and else it binds the name that it bound. -/
structure KeepsName (s : Scope) (l : Leaf) : Prop where
  eq_none_iff : s.rootedLeaf l = none ↔ l.LeadsOut s.path
  bound : ∀ l', s.rootedLeaf l = some l' → l'.bound? = l.bound?

theorem KeepsName.of_some (h : s.rootedLeaf l = some l') (hout : ¬ l.LeadsOut s.path)
    (hbound : l'.bound? = l.bound?) : s.KeepsName l where
  eq_none_iff := by simp [h, hout]
  bound l'' h' := by
    rw [h] at h'
    rw [← Option.some.inj h', hbound]

theorem keepsName_behind_brace (h : s.KeepsName l) : s.KeepsName (l.behind .brace) where
  eq_none_iff := by
    rw [rootedLeaf_behind_brace, Option.map_eq_none_iff, Leaf.leadsOut_behind_brace, h.eq_none_iff]
  bound l' h' := by
    rw [rootedLeaf_behind_brace] at h'
    obtain ⟨l'', h'', rfl⟩ := Option.map_eq_some_iff.1 h'
    rw [Leaf.bound?_behind_brace, Leaf.bound?_behind_brace, h.bound l'' h'']

section Words

variable {ws : List PathWord} {e : Ending} {n : String} {rest : List String}

/-- A leaf that starts with a name of its own. -/
theorem keepsName_anchored (hout : ¬ (⟨false, ws, e⟩ : Leaf).LeadsOut s.path)
    (hpath : (⟨false, ws, e⟩ : Leaf).path = n :: rest)
    (hnames : ws.filterMap (·.name?) ++ e.names ws = n :: rest)
    (h : s.rootedLeaf ⟨false, ws, e⟩ = some ⟨false, s.anchoredWords n ws, e⟩) :
    s.KeepsName ⟨false, ws, e⟩ := by
  refine .of_some h hout ?_
  by_cases hmem : n ∈ s.names
  · rw [anchoredWords, if_pos hmem]
    refine bound?_below [] rfl ?_ ?_
    · rw [hpath, hnames, List.nil_append]
    · rw [hnames]
      exact List.cons_ne_nil n rest
  · rw [anchoredWords, if_neg hmem]

/-- A leaf that is nothing but a name. -/
theorem keepsName_bare (hl : e ≠ .everything)
    (h : (⟨false, [], e⟩ : Leaf).Clear s.path reserved) : s.KeepsName ⟨false, [], e⟩ := by
  obtain ⟨n, hnames, hlevel, hroot⟩ : ∃ n, e.names [] = [n] ∧
      (e.Level [] → n ≠ "self" ∧ n ≠ "super") ∧
      s.rootedLeaf ⟨false, [], e⟩ = some ⟨false, s.anchoredWords n [], e⟩ := by
    cases e with
    | everything => exact absurd rfl hl
    | own n | renamed n new =>
      exact ⟨n, by simp [Ending.names], fun he => ⟨fun hn => (nomatch he.2 hn), he.1⟩, rfl⟩
  have hpath : (⟨false, [], e⟩ : Leaf).path = [n] := hnames
  refine keepsName_anchored ?_ hpath hnames hroot
  intro hout
  obtain ⟨-, he⟩ : (∀ w ∈ ([] : List PathWord), w.Level) ∧ e.Level [] := h.plain hout
  have hclimb := hout.2
  rw [hpath] at hclimb
  exact climb_isSome _ _ (hlevel he).1 (hlevel he).2 hclimb

/-- Words behind those that lead to a module end as they do behind the module's names, unless they
are `self` in braces alone. -/
theorem bound?_led (lead : List String) {m : List String} (h : l.Clear s.path reserved)
    (hl : l.last = e)
    (hlead : lead.getLast? = some "self" ∨ lead.getLast? = some "super")
    (hpath : l.path = lead ++ (ws.filterMap (·.name?) ++ e.names ws))
    (hbrace : l.body.getLast? = some .brace ↔ ws.getLast? = some .brace) :
    (⟨false, wordsBelow m ws, e⟩ : Leaf).bound? = l.bound? := by
  cases e with
  | everything | renamed n new => rw [Leaf.bound?, Leaf.bound?, hl]
  | own n =>
    refine bound?_below lead hl hpath fun hnil => ?_
    -- only a leaf that binds the module itself takes its name from the words that are replaced
    have hbound : l.bound? = lead.getLast? := by
      rw [Leaf.bound?, hl, hpath, hnil, List.append_nil]
    have hmodule : l.BindsModule := by
      by_cases hself : n = "self" ∧ ws.getLast? = some .brace
      · exact ⟨hself.1 ▸ hl, hbrace.2 hself.2⟩
      · rw [Ending.names, if_neg hself] at hnil
        exact absurd (List.append_eq_nil_iff.1 hnil).2 (List.cons_ne_nil n [])
    obtain ⟨hself, hsuper⟩ := h.named hmodule
    rw [hbound] at hself hsuper
    exact (hlead.elim hself hsuper).elim

theorem keepsName_self (h : (⟨false, .name "self" :: ws, e⟩ : Leaf).Clear s.path reserved) :
    s.KeepsName ⟨false, .name "self" :: ws, e⟩ := by
  have hpath := Leaf.path_name "self" ws e
  refine .of_some (s.rootedLeaf_of_not_absolute rfl) ?_ ?_
  · intro hout
    obtain ⟨hw, he⟩ : (∀ w ∈ ws, w.Level) ∧ e.Level ws := h.plain hout
    have hclimb := climb_level (names_level e hw he) s.path.reverse
    have hnone := hout.2
    rw [hpath] at hnone
    exact Option.some_ne_none _ (hclimb.symm.trans hnone)
  · refine bound?_led ["self"] h rfl (.inl rfl) hpath ?_
    rw [Leaf.body_of_ne false e (by simp)]
    exact getLast?_behind_name "self" ws

/-- The words `super` lead above the root just if the path does, as all of them are at its start. -/
theorem keepsName_super (h : (⟨false, .name "super" :: ws, e⟩ : Leaf).Clear s.path reserved) :
    s.KeepsName ⟨false, .name "super" :: ws, e⟩ := by
  set rest := ws.dropWhile (· = .name "super") with hrest
  have hpath := Leaf.path_name "super" ws e
  have hroot : s.rootedLeaf ⟨false, .name "super" :: ws, e⟩ =
      (moduleAbove s.path.reverse (.name "super" :: ws)).map
        fun m => ⟨false, wordsBelow m rest, e⟩ := by
    simp [rootedLeaf, rootedWords, ← hrest, Function.comp_def]
  have hlast := getLast?_behind_super ws
  constructor
  -- the leaf is left out just where it leads out
  · rw [hroot, Option.map_eq_none_iff]
    constructor
    · intro habove
      refine ⟨rfl, ?_⟩
      rw [hpath]
      exact climb_eq_none (e.names ws) habove
    · intro hout
      obtain ⟨hw, he⟩ : (∀ w ∈ rest, w.Level) ∧ e.Level rest := h.plain hout
      have hnone := hout.2
      rw [hpath, ← e.names_congr hlast] at hnone
      exact Option.map_eq_none_iff.1
        ((climb_words s.path.reverse (.name "super" :: ws) (names_level e hw he)).symm.trans hnone)
  · intro l' h'
    rw [hroot] at h'
    obtain ⟨m, -, rfl⟩ := Option.map_eq_some_iff.1 h'
    obtain ⟨k, hk⟩ := names_behind_super ws
    refine bound?_led (List.replicate (k + 1) "super") h rfl (.inr ?_) ?_ ?_
    · rw [List.replicate_succ', List.getLast?_concat]
    · rw [hpath, hk, ← e.names_congr hlast, List.replicate_succ, List.append_assoc]
      rfl
    · rw [Leaf.body_of_ne false e (by simp), getLast?_behind_name, hlast]

end Words

/-- Leaves that end with a name and are clear keep it. -/
theorem keepsName (hl : l.last ≠ .everything) (h : l.Clear s.path reserved) : s.KeepsName l := by
  obtain ⟨absolute, ws, e⟩ := l
  replace hl : e ≠ .everything := hl
  cases absolute with
  | true => exact .of_some rfl (by simp [Leaf.LeadsOut]) rfl
  | false =>
    induction ws with
    | nil => exact keepsName_bare hl h
    | cons w ws ih =>
      cases w with
      | brace =>
        have hclear : (⟨false, ws, e⟩ : Leaf).Clear s.path reserved := Leaf.clear_behind_brace.1 h
        exact keepsName_behind_brace (ih hclear)
      | name n =>
        by_cases hself : n = "self"
        · subst hself
          exact keepsName_self h
        by_cases hsuper : n = "super"
        · subst hsuper
          exact keepsName_super h
        have hpath := Leaf.path_name n ws e
        -- a path from a name never leads out
        have hout : ¬ (⟨false, .name n :: ws, e⟩ : Leaf).LeadsOut s.path := by
          rintro ⟨-, hclimb⟩
          rw [hpath] at hclimb
          exact climb_isSome _ _ hself hsuper hclimb
        have hroot := s.rootedLeaf_of_not_absolute (l := ⟨false, .name n :: ws, e⟩) rfl
        rw [rootedWords, if_neg hself, if_neg hsuper] at hroot
        by_cases hcrate : n = "crate"
        · rw [if_pos hcrate] at hroot
          exact .of_some hroot hout rfl
        · rw [if_neg hcrate] at hroot
          refine keepsName_anchored hout hpath ?_ hroot
          rw [e.names_congr (getLast?_behind_name n ws)]
          rfl

/-- Whether a leaf is repeated, and what it then binds. -/
theorem bound?_repeated (h : l.Clear s.path reserved) :
    (if l.isFree reserved then (s.rootedLeaf l).bind (·.bound?) else none) =
      (if l.LeadsOut s.path then none else l.bound?).filter (· ∉ reserved) := by
  -- a leaf for all names binds none by itself
  by_cases hl : l.last = .everything
  · have hnone (l' : Leaf) (h' : s.rootedLeaf l = some l') : l'.bound? = none := by
      rw [Leaf.bound?, last_rootedLeaf h', hl]
    have hrooted : (s.rootedLeaf l).bind (·.bound?) = none :=
      Option.bind_eq_none_iff.2 hnone
    have hsource : l.bound? = none := by rw [Leaf.bound?, hl]
    rw [hrooted, hsource, ite_self, ite_self, Option.filter_none]
  obtain ⟨hnone, hbound⟩ := keepsName hl h
  have hfree := Leaf.isFree_iff hl h
  cases hr : s.rootedLeaf l with
  | none => rw [if_pos (hnone.1 hr), Option.bind_none, ite_self, Option.filter_none]
  | some l' =>
    have hin : ¬ l.LeadsOut s.path := by rw [← hnone, hr]; simp
    rw [if_neg hin, Option.bind_some, hbound l' hr]
    cases hb : l.bound? with
    | none => simp
    | some n =>
      rw [hb] at hfree
      by_cases hn : n ∈ reserved
      · rw [if_neg fun h => hfree.1 h n rfl hn, Option.filter_some, if_neg (by simpa using hn)]
      · rw [if_pos (hfree.2 fun m hm => Option.some.inj hm ▸ hn), Option.filter_some,
          if_pos (by simpa using hn)]

/-- Imports that are repeated bind what they bound, except for reserved names and for leaves that
lead above the root. In particular they bind no name of a module that stands beside them. -/
theorem boundNames_rootedUses (s : Scope) (reserved : List String)
    (h : ∀ u ∈ s.uses, ∀ l ∈ u.leaves, l.Clear s.path reserved) :
    boundNames (s.rootedUses reserved) =
      (((s.uses.flatMap (·.leaves)).filter (¬ ·.LeadsOut s.path)).filterMap (·.bound?)).filter
        (· ∉ reserved) ∧
    (∀ n ∈ boundNames (s.rootedUses reserved), n ∉ reserved) ∧
    ∀ m : AdapterModule, m.children.map (·.1) = reserved →
      ∀ n ∈ boundNames (m.uses s), n ∉ m.children.map (·.1) := by
  have hall : boundNames (s.rootedUses reserved) =
      (((s.uses.flatMap (·.leaves)).filter (¬ ·.LeadsOut s.path)).filterMap (·.bound?)).filter
        (· ∉ reserved) := by
    rw [boundNames, leaves_rootedUses, List.filterMap_filterMap, List.filterMap_filter,
      List.filterMap_filter, List.filter_filterMap]
    refine List.filterMap_congr fun l hl => ?_
    obtain ⟨u, hu, hul⟩ := List.mem_flatMap.1 hl
    simpa [ite_not] using bound?_repeated (h u hu l hul)
  -- what is bound was filtered by the reserved names
  have hfree : ∀ n ∈ boundNames (s.rootedUses reserved), n ∉ reserved := by
    intro n hn
    rw [hall] at hn
    simpa using (List.mem_filter.1 hn).2
  refine ⟨hall, hfree, ?_⟩
  rintro m rfl n hn
  rw [AdapterModule.uses] at hn
  split at hn
  · exact absurd hn List.not_mem_nil
  · exact hfree n hn

end Scope

namespace Samples

/-- A module with a module `child`, which imports names in groups, under other names, and one from
above the root. -/
def binding : Scope where
  path := ["a"]
  uses := [
    ⟨[], false, .path "self" (.group [.name "child", .path "other" (.name "Item")])⟩,
    ⟨[], false, .path "super" (.path "super" (.name "Gone"))⟩,
    ⟨[], false, .path "child" (.group [.rename "self" "inner", .rename "Other" "child",
      .path "parts" (.group [.name "self", .rename "Tag" "Mark"])])⟩,
    ⟨[], true, .path "std" (.path "fmt" .glob)⟩]
  names := ["child"]

theorem binding_boundNames :
    (∀ u ∈ binding.uses, ∀ l ∈ u.leaves, l.Clear binding.path ["child"]) ∧
    boundNames (binding.rootedUses ["child"]) =
      (((binding.uses.flatMap (·.leaves)).filter (¬ ·.LeadsOut binding.path)).filterMap
        (·.bound?)).filter (· ∉ ["child"]) ∧
    boundNames binding.uses = ["child", "Item", "Gone", "inner", "child", "parts", "Mark"] ∧
    boundNames (binding.rootedUses ["child"]) = ["Item", "inner", "parts", "Mark"] :=
  have h : ∀ u ∈ binding.uses, ∀ l ∈ u.leaves, l.Clear binding.path ["child"] := by decide
  ⟨h, (Scope.boundNames_rootedUses binding ["child"] h).1, by decide, by decide⟩

/-- A scope whose import binds the name of its module `child` by `self` in braces. -/
def selfImport : Scope where
  path := ["a"]
  uses := [⟨[], false, .path "self" (.path "child" (.group [.name "self"]))⟩]
  names := ["child"]

/-- Such an import is repeated, although it binds a reserved name. -/
theorem selfImport_boundNames :
    boundNames selfImport.uses = ["child"] ∧
    boundNames (selfImport.rootedUses ["child"]) = ["child"] ∧
    ¬ ∀ n ∈ boundNames (selfImport.rootedUses ["child"]), n ∉ ["child"] := by decide

end Samples

end JsonAdapters
