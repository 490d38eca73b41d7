import JsonAdapters.Proofs.Package.Imports
import JsonAdapters.Proofs.Package.Mirroring
import JsonAdapters.Proofs.Package.Walking

/-!
# Re-exports

A path that starts with words `super` leads from the module of a record to one of the modules around
it. In the file that holds all adapters it leads to the counterpart of that module, which passes on
what the module declares: the walk has noted a scope for every module around a record. The outermost
module is left out, as it has no scope, and nothing of it is passed on.

## Main definitions

* `Discovery.Covers`: from what has been found to what is found in addition, with the scopes of the
  modules around all added records.
* `Walk.Leads`: what a walk that succeeds does to what has been found.
* `Discovery.Found`: what a walk of a package has found.
* `above`: a module around another one.

## Main statements

* `Walk.file_covers`: walks through files cover the records in them.
* `climb_above`: where the words `super` lead.
* `Discovery.Found.reexports_above`: what is passed on where they lead.
-/

namespace JsonAdapters

open Code Outcome

/-! ## Scopes of modules -/

/-- The added scope is found at its path, and nothing else is changed. -/
theorem Scopes.lookup_insert (s : Scope) (scopes : Scopes) (path : List String) :
    (scopes.insert s).lookup path = if path = s.path then some s else scopes.lookup path := by
  induction scopes with
  | nil => rw [Scopes.insert, lookup_cons_ite]
  | cons entry rest ih =>
    obtain ⟨m, t⟩ := entry
    rw [Scopes.insert]
    by_cases hm : s.path = m
    · rw [if_pos hm, lookup_cons_ite, lookup_cons_ite, hm]
      split <;> rfl
    · rw [if_neg hm]
      split
      · rw [lookup_cons_ite]
      · rw [lookup_cons_ite, lookup_cons_ite, ih]
        by_cases hpath : path = m
        · rw [if_pos hpath, if_pos hpath, if_neg (hpath ▸ Ne.symm hm)]
        · rw [if_neg hpath, if_neg hpath]

namespace Discovery

/-- Every scope is found at its own path, and none at the root. -/
def Filed (d : Discovery) : Prop := ∀ p s, d.scopes.lookup p = some s → p ≠ [] ∧ s.path = p

/-- The module of the record has a name, and each start of its path from `depth` names on has a
scope. -/
def Surrounds (d : Discovery) (depth : Nat) (f : FoundRecord) : Prop :=
  f.module ≠ [] ∧
    ∀ p, p ≠ [] → p <+: f.module → depth ≤ p.length → (d.scopes.lookup p).isSome

/-- From `d`, a walk leads to `d'`: scopes stay, and what is added are records in or below the
module, with scopes for the modules around them from `depth` names on. -/
structure Covers (module : List String) (depth : Nat) (d d' : Discovery) : Prop where
  kept : ∀ p, (d.scopes.lookup p).isSome → (d'.scopes.lookup p).isSome
  added : ∀ f ∈ d'.records, f ∈ d.records ∨ module <+: f.module ∧ d'.Surrounds depth f
  filed : d.Filed → d'.Filed

namespace Covers

variable {m m' : List String} {depth depth' : Nat} {d d₁ d' : Discovery}

theorem refl (d : Discovery) : Covers m depth d d := ⟨fun _ => id, fun _ => .inl, id⟩

theorem trans (h : Covers m depth d d₁) (h' : Covers m depth d₁ d') : Covers m depth d d' where
  kept p hp := h'.kept p (h.kept p hp)
  added f hf := by
    obtain hf | hf := h'.added f hf
    · refine (h.added f hf).imp_right fun ⟨hm, hnamed, hscopes⟩ => ⟨hm, hnamed, ?_⟩
      exact fun p hp hstart hdepth => h'.kept p (hscopes p hp hstart hdepth)
    · exact .inr hf
  filed hd := h'.filed (h.filed hd)

/-- What a walk below a module covers is covered in the module. -/
theorem mono (h : Covers m' depth d d') (hm : m <+: m') : Covers m depth d d' where
  kept := h.kept
  added f hf := (h.added f hf).imp_right fun ⟨hm', hf⟩ => ⟨hm.trans hm', hf⟩
  filed := h.filed

/-- A walk that adds no records, and no scopes. -/
theorem of_same (hrecords : d'.records = d.records) (hscopes : d'.scopes = d.scopes) :
    Covers m depth d d' where
  kept p hp := by rwa [hscopes]
  added f hf := .inl (hrecords ▸ hf)
  filed hd := by rwa [Filed, hscopes]

/-- No scope is due at the root. -/
theorem root (h : Covers m 1 d d') : Covers m 0 d d' where
  kept := h.kept
  added f hf := (h.added f hf).imp_right fun ⟨hm, hnamed, hscopes⟩ =>
    ⟨hm, hnamed, fun p hp hstart _ => hscopes p hp hstart (List.length_pos_of_ne_nil hp)⟩
  filed := h.filed

/-- When the scope of the module is added as well, it is covered itself. -/
theorem insert {s : Scope} (h : Covers s.path (s.path.length + 1) d d₁) (hs : s.path ≠ []) :
    Covers s.path s.path.length d { d₁ with scopes := d₁.scopes.insert s } := by
  have hkept (p : List String) (hp : (d₁.scopes.lookup p).isSome) :
      ((d₁.scopes.insert s).lookup p).isSome := by
    rw [Scopes.lookup_insert]
    split
    · rfl
    · exact hp
  refine ⟨fun p hp => hkept p (h.kept p hp), fun f hf => ?_, fun hd p t ht => ?_⟩
  · refine (h.added f hf).imp_right fun ⟨hm, hnamed, hscopes⟩ => ⟨hm, hnamed, ?_⟩
    intro p hp hstart hdepth
    obtain hlength | hlength := Nat.eq_or_lt_of_le hdepth
    · -- of the starts of the record's path, only the module itself is that long
      obtain rfl := List.prefix_of_prefix_length_le hm hstart hdepth |>.eq_of_length hlength
      rw [Scopes.lookup_insert, if_pos rfl]
      rfl
    · exact hkept p (hscopes p hp hstart hlength)
  · rw [Scopes.lookup_insert] at ht
    split at ht
    · next hpath =>
      cases ht
      exact ⟨hpath ▸ hs, hpath.symm⟩
    · exact h.filed hd p t ht

end Covers

end Discovery

/-! ## Walks -/

namespace Walk

open Discovery

/-- A walk that succeeds leads from what has been found to what is related to it. -/
def Leads (R : Discovery → Discovery → Prop) (w : Walk Unit) : Prop :=
  ∀ d d', w d = .ok ((), d') → R d d'

namespace Leads

variable {R R' S : Discovery → Discovery → Prop} {w w' : Walk Unit}

theorem nothing (h : ∀ d, R d d) : Leads R (pure ()) := by
  intro d d' hrun
  cases hrun
  exact h d

theorem fault (e : DiscoveryFault) : Leads R (throw e) := nofun

theorem modify {f : Discovery → Discovery} (h : ∀ d, R d (f d)) : Leads R (modify f) := by
  intro d d' hrun
  cases hrun
  exact h d

theorem bind (h : Leads R w) (h' : Leads R' w')
    (hboth : ∀ d d₁ d', R d d₁ → R' d₁ d' → S d d') : Leads S (w >>= fun _ => w') := by
  intro d d' hrun
  obtain ⟨⟨⟨⟩, d₁⟩, hfirst, hsecond⟩ := except_bind_eq_ok.1 hrun
  exact hboth d d₁ d' (h d d₁ hfirst) (h' d₁ d' hsecond)

end Leads

section Covering

variable {tree : FileTree} {enter : FilePath → FilePath → List String → Walk Unit}

/-- Two walks in one module. -/
theorem Leads.both {m : List String} {depth : Nat} {w w' : Walk Unit}
    (h : Leads (Covers m depth) w) (h' : Leads (Covers m depth) w') :
    Leads (Covers m depth) (w >>= fun _ => w') :=
  h.bind h' fun _ _ _ => Covers.trans

/-- A walk in a module, seen from the module around it. -/
theorem Leads.outer {m : List String} {name : String} {w : Walk Unit}
    (h : Leads (Covers (m ++ [name]) (m ++ [name]).length) w) :
    Leads (Covers m (m.length + 1)) w := by
  intro d d' hrun
  have hcovers := h d d' hrun
  rw [List.length_append, List.length_singleton] at hcovers
  exact hcovers.mono (List.prefix_append m [name])

theorem noteFile_covers (file : FilePath) (m : List String) (depth : Nat) :
    Leads (Covers m depth) (noteFile file) :=
  .modify fun _ => .of_same rfl rfl

/-- A record is noted in the module itself, around which no module has more names. -/
theorem noteType_covers (module : List String) (decl : Declaration) :
    Leads (Covers module (module.length + 1)) (noteType module decl) := by
  have hrecord : Leads (Covers module (module.length + 1))
      (if (derivedNames decl.attributes).contains "Kson" && !module.isEmpty then
        modify fun s => { s with records := s.records ++ [⟨module, decl⟩] } else pure ()) := by
    split
    · next hnoted =>
      have hnamed : module ≠ [] := by simp_all
      refine .modify fun d => ⟨fun _ => id, fun f hf => ?_, id⟩
      rcases List.mem_append.1 hf with hf | hf
      · exact .inl hf
      · obtain rfl := List.mem_singleton.1 hf
        refine .inr ⟨List.prefix_rfl, hnamed, fun p _ hstart hdepth => ?_⟩
        exact absurd hstart.length_le (Nat.not_le.2 hdepth)
    · exact .nothing .refl
  unfold noteType
  dsimp only
  split
  · exact .both (.modify fun _ => .of_same rfl rfl) hrecord
  · exact hrecord

theorem noteScope_leads (module : List String) (is : List Item) :
    Leads (fun d d' => module = [] ∧ d' = d ∨ module ≠ [] ∧
      d' = { d with scopes := d.scopes.insert (.ofItems module is) }) (noteScope module is) := by
  unfold noteScope
  cases module with
  | nil => exact .nothing fun d => .inl ⟨rfl, rfl⟩
  | cons n module => exact .modify fun d => .inr ⟨List.cons_ne_nil n module, rfl⟩

/-- After the items of a module, its own scope is noted. -/
theorem Leads.noted {module : List String} {w : Walk Unit}
    (h : Leads (Covers module (module.length + 1)) w) (is : List Item) :
    Leads (Covers module module.length) (w >>= fun _ => noteScope module is) := by
  refine h.bind (noteScope_leads module is) ?_
  rintro d d₁ d' hitems (⟨rfl, rfl⟩ | ⟨hmodule, rfl⟩)
  · exact hitems.root
  · exact hitems.insert (s := .ofItems module is) hmodule

mutual

theorem item_covers (henter : ∀ f dir m, Leads (Covers m m.length) (enter f dir m))
    (dir : FilePath) (module : List String) : ∀ i : Item,
    Leads (Covers module (module.length + 1)) (item tree enter dir module i)
  | .type decl => by
    rw [item]
    split
    · exact noteType_covers module decl
    · exact .nothing .refl
  | .module attrs name (some is) => by
    rw [item]
    exact ((itemList_covers henter _ (module ++ [name]) is).noted is).outer
  | .module attrs name none => by
    rw [item]
    split
    · exact (henter _ _ (module ++ [name])).outer
    · exact .fault _
  | .use _ | .named _ _ | .other => by
    rw [item]
    exact .nothing .refl

theorem itemList_covers (henter : ∀ f dir m, Leads (Covers m m.length) (enter f dir m))
    (dir : FilePath) (module : List String) : ∀ is : List Item,
    Leads (Covers module (module.length + 1)) (itemList tree enter dir module is)
  | [] => by
    rw [itemList]
    exact .nothing .refl
  | i :: is => by
    rw [itemList]
    split
    · exact itemList_covers henter dir module is
    · exact (item_covers henter dir module i).both (itemList_covers henter dir module is)

end

theorem items_covers (henter : ∀ f dir m, Leads (Covers m m.length) (enter f dir m))
    (dir : FilePath) (module : List String) (is : List Item) :
    Leads (Covers module module.length) (items tree enter dir module is) :=
  (itemList_covers henter dir module is).noted is

/-- A walk through a file notes the scopes of the modules around the records that it notes, the
file's own module among them. -/
theorem file_covers (tree : FileTree) (n : Nat) (f dir : FilePath) (module : List String) :
    Leads (Covers module module.length) (file tree n f dir module) := by
  induction n generalizing f dir module with
  | zero => exact .fault _
  | succ n ih =>
    rw [file_succ]
    cases tree.readText f with
    | error e => exact .fault _
    | ok source =>
      dsimp only
      cases parseItems? source with
      | none => exact .fault _
      | some is => exact (noteFile_covers f module _).both (items_covers ih dir module is)

end Covering

end Walk

namespace Discovery

/-- A walk of a package has found this. -/
def Found (d : Discovery) : Prop :=
  ∃ tree, (∃ root, ofRoot tree root = .ok d) ∨ ∃ dir is, ofItems tree dir is = .ok d

namespace Found

variable {d : Discovery}

theorem covers (h : d.Found) : Covers [] 0 {} d := by
  have of_walk {w : Walk Unit} (hw : Walk.Leads (Covers [] 0) w) (hrun : ofWalk w = .ok d) :
      Covers [] 0 {} d := by
    obtain ⟨⟨⟨⟩, d'⟩, hw', rfl⟩ := map_eq_ok.1 hrun
    exact hw {} d' hw'
  obtain ⟨tree, ⟨root, hrun⟩ | ⟨dir, is, hrun⟩⟩ := h
  · exact of_walk (Walk.file_covers tree _ root _ []) hrun
  · exact of_walk (Walk.items_covers (Walk.file_covers tree _) dir [] is) hrun

theorem filed (h : d.Found) : d.Filed := h.covers.filed nofun

theorem surrounds (h : d.Found) {f : FoundRecord} (hf : f ∈ d.records) : d.Surrounds 0 f := by
  obtain ⟨⟨⟩⟩ | ⟨-, hsurrounds⟩ := h.covers.added f hf
  exact hsurrounds

end Found

end Discovery

/-! ## Modules around a record -/

/-- The module `k` names up from a module. -/
def above (k : Nat) (module : List String) : List String := module.take (module.length - k)

theorem above_concat (k : Nat) (m : List String) (n : String) :
    above (k + 1) (m ++ [n]) = above k m := by
  simp [above, List.take_append_of_le_length]

/-- As many words `super` lead as many modules up, wherever the module is. -/
theorem climb_above (outer : List String) {m : List String} {k : Nat} (hk : k ≤ m.length)
    (rest : List String) : climb (outer ++ m).reverse (List.replicate k "super" ++ rest) =
      climb (outer ++ above k m).reverse rest := by
  induction k generalizing m with
  | zero => simp [above]
  | succ k ih =>
    obtain rfl | ⟨m, n, rfl⟩ := List.eq_nil_or_concat' m
    · cases hk
    · have hk' : k ≤ m.length := by simpa using hk
      rw [above_concat, ← ih hk', ← List.append_assoc, List.reverse_concat, List.replicate_succ,
        List.cons_append, climb]
      rfl

/-! ## What is passed on -/

/-- The import passes on everything in the module, wherever it stands. -/
theorem Scope.glob_meaning (s : Scope) (other declared : List String) :
    s.glob.leaves.map (·.meaning? other declared) = [some (.inside s.path, .everything)] := by
  have hleaves : s.glob.leaves = [⟨false, wordsBelow s.path [], .everything⟩] :=
    leaves_below false s.path .glob
  rw [hleaves, List.map_singleton, Leaf.meaning?_below]
  simp [Ending.names]

namespace Discovery.Found

variable {d : Discovery} {rs : List RecordPlan} {r : RecordPlan} {k : Nat}

theorem surrounds_plan (h : d.Found) (hrs : plansOf d.records = .ok rs) (hr : r ∈ rs) :
    r.module ≠ [] ∧ ∀ p, p ≠ [] → p <+: r.module → ∃ s, d.scopes.lookup p = some s := by
  obtain ⟨f, hf, hplan⟩ := exists_mem_of_mapM_eq_ok hrs r hr
  have hmodule : r.module = f.module := by
    split at hplan
    · cases hplan
      rfl
    · cases hplan
  obtain ⟨hnamed, hscopes⟩ := h.surrounds hf
  rw [hmodule]
  refine ⟨hnamed, fun p hp hstart => Option.isSome_iff_exists.1 ?_⟩
  exact hscopes p hp hstart (Nat.zero_le _)

/-- In the outermost module of the file stand modules only. -/
theorem exists_opens (h : d.Found) (hrs : plansOf d.records = .ok rs) {p : Piece}
    (hp : ([], p) ∈ placed [] ((AdapterModule.ofRecords rs).pieces d.scopes [])) :
    ∃ n, p = .opens n := by
  obtain ⟨m, -, hown | ⟨hne, -⟩⟩ := mem_placed_ofRecords.1 hp
  · rw [AdapterModule.ownPieces, List.mem_append, List.mem_append] at hown
    obtain (hscope | hunit) | hchild := hown
    · obtain ⟨s, hs, -⟩ := AdapterModule.mem_scopePieces.1 hscope
      exact absurd rfl (h.filed [] s hs).1
    · obtain ⟨r, -, rfl⟩ := List.mem_map.1 hunit
      obtain ⟨hr, hroot⟩ := unit_mem_placed.1 hp
      exact absurd hroot (h.surrounds_plan hrs hr).1
    · obtain ⟨c, -, rfl⟩ := List.mem_map.1 hchild
      exact ⟨c.1, rfl⟩
  · exact absurd rfl hne

/-- In the module of a record, a path that starts with words `super` leads to the counterpart of the
module to which it leads in the package. All that this one declares is passed on there, unless it is
the root: the outermost module of the file holds nothing but modules. -/
theorem reexports_above (h : d.Found) (hrs : plansOf d.records = .ok rs) (hr : r ∈ rs)
    (hk : k ≤ r.module.length) (wrapper : String) (rest : List String) :
    let ps := (AdapterModule.ofRecords rs).pieces d.scopes []
    let up := above k r.module
    Gives (adaptersFile wrapper d.scopes rs) (Nameable wrapper d.scopes rs)
      (mirrorFile wrapper ps rs) ∧
    (r.module, .unit r) ∈ placed [] ps ∧
    climb r.module.reverse (List.replicate k "super" ++ rest) = climb up.reverse rest ∧
    climb (wrapper :: r.module).reverse (List.replicate k "super" ++ rest) =
      climb (wrapper :: up).reverse rest ∧
    IsMirrored rs up ∧
    (k < r.module.length → ∃ s, (up, .reexport s) ∈ placed [] ps ∧ ∀ other declared,
      s.glob.leaves.map (·.meaning? other declared) = [some (.inside up, .everything)]) ∧
    (k = r.module.length → up = [] ∧ ∀ p, (up, p) ∈ placed [] ps → ∃ n, p = .opens n) := by
  intro ps up
  have hstart : up <+: r.module := List.take_prefix ..
  have hmirrored : IsMirrored rs up := .inr ⟨r, hr, hstart⟩
  refine ⟨adaptersFile_gives wrapper d.scopes rs, unit_mem_placed.2 ⟨hr, rfl⟩,
    climb_above [] hk rest, climb_above [wrapper] hk rest, hmirrored, fun hlt => ?_,
    fun hroot => ?_⟩
  · have hup : up ≠ [] := by
      have hlength : up.length = r.module.length - k := by simp [up, above]
      exact List.ne_nil_of_length_pos (by omega)
    obtain ⟨s, hs⟩ := (h.surrounds_plan hrs hr).2 up hup hstart
    refine ⟨s, reexport_mem_placed.2 ⟨hmirrored, hs⟩, fun other declared => ?_⟩
    rw [← (h.filed up s hs).2]
    exact s.glob_meaning other declared
  · have hup : up = [] := by simp [up, above, hroot]
    rw [hup]
    exact ⟨rfl, fun p hp => h.exists_opens hrs hp⟩

end Discovery.Found

namespace Samples

/-- A record with a field of a type from the root, and one of a type from the module around it. -/
def upward : FileTree where
  nodes := [(["src"], .directory), (["src", "lib.rs"], .file
    ("pub struct X; mod a \x7b pub struct Y; mod b \x7b #[derive(Kson)] pub struct R \x7b " ++
      "x: super::super::X, y: super::Y \x7d \x7d \x7d").toUTF8.toList)]

theorem upward_found : ∃ d rs r, Discovery.ofRoot upward ⟨"src/lib.rs"⟩ = .ok d ∧
    plansOf d.records = .ok rs ∧ r ∈ rs ∧ r.module = ["a", "b"] ∧
    r.fields.map (·.type.tokens.text) = ["super :: super :: X", "super :: Y"] ∧
    d.scopes.lookup [] = none := by
  have hfound : (Discovery.ofRoot upward ⟨"src/lib.rs"⟩).toOption.any (fun d =>
      (d.scopes.lookup []).isNone && (plansOf d.records).toOption.any fun rs => rs.any fun r =>
        r.module = ["a", "b"] ∧
          r.fields.map (·.type.tokens.text) = ["super :: super :: X", "super :: Y"]) = true := by
    decide +kernel
  obtain ⟨d, hd, h⟩ := (Option.any_eq_true _ _).1 hfound
  obtain ⟨hroot, h⟩ := Bool.and_eq_true_iff.1 h
  obtain ⟨rs, hrs, h⟩ := (Option.any_eq_true _ _).1 h
  obtain ⟨r, hr, h⟩ := List.any_eq_true.1 h
  obtain ⟨hmodule, hfields⟩ := of_decide_eq_true h
  exact ⟨d, rs, r, toOption_eq_some.1 hd, toOption_eq_some.1 hrs, hr, hmodule, hfields,
    Option.isNone_iff_eq_none.1 hroot⟩

/-- One module up, the type of one field is passed on. Two modules up there are modules only. -/
theorem reexports_above_upward : ∃ d rs r, Discovery.ofRoot upward ⟨"src/lib.rs"⟩ = .ok d ∧
    plansOf d.records = .ok rs ∧ r ∈ rs ∧ r.module = ["a", "b"] ∧
    (∃ s, (["a"], .reexport s) ∈ placed [] ((AdapterModule.ofRecords rs).pieces d.scopes [])) ∧
    ∀ p, ([], p) ∈ placed [] ((AdapterModule.ofRecords rs).pieces d.scopes []) →
      ∃ n, p = .opens n := by
  obtain ⟨d, rs, r, hd, hrs, hr, hmodule, -, -⟩ := upward_found
  have hfound : d.Found := ⟨upward, .inl ⟨_, hd⟩⟩
  have hlength : r.module.length = 2 := by rw [hmodule]; rfl
  have hone : 1 ≤ r.module.length := by omega
  obtain ⟨-, -, -, -, -, hbelow, -⟩ :=
    Discovery.Found.reexports_above hfound hrs hr hone "kson_generated" ["Y"]
  obtain ⟨-, -, -, -, -, -, hroot⟩ :=
    Discovery.Found.reexports_above hfound hrs hr hlength.ge "kson_generated" ["X"]
  obtain ⟨s, hs, -⟩ := hbelow (by omega)
  obtain ⟨htop, hopens⟩ := hroot hlength.symm
  rw [htop] at hopens
  rw [hmodule] at hs
  exact ⟨d, rs, r, hd, hrs, hr, hmodule, ⟨s, hs⟩, hopens⟩

/-- The type of one field is declared at the root, which the outermost module of the file does not
pass on. -/
theorem root_not_reexported : ∃ d rs r, Discovery.ofRoot upward ⟨"src/lib.rs"⟩ = .ok d ∧
    plansOf d.records = .ok rs ∧ r ∈ rs ∧ above 2 r.module = [] ∧
    "super :: super :: X" ∈ r.fields.map (·.type.tokens.text) ∧
    ∀ s, ([], .reexport s) ∉ placed [] ((AdapterModule.ofRecords rs).pieces d.scopes []) := by
  obtain ⟨d, rs, r, hd, hrs, hr, hmodule, hfields, hscope⟩ := upward_found
  refine ⟨d, rs, r, hd, hrs, hr, by rw [hmodule]; rfl, by simp [hfields], fun s hs => ?_⟩
  obtain ⟨-, hlookup⟩ := reexport_mem_placed.1 hs
  rw [hscope] at hlookup
  cases hlookup

end Samples

end JsonAdapters
