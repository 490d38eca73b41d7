import JsonAdapters.Proofs.Package.Inputs
import JsonAdapters.Proofs.Package.Reexports

/-!
# Bodies of modules

A module may be declared more than once, as when an attribute lets one of several declarations be
compiled. Each declaration has a body of its own, and a walk goes through all of them. It notes the
scope of each body in place of the one that it has noted for the same module before. Nothing is lost
for a module with one body: its scope holds the imports of the body, and all names that it declares.

## Main definitions

* `Body`, `SourceFile.bodies`: the bodies that are walked from a file on, in the order in which the
  walk leaves them.
* `Discovery.FoundIn`: what a walk of a package has found in some bodies.
* `Body.Notes`: what a walk through bodies adds.

## Main statements

* `Discovery.mem_bodies_iff`: these are the bodies in the files that are reached.
* `Walk.file_notes`: a walk through a file notes the scopes of its bodies.
* `Discovery.FoundIn.lookup_scopes`: the scope of a module is that of its last body.
* `Discovery.FoundIn.holds_of_single`: the scope of a module with one body holds all of it.
-/

namespace JsonAdapters

open Code Outcome Relation

/-! ## Bodies -/

/-- Content of a module, where it is declared or in a file of its own. -/
structure Body where
  module : List String
  items : List Item

namespace Body

/-- Items that are not for tests. -/
def compiled (b : Body) : List Item := b.items.filter fun i => !isForTests i.outerAttributes

def uses (b : Body) : List UseItem :=
  b.compiled.filterMap fun
    | .use u => some u
    | _ => none

def names (b : Body) : List String := b.compiled.filterMap (·.declaredName?)

def scope (b : Body) : Scope := .ofItems b.module b.items

/-- A discovery with the scope of the body in addition. -/
def note (scopes : Scopes) (b : Body) : Scopes :=
  if b.module = [] then scopes else scopes.insert b.scope

end Body

mutual

/-- Bodies in an item, which stands in a module inside of some others. Those of modules that have
files of their own are given by `go`. -/
def Code.Item.bodies (go : ModuleSite → List Body) (module : List String)
    (around : List (List Attribute × String)) : Item → List Body
  | .module attrs name (some is) =>
    bodiesOf go module (around ++ [(attrs, name)]) is ++
      [⟨module ++ (around ++ [(attrs, name)]).map (·.2), is⟩]
  | .module attrs name none => go ⟨around, attrs, name, false⟩
  | .use _ | .type _ | .named _ _ | .other => []

def bodiesOf (go : ModuleSite → List Body) (module : List String)
    (around : List (List Attribute × String)) : List Item → List Body
  | [] => []
  | i :: is =>
    (if isForTests i.outerAttributes then [] else i.bodies go module around) ++
      bodiesOf go module around is

end

/-- Bodies of a module's content, its own one the last. -/
def contentBodies (go : ModuleSite → List Body) (module : List String) (is : List Item) :
    List Body :=
  bodiesOf go module [] is ++ [⟨module, is⟩]

namespace SourceFile

/-- The bodies in the file of a module, if it has one. -/
def siteBodies (tree : FileTree) (go : SourceFile → List Body) (F : SourceFile) (m : ModuleSite) :
    List Body :=
  match F.enter tree m with
  | .error _ => []
  | .ok G => go G

/-- Bodies that are walked from a file on, with at most `n` files within files. -/
def bodies (tree : FileTree) : Nat → SourceFile → List Body
  | 0, _ => []
  | n + 1, F =>
    match F.items tree with
    | .error _ => []
    | .ok is => contentBodies (F.siteBodies tree (bodies tree n)) F.module is

/-- The root of a package whose items have been read before. -/
def unread (dir : FilePath) : SourceFile := ⟨⟨""⟩, dir, [], false⟩

end SourceFile

namespace Discovery

/-- A walk of a package has found this, and gone through these bodies. -/
inductive FoundIn : Discovery → List Body → Prop
  | root {tree : FileTree} {root : FilePath} {d : Discovery} (h : ofRoot tree root = .ok d) :
    FoundIn d ((SourceFile.root root).bodies tree tree.nesting)
  | items {tree : FileTree} {dir : FilePath} {is : List Item} {d : Discovery}
    (h : ofItems tree dir is = .ok d) :
    FoundIn d
      (contentBodies ((SourceFile.unread dir).siteBodies tree (SourceFile.bodies tree tree.nesting))
        [] is)

end Discovery

/-! ## Bodies of files that are reached -/

section Members

variable {go : ModuleSite → List Body} {module : List String} {b : Body}

mutual

theorem mem_bodies_item (around : List (List Attribute × String)) : ∀ i : Item,
    b ∈ i.bodies go module around ↔ b ∈ i.bodies (fun _ => []) module around ∨
      ∃ m ∈ i.moduleSites around, m.isInline = false ∧ b ∈ go m
  | .module attrs name (some is) => by
    simp [Item.bodies, Item.moduleSites, mem_bodiesOf (around ++ [(attrs, name)]) is, or_right_comm]
  | .module attrs name none => by simp [Item.bodies, Item.moduleSites]
  | .use _ | .type _ | .named _ _ | .other => by simp [Item.bodies, Item.moduleSites]

theorem mem_bodiesOf (around : List (List Attribute × String)) : ∀ is : List Item,
    b ∈ bodiesOf go module around is ↔ b ∈ bodiesOf (fun _ => []) module around is ∨
      ∃ m ∈ moduleSites around is, m.isInline = false ∧ b ∈ go m
  | [] => by simp [bodiesOf, moduleSites]
  | i :: is => by
    rw [bodiesOf, moduleSites, List.mem_append, mem_bodiesOf around is]
    by_cases htest : isForTests i.outerAttributes = true
    · simp [bodiesOf, htest]
    · rw [if_neg htest, if_neg htest, bodiesOf, if_neg htest, List.mem_append,
        mem_bodies_item around i]
      simp only [List.mem_append, or_and_right, exists_or]
      exact or_or_or_comm

end

theorem mem_contentBodies {is : List Item} : b ∈ contentBodies go module is ↔
    b ∈ contentBodies (fun _ => []) module is ∨ ∃ m ∈ fileSites is, b ∈ go m := by
  have hbodies : b ∈ bodiesOf go module [] is ↔ _ := mem_bodiesOf [] is
  simp [contentBodies, hbodies, fileSites, or_right_comm, and_assoc]

end Members

namespace SourceFile

variable {tree : FileTree} {F : SourceFile} {b : Body}

theorem reached_of_mem_bodies {n : Nat} (h : b ∈ F.bodies tree n) :
    ∃ G is, ReflTransGen (Enters tree) F G ∧ G.items tree = .ok is ∧
      b ∈ contentBodies (fun _ => []) G.module is := by
  induction n generalizing F with
  | zero => cases h
  | succ n ih =>
    rw [bodies] at h
    cases his : F.items tree with
    | error e =>
      rw [his] at h
      cases h
    | ok is =>
      rw [his] at h
      -- the body is in the file itself, or in the file of one of its modules
      rcases mem_contentBodies.1 h with h | ⟨m, hm, h⟩
      · exact ⟨F, is, .refl, his, h⟩
      · cases henter : F.enter tree m with
        | error e =>
          rw [siteBodies, henter] at h
          cases h
        | ok G =>
          rw [siteBodies, henter] at h
          obtain ⟨E, is', hE, his', hb⟩ := ih h
          exact ⟨E, is', .head ⟨is, his, m, hm, henter⟩ hE, his', hb⟩

theorem mem_bodies_of_reached {n : Nat} {files : List FilePath} {G : SourceFile} {is : List Item}
    (h : F.visits tree n = .ok files) (hG : ReflTransGen (Enters tree) F G)
    (his : G.items tree = .ok is) (hb : b ∈ contentBodies (fun _ => []) G.module is) :
    b ∈ F.bodies tree n := by
  induction hG using ReflTransGen.head_induction_on generalizing n files with
  | refl =>
    cases n with
    | zero => cases h
    | succ n =>
      rw [bodies, his]
      exact mem_contentBodies.2 (.inl hb)
  -- the bound of the walk is enough for the files on the way
  | head hstep _ ih =>
    cases n with
    | zero => cases h
    | succ n =>
      obtain ⟨files', hvisit, -⟩ := visits_of_enters h hstep
      obtain ⟨is', his', m, hm, henter⟩ := hstep
      rw [bodies, his']
      refine mem_contentBodies.2 (.inr ⟨m, hm, ?_⟩)
      rw [siteBodies, henter]
      exact ih hvisit

end SourceFile

/-- A walk of a package goes through the bodies in the files that are reached, and no others. -/
theorem Discovery.mem_bodies_iff {tree : FileTree} {root : FilePath} {d : Discovery} {b : Body}
    (h : ofRoot tree root = .ok d) : b ∈ (SourceFile.root root).bodies tree tree.nesting ↔
      ∃ F is, Reached tree root F ∧ F.items tree = .ok is ∧
        b ∈ contentBodies (fun _ => []) F.module is := by
  constructor
  · exact SourceFile.reached_of_mem_bodies
  · rintro ⟨F, is, hF, his, hb⟩
    have hvisits := files_ofFile tree tree.nesting root
    rw [← ofRoot, h] at hvisits
    exact SourceFile.mem_bodies_of_reached hvisits.symm hF his hb

/-! ## Scopes of bodies -/

theorem Body.scope_uses (b : Body) : b.scope.uses = b.uses := rfl

theorem Body.scope_names (b : Body) : b.scope.names = b.names := rfl

/-- The scope of the last body of a module is the one that is found. -/
theorem lookup_foldl_note (bs : List Body) (scopes : Scopes) {m : List String} (hm : m ≠ []) :
    (bs.foldl Body.note scopes).lookup m =
      ((bs.filter (·.module = m)).getLast?.map (·.scope)).or (scopes.lookup m) := by
  induction bs generalizing scopes with
  | nil => rfl
  | cons b bs ih =>
    have hnote : (Body.note scopes b).lookup m =
        if b.module = m then some b.scope else scopes.lookup m := by
      rw [Body.note]
      by_cases hroot : b.module = []
      · rw [if_pos hroot, if_neg (hroot ▸ Ne.symm hm)]
      · rw [if_neg hroot, Scopes.lookup_insert]
        exact if_congr eq_comm rfl rfl
    rw [List.foldl_cons, ih, hnote, List.filter_cons]
    by_cases hb : b.module = m
    · rw [if_pos hb, if_pos (decide_eq_true hb), List.getLast?_cons]
      cases (bs.filter (·.module = m)).getLast? <;> rfl
    · rw [if_neg hb, if_neg (by simpa using hb)]

/-! ## Walks through bodies -/

namespace Body

/-- From `d`, a walk through some bodies leads to `d'`. The walk stands in a module, of whose items
it has walked some itself. -/
structure Notes (module : List String) (own : List Item) (bs : List Body) (d d' : Discovery) :
    Prop where
  scopes : d'.scopes = bs.foldl note d.scopes
  records : ∀ r ∈ d'.records, r ∈ d.records ∨ (r.module = module ∧ .type r.declaration ∈ own) ∨
    ∃ b ∈ bs, r.module = b.module ∧ .type r.declaration ∈ b.compiled

namespace Notes

variable {module : List String} {own own' : List Item} {bs bs' : List Body} {d d₁ d' : Discovery}

theorem of_same (hscopes : d'.scopes = d.scopes) (hrecords : d'.records = d.records) :
    Notes module own [] d d' :=
  ⟨hscopes, fun _ hr => .inl (hrecords ▸ hr)⟩

theorem mono (h : Notes module own bs d d') (hown : own ⊆ own') : Notes module own' bs d d' where
  scopes := h.scopes
  records r hr := (h.records r hr).imp_right fun hr => hr.imp_left fun ⟨hm, hr⟩ => ⟨hm, hown hr⟩

theorem trans (h : Notes module own bs d d₁) (h' : Notes module own' bs' d₁ d') :
    Notes module (own ++ own') (bs ++ bs') d d' where
  scopes := by rw [h'.scopes, h.scopes, List.foldl_append]
  records r hr := by
    rcases h'.records r hr with hr | ⟨hm, hown⟩ | ⟨b, hb, hr⟩
    · rcases h.records r hr with hr | ⟨hm, hown⟩ | ⟨b, hb, hr⟩
      · exact .inl hr
      · exact .inr (.inl ⟨hm, List.mem_append_left _ hown⟩)
      · exact .inr (.inr ⟨b, List.mem_append_left _ hb, hr⟩)
    · exact .inr (.inl ⟨hm, List.mem_append_right _ hown⟩)
    · exact .inr (.inr ⟨b, List.mem_append_right _ hb, hr⟩)

/-- After the items of a body, the body itself is done. -/
theorem close {is : List Item} (other : List String)
    (h : Notes module (compiled ⟨module, is⟩) bs d d₁)
    (hscopes : d'.scopes = note d₁.scopes ⟨module, is⟩) (hrecords : d'.records = d₁.records) :
    Notes other [] (bs ++ [⟨module, is⟩]) d d' where
  scopes := by rw [hscopes, h.scopes, List.foldl_append]; rfl
  records r hr := by
    rw [hrecords] at hr
    rcases h.records r hr with hr | hown | ⟨b, hb, hr⟩
    · exact .inl hr
    · exact .inr (.inr ⟨⟨module, is⟩, by simp, hown⟩)
    · exact .inr (.inr ⟨b, List.mem_append_left _ hb, hr⟩)

end Notes

end Body

namespace Walk

open Body SourceFile

variable {tree : FileTree} {enter : FilePath → FilePath → List String → Walk Unit}
  {go : ModuleSite → List Body}

theorem noteType_notes (module : List String) (decl : Declaration) :
    Leads (Notes module [.type decl] []) (noteType module decl) := by
  have hrecord : Leads (Notes module [.type decl] [])
      (if (derivedNames decl.attributes).contains "Kson" && !module.isEmpty then
        modify fun s => { s with records := s.records ++ [⟨module, decl⟩] } else pure ()) := by
    split
    · refine .modify fun d => ⟨rfl, fun r hr => ?_⟩
      rcases List.mem_append.1 hr with hr | hr
      · exact .inl hr
      · obtain rfl := List.mem_singleton.1 hr
        exact .inr (.inl ⟨rfl, List.mem_singleton_self _⟩)
    · exact .nothing fun _ => .of_same rfl rfl
  unfold noteType
  dsimp only
  split
  · exact Leads.bind (R := Notes module [] []) (.modify fun _ => .of_same rfl rfl) hrecord
      fun _ _ _ => Notes.trans
  · exact hrecord

/-- After the items of a module's content, its scope is noted. -/
theorem Leads.closed {module : List String} {is : List Item} {bs : List Body} {w : Walk Unit}
    (other : List String) (h : Leads (Notes module (compiled ⟨module, is⟩) bs) w) :
    Leads (Notes other [] (bs ++ [⟨module, is⟩])) (w >>= fun _ => noteScope module is) := by
  refine h.bind (noteScope_leads module is) ?_
  rintro d d₁ d' hitems (⟨rfl, rfl⟩ | ⟨hmodule, rfl⟩)
  · exact hitems.close other rfl rfl
  · exact hitems.close other (by simp [note, hmodule, Body.scope]) rfl

mutual

theorem item_notes (F : SourceFile)
    (hgo : ∀ m G other, F.enter tree m = .ok G →
      Leads (Notes other [] (go m)) (enter G.file G.directory G.module))
    (around : List (List Attribute × String)) : ∀ i : Item,
    Leads (Notes (F.moduleAt around) [i] (i.bodies go F.module around))
      (item tree enter (F.directoryAt around) (F.moduleAt around) i)
  | .type decl => by
    rw [item]
    split
    · exact noteType_notes _ decl
    · exact .nothing fun _ => .of_same rfl rfl
  | .module attrs name (some is) => by
    have hinner := itemList_notes F hgo (around ++ [(attrs, name)]) is
    rw [directoryAt_concat, moduleAt_concat] at hinner
    rw [item, Item.bodies, List.map_append, ← List.append_assoc]
    -- the scope of an inline module is noted when all in it is visited
    have hbody := hinner.closed (F.moduleAt around)
    intro d d' hrun
    exact (hbody d d' hrun).mono (List.nil_subset _)
  | .module attrs name none => by
    rw [item, Item.bodies]
    cases hfile : (moduleFiles (F.directoryAt around) attrs name).find? tree.isFile with
    | none => exact .fault _
    | some file =>
      have hinner := hgo ⟨around, attrs, name, false⟩ _ (F.moduleAt around)
        (enter_eq_ok.2 ⟨file, hfile, rfl⟩)
      intro d d' hrun
      exact (hinner d d' hrun).mono (List.nil_subset _)
  | .use _ | .named _ _ | .other => .nothing fun _ => .of_same rfl rfl

theorem itemList_notes (F : SourceFile)
    (hgo : ∀ m G other, F.enter tree m = .ok G →
      Leads (Notes other [] (go m)) (enter G.file G.directory G.module))
    (around : List (List Attribute × String)) : ∀ is : List Item,
    Leads (Notes (F.moduleAt around) (compiled ⟨F.moduleAt around, is⟩)
        (bodiesOf go F.module around is))
      (itemList tree enter (F.directoryAt around) (F.moduleAt around) is)
  | [] => .nothing fun _ => .of_same rfl rfl
  | i :: is => by
    have hrest := itemList_notes F hgo around is
    rw [itemList, bodiesOf, compiled, List.filter_cons]
    by_cases htest : isForTests i.outerAttributes = true
    · rw [if_pos htest, if_pos htest, if_neg (by simp [htest])]
      exact hrest
    · rw [if_neg htest, if_neg htest, if_pos (by simp [htest])]
      exact (item_notes F hgo around i).bind hrest fun _ _ _ => Notes.trans

end

theorem items_notes (F : SourceFile)
    (hgo : ∀ m G other, F.enter tree m = .ok G →
      Leads (Notes other [] (go m)) (enter G.file G.directory G.module))
    (other : List String) (is : List Item) :
    Leads (Notes other [] (contentBodies go F.module is))
      (items tree enter F.directory F.module is) := by
  have hlist := itemList_notes F hgo [] is
  rw [moduleAt, List.map_nil, List.append_nil] at hlist
  exact hlist.closed other

/-- A walk through a file notes the scopes of the bodies in it and in the files within it, each in
place of the one that it has noted for the module before. -/
theorem file_notes (n : Nat) (F : SourceFile) (other : List String) :
    Leads (Notes other [] (F.bodies tree n)) (file tree n F.file F.directory F.module) := by
  induction n generalizing F other with
  | zero => exact .fault _
  | succ n ih =>
    rw [file_eq, bodies]
    cases F.items tree with
    | error e => exact .fault e
    | ok is =>
      have hnote : Leads (Notes other [] []) (noteFile F.file) := .modify fun _ => .of_same rfl rfl
      refine hnote.bind (items_notes F (fun m G other henter => ?_) other is) fun _ _ _ => .trans
      rw [siteBodies, henter]
      exact ih G other

end Walk

namespace Discovery.FoundIn

variable {d : Discovery} {bs : List Body} {m : List String}

theorem notes (h : d.FoundIn bs) : Body.Notes [] [] bs {} d := by
  have of_walk {d : Discovery} {bs : List Body} {w : Walk Unit}
      (hw : Walk.Leads (Body.Notes [] [] bs) w) (hrun : ofWalk w = .ok d) :
      Body.Notes [] [] bs {} d := by
    obtain ⟨⟨⟨⟩, d'⟩, hw', rfl⟩ := map_eq_ok.1 hrun
    exact hw {} d' hw'
  cases h with
  | @root tree root _ hrun =>
    have hroot : Walk.Leads (Body.Notes [] [] _) (Walk.file tree _ _ _ _) :=
      Walk.file_notes tree.nesting (.root root) []
    simp only [SourceFile.root] at hroot ⊢
    exact of_walk hroot hrun
  | @items tree dir is _ hrun =>
    refine of_walk (Walk.items_notes (.unread dir) (fun m G other henter => ?_) [] is) hrun
    rw [SourceFile.siteBodies, henter]
    exact Walk.file_notes _ G other

/-- The scope of a module is that of the last body that the walk has gone through. -/
theorem lookup_scopes (h : d.FoundIn bs) (hm : m ≠ []) :
    d.scopes.lookup m = (bs.filter (·.module = m)).getLast?.map (·.scope) := by
  rw [h.notes.scopes, lookup_foldl_note bs _ hm]
  exact Option.or_none

/-- Records are declared in bodies, and are not for tests. -/
theorem exists_body (h : d.FoundIn bs) {r : FoundRecord} (hr : r ∈ d.records) :
    ∃ b ∈ bs, r.module = b.module ∧ .type r.declaration ∈ b.compiled := by
  rcases h.notes.records r hr with hr | ⟨-, hr⟩ | hr
  · cases hr
  · cases hr
  · exact hr

/-- The scope of a module with one body holds all imports of the body and all names that it
declares. A record of the module stands in this body, with the imports that its types are written
against. -/
theorem holds_of_single (h : d.FoundIn bs) (hm : m ≠ [])
    (hone : (bs.filter (·.module = m)).length ≤ 1) :
    (∀ b ∈ bs, b.module = m → ∃ s, d.scopes.lookup m = some s ∧ s.path = m ∧
      s.uses = (bs.filter (·.module = m)).flatMap (·.uses) ∧
      s.names = (bs.filter (·.module = m)).flatMap (·.names)) ∧
    ∀ r ∈ d.records, r.module = m → ∃ b ∈ bs, b.module = m ∧ .type r.declaration ∈ b.compiled ∧
      ∃ s, d.scopes.lookup m = some s ∧ s.uses = b.uses ∧ s.names = b.names := by
  -- the module has one body, so its scope is of that body
  have single {b : Body} (hb : b ∈ bs) (hmodule : b.module = m) :
      bs.filter (·.module = m) = [b] := by
    have hmem : b ∈ bs.filter (·.module = m) := List.mem_filter.2 ⟨hb, by simpa using hmodule⟩
    obtain ⟨b', hb'⟩ := List.length_eq_one_iff.1
      (le_antisymm hone (List.length_pos_of_mem hmem))
    rw [hb'] at hmem ⊢
    rw [List.mem_singleton.1 hmem]
  constructor
  · intro b hb hmodule
    have hbs := single hb hmodule
    refine ⟨b.scope, by rw [h.lookup_scopes hm, hbs]; rfl, hmodule, ?_, ?_⟩
    · simp [hbs, b.scope_uses]
    · simp [hbs, b.scope_names]
  · intro r hr hmodule
    obtain ⟨b, hb, hbody, htype⟩ := h.exists_body hr
    have hbm : b.module = m := hbody.symm.trans hmodule
    refine ⟨b, hb, hbm, htype, b.scope, ?_, b.scope_uses, b.scope_names⟩
    rw [h.lookup_scopes hm, single hb hbm]
    rfl

end Discovery.FoundIn

namespace Samples

/-- A module in another one, which has a record and an import behind it. -/
def embracing : FileTree where
  nodes := [(["src"], .directory), (["src", "lib.rs"], .file
    ("mod model \x7b use a::X; mod inner \x7b use b::Y; \x7d " ++
      "#[derive(Kson)] struct R; use c::Z; \x7d").toUTF8.toList)]

def embracingBodies : List Body :=
  (SourceFile.root ⟨"src/lib.rs"⟩).bodies embracing embracing.nesting

theorem holds_embracing : ∃ (d : Discovery) (s : Scope), d.FoundIn embracingBodies ∧
    ["model"] ≠ [] ∧ (embracingBodies.filter (·.module = ["model"])).length ≤ 1 ∧
    d.scopes.lookup ["model"] = some s ∧ s.uses.flatMap (·.leaves) =
      [⟨false, [.name "a"], .own "X"⟩, ⟨false, [.name "c"], .own "Z"⟩] ∧
    s.names = ["inner", "R"] := by
  have hrun : (Discovery.ofRoot embracing ⟨"src/lib.rs"⟩).toOption.isSome = true := by
    decide +kernel
  have hbodies : (embracingBodies.filter (·.module = ["model"])).map
      (fun b => (b.uses.flatMap (·.leaves), b.names)) =
      [([⟨false, [.name "a"], .own "X"⟩, ⟨false, [.name "c"], .own "Z"⟩], ["inner", "R"])] := by
    decide +kernel
  obtain ⟨d, hd⟩ := Option.isSome_iff_exists.1 hrun
  have hfound : d.FoundIn embracingBodies := .root (toOption_eq_some.1 hd)
  obtain ⟨b, hb, hcontent⟩ := List.map_eq_singleton_iff.1 hbodies
  obtain ⟨huses, hnames⟩ := Prod.mk.inj hcontent
  -- the walk and the bodies are computed; that they belong together is the theorem
  have hmem : b ∈ embracingBodies.filter (·.module = ["model"]) := by simp [hb]
  obtain ⟨hwalked, hmodule⟩ := List.mem_filter.1 hmem
  have hone : (embracingBodies.filter (·.module = ["model"])).length ≤ 1 := by simp [hb]
  obtain ⟨s, hs, -, hsuses, hsnames⟩ := (Discovery.FoundIn.holds_of_single hfound (by decide)
    hone).1 b hwalked (of_decide_eq_true hmodule)
  rw [hb, List.flatMap_singleton] at hsuses hsnames
  exact ⟨d, s, hfound, by decide, hone, hs, by rw [hsuses, huses], by rw [hsnames, hnames]⟩

/-- A module that is declared twice, of which one declaration is compiled. -/
def alternatives : FileTree where
  nodes := [(["src"], .directory), (["src", "lib.rs"], .file
    ("#[cfg(unix)] mod imp \x7b use a::X; #[derive(Kson)] struct R \x7b x: X \x7d \x7d " ++
      "#[cfg(windows)] mod imp \x7b use b::Y; \x7d").toUTF8.toList)]

/-- The scope of the second body takes the place of the first one's, in which the record stands. -/
theorem alternatives_lose : ∃ d bs, Discovery.ofRoot alternatives ⟨"src/lib.rs"⟩ = .ok d ∧
    bs = (SourceFile.root ⟨"src/lib.rs"⟩).bodies alternatives alternatives.nesting ∧
    d.records.map (·.module) = [["imp"]] ∧
    ((bs.filter (·.module = ["imp"])).flatMap (·.uses)).flatMap (·.leaves) =
      [⟨false, [.name "a"], .own "X"⟩, ⟨false, [.name "b"], .own "Y"⟩] ∧
    ∃ s, d.scopes.lookup ["imp"] = some s ∧
      s.uses.flatMap (·.leaves) = [⟨false, [.name "b"], .own "Y"⟩] ∧
      s.uses ≠ (bs.filter (·.module = ["imp"])).flatMap (·.uses) := by
  set bs := (SourceFile.root ⟨"src/lib.rs"⟩).bodies alternatives alternatives.nesting with hbs
  have hboth : ((bs.filter (·.module = ["imp"])).flatMap (·.uses)).flatMap (·.leaves) =
      [⟨false, [.name "a"], .own "X"⟩, ⟨false, [.name "b"], .own "Y"⟩] := by decide +kernel
  have hrun : (Discovery.ofRoot alternatives ⟨"src/lib.rs"⟩).toOption.any (fun d =>
      d.records.map (·.module) = [["imp"]] ∧ (d.scopes.lookup ["imp"]).any fun s =>
        s.uses.flatMap (·.leaves) = [⟨false, [.name "b"], .own "Y"⟩]) = true := by decide +kernel
  obtain ⟨d, hd, h⟩ := (Option.any_eq_true _ _).1 hrun
  obtain ⟨hrecords, h⟩ := of_decide_eq_true h
  obtain ⟨s, hs, hleaves⟩ := (Option.any_eq_true _ _).1 h
  refine ⟨d, bs, toOption_eq_some.1 hd, hbs, hrecords, hboth, s, hs, of_decide_eq_true hleaves, ?_⟩
  -- the scope has one leaf, and the bodies have two
  intro heq
  rw [heq, hboth] at hleaves
  simp at hleaves

end Samples

end JsonAdapters
