import JsonAdapters.Proofs.Package.Scoping

/-!
# What a walk collects

A walk through items goes into every module whose content stands where it is declared. It notes the
records and markers among the types at all depths, in the order of the source and each one once, and
it passes by what is for tests, with all that is inside of it. Here the types are listed first, and
what counts is sifted from the list afterwards.

## Main definitions

* `ItemSite`, `itemSites`: an item and the modules around it, and all items at all depths.
* `Code.Declaration.Derives`: a type derives a name.
* `compiledItems`, `compiledTypes`: what is left when that for tests is taken away.
* `Discovery.Collects`: what a walk through items adds.

## Main statements

* `Walk.itemList_collects`: a walk through items notes the records and markers among them.
* `compiled_sublist`: what a body of a module declares is left in this module.
* `Discovery.ofItems_collects`: what is collected from the items of a root file.
-/

namespace JsonAdapters

open Code Outcome

/-! ## Types that derive a name -/

/-- The paths in an attribute that lists what is derived, if it can be read. -/
def Code.Attribute.derivedPaths (a : Attribute) : List Path :=
  if a.path.isIdent "derive" then
    match a.body with
    | .list _ ts => (readTokens? (fun g => commaList (Code.path g false)) ts).getD []
    | _ => []
  else []

/-- The path ends in the name. -/
def Code.Path.EndsIn (p : Path) (name : String) : Prop :=
  p.segments.getLast?.map Segment.name = some name

instance (p : Path) (name : String) : Decidable (p.EndsIn name) :=
  inferInstanceAs (Decidable (p.segments.getLast?.map Segment.name = some name))

/-- A path that ends in the name is derived. -/
def Code.Declaration.Derives (d : Declaration) (name : String) : Prop :=
  ∃ a ∈ d.attributes, ∃ p ∈ a.derivedPaths, p.EndsIn name

instance (d : Declaration) (name : String) : Decidable (d.Derives name) :=
  inferInstanceAs (Decidable (∃ a ∈ d.attributes, ∃ p ∈ a.derivedPaths, p.EndsIn name))

/-- A declaration derives what its attributes say. -/
theorem contains_derivedNames {d : Declaration} {name : String} :
    (derivedNames d.attributes).contains name = decide (d.Derives name) := by
  have hone (a : Attribute) : (∃ p ∈ a.derivedPaths, p.EndsIn name) ↔
      a.path.isIdent "derive" = true ∧ name ∈ (match a.body with
        | .list _ ts =>
          ((readTokens? (fun g => commaList (Code.path g false)) ts).getD []).filterMap
            fun p : Path => p.segments.getLast?.map Segment.name
        | _ => []) := by
    unfold Attribute.derivedPaths
    by_cases hderive : a.path.isIdent "derive" = true
    · rw [if_pos hderive, and_iff_right hderive]
      cases a.body with
      | list _ ts => exact List.mem_filterMap.symm
      | none | value => simp
    · simp [hderive]
  rw [Bool.eq_iff_iff, List.contains_iff_mem, decide_eq_true_iff, derivedNames, List.mem_flatMap]
  refine exists_congr fun a => ?_
  exact (and_congr_left' List.mem_filter).trans (and_assoc.trans (and_congr_right' (hone a).symm))

/-! ## Places of items -/

/-- Where an item stands. -/
structure ItemSite where
  /-- Attributes and names of the modules around it, from the outside to the inside. -/
  around : List (List Attribute × String)
  item : Item

namespace ItemSite

def module (s : ItemSite) : List String := s.around.map (·.2)

/-- The item or a module around it is for tests. -/
def IsForTests (s : ItemSite) : Prop :=
  isForTests s.item.outerAttributes ∨ ∃ m ∈ s.around, isForTests m.1

instance (s : ItemSite) : Decidable s.IsForTests :=
  inferInstanceAs (Decidable (_ ∨ ∃ m ∈ s.around, isForTests m.1))

/-- The structure or enumeration that stands here. -/
def type? (s : ItemSite) : Option FoundRecord :=
  match s.item with
  | .type d => if d.isWalked then some ⟨s.module, d⟩ else none
  | _ => none

end ItemSite

mutual

/-- Items inside of an item, at all depths. -/
def Code.Item.innerSites (around : List (List Attribute × String)) : Item → List ItemSite
  | .module attrs name (some is) => itemSites (around ++ [(attrs, name)]) is
  | .module _ _ none | .use _ | .type _ | .named _ _ | .other => []

/-- Items and those inside of them, in the order of the source. -/
def itemSites (around : List (List Attribute × String)) : List Item → List ItemSite
  | [] => []
  | i :: is => ⟨around, i⟩ :: i.innerSites around ++ itemSites around is

end

/-- The places that have nothing to do with tests. -/
def compiledSites (ss : List ItemSite) : List ItemSite := ss.filter (¬ ·.IsForTests)

/-- The structures and enumerations at some places. -/
def typesAt (ss : List ItemSite) : List FoundRecord := (compiledSites ss).filterMap (·.type?)

/-- The items of a module; should it be declared several times, those of all its bodies. -/
def itemsAt (ss : List ItemSite) (module : List String) : List Item :=
  ((compiledSites ss).filter (·.module = module)).map (·.item)

/-- The types that are records, which must be in a module. -/
def recordsAmong (types : List FoundRecord) : List FoundRecord :=
  types.filter fun t => t.module ≠ [] ∧ t.declaration.Derives "Kson"

/-- The types that mark a factory, wherever they are. -/
def markersAmong (types : List FoundRecord) : List Marker :=
  (types.filter fun t => t.declaration.Derives "KsonFactory").map fun t =>
    ⟨t.module, t.declaration.name⟩

section Sites

variable {around : List (List Attribute × String)}

mutual

/-- Items within an item stand in the modules around it. -/
theorem prefix_of_mem_innerSites (around : List (List Attribute × String)) :
    ∀ i : Item, ∀ s ∈ i.innerSites around, around <+: s.around
  | .module attrs name (some is), s, hs =>
    (List.prefix_append around _).trans
      (prefix_of_mem_itemSites (around ++ [(attrs, name)]) is s hs)
  | .module _ _ none, _, hs | .use _, _, hs | .type _, _, hs | .named _ _, _, hs | .other, _, hs =>
    nomatch hs

/-- Items of a module stand in the modules around it. -/
theorem prefix_of_mem_itemSites (around : List (List Attribute × String)) :
    ∀ is : List Item, ∀ s ∈ itemSites around is, around <+: s.around
  | i :: is, s, hs => by
    rcases List.mem_cons.1 hs with rfl | hs
    · exact List.prefix_rfl
    · rcases List.mem_append.1 hs with hs | hs
      · exact prefix_of_mem_innerSites around i s hs
      · exact prefix_of_mem_itemSites around is s hs

end

/-- Nothing is left of what stands inside of a module for tests. -/
theorem compiledSites_of_around {m : List Attribute × String} (hm : m ∈ around)
    (htest : isForTests m.1) (is : List Item) : compiledSites (itemSites around is) = [] := by
  refine List.filter_eq_nil_iff.2 fun s hs => ?_
  have hforTests : s.IsForTests :=
    .inr ⟨m, (prefix_of_mem_itemSites around is s hs).subset hm, htest⟩
  simp [hforTests]

/-- Nothing is left of an item for tests. -/
theorem compiledSites_of_isForTests {i : Item} (h : isForTests i.outerAttributes) :
    compiledSites (⟨around, i⟩ :: i.innerSites around) = [] := by
  have hself : (⟨around, i⟩ : ItemSite).IsForTests := .inl h
  rw [compiledSites, List.filter_cons_of_neg (by simpa using hself)]
  match i, h with
  | .module attrs name (some is), h =>
    exact compiledSites_of_around (m := (attrs, name)) (by simp) h is
  | .module _ _ none, _ | .use _, _ | .type _, _ | .named _ _, _ | .other, _ => rfl

/-- An item that is not for tests is compiled, where the modules around it are. -/
theorem compiledSites_cons {i : Item} {ss : List ItemSite}
    (haround : ∀ m ∈ around, ¬ isForTests m.1) (h : ¬ isForTests i.outerAttributes) :
    compiledSites (⟨around, i⟩ :: ss) = ⟨around, i⟩ :: compiledSites ss := by
  refine List.filter_cons_of_pos ?_
  have hself : ¬ (⟨around, i⟩ : ItemSite).IsForTests := by
    rintro (hi | ⟨m, hm, htest⟩)
    · exact h hi
    · exact haround m hm htest
  simpa using hself

/-- Items are compiled one by one. -/
theorem compiledSites_append (ss ts : List ItemSite) :
    compiledSites (ss ++ ts) = compiledSites ss ++ compiledSites ts :=
  List.filter_append _ _

/-- Types come from the items in their order. -/
theorem typesAt_append (ss ts : List ItemSite) : typesAt (ss ++ ts) = typesAt ss ++ typesAt ts := by
  rw [typesAt, compiledSites_append, List.filterMap_append, typesAt, typesAt]

/-- Items of a module come in their order. -/
theorem itemsAt_append (ss ts : List ItemSite) (module : List String) :
    itemsAt (ss ++ ts) module = itemsAt ss module ++ itemsAt ts module := by
  rw [itemsAt, compiledSites_append, List.filter_append, List.map_append, itemsAt, itemsAt]

end Sites

/-! ## Walks through items -/

namespace Discovery

/-- From `d`, a walk through items at these places leads to `d'`. -/
structure Collects (ss : List ItemSite) (d d' : Discovery) : Prop where
  records : d'.records = d.records ++ recordsAmong (typesAt ss)
  markers : d'.markers = d.markers ++ markersAmong (typesAt ss)

namespace Collects

variable {ss ts : List ItemSite} {d d₁ d' : Discovery}

/-- Where there is no type, nothing is collected. -/
theorem of_same (hrecords : d'.records = d.records) (hmarkers : d'.markers = d.markers)
    (hnone : typesAt ss = []) : Collects ss d d' := by
  constructor
  · rw [hnone, hrecords]
    exact (List.append_nil _).symm
  · rw [hnone, hmarkers]
    exact (List.append_nil _).symm

/-- Types are collected item by item. -/
theorem trans (h : Collects ss d d₁) (h' : Collects ts d₁ d') : Collects (ss ++ ts) d d' := by
  constructor
  · rw [h'.records, h.records, typesAt_append, recordsAmong, recordsAmong, recordsAmong,
      List.filter_append, List.append_assoc]
  · rw [h'.markers, h.markers, typesAt_append, markersAmong, markersAmong, markersAmong,
      List.filter_append, List.map_append, List.append_assoc]

end Collects

end Discovery

namespace Walk

open Discovery

variable {tree : FileTree} {enter : FilePath → FilePath → List String → Walk Unit}
  {around : List (List Attribute × String)}

/-- A type that is noted is a marker, a record, both, or neither. -/
theorem noteType_adds (module : List String) (decl : Declaration) (d : Discovery) :
    noteType module decl d = .ok ((), { d with
      records := d.records ++ recordsAmong [⟨module, decl⟩]
      markers := d.markers ++ markersAmong [⟨module, decl⟩] }) := by
  unfold noteType
  dsimp only
  rw [contains_derivedNames, contains_derivedNames]
  by_cases hmarker : decl.Derives "KsonFactory" <;> by_cases hrecord : decl.Derives "Kson" <;>
    cases module <;> simp [hmarker, hrecord, recordsAmong, markersAmong] <;> rfl

/-- A type is noted as record, as marker, or as both, by what it derives. -/
theorem noteType_collects (haround : ∀ m ∈ around, ¬ isForTests m.1) {decl : Declaration}
    (htest : ¬ isForTests (Item.type decl).outerAttributes) (hwalked : decl.isWalked) :
    Leads (Collects [⟨around, .type decl⟩]) (noteType (around.map (·.2)) decl) := by
  have htype : typesAt [⟨around, .type decl⟩] = [⟨around.map (·.2), decl⟩] := by
    rw [typesAt, compiledSites_cons haround htest]
    simp [compiledSites, ItemSite.type?, ItemSite.module, hwalked]
  intro d d' hrun
  rw [noteType_adds, ← htype] at hrun
  cases hrun
  exact ⟨rfl, rfl⟩

/-- To note a scope collects no type. -/
theorem noteScope_collects (module : List String) (is : List Item) :
    Leads (Collects []) (noteScope module is) := by
  intro d d' hrun
  rcases noteScope_leads module is d d' hrun with ⟨-, rfl⟩ | ⟨-, rfl⟩ <;> exact .of_same rfl rfl rfl

mutual

/-- One step: a type is noted, and a module is walked through. -/
theorem item_collects (dir : FilePath) (around : List (List Attribute × String))
    (haround : ∀ m ∈ around, ¬ isForTests m.1) : ∀ i : Item, ¬ isForTests i.outerAttributes →
    (i.moduleSites around).all (·.isInline) →
    Leads (Collects (⟨around, i⟩ :: i.innerSites around))
      (item tree enter dir (around.map (·.2)) i)
  | .type decl, htest, _ => by
    rw [item]
    split
    · next hwalked => exact noteType_collects haround htest hwalked
    · next hwalked =>
      refine .nothing fun _ => .of_same rfl rfl ?_
      rw [typesAt, compiledSites_cons haround htest]
      simp [compiledSites, Item.innerSites, ItemSite.type?, hwalked]
  | .module attrs name (some is), htest, hinline => by
    have hinner : ∀ m ∈ around ++ [(attrs, name)], ¬ isForTests m.1 :=
      List.forall_mem_append.2 ⟨haround, List.forall_mem_singleton.2 htest⟩
    have hlist := itemList_collects (inlineModuleDirectory dir attrs name)
      (around ++ [(attrs, name)]) hinner is (by simpa [Item.moduleSites] using hinline)
    rw [List.map_append] at hlist
    rw [item, Item.innerSites]
    refine hlist.bind (noteScope_collects _ is) fun d d₁ d' hitems hscope => ?_
    -- the scope comes after the items, and adds no type
    have hall := hitems.trans hscope
    rw [List.append_nil] at hall
    have hself : typesAt [⟨around, .module attrs name (some is)⟩] = [] := by
      rw [typesAt, compiledSites_cons haround htest]
      rfl
    exact (Collects.of_same rfl rfl hself).trans hall
  | .module attrs name none, _, hinline => by simp [Item.moduleSites] at hinline
  | .use _, htest, _ | .named _ _, htest, _ | .other, htest, _ => by
    refine .nothing fun _ => .of_same rfl rfl ?_
    rw [typesAt, compiledSites_cons haround htest]
    rfl

/-- A walk through items notes the records and markers among them, at all depths. -/
theorem itemList_collects (dir : FilePath) (around : List (List Attribute × String))
    (haround : ∀ m ∈ around, ¬ isForTests m.1) : ∀ is : List Item,
    (moduleSites around is).all (·.isInline) →
    Leads (Collects (itemSites around is)) (itemList tree enter dir (around.map (·.2)) is)
  | [], _ => .nothing fun _ => .of_same rfl rfl rfl
  | i :: is, hinline => by
    rw [moduleSites, List.all_append, Bool.and_eq_true] at hinline
    have hrest := itemList_collects dir around haround is hinline.2
    rw [itemList, itemSites]
    by_cases htest : isForTests i.outerAttributes = true
    · have hskipped : Leads (Collects (⟨around, i⟩ :: i.innerSites around)) (pure ()) :=
        .nothing fun _ => .of_same rfl rfl (by rw [typesAt, compiledSites_of_isForTests htest]; rfl)
      rw [if_pos htest]
      exact hskipped.bind hrest fun _ _ _ => Collects.trans
    · rw [if_neg htest] at hinline
      rw [if_neg htest]
      exact (item_collects dir around haround i htest hinline.1).bind hrest
        fun _ _ _ => Collects.trans

end

end Walk

/-! ## Scopes -/

def Code.Item.use? : Item → Option UseItem
  | .use u => some u
  | _ => none

/-- Imports of a body are among its compiled items. -/
theorem Body.uses_eq (b : Body) : b.uses = b.compiled.filterMap (·.use?) := by
  refine congrArg (List.filterMap · b.compiled) (funext fun i => ?_)
  cases i <;> rfl

/-- An entry of scopes is the one that was put in, or an old one. -/
theorem Scopes.mem_insert {s : Scope} {scopes : Scopes} {e : List String × Scope}
    (h : e ∈ scopes.insert s) : e = (s.path, s) ∨ e ∈ scopes := by
  induction scopes with
  | nil => exact .inl (List.mem_singleton.1 h)
  | cons entry rest ih =>
    obtain ⟨m, t⟩ := entry
    rw [Scopes.insert] at h
    split at h
    · next hm =>
      rw [hm]
      exact (List.mem_cons.1 h).imp_right (List.mem_cons_of_mem _)
    split at h
    · exact List.mem_cons.1 h
    · rcases List.mem_cons.1 h with rfl | h
      · exact .inr List.mem_cons_self
      · exact (ih h).imp_right (List.mem_cons_of_mem _)

/-- A scope that is noted is that of a body. -/
theorem mem_foldl_note {bs : List Body} {scopes : Scopes} {e : List String × Scope}
    (h : e ∈ bs.foldl Body.note scopes) : e ∈ scopes ∨ ∃ b ∈ bs, e = (b.module, b.scope) := by
  induction bs generalizing scopes with
  | nil => exact .inl h
  | cons b bs ih =>
    rw [List.foldl_cons] at h
    rcases ih h with h | ⟨b', hb', rfl⟩
    · rw [Body.note] at h
      split at h
      · exact .inl h
      · rcases Scopes.mem_insert h with rfl | h
        · exact .inr ⟨b, List.mem_cons_self, rfl⟩
        · exact .inl h
    · exact .inr ⟨b', List.mem_cons_of_mem b hb', rfl⟩

section Bodies

open List (Sublist)

/-- The items of a body that are not for tests are left in its module. -/
theorem compiled_sublist_own {around : List (List Attribute × String)}
    (haround : ∀ m ∈ around, ¬ isForTests m.1) (is : List Item) :
    (Body.compiled ⟨around.map (·.2), is⟩).Sublist
      (itemsAt (itemSites around is) (around.map (·.2))) := by
  induction is with
  | nil => exact .slnil
  | cons i is ih =>
    rw [itemSites, itemsAt_append, Body.compiled, List.filter_cons]
    by_cases htest : isForTests i.outerAttributes = true
    · rw [if_neg (by simp [htest])]
      exact ih.trans (List.sublist_append_right _ _)
    · have hself : itemsAt (⟨around, i⟩ :: i.innerSites around) (around.map (·.2)) =
          i :: itemsAt (i.innerSites around) (around.map (·.2)) := by
        rw [itemsAt, compiledSites_cons haround htest]
        simp [ItemSite.module, itemsAt]
      rw [if_pos (by simp [htest]), hself, List.cons_append]
      exact (ih.trans (List.sublist_append_right _ _)).cons_cons i

mutual

/-- Items that a body within an item declares stand in its module. -/
theorem compiled_sublist_item (around : List (List Attribute × String))
    (haround : ∀ m ∈ around, ¬ isForTests m.1) : ∀ i : Item, ¬ isForTests i.outerAttributes →
    ∀ b ∈ i.bodies (fun _ => []) [] around,
      b.compiled.Sublist (itemsAt (i.innerSites around) b.module)
  | .module attrs name (some is), htest, b, hb => by
    have hinner : ∀ m ∈ around ++ [(attrs, name)], ¬ isForTests m.1 :=
      List.forall_mem_append.2 ⟨haround, List.forall_mem_singleton.2 htest⟩
    rw [Item.bodies] at hb
    rcases List.mem_append.1 hb with hb | hb
    · exact compiled_sublist (around ++ [(attrs, name)]) hinner is b hb
    · obtain rfl := List.mem_singleton.1 hb
      exact compiled_sublist_own hinner is
  | .module _ _ none, _, _, hb | .use _, _, _, hb | .type _, _, _, hb | .named _ _, _, _, hb
  | .other, _, _, hb => nomatch hb

/-- What a body of a module declares is left in this module. -/
theorem compiled_sublist (around : List (List Attribute × String))
    (haround : ∀ m ∈ around, ¬ isForTests m.1) : ∀ is : List Item,
    ∀ b ∈ bodiesOf (fun _ => []) [] around is,
      b.compiled.Sublist (itemsAt (itemSites around is) b.module)
  | i :: is, b, hb => by
    rw [bodiesOf] at hb
    rw [itemSites, itemsAt_append, ← List.singleton_append, itemsAt_append]
    rcases List.mem_append.1 hb with hb | hb
    · split at hb
      · cases hb
      · next htest =>
        refine (compiled_sublist_item around haround i htest b hb).trans ?_
        exact (List.sublist_append_right _ _).trans (List.sublist_append_left _ _)
    · exact (compiled_sublist around haround is b hb).trans (List.sublist_append_right _ _)

end

end Bodies

/-! ## Root files -/

namespace Discovery

variable {tree : FileTree} {dir : FilePath} {is : List Item} {d : Discovery}

/-- No file is read where all modules are inline. -/
theorem fileSites_eq_nil_iff : fileSites is = [] ↔ (moduleSites [] is).all (·.isInline) := by
  simp [fileSites]

/-- A walk that looks for no files succeeds. -/
theorem ofItems_ends (tree : FileTree) (dir : FilePath) (hinline : fileSites is = []) :
    ∃ d, ofItems tree dir is = .ok d := by
  have hlist := @Walk.itemList_finds tree (Walk.file tree tree.nesting)
    (SourceFile.visits tree tree.nesting) (.unread dir) (Walk.file_finds tree.nesting) [] is
  have hnone : Walk.found tree (SourceFile.visits tree tree.nesting) (.unread dir)
      (moduleSites [] is) = .ok [] := by
    rw [fileSites] at hinline
    rw [Walk.found, hinline]
    rfl
  rw [hnone] at hlist
  have hfiles := files_ofWalk (hlist.behind (Walk.noteScope_finds [] is))
  obtain ⟨d, hd, -⟩ := map_eq_ok.1 hfiles
  exact ⟨d, hd⟩

/-- A discovery collects the types of the items. -/
theorem collects_of_ofItems (hinline : fileSites is = []) (h : ofItems tree dir is = .ok d) :
    Collects (itemSites [] is) {} d := by
  obtain ⟨⟨⟨⟩, d'⟩, hrun, rfl⟩ := map_eq_ok.1 h
  have hitems := @Walk.itemList_collects tree (Walk.file tree tree.nesting) dir [] nofun is
    (fileSites_eq_nil_iff.1 hinline)
  have hwalk := hitems.bind (Walk.noteScope_collects [] is) fun _ _ _ => Collects.trans
  rw [List.append_nil] at hwalk
  exact hwalk {} d' hrun

/-- A scope has imports and names from the module at its path only. -/
theorem scopes_of_ofItems (hinline : fileSites is = []) (h : ofItems tree dir is = .ok d)
    {m : List String} {s : Scope} (hs : (m, s) ∈ d.scopes) :
    s.uses.Sublist ((itemsAt (itemSites [] is) m).filterMap (·.use?)) ∧
      s.names.Sublist ((itemsAt (itemSites [] is) m).filterMap (·.declaredName?)) := by
  rw [(FoundIn.items h).notes.scopes] at hs
  rcases mem_foldl_note hs with hs | ⟨b, hb, heq⟩
  · cases hs
  · cases heq
    have hbody : b.compiled.Sublist (itemsAt (itemSites [] is) b.module) := by
      rcases mem_contentBodies.1 hb with hb | ⟨site, hsite, -⟩
      · rcases List.mem_append.1 hb with hb | hb
        · exact compiled_sublist [] nofun is b hb
        · obtain rfl := List.mem_singleton.1 hb
          exact @compiled_sublist_own [] nofun is
      · rw [hinline] at hsite
        cases hsite
    rw [b.scope_uses, b.scope_names, b.uses_eq]
    exact ⟨hbody.filterMap _, hbody.filterMap _⟩

/-- From the items of a root file whose modules all have their content there, a walk collects the
records, which are in modules, and the markers among all types, in the order of the source and each
one once. What is for tests, or inside of it, is left out, and does not get into a scope. -/
theorem ofItems_collects (tree : FileTree) (dir : FilePath) (hinline : fileSites is = []) :
    ∃ d, ofItems tree dir is = .ok d ∧
      d.records = recordsAmong (typesAt (itemSites [] is)) ∧
      d.markers = markersAmong (typesAt (itemSites [] is)) ∧
      ∀ m s, (m, s) ∈ d.scopes →
        s.uses.Sublist ((itemsAt (itemSites [] is) m).filterMap (·.use?)) ∧
        s.names.Sublist ((itemsAt (itemSites [] is) m).filterMap (·.declaredName?)) := by
  obtain ⟨d, hd⟩ := ofItems_ends tree dir hinline
  have hcollects := collects_of_ofItems hinline hd
  exact ⟨d, hd, hcollects.records, hcollects.markers, fun m s hs => scopes_of_ofItems hinline hd hs⟩

end Discovery

namespace Samples

/-- The attribute with a list in parentheses. -/
def listAttribute (name : String) (entries : List Tokens) : Attribute where
  path := .ofName name
  body := .list .paren (commaSeparated entries)

/-- A structure without fields that derives the given names. -/
def derivingUnit (name : String) (derived : List Tokens) : Item :=
  .type ⟨[listAttribute "derive" derived], [], name, false, .unit⟩

/-- Types in and outside of modules, and in a module for tests. -/
def layeredItems : List Item := [
  derivingUnit "Root" [[.ident "Kson"], [.ident "KsonFactory"]],
  .module [] "model" (some [
    derivingUnit "A" [[.ident "Kson"]],
    .module [] "inner" (some [
      derivingUnit "B" [[.ident "Debug"], .ident "a" :: pathSep ++ [.ident "Kson"]]]),
    .module [listAttribute "cfg" [[.ident "test"]]] "tests" (some [
      .use ⟨[], false, .path "y" (.name "Z")⟩,
      derivingUnit "T" [[.ident "Kson"], [.ident "KsonFactory"]]]),
    derivingUnit "C" [[.ident "Kson"], [.ident "Kson"]]])]

theorem collects_layered : fileSites layeredItems = [] ∧
    ∃ d, Discovery.ofItems {} ⟨"src"⟩ layeredItems = .ok d ∧
      d.records.map (fun r => shownPath r.module r.declaration.name) =
        ["model::A", "model::inner::B", "model::C"] ∧
      d.markers = [⟨[], "Root"⟩] ∧
      ∀ s, (["model"], s) ∈ d.scopes → s.uses = [] ∧ s.names.Sublist ["A", "inner", "C"] := by
  have hinline : fileSites layeredItems = [] := by decide
  obtain ⟨d, hd, hrecords, hmarkers, hscopes⟩ :=
    Discovery.ofItems_collects {} ⟨"src"⟩ hinline
  refine ⟨hinline, d, hd, ?_, ?_, fun s hs => ?_⟩
  · rw [hrecords]
    decide
  · rw [hmarkers]
    decide
  · obtain ⟨huses, hnames⟩ := hscopes ["model"] s hs
    exact ⟨List.sublist_nil.1 huses, hnames⟩

end Samples

end JsonAdapters
