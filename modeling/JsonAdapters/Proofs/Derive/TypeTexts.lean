import JsonAdapters.Proofs.Derive.Agreement
import JsonAdapters.Proofs.Derive.Idents
import JsonAdapters.Proofs.Derive.TypePaths
import Mathlib.Data.List.DropRight

/-!
# Texts of types

Types agree exactly if they have the same text, for a text can be taken apart again: no name holds
a bracket or a comma. Types that agree are served by parts of the same name, since the last name of
a path can be told from the name under which types are compared, whether the path leads into a
standard package or not.

## Main definitions

* `TypeTree.names`, `TypeTree.text`: the names of a tree, and the text of the types that have it.
* `TypeName.IsLexed`: a path of identifiers.

## Main statements

* `TypeTree.eq_of_text_append`: a text is that of one tree only.
* `FieldType.text_eq_tree`, `FieldType.idents_eq_tree`: what the tree of a type says about it.
* `FieldType.agrees_iff_text`: what agreement comes to.
-/

namespace JsonAdapters

open Code

/-! ## Names -/

/-- The characters that stand around the names in a text. -/
def nameEnds : List Char := ['<', ',', '>']

/-- What stands behind the last colon. -/
def lastName (s : String) : String := String.ofList (s.toList.rtakeWhile (· ≠ ':'))

/-- Identifiers have no character that ends a name. -/
theorem mem_identifier {n : String} (h : isIdentifier n) : ∀ c ∈ n.toList, c ∉ ':' :: nameEnds := by
  have hends : ∀ c ∈ ':' :: nameEnds, isIdentContinue c = false := by
    simp only [nameEnds, List.forall_mem_cons]
    exact ⟨by decide, by decide, by decide, by decide, nofun⟩
  have hword {cs : List Char} (hcs : isIdentWord cs) : ∀ c ∈ cs, c ∉ ':' :: nameEnds := by
    intro c hc hmark
    cases (hends c hmark).symm.trans (isIdentContinue_of_word hcs c hc)
  unfold isIdentifier at h
  split at h
  · next cs hn =>
    rw [hn]
    obtain ⟨hcs, -⟩ := Bool.and_eq_true_iff.1 h
    exact List.forall_mem_cons.2 ⟨by decide, List.forall_mem_cons.2 ⟨by decide, hword hcs⟩⟩
  · exact hword h

/-- Characters of a path are those of its segments, and colons. -/
theorem mem_path {ss : List String} {c : Char} (h : c ∈ ("::".intercalate ss).toList) :
    c = ':' ∨ ∃ s ∈ ss, c ∈ s.toList := by
  induction ss with
  | nil => simp at h
  | cons s ss ih =>
    cases ss with
    | nil => exact .inr ⟨s, List.mem_cons_self, by simpa using h⟩
    | cons s' ss =>
      rw [String.intercalate_cons_cons, String.toList_append, String.toList_append, List.mem_append,
        List.mem_append] at h
      rcases h with (h | h) | h
      · exact .inr ⟨s, List.mem_cons_self, h⟩
      · exact .inl (by simpa using h)
      · exact (ih h).imp_right fun ⟨t, ht, hc⟩ => ⟨t, List.mem_cons_of_mem s ht, hc⟩

/-- The last name of a path stands behind its last colon. -/
theorem exists_front (around : List String) (s : String) : ∃ front,
    ("::".intercalate (around ++ [s])).toList = front ++ s.toList ∧
      (front = [] ∨ ∃ before, front = before ++ [':']) := by
  induction around with
  | nil => exact ⟨[], by simp, .inl rfl⟩
  | cons n around ih =>
    obtain ⟨front, hfront, hend⟩ := ih
    obtain ⟨m, rest, hrest⟩ : ∃ m rest, around ++ [s] = m :: rest := by cases around <;> simp
    refine ⟨n.toList ++ [':', ':'] ++ front, ?_, .inr ?_⟩
    · rw [List.cons_append, hrest, String.intercalate_cons_cons, ← hrest, String.toList_append,
        hfront]
      simp
    · obtain rfl | ⟨before, rfl⟩ := hend
      · exact ⟨n.toList ++ [':'], by simp⟩
      · exact ⟨n.toList ++ [':', ':'] ++ before, by simp⟩

/-- The last name of a path is what follows the last colon. -/
theorem lastName_of_front {s t : String} {front : List Char} (ht : t.toList = front ++ s.toList)
    (hfront : front = [] ∨ ∃ before, front = before ++ [':']) (hs : ':' ∉ s.toList) :
    lastName t = s := by
  have hall : ∀ c ∈ s.toList.reverse, decide (c ≠ ':') = true := by
    intro c hc
    exact decide_eq_true fun heq => hs (heq ▸ List.mem_reverse.1 hc)
  have hlast : t.toList.rtakeWhile (· ≠ ':') = s.toList := by
    rw [ht, List.rtakeWhile, List.reverse_append, List.takeWhile_append_of_pos hall]
    obtain rfl | ⟨before, rfl⟩ := hfront <;> simp
  rw [lastName, hlast, String.ofList_toList]

namespace TypeName

/-- A path of identifiers. -/
structure IsLexed (n : TypeName) : Prop where
  ne : n.segments ≠ []
  idents : ∀ s ∈ n.segments, isIdentifier s

variable {n : TypeName}

/-- A name is written by itself or with its path. -/
theorem canonical_cases (n : TypeName) :
    n.canonical = n.ident ∨ n.canonical = "::".intercalate n.segments := by
  unfold canonical
  split
  · split
    · exact .inl rfl
    · exact .inr rfl
  · exact .inr rfl

/-- The last segment of a name is its identifier. -/
theorem exists_segments (h : n.segments ≠ []) : ∃ around, n.segments = around ++ [n.ident] := by
  obtain hnil | ⟨around, s, hs⟩ := List.eq_nil_or_concat' n.segments
  · exact absurd hnil h
  · exact ⟨around, by rw [ident, hs, List.getLast?_concat]; rfl⟩

/-- The identifier of a lexed name is one. -/
theorem IsLexed.isIdentifier_ident (h : n.IsLexed) : isIdentifier n.ident := by
  obtain ⟨around, hs⟩ := exists_segments h.ne
  exact h.idents _ (hs ▸ List.mem_append_right _ List.mem_cons_self)

/-- Under whatever name a path is compared, its last name can be told from it. -/
theorem IsLexed.lastName_canonical (h : n.IsLexed) : lastName n.canonical = n.ident := by
  have hcolon : ':' ∉ n.ident.toList := fun hc =>
    mem_identifier h.isIdentifier_ident ':' hc List.mem_cons_self
  obtain hcanonical | hcanonical := canonical_cases n
  · exact lastName_of_front (hcanonical ▸ (List.nil_append _).symm) (.inl rfl) hcolon
  · obtain ⟨around, hs⟩ := exists_segments h.ne
    obtain ⟨front, hfront, hend⟩ := exists_front around n.ident
    exact lastName_of_front (by rw [hcanonical, hs, hfront]) hend hcolon

/-- A lexed name has no character that ends names. -/
theorem IsLexed.mem_canonical (h : n.IsLexed) : ∀ c ∈ n.canonical.toList, c ∉ nameEnds := by
  intro c hc hmark
  obtain hcanonical | hcanonical := canonical_cases n
  · exact mem_identifier h.isIdentifier_ident c (hcanonical ▸ hc) (List.mem_cons_of_mem _ hmark)
  · rcases mem_path (hcanonical ▸ hc) with rfl | ⟨s, hs, hc⟩
    · exact absurd hmark (by decide)
    · exact mem_identifier (h.idents s hs) c hc (List.mem_cons_of_mem _ hmark)

end TypeName

/-! ## Texts of trees -/

namespace TypeTree

mutual

/-- The names in a tree. -/
def names : TypeTree → List String
  | node n ts => n :: namesOf ts

def namesOf : List TypeTree → List String
  | [] => []
  | t :: ts => t.names ++ namesOf ts

end

mutual

/-- The text of the types that have the tree. -/
def text : TypeTree → List Char
  | node n ts => n.toList ++ argumentText ts

/-- Trees in angle brackets, if there are any. -/
def argumentText : List TypeTree → List Char
  | [] => []
  | t :: ts => '<' :: (t.text ++ moreText ts)

/-- More trees behind a first one, up to the bracket. -/
def moreText : List TypeTree → List Char
  | [] => ['>']
  | t :: ts => ',' :: ' ' :: (t.text ++ moreText ts)

end

/-- The names hold no character that ends names. -/
def ArePlain (ns : List String) : Prop := ∀ n ∈ ns, ∀ c ∈ n.toList, c ∉ nameEnds

/-- Names are plain where all of them are. -/
theorem arePlain_append {ns ms : List String} :
    ArePlain (ns ++ ms) ↔ ArePlain ns ∧ ArePlain ms :=
  List.forall_mem_append

/-- No name may go on with these characters, nor may brackets open there. -/
def Closes (r : List Char) : Prop := ∀ c ∈ r.head?, c ∈ [',', '>']

theorem closes_nil : Closes [] := by
  intro c hc
  cases hc

/-- What follows an argument closes it. -/
theorem closes_moreText (ts : List TypeTree) (r : List Char) : Closes (moreText ts ++ r) := by
  cases ts <;> simp [Closes, moreText]

/-- What closes an argument opens none. -/
theorem Closes.not_open {r r' : List Char} (h : Closes r) : r ≠ '<' :: r' := by
  rintro rfl
  exact absurd (h '<' rfl) (by decide)

/-- Arguments, or what follows them, end a name. -/
theorem ends_argumentText (ts : List TypeTree) {r : List Char} (hr : Closes r) :
    ∀ c ∈ (argumentText ts ++ r).head?, c ∈ nameEnds := by
  cases ts with
  | nil => exact fun c hc => List.mem_cons_of_mem _ (hr c hc)
  | cons t ts => simp [argumentText, nameEnds]

/-- A name ends where the first character stands that is in no name. -/
theorem name_unique {xs ys r r' : List Char} (hxs : ∀ c ∈ xs, c ∉ nameEnds)
    (hys : ∀ c ∈ ys, c ∉ nameEnds) (hr : ∀ c ∈ r.head?, c ∈ nameEnds)
    (hr' : ∀ c ∈ r'.head?, c ∈ nameEnds) (h : xs ++ r = ys ++ r') : xs = ys ∧ r = r' := by
  have htake {xs r : List Char} (hxs : ∀ c ∈ xs, c ∉ nameEnds) (hr : ∀ c ∈ r.head?, c ∈ nameEnds) :
      (xs ++ r).takeWhile (· ∉ nameEnds) = xs := by
    rw [List.takeWhile_append_of_pos fun c hc => decide_eq_true (hxs c hc)]
    cases r with
    | nil => simp
    | cons c r => rw [List.takeWhile_cons_of_neg (by simpa using hr c rfl), List.append_nil]
  obtain rfl : xs = ys := by rw [← htake hxs hr, h, htake hys hr']
  exact ⟨rfl, List.append_cancel_left h⟩

/-- Trees in brackets go on as trees behind a comma do. -/
theorem moreText_of_argumentText {ts us : List TypeTree} {r r' : List Char} (hr : Closes r)
    (hr' : Closes r') (h : argumentText ts ++ r = argumentText us ++ r') :
    moreText ts ++ r = moreText us ++ r' := by
  cases ts with
  | nil =>
    cases us with
    | nil => exact congrArg ('>' :: ·) h
    | cons u us => exact absurd h hr.not_open
  | cons t ts =>
    cases us with
    | nil => exact absurd h.symm hr'.not_open
    | cons u us =>
      rw [argumentText, argumentText, List.cons_append, List.cons_append] at h
      rw [moreText, moreText, List.cons_append, List.cons_append, List.cons_append,
        List.cons_append, List.cons_injective h]

mutual

/-- A text is that of one tree only, and it can be told where it ends. -/
theorem eq_of_text_append : ∀ {s t : TypeTree} {r r' : List Char}, ArePlain s.names →
    ArePlain t.names → Closes r → Closes r' → s.text ++ r = t.text ++ r' → s = t ∧ r = r'
  | node n ts, node m us, r, r', hs, ht, hr, hr', h => by
    rw [text, text, List.append_assoc, List.append_assoc] at h
    rw [names] at hs ht
    obtain ⟨hn, hts⟩ := List.forall_mem_cons.1 hs
    obtain ⟨hm, hus⟩ := List.forall_mem_cons.1 ht
    obtain ⟨hname, hrest⟩ :=
      name_unique hn hm (ends_argumentText ts hr) (ends_argumentText us hr') h
    obtain rfl := String.toList_inj.1 hname
    obtain ⟨rfl, rfl⟩ := eq_of_moreText_append hts hus (moreText_of_argumentText hr hr' hrest)
    exact ⟨rfl, rfl⟩

/-- The text of further arguments tells the arguments and what follows them. -/
theorem eq_of_moreText_append : ∀ {ts us : List TypeTree} {r r' : List Char},
    ArePlain (namesOf ts) → ArePlain (namesOf us) →
      moreText ts ++ r = moreText us ++ r' → ts = us ∧ r = r'
  | [], [], _, _, _, _, h => ⟨rfl, List.cons_injective h⟩
  | [], _ :: _, _, _, _, _, h | _ :: _, [], _, _, _, _, h => by
    rw [moreText, moreText] at h
    cases h
  | t :: ts, u :: us, r, r', ht, hu, h => by
    rw [namesOf, arePlain_append] at ht hu
    rw [moreText, moreText, List.cons_append, List.cons_append, List.cons_append, List.cons_append,
      List.append_assoc, List.append_assoc] at h
    obtain ⟨rfl, hrest⟩ := eq_of_text_append ht.1 hu.1 (closes_moreText ts r)
      (closes_moreText us r') (List.cons_injective (List.cons_injective h))
    obtain ⟨rfl, rfl⟩ := eq_of_moreText_append ht.2 hu.2 hrest
    exact ⟨rfl, rfl⟩

end

end TypeTree

/-! ## Texts of types -/

namespace FieldType

/-- Names stand in brackets only if there are any. -/
def IsFilled (f : FieldType) : Prop := f.isApplied → f.args ≠ []

mutual

/-- The names in a tree are those of the types in the type, in the same order. -/
theorem names_tree : ∀ f : FieldType, f.tree.names = f.within.map (·.name.canonical)
  | simple n => rfl
  | applied n as => by
    rw [tree, TypeTree.names, within, List.map_cons, namesOf_trees as]
    rfl

/-- Names in trees are those in the types. -/
theorem namesOf_trees : ∀ fs : List FieldType,
    TypeTree.namesOf (trees fs) = (withinAll fs).map (·.name.canonical)
  | [] => rfl
  | f :: fs => by
    rw [trees, TypeTree.namesOf, withinAll, List.map_append, names_tree f, namesOf_trees fs]

end

mutual

/-- Identifiers of a type are those of the types within it. -/
theorem idents_eq_map : ∀ f : FieldType, f.idents = f.within.map (·.name.ident)
  | simple n => rfl
  | applied n as => by
    rw [idents, within, List.map_cons, identsOf_eq_map as]
    rfl

/-- Identifiers of types are those of the types within them. -/
theorem identsOf_eq_map : ∀ fs : List FieldType,
    identsOf fs = (withinAll fs).map (·.name.ident)
  | [] => rfl
  | f :: fs => by
    rw [identsOf, withinAll, List.map_append, idents_eq_map f, identsOf_eq_map fs]

end

/-- The names in a type are the last names of those in its tree. -/
theorem idents_eq_tree {f : FieldType} (h : ∀ u ∈ f.within, u.name.IsLexed) :
    f.idents = f.tree.names.map lastName := by
  rw [idents_eq_map, names_tree, List.map_map]
  exact List.map_congr_left fun u hu => (h u hu).lastName_canonical.symm

/-- Lexed names are plain in the tree. -/
theorem arePlain_tree {f : FieldType} (h : ∀ u ∈ f.within, u.name.IsLexed) :
    TypeTree.ArePlain f.tree.names := by
  rw [names_tree]
  exact List.forall_mem_map.2 fun u hu => (h u hu).mem_canonical

/-- Behind a first text, the others stand with a comma in front of each. -/
theorem intercalate_cons (s : String) (ss : List String) :
    ", ".intercalate (s :: ss) = s ++ ", ".intercalate ("" :: ss) := by
  cases ss <;> simp [String.intercalate_cons_cons, String.append_assoc]

mutual

/-- The text of a type is that of its tree. -/
theorem text_eq_tree : ∀ {f : FieldType}, (∀ u ∈ f.within, u.IsFilled) →
    f.text.toList = f.tree.text
  | simple n, _ => by
    rw [text, tree, TypeTree.text, TypeTree.argumentText, List.append_nil]
  | applied n [], h => absurd rfl (h _ (mem_within _) rfl)
  | applied n (a :: as), h => by
    rw [within, withinAll] at h
    obtain ⟨ha, has⟩ := List.forall_mem_append.1 (List.forall_mem_cons.1 h).2
    rw [text, texts, intercalate_cons, tree, trees, TypeTree.text, TypeTree.argumentText,
      ← text_eq_tree ha, ← more_eq_trees has]
    simp

/-- Further arguments are written as their trees are. -/
theorem more_eq_trees : ∀ {fs : List FieldType}, (∀ u ∈ withinAll fs, u.IsFilled) →
    (", ".intercalate ("" :: texts fs)).toList ++ ['>'] = TypeTree.moreText (trees fs)
  | [], _ => rfl
  | f :: fs, h => by
    rw [withinAll] at h
    obtain ⟨hf, hfs⟩ := List.forall_mem_append.1 h
    rw [texts, String.intercalate_cons_cons, intercalate_cons, trees, TypeTree.moreText,
      ← text_eq_tree hf, ← more_eq_trees hfs]
    simp

end

end FieldType

/-! ## Types that are read -/

/-- All names of the paths in the expression are identifiers. -/
def Code.TypeExpr.IsLexed (t : TypeExpr) : Prop :=
  ∀ p ∈ t.paths, ∀ s ∈ p.segments, isIdentifier s.name

variable {record record' : String} {t t' : TypeExpr} {f a b : FieldType}

/-- A name from the lexer is lexed. -/
theorem TypeName.Names.isLexed {absolute : Bool} {segments : List String} {n : TypeName}
    (h : TypeName.Names record absolute segments n) (hne : segments ≠ [])
    (hrecord : isIdentifier record) (hsegments : ∀ s ∈ segments, isIdentifier s) : n.IsLexed := by
  cases h with
  | self => exact ⟨List.cons_ne_nil _ _, List.forall_mem_singleton.2 hrecord⟩
  | path => exact ⟨hne, hsegments⟩

namespace FieldType

/-- A type that is written as a path has a lexed name, and is filled. -/
theorem regular_of_writes {p : Path} (h : Writes record (.path p) f) (hrecord : isIdentifier record)
    (hp : ∀ s ∈ p.segments, isIdentifier s.name) : f.name.IsLexed ∧ f.IsFilled := by
  cases h with
  | @path absolute around s _ hend =>
    obtain ⟨haround, hs⟩ := List.forall_mem_append.1 hp
    have hsegments : ∀ n ∈ around ++ [s.name], isIdentifier n :=
      List.forall_mem_append.2 ⟨List.forall_mem_map.1 haround, List.forall_mem_singleton.2
        (hs s List.mem_cons_self)⟩
    have hne : around ++ [s.name] ≠ [] := by simp
    cases hend with
    | plain hname => exact ⟨hname.isLexed hne hrecord hsegments, nofun⟩
    | empty hname => exact ⟨hname.isLexed hne hrecord hsegments, nofun⟩
    | applied hname hargs hall =>
      refine ⟨hname.isLexed hne hrecord hsegments, fun _ => ?_⟩
      cases hall with
      | nil => exact absurd rfl hargs
      | cons => exact List.cons_ne_nil _ _

/-- All types in a type that is read are names of identifiers, with brackets around something. -/
theorem regular_of_read (hrecord : isIdentifier record) (ht : t.IsLexed)
    (h : ofTypeExpr record t = .ok f) : ∀ u ∈ f.within, u.name.IsLexed ∧ u.IsFilled := by
  intro u hu
  obtain ⟨p, hp, hwrites⟩ := exists_path_of_within (ofTypeExpr_eq_ok_iff.1 h) u hu
  exact regular_of_writes hwrites hrecord (ht p hp)

/-- Agreement is an equivalence. Of types that were read, those that agree are served by parts of
the same name, and exactly those that agree have the same text. -/
theorem agrees_iff_text (hrecord : isIdentifier record) (hrecord' : isIdentifier record')
    (ht : t.IsLexed) (ht' : t'.IsLexed) (ha : ofTypeExpr record t = .ok a)
    (hb : ofTypeExpr record' t' = .ok b) :
    Equivalence (fun f g : FieldType => f.agrees g = true) ∧
    (a.agrees b → a.adapterName = b.adapterName) ∧
    (a.agrees b ↔ a.text = b.text) := by
  have haread := regular_of_read hrecord ht ha
  have hbread := regular_of_read hrecord' ht' hb
  refine ⟨⟨agrees_refl, agrees_symm, agrees_trans⟩, fun h => ?_, ?_⟩
  · rw [adapterName, adapterName, idents_eq_tree fun u hu => (haread u hu).1,
      idents_eq_tree fun u hu => (hbread u hu).1, agrees_iff_tree.1 h]
  · rw [agrees_iff_tree, ← String.toList_inj, text_eq_tree fun u hu => (haread u hu).2,
      text_eq_tree fun u hu => (hbread u hu).2]
    constructor
    · exact congrArg TypeTree.text
    · intro h
      exact (TypeTree.eq_of_text_append (arePlain_tree fun u hu => (haread u hu).1)
        (arePlain_tree fun u hu => (hbread u hu).1) TypeTree.closes_nil TypeTree.closes_nil
        (congrArg (· ++ []) h)).1

end FieldType

namespace Samples

/-- The type `::std::collections::HashMap<std::string::String, Vec<Self>>`. -/
def longMap : TypeExpr :=
  .path (.mk true [.plain "std", .plain "collections", .applied "HashMap" false
    [.type (.path (.mk false [.plain "std", .plain "string", .plain "String"])),
      .type (appliedType "Vec" [.type (.path (.ofName "Self"))])] false])

/-- The type `HashMap<String, Vec<Node>>`. -/
def shortMap : TypeExpr :=
  appliedType "HashMap" [.type (.path (.ofName "String")),
    .type (appliedType "Vec" [.type (.path (.ofName "Node"))])]

/-- In the record `Node`, the two types agree and have one text. -/
theorem longMap_agrees :
    let long : FieldType := .applied ⟨true, ["std", "collections", "HashMap"]⟩
      [.simple ⟨false, ["std", "string", "String"]⟩,
        .applied ⟨false, ["Vec"]⟩ [.simple ⟨false, ["Node"]⟩]]
    let short : FieldType := .applied ⟨false, ["HashMap"]⟩
      [.simple ⟨false, ["String"]⟩, .applied ⟨false, ["Vec"]⟩ [.simple ⟨false, ["Node"]⟩]]
    FieldType.ofTypeExpr "Node" longMap = .ok long ∧
    FieldType.ofTypeExpr "Map" shortMap = .ok short ∧
    long.text = "HashMap<String, Vec<Node>>" ∧ long.adapterName = short.adapterName := by
  intro long short
  have hlong : longMap.IsLexed := by
    unfold TypeExpr.IsLexed
    decide
  have hshort : shortMap.IsLexed := by
    unfold TypeExpr.IsLexed
    decide
  obtain ⟨-, hname, htext⟩ := @FieldType.agrees_iff_text "Node" "Map" longMap shortMap long short
    (by decide) (by decide) hlong hshort rfl rfl
  refine ⟨rfl, rfl, ?_, hname rfl⟩
  rw [htext.1 rfl]
  rfl

end Samples

end JsonAdapters
