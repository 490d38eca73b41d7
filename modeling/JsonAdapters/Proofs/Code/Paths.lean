import JsonAdapters.Proofs.Code.Yields

/-!
# Paths in types

The paths in a type, at all depths. In a type that can be read, they have the names that paths can
have: no other keywords than those that stand for a module, a type or a package.

## Main definitions

* `Code.TypeExpr.paths`: the paths in a type.
* `Code.Path.IsNamed`, `Code.TypeExpr.WellNamed`: names that a path, and all paths in a type, can
  have.

## Main statements

* `Code.typeExpr?_wellNamed`.
-/

namespace JsonAdapters.Code

mutual

/-- The paths in a type, those in arguments included. -/
def TypeExpr.paths : TypeExpr → List Path
  | .paren t | .group t => t.paths
  | .path p => p.paths
  | .other _ => []

def Path.paths : Path → List Path
  | .mk absolute ss => .mk absolute ss :: segmentPaths ss

def segmentPaths : List Segment → List Path
  | [] => []
  | s :: ss => s.paths ++ segmentPaths ss

def Segment.paths : Segment → List Path
  | .plain _ | .called _ _ => []
  | .applied _ _ args _ => argumentPaths args

def argumentPaths : List Argument → List Path
  | [] => []
  | a :: as => a.paths ++ argumentPaths as

def Argument.paths : Argument → List Path
  | .type t => t.paths
  | .lifetime _ | .other _ => []

end

/-- A path is among the paths within it. -/
theorem Path.mem_paths (p : Path) : p ∈ p.paths := by
  cases p
  rw [Path.paths]
  exact List.mem_cons_self

/-- Paths within segments are those within each of them. -/
theorem segmentPaths_eq_flatMap (ss : List Segment) : segmentPaths ss = ss.flatMap (·.paths) := by
  induction ss with
  | nil => rfl
  | cons s ss ih => rw [segmentPaths, ih, List.flatMap_cons]

/-- Paths within arguments are those within each of them. -/
theorem argumentPaths_eq_flatMap (as : List Argument) :
    argumentPaths as = as.flatMap (·.paths) := by
  induction as with
  | nil => rfl
  | cons a as ih => rw [argumentPaths, ih, List.flatMap_cons]

/-! ## Names -/

/-- Words that can stand in a path as a name without arguments. -/
def IsPathWord (n : String) : Prop :=
  n ∉ keywords ∨ n ∈ ["super", "self", "Self", "crate", "try"]

def Segment.IsNamed : Segment → Prop
  | .plain n => IsPathWord n
  | .applied n _ _ _ | .called n _ => n ∉ keywords ∨ n = "Self"

/-- The path has names that paths can have. A type cannot start with the word `try`. -/
def Path.IsNamed (p : Path) : Prop :=
  (∀ s ∈ p.segments, s.IsNamed) ∧
    (p.absolute = false → ∀ s ∈ p.segments.head?, s.name ≠ "try")

/-- All paths in the type have names that paths can have. -/
def TypeExpr.WellNamed (t : TypeExpr) : Prop := ∀ p ∈ t.paths, p.IsNamed

def Argument.WellNamed (a : Argument) : Prop := ∀ p ∈ a.paths, p.IsNamed

def Segment.WellNamed (s : Segment) : Prop := s.IsNamed ∧ ∀ p ∈ s.paths, p.IsNamed

instance (n : String) : Decidable (IsPathWord n) := inferInstanceAs (Decidable (_ ∨ _))

instance : ∀ s : Segment, Decidable s.IsNamed
  | .plain n => inferInstanceAs (Decidable (IsPathWord n))
  | .applied n _ _ _ | .called n _ => inferInstanceAs (Decidable (n ∉ keywords ∨ n = "Self"))

instance (p : Path) : Decidable p.IsNamed := inferInstanceAs (Decidable (_ ∧ _))

instance (t : TypeExpr) : Decidable t.WellNamed :=
  inferInstanceAs (Decidable (∀ p ∈ t.paths, p.IsNamed))

/-- A path is well named if it and all paths in its arguments are. -/
theorem TypeExpr.wellNamed_path {p : Path} :
    (TypeExpr.path p).WellNamed ↔ p.IsNamed ∧ ∀ s ∈ p.segments, ∀ q ∈ s.paths, q.IsNamed := by
  obtain ⟨absolute, ss⟩ := p
  unfold TypeExpr.WellNamed
  rw [TypeExpr.paths, Path.paths, segmentPaths_eq_flatMap, List.forall_mem_cons]
  simp only [List.mem_flatMap, Path.segments]
  refine and_congr_right fun _ => ⟨fun hss s hs q hq => hss q ⟨s, hs, hq⟩, ?_⟩
  rintro hss q ⟨s, hs, hq⟩
  exact hss s hs q hq

/-- Behind plain names, only the last segment has types in it. -/
theorem TypeExpr.wellNamed_path_last {absolute : Bool} {around : List String} {s : Segment} :
    (TypeExpr.path (.mk absolute (around.map .plain ++ [s]))).WellNamed ↔
      (Path.mk absolute (around.map .plain ++ [s])).IsNamed ∧ ∀ q ∈ s.paths, q.IsNamed := by
  have hplain (n : String) : (Segment.plain n).paths = [] := by rw [Segment.paths]
  rw [wellNamed_path]
  simp [Path.segments, hplain, or_imp, forall_and]

/-- Parentheses leave names as they are. -/
theorem TypeExpr.wellNamed_paren {t : TypeExpr} : (TypeExpr.paren t).WellNamed ↔ t.WellNamed := by
  unfold TypeExpr.WellNamed
  rw [TypeExpr.paths]

/-- Groups leave names as they are. -/
theorem TypeExpr.wellNamed_group {t : TypeExpr} : (TypeExpr.group t).WellNamed ↔ t.WellNamed := by
  unfold TypeExpr.WellNamed
  rw [TypeExpr.paths]

/-- Types that are no paths have no names to be read. -/
theorem TypeExpr.wellNamed_other (ts : Tokens) : (TypeExpr.other ts).WellNamed := by
  intro p hp
  rw [TypeExpr.paths] at hp
  cases hp

/-- An argument is well named if its type is. -/
theorem Argument.wellNamed_type {t : TypeExpr} : (Argument.type t).WellNamed ↔ t.WellNamed := by
  unfold Argument.WellNamed TypeExpr.WellNamed
  rw [Argument.paths]

/-- A segment with arguments is no keyword, unless it is `Self`. -/
theorem Segment.wellNamed_applied {n : String} {turbofish trailing : Bool} {args : List Argument} :
    (Segment.applied n turbofish args trailing).WellNamed ↔
      (n ∉ keywords ∨ n = "Self") ∧ ∀ a ∈ args, a.WellNamed := by
  unfold Segment.WellNamed Argument.WellNamed Segment.IsNamed
  rw [Segment.paths, argumentPaths_eq_flatMap]
  simp only [List.mem_flatMap]
  refine and_congr_right fun _ => ⟨fun h a ha p hp => h p ⟨a, ha, hp⟩, ?_⟩
  rintro h p ⟨a, ha, hp⟩
  exact h a ha p hp

/-- A segment without arguments is a word of a path. -/
theorem Segment.wellNamed_plain {n : String} : (Segment.plain n).WellNamed ↔ IsPathWord n := by
  unfold Segment.WellNamed Segment.IsNamed
  rw [Segment.paths]
  simp

/-! ## Types that are read -/

variable {g : Grammar}

/-- Parsed arguments are well named if parsed types are. -/
theorem argument_wellNamed (hg : (g.type true).Yields TypeExpr.WellNamed) :
    (argument g).Yields Argument.WellNamed := by
  -- neither a lifetime nor a constant has paths
  have hlifetime (ts : Tokens) : (Argument.lifetime ts).WellNamed := by
    intro p hp
    rw [Argument.paths] at hp
    cases hp
  have hother (ts : Tokens) : (Argument.other ts).WellNamed := by
    intro p hp
    rw [Argument.paths] at hp
    cases hp
  refine .last fun ts => .ite (.last fun r => .pure (hlifetime r.2)) ?_
  refine .ite (.last fun r => .pure (hother r.2)) ?_
  refine .bind (.withTokens (Q := fun r => ∀ t ∈ r, TypeExpr.WellNamed t) (.bind hg fun t ht => ?_))
    fun r hr => ?_
  · have hsome : (pure (some t) : Parser _).Yields fun r => ∀ t ∈ r, TypeExpr.WellNamed t :=
      .pure (by simpa using ht)
    have hnone : (pure none : Parser _).Yields fun r => ∀ t ∈ r, TypeExpr.WellNamed t :=
      .pure nofun
    -- an associated type with bounds is no type argument
    have hbound : (do
        if ← markIf ":" then
          discard <| separated "+" (startsAnyMark [",", ">"]) (bound g)
          return none
        else return some t).Yields fun r => ∀ t ∈ r, TypeExpr.WellNamed t :=
      .last fun _ => .ite (.last fun _ => hnone) hsome
    split
    case h_1 | h_2 =>
      exact .last fun _ => .ite (.last fun _ => .ite (.last fun _ => hnone) (.last fun _ => hnone))
        hbound
    case h_3 => exact hsome
  · obtain ⟨t, tokens⟩ := r
    cases t with
    | none => exact .pure (hother tokens)
    | some t => exact .pure (Argument.wellNamed_type.2 (hr t rfl))

theorem startsWord_cons (n : String) (ts : Tokens) : startsWord n (.ident n :: ts) = true := by
  rw [startsWord, TokenTree.isWord, beq_self_eq_true]

/-- The first token decides whether one of some words starts. -/
theorem startsWordOf_cons {ws : List String} {n : String} {ts : Tokens} :
    startsWordOf ws (.ident n :: ts) = true ↔ n ∈ ws := by
  simp [startsWordOf, startsWord, TokenTree.isWord]

/-- A segment that is read starts with its name. -/
theorem segment_wellNamed (hg : (g.type true).Yields TypeExpr.WellNamed) (inExpr : Bool)
    (ts : Tokens) :
    (segment g inExpr).Ensures ts fun s _ => startsWord s.name ts ∧ s.WellNamed := by
  refine .ahead (.ite (fun hword => ?keyword) fun _ => ?name)
  case keyword =>
    refine (Parser.Ensures.wordWith _).bind ?_
    rintro n us ⟨-, rfl⟩
    rw [startsWordOf_cons] at hword
    refine .pure ⟨startsWord_cons n us, Segment.wellNamed_plain.2 (.inr ?_)⟩
    simp only [List.mem_cons, List.not_mem_nil, or_false] at hword ⊢
    tauto
  -- any other identifier, with arguments or without
  case name =>
    have hself (hts : startsWord "Self" ts = true) : anyIdent.Ensures ts fun n us =>
        (n ∉ keywords ∨ n = "Self") ∧ ts = .ident n :: us := by
      refine (Parser.Ensures.wordWith _).mono ?_
      rintro n us ⟨-, rfl⟩
      have hn : n = "Self" := by simpa [startsWord, TokenTree.isWord] using hts
      exact ⟨.inr hn, rfl⟩
    have hident : ident.Ensures ts fun n us =>
        (n ∉ keywords ∨ n = "Self") ∧ ts = .ident n :: us := by
      refine (Parser.Ensures.wordWith _).mono fun n us ⟨hn, hts⟩ => ⟨.inl ?_, hts⟩
      simpa using hn
    refine .ite (fun hts => (hself hts).bind ?_) fun _ => hident.bind ?_
    all_goals
      rintro n us ⟨hn, rfl⟩
      have hstarts := startsWord_cons n us
      refine .of_yields
        (P := fun s : Segment => startsWord s.name (.ident n :: us) ∧ s.WellNamed) ?_ us
      refine .last fun ts => .ite (.last fun turbofish => .last fun _ =>
        .bind (.commaListUntil (argument_wellNamed hg)) fun r hr => .last fun _ => ?_) ?_
      · exact .pure ⟨hstarts, Segment.wellNamed_applied.2 ⟨hn, hr⟩⟩
      · refine .pure ⟨hstarts, Segment.wellNamed_plain.2 (hn.imp_right ?_)⟩
        rintro rfl
        decide

/-- A path that is read starts with its first name, unless with a double colon. -/
theorem path_wellNamed (hg : (g.type true).Yields TypeExpr.WellNamed) (ts : Tokens) :
    (path g false).Ensures ts fun p _ => (∀ s ∈ p.segments, s.WellNamed) ∧
      (p.absolute = false → ∀ s ∈ p.segments.head?, startsWord s.name ts) := by
  refine (Parser.Ensures.markIf "::").bind fun absolute us hus =>
    (segment_wellNamed hg false us).bind fun first vs ⟨hstarts, hfirst⟩ => ?_
  have hsegment : (segment g false).Yields Segment.WellNamed :=
    .of_ensures fun ts => (segment_wellNamed hg false ts).mono fun _ _ h => h.2
  have hmore : (manyWhile startsNextSegment (do mark "::"; segment g false)).Yields
      fun more => ∀ s ∈ more, s.WellNamed := .manyWhile (.last fun _ => hsegment)
  refine (Parser.Ensures.of_yields hmore vs).bind fun more _ hmore => .pure ⟨?_, ?_⟩
  · exact List.forall_mem_cons.2 ⟨hfirst, hmore⟩
  · intro hrelative s hs
    cases hs
    rw [hus hrelative] at hstarts
    exact hstarts

/-- The word `try` starts no path of a type. -/
theorem not_startsPath_of_try {ts : Tokens} (h : startsWord "try" ts = true) :
    startsPath ts = false := by
  rcases ts with _ | ⟨⟨n⟩ | _ | _ | _, us⟩
  · cases h
  · have hn : n = "try" := by simpa [startsWord, TokenTree.isWord] using h
    rw [hn]
    rfl
  all_goals cases h

/-- A parsed path that is not qualified is well named. -/
theorem qualifiedPath_wellNamed (hg : (g.type true).Yields TypeExpr.WellNamed) {ts : Tokens}
    (hts : startsPath ts = true) :
    (qualifiedPath g false).Ensures ts fun r _ => r.1 = false → (TypeExpr.path r.2).WellNamed := by
  refine .sees (.ite (fun _ => ?qualified) fun _ => ?plain)
  case qualified =>
    refine .of_yields
      (P := fun r : Bool × Path => r.1 = false → (TypeExpr.path r.2).WellNamed) ?_ ts
    refine .last fun _ => .last fun _ => .last fun _ => .ite (.last fun _ => ?_) (.last fun _ => ?_)
    all_goals exact .last fun _ => .last fun _ => .last fun _ => .last fun _ => .pure nofun
  case plain =>
    refine (path_wellNamed hg ts).bind fun p _ ⟨hss, hfirst⟩ => .pure fun _ => ?_
    refine TypeExpr.wellNamed_path.2 ⟨⟨fun s hs => (hss s hs).1, fun hp s hs hname => ?_⟩,
      fun s hs => (hss s hs).2⟩
    have htry : startsWord "try" ts = true := hname ▸ hfirst hp s hs
    rw [not_startsPath_of_try htry] at hts
    cases hts

/-- A parsed path is well named as a type. -/
theorem pathType_wellNamed (hg : (g.type true).Yields TypeExpr.WellNamed) {ts : Tokens}
    (hts : startsPath ts = true) (plus ranged : Bool) :
    (pathType g plus ranged).Ensures ts fun t _ => t.WellNamed := by
  refine (qualifiedPath_wellNamed hg hts).withTokens.bind fun r us hr => ?_
  obtain ⟨⟨qualified, p⟩, tokens⟩ := r
  refine .ahead (.ite (fun _ => .pure (TypeExpr.wellNamed_other _)) fun hplain => .of_yields ?_ us)
  refine .ite (.last fun _ => .pure (TypeExpr.wellNamed_other _)) (.ite (.last fun _ => ?_) ?_)
  · exact .pure (TypeExpr.wellNamed_other _)
  · exact .pure (hr (by simpa using hplain))

/-- A parsed type in parentheses is well named. -/
theorem parenType_wellNamed (hg : (g.type true).Yields TypeExpr.WellNamed) (plus : Bool) :
    (parenType g plus).Yields TypeExpr.WellNamed := by
  have hinner : (parenthesised g).Yields fun r => ∀ t ∈ r, TypeExpr.WellNamed t := by
    refine .within _ (.last fun ts => .ite (.pure nofun) (.ite (.last fun _ => .pure nofun) ?_))
    refine .bind hg fun t ht => .last fun comma => .ite (.last fun _ => .pure nofun) ?_
    exact .pure (by simpa using ht)
  refine .bind hinner.withTokens fun r hr => ?_
  obtain ⟨_ | t, tokens⟩ := r
  · exact .last fun r => .pure (TypeExpr.wellNamed_other _)
  · have ht := TypeExpr.wellNamed_paren.2 (hr t rfl)
    refine .last fun more => .ite ?_ (.pure ht)
    split
    · exact .last fun r => .pure (TypeExpr.wellNamed_other _)
    · exact .pure ht

/-- A parsed type is well named, if the types within it are. -/
theorem typeExpr_wellNamed (hg : ∀ plus, (g.type plus).Yields TypeExpr.WellNamed) (plus : Bool) :
    (typeExpr g plus).Yields TypeExpr.WellNamed := by
  -- what stands ahead decides the form, and a word that starts a path is not `try`
  refine .of_ensures fun ts => .last fun r us => .ahead ?_
  refine .ite (fun _ => ?_) fun _ => .ite (fun hpath => ?_) fun _ => ?_
  · exact .of_yields (parenType_wellNamed (hg true) plus) us
  · have hstarts := (Bool.and_eq_true_iff.1 hpath).1
    refine (pathType_wellNamed (hg true) hstarts plus r.1).bind fun t vs ht => ?_
    split
    · exact .pure (TypeExpr.wellNamed_other _)
    · exact .pure ht
  · exact .last fun _ _ => .pure (TypeExpr.wellNamed_other _)

/-- Parsed types are well named, however deep they are. -/
theorem grammar_wellNamed (n : Nat) :
    ∀ plus, ((grammar n).type plus).Yields TypeExpr.WellNamed := by
  induction n with
  | zero => exact fun plus => .failure
  | succ n ih => exact typeExpr_wellNamed ih

/-- In a type that can be read, all paths have names that paths can have. -/
theorem typeExpr?_wellNamed {source : String} {t : TypeExpr} (h : typeExpr? source = some t) :
    t.WellNamed := by
  obtain ⟨ts, -, hread⟩ := Option.bind_eq_some_iff.1 h
  exact (grammar_wellNamed (depthOf ts) true).of_runAll? hread

end JsonAdapters.Code
