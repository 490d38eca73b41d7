import JsonAdapters.Proofs.Code.Paths
import JsonAdapters.Proofs.Code.Reads

/-!
# Types in normal form

A type in normal form is written with names and arguments only. Its tokens can be read again, and
give the same type.

## Main definitions

* `Code.TypeExpr.IsNormal`: types without parentheses, groups, empty brackets and a lone `Self`.

## Main statements

* `Code.TypeExpr.IsNormal.readTokens?_eq`.
-/

namespace JsonAdapters.Code

/-- A type of names and arguments only: nowhere in it is there a lone `Self`, a type between
parentheses or in a group, or a pair of brackets without arguments. -/
inductive TypeExpr.IsNormal : TypeExpr → Prop
  | simple {absolute : Bool} {names : List String} : names ≠ [] →
      (absolute = false → names ≠ ["Self"]) →
      IsNormal (.path (.mk absolute (names.map .plain)))
  | applied {absolute : Bool} {around : List String} {n : String} {ts : List TypeExpr} :
      (absolute = false → around ++ [n] ≠ ["Self"]) → ts ≠ [] → (∀ t ∈ ts, t.IsNormal) →
      IsNormal (.path (.mk absolute
        (around.map .plain ++ [.applied n false (ts.map .type) false])))

/-! ## What starts and ends a type -/

/-- Tokens that can stand behind a type in the arguments of another one. -/
inductive EndsType : Tokens → Prop
  | nil : EndsType []
  | comma (ts : Tokens) : EndsType (.punct ',' false :: ts)
  | close (ts : Tokens) : EndsType (.punct '>' false :: ts)

/-- What ends a type does not go on with it. -/
theorem EndsType.startsMark_eq_false {ts : Tokens} (h : EndsType ts) {m : String}
    (hm : m ∈ ["<", "::", "!", "+", "=", ":"]) : startsMark m ts = false := by
  simp only [List.mem_cons, List.not_mem_nil, or_false] at hm
  rcases hm with rfl | rfl | rfl | rfl | rfl | rfl <;> cases h <;> rfl

/-- Tokens that can stand behind a name in a type. -/
inductive EndsName : Tokens → Prop
  | type {ts : Tokens} : EndsType ts → EndsName ts
  | next (n : String) (ts : Tokens) : EndsName (pathSep ++ .ident n :: ts)

/-- Tokens that a path in a type can start with. -/
inductive StartsType : Tokens → Prop
  | name {n : String} (ts : Tokens) : n ∉ keywords ∨ n ∈ ["super", "self", "Self", "crate"] →
      StartsType (.ident n :: ts)
  | absolute (ts : Tokens) : StartsType (pathSep ++ ts)

namespace StartsType

variable {ts : Tokens}

/-- A type starts whatever follows it. -/
theorem append (h : StartsType ts) (us : Tokens) : StartsType (ts ++ us) := by
  cases h with
  | name ts h => exact .name (ts ++ us) h
  | absolute ts =>
    rw [List.append_assoc]
    exact .absolute (ts ++ us)

/-- A type starts with a path. -/
theorem startsPath_eq_true (h : StartsType ts) : startsPath ts = true := by
  cases h with
  | absolute ts => rfl
  | name ts h =>
    simp only [startsPath, startsName, Bool.or_eq_true, startsWordOf_cons, decide_eq_true_eq]
    exact .inl h

/-- A type starts with no binder of lifetimes. -/
theorem startsWord_for (h : StartsType ts) : startsWord "for" ts = false := by
  cases h with
  | absolute ts => rfl
  | @name n ts h =>
    refine beq_false_of_ne ?_
    rintro rfl
    revert h
    decide

/-- A type starts with no literal. -/
theorem startsLiteral_eq_false (h : StartsType ts) : startsLiteral ts = false := by
  cases h with
  | absolute ts => rfl
  | @name n ts h =>
    refine Bool.or_eq_false_iff.2 ⟨beq_false_of_ne ?_, beq_false_of_ne ?_⟩
    all_goals
      rintro rfl
      revert h
      decide

/-- A type starts with no group. -/
theorem startsGroup_eq_false (h : StartsType ts) (d : Delimiter) : startsGroup d ts = false := by
  cases h <;> rfl

/-- A type starts with no lifetime. -/
theorem startsLifetime_eq_false (h : StartsType ts) : startsLifetime ts = false := by
  cases h <;> rfl

/-- A type starts with no angle bracket. -/
theorem startsMark_eq_false (h : StartsType ts) {m : String} (hm : m ∈ ["<", ">"]) :
    startsMark m ts = false := by
  simp only [List.mem_cons, List.not_mem_nil, or_false] at hm
  rcases hm with rfl | rfl <;> cases h <;> rfl

end StartsType

/-! ## Segments and paths -/

variable {g : Grammar}

/-- The type is read from its tokens, and ends with them. -/
def TypeExpr.IsReadBy (g : Grammar) (t : TypeExpr) : Prop :=
  StartsType t.tokens ∧ ∀ us, EndsType us → (g.type true).Reads (t.tokens ++ us) t us

/-- In every place of a path, the segment is read from its tokens. -/
def Segment.IsReadBy (g : Grammar) (s : Segment) : Prop :=
  ∀ us, EndsName us → (segment g false).Reads (s.tokens ++ us) s us

/-- A name that is no keyword is read, and so is `Self`. -/
theorem reads_name {β : Type} {f : String → Parser β} {n : String} {us vs : Tokens} {b : β}
    (hn : n ∉ keywords ∨ n = "Self") (hf : (f n).Reads us b vs) :
    Parser.Reads (if startsWord "Self" (.ident n :: us) then anyIdent >>= f else ident >>= f)
      (.ident n :: us) b vs := by
  by_cases hself : startsWord "Self" (.ident n :: us) = true
  · exact .ite_pos hself ((Parser.Reads.wordWith rfl us).bind hf)
  · have hword : n ∉ keywords := by
      refine hn.resolve_right ?_
      rintro rfl
      exact hself (startsWord_cons "Self" us)
    exact .ite_neg hself ((Parser.Reads.wordWith (by simpa using hword) us).bind hf)

/-- A name that no arguments follow. -/
theorem plain_isReadBy {n : String} (hn : IsPathWord n) : (Segment.plain n).IsReadBy g := by
  intro us hus
  rw [Segment.tokens, List.singleton_append]
  have hopen : startsMark "<" us = false := by
    cases hus with
    | type h => exact h.startsMark_eq_false (by decide)
    | next => rfl
  -- neither brackets nor a turbofish follow, so the segment ends here
  have hturbofish : (startsMark "::" us && startsMark "<" (skipOne (skipOne us))) = false := by
    cases hus with
    | type h => rw [h.startsMark_eq_false (by decide), Bool.false_and]
    | next => rfl
  refine .ahead ?_
  by_cases hkey : n ∈ ["super", "self", "crate", "try"]
  · exact .ite_pos (startsWordOf_cons.2 hkey) ((Parser.Reads.wordWith rfl us).bind (.pure _ us))
  · have hname : n ∉ keywords ∨ n = "Self" := by
      refine hn.imp_right fun hn => ?_
      simp only [List.mem_cons, List.not_mem_nil, or_false] at hn hkey
      tauto
    refine .ite_neg (by rwa [startsWordOf_cons]) (reads_name hname (.ahead (.ite_neg ?_ ?_)))
    · simp [hopen, hturbofish]
    · exact .pure _ us

/-- An argument is read as its type is. -/
theorem argument_reads {t : TypeExpr} (ht : t.IsReadBy g) {us : Tokens} (hus : EndsType us) :
    (argument g).Reads (t.tokens ++ us) (.type t) us := by
  have hstarts := ht.1.append us
  refine .ahead (.ite_neg ?_ (.ite_neg ?_ (.withTokens (a := some t) ?_ fun _ => .pure _ us)))
  · simp [hstarts.startsLifetime_eq_false]
  · simp [hstarts.startsLiteral_eq_false, hstarts.startsGroup_eq_false]
  · refine (ht.2 us hus).bind ?_
    have hsome : (pure (some t) : Parser _).Reads us (some t) us := .pure _ us
    split
    case h_1 | h_2 =>
      refine (Parser.Reads.markIf_false (hus.startsMark_eq_false (by decide))).bind ?_
      exact (Parser.Reads.markIf_false (hus.startsMark_eq_false (by decide))).bind hsome
    case h_3 => exact hsome

/-- The types between angle brackets. -/
theorem arguments_reads {ts : List TypeExpr} (hne : ts ≠ []) (hts : ∀ t ∈ ts, t.IsReadBy g)
    (us : Tokens) :
    Parser.ReadsList (startsMark ">") (argument g)
      (commaSeparated (ts.map (·.tokens)) ++ .punct '>' false :: us) (ts.map .type)
      (.punct '>' false :: us) := by
  induction ts with
  | nil => exact absurd rfl hne
  | cons t ts ih =>
    obtain ⟨ht, hts⟩ := List.forall_mem_cons.1 hts
    have hgo (vs : Tokens) : startsMark ">" (t.tokens ++ vs) = false :=
      (ht.1.append vs).startsMark_eq_false (by decide)
    cases ts with
    | nil => exact .last (hgo _) (argument_reads ht (.close us)) rfl
    | cons t' ts =>
      have hmore := ih (List.cons_ne_nil t' ts) hts
      rw [List.map_cons, List.map_cons, commaSeparated, List.append_assoc, ← List.map_cons,
        List.cons_append]
      · exact .next (hgo _) (argument_reads ht (.comma _)) rfl (by simp; omega) hmore
      · simp

/-- Types as arguments have commas between them. -/
theorem arrangeArguments_types (ts : List TypeExpr) :
    arrangeArguments (argumentTokens (ts.map .type)) false =
      commaSeparated (ts.map (·.tokens)) := by
  have htokens : argumentTokens (ts.map .type) = ts.map fun t => (false, t.tokens) := by
    induction ts with
    | nil => rfl
    | cons t ts ih =>
      rw [List.map_cons, argumentTokens, ih]
      rfl
  -- lifetimes would come first, but there are none
  have hlifetimes : (ts.map fun t => (false, t.tokens)).filter (·.1) = [] :=
    List.filter_eq_nil_iff.2 (by simp)
  have hothers : (ts.map fun t => (false, t.tokens)).filter (!·.1) =
      ts.map fun t => (false, t.tokens) :=
    List.filter_eq_self.2 (by simp)
  have hlast : (ts.map fun t => (false, t.tokens)).getLast?.any (·.1) = false := by
    rw [List.getLast?_map]
    cases ts.getLast? <;> rfl
  rw [htokens, arrangeArguments, hlifetimes, hothers, hlast]
  simp [Function.comp_def]

/-- A name that arguments follow. -/
theorem applied_isReadBy {n : String} {ts : List TypeExpr} (hn : n ∉ keywords ∨ n = "Self")
    (hne : ts ≠ []) (hts : ∀ t ∈ ts, t.IsReadBy g) :
    (Segment.applied n false (ts.map .type) false).IsReadBy g := by
  intro us _
  have htokens : (Segment.applied n false (ts.map .type) false).tokens ++ us =
      .ident n :: .punct '<' false ::
        (commaSeparated (ts.map (·.tokens)) ++ .punct '>' false :: us) := by
    rw [Segment.tokens, arrangeArguments_types]
    simp
  rw [htokens]
  have hkey : n ∉ ["super", "self", "crate", "try"] := by
    rcases hn with hn | rfl
    · have hsubset : ["super", "self", "crate", "try"] ⊆ keywords := by decide
      exact fun hkey => hn (hsubset hkey)
    · decide
  have hopen := Parser.Reads.mark_single (m := "<") rfl (by decide) false
    (commaSeparated (ts.map (·.tokens)) ++ .punct '>' false :: us)
  have hclose := Parser.Reads.mark_single (m := ">") rfl (by decide) false us
  -- the bracket stands directly behind the name, without a double colon
  refine .ahead (.ite_neg (by rwa [startsWordOf_cons]) (reads_name hn (.ahead (.ite_pos rfl ?_))))
  refine (Parser.Reads.markIf_false rfl).bind (hopen.bind ?_)
  exact (arguments_reads hne hts us).commaListUntil.bind (hclose.bind (.pure _ us))

/-- Segments after the first one have separators before them. -/
theorem segmentTokens_cons (s : Segment) (ss : List Segment) :
    segmentTokens (s :: ss) = s.tokens ++ ss.flatMap fun s => pathSep ++ s.tokens := by
  induction ss generalizing s with
  | nil => simp [segmentTokens]
  | cons s' ss ih => rw [segmentTokens, ih s', List.flatMap_cons]; simp

/-- A segment starts with its name. -/
theorem Segment.exists_tokens (s : Segment) : ∃ ts, s.tokens = .ident s.name :: ts := by
  cases s <;> rw [Segment.tokens, Segment.name] <;> exact ⟨_, rfl⟩

/-- Tokens that can stand behind the first of some segments. -/
theorem endsName_flatMap (ss : List Segment) {us : Tokens} (hus : EndsType us) :
    EndsName ((ss.flatMap fun s => pathSep ++ s.tokens) ++ us) := by
  cases ss with
  | nil => exact .type hus
  | cons s ss =>
    obtain ⟨ts, hts⟩ := s.exists_tokens
    rw [List.flatMap_cons, hts, List.append_assoc, List.append_assoc, List.cons_append]
    exact .next _ _

/-- Further segments are read up to what ends the type. -/
theorem segments_reads {ss : List Segment} (hss : ∀ s ∈ ss, s.IsReadBy g) {us : Tokens}
    (hus : EndsType us) :
    Parser.ReadsRow startsNextSegment (do mark "::"; segment g false)
      ((ss.flatMap fun s => pathSep ++ s.tokens) ++ us) ss us := by
  induction ss with
  | nil => exact .stop (by simp [startsNextSegment, hus.startsMark_eq_false])
  | cons s ss ih =>
    obtain ⟨hs, hss⟩ := List.forall_mem_cons.1 hss
    obtain ⟨ts, hts⟩ := s.exists_tokens
    have hread := hs _ (endsName_flatMap ss hus)
    rw [List.flatMap_cons, List.append_assoc, List.append_assoc]
    refine .next ?_ ((Parser.Reads.mark_pathSep _).bind hread) ?_ (ih hss)
    · rw [hts]
      rfl
    · simp [pathSep, operator]
      omega

/-- A path is read from its tokens. -/
theorem path_reads {absolute : Bool} {ss : List Segment} {us : Tokens} (hne : ss ≠ [])
    (hss : ∀ s ∈ ss, s.IsReadBy g) (hus : EndsType us) :
    (path g false).Reads ((Path.mk absolute ss).tokens ++ us) (.mk absolute ss) us := by
  obtain ⟨s, ss, rfl⟩ := List.exists_cons_of_ne_nil hne
  obtain ⟨hs, hss⟩ := List.forall_mem_cons.1 hss
  have hfirst := hs _ (endsName_flatMap ss hus)
  have hmore := (segments_reads hss hus).manyWhile
  rw [Path.tokens, segmentTokens_cons, List.append_assoc, List.append_assoc]
  refine .bind (a := absolute) ?_ (hfirst.bind (hmore.bind (.pure _ us)))
  cases absolute with
  | true => exact .markIf_true rfl (.mark_pathSep _)
  | false =>
    obtain ⟨ts, hts⟩ := s.exists_tokens
    rw [hts]
    exact .markIf_false rfl

/-! ## Types -/

/-- A path with names that paths can have starts a type. -/
theorem Path.IsNamed.startsType {p : Path} (hp : p.IsNamed) (hne : p.segments ≠ []) :
    StartsType p.tokens := by
  obtain ⟨absolute, ss⟩ := p
  obtain ⟨s, ss, rfl⟩ := List.exists_cons_of_ne_nil hne
  rw [Path.tokens]
  cases absolute with
  | true => exact .absolute _
  | false =>
    obtain ⟨ts, hts⟩ := s.exists_tokens
    have hs : s.IsNamed := hp.1 s List.mem_cons_self
    have htry : s.name ≠ "try" := hp.2 rfl s rfl
    rw [segmentTokens_cons, hts]
    refine .name _ ?_
    cases s with
    | plain n =>
      refine hs.imp_right fun hn => ?_
      simp only [List.mem_cons, List.not_mem_nil, or_false] at hn ⊢
      have : n ≠ "try" := htry
      tauto
    | applied n _ _ _ | called n _ =>
      refine hs.imp_right ?_
      rintro rfl
      exact List.mem_of_elem_eq_true rfl

/-- A path is a type if it starts and ends as a type does. -/
theorem typeExpr_reads {p : Path} {us : Tokens} (hp : StartsType p.tokens)
    (hread : (path g false).Reads (p.tokens ++ us) p us) (hus : EndsType us) :
    (typeExpr g true).Reads (p.tokens ++ us) (.path p) us := by
  have hstarts := hp.append us
  have hranged : (boundLifetimesIf g).Reads (p.tokens ++ us) false (p.tokens ++ us) :=
    (Parser.Reads.sees _ _).bind (.ite_neg (by simp [hstarts.startsWord_for]) (.pure _ _))
  have hqualified : (qualifiedPath g false).Reads (p.tokens ++ us) (false, p) us := by
    refine (Parser.Reads.sees _ _).bind (.ite_neg ?_ (hread.bind (.pure _ us)))
    simp [hstarts.startsMark_eq_false]
  have hpath : (pathType g true false).Reads (p.tokens ++ us) (.path p) us := by
    refine .withTokens hqualified fun kept => .ahead (.ite_neg (by simp) ?_)
    refine .ite_neg ?_ (.ite_neg ?_ (.pure _ us))
    · simp [hus.startsMark_eq_false]
    · simp [hus.startsMark_eq_false]
  refine .withTokens hranged fun kept => .ahead (.ite_neg ?_ (.ite_pos ?_ (hpath.bind ?_)))
  · simp [hstarts.startsGroup_eq_false]
  · simp [hstarts.startsPath_eq_true]
  · exact .pure _ us

/-- Weights add up. -/
theorem weightOf_append (ts us : Tokens) : weightOf (ts ++ us) = weightOf ts + weightOf us := by
  induction ts with
  | nil => simp [weightOf]
  | cons t ts ih => rw [List.cons_append, weightOf, weightOf, ih, Nat.add_assoc]

/-- A part of a list weighs no more than the list. -/
theorem weightOf_le_commaSeparated {ts : Tokens} {tss : List Tokens} (h : ts ∈ tss) :
    weightOf ts ≤ weightOf (commaSeparated tss) := by
  induction tss with
  | nil => cases h
  | cons us tss ih =>
    cases tss with
    | nil => exact Nat.le_of_eq (congrArg weightOf (List.mem_singleton.1 h))
    | cons vs tss =>
      rw [commaSeparated, weightOf_append, weightOf]
      · rcases List.mem_cons.1 h with rfl | h
        · omega
        · have := ih h
          omega
      · simp

/-- A segment weighs no more than the path. -/
theorem weightOf_segment_le {absolute : Bool} {ss : List Segment} {s : Segment} (h : s ∈ ss) :
    weightOf s.tokens ≤ weightOf (TypeExpr.path (.mk absolute ss)).tokens := by
  have hle : weightOf s.tokens ≤ weightOf (segmentTokens ss) := by
    induction ss with
    | nil => cases h
    | cons s' ss ih =>
      rw [segmentTokens, weightOf_append, weightOf_append]
      rcases List.mem_cons.1 h with rfl | h
      · omega
      · have := ih h
        omega
  rw [TypeExpr.tokens, Path.tokens, weightOf_append]
  omega

/-- A segment has some weight. -/
theorem weightOf_segment_pos (s : Segment) : 0 < weightOf s.tokens := by
  obtain ⟨ts, hts⟩ := s.exists_tokens
  rw [hts, weightOf, TokenTree.weight]
  · omega
  · nofun

/-- A name takes a token besides its arguments. -/
theorem weightOf_lt_applied {n : String} {t : TypeExpr} {ts : List TypeExpr} (h : t ∈ ts) :
    weightOf t.tokens < weightOf (Segment.applied n false (ts.map .type) false).tokens := by
  have hle : weightOf t.tokens ≤ weightOf (commaSeparated (ts.map (·.tokens))) :=
    weightOf_le_commaSeparated (List.mem_map_of_mem h)
  rw [Segment.tokens, arrangeArguments_types, List.cons_append, List.cons_append, weightOf,
    weightOf_append, weightOf_append, weightOf, TokenTree.weight]
  · omega
  · nofun

/-- A path is a type of the next level. -/
theorem Path.IsNamed.isReadBy {p : Path} (hp : p.IsNamed) (hne : p.segments ≠ []) {n : Nat}
    (hss : ∀ s ∈ p.segments, s.IsReadBy (grammar n)) :
    (TypeExpr.path p).IsReadBy (grammar (n + 1)) := by
  have hstarts := hp.startsType hne
  obtain ⟨absolute, ss⟩ := p
  unfold TypeExpr.IsReadBy
  rw [TypeExpr.tokens]
  exact ⟨hstarts, fun us hus => typeExpr_reads hstarts (path_reads hne hss hus) hus⟩

/-- A type in normal form is read on every level that leaves room for its tokens. -/
theorem TypeExpr.IsNormal.isReadBy {t : TypeExpr} (ht : t.IsNormal) (hnamed : t.WellNamed)
    {n : Nat} (hn : weightOf t.tokens ≤ n) : t.IsReadBy (grammar n) := by
  -- arguments are read one level below their name, which takes a token of its own
  induction ht generalizing n with
  | @simple absolute names hne hself =>
    obtain ⟨hp, -⟩ := TypeExpr.wellNamed_path.1 hnamed
    have hroom : ∀ s ∈ names.map Segment.plain, 0 < n := fun s hs =>
      Nat.lt_of_lt_of_le (weightOf_segment_pos s) (Nat.le_trans (weightOf_segment_le hs) hn)
    obtain ⟨m, rfl⟩ : ∃ m, n = m + 1 := by
      obtain ⟨name, names, rfl⟩ := List.exists_cons_of_ne_nil hne
      have := hroom _ List.mem_cons_self
      exact ⟨n - 1, by omega⟩
    refine hp.isReadBy (by simpa [Path.segments] using hne) fun s hs => ?_
    obtain ⟨name, -, rfl⟩ := List.mem_map.1 hs
    exact plain_isReadBy (hp.1 _ hs)
  | @applied absolute around name ts hself hne hts ih =>
    obtain ⟨hp, hss⟩ := TypeExpr.wellNamed_path.1 hnamed
    have hlast : Segment.applied name false (ts.map .type) false ∈
        around.map .plain ++ [.applied name false (ts.map .type) false] :=
      List.mem_append_right _ List.mem_cons_self
    have hroom := Nat.le_trans (weightOf_segment_le hlast) hn
    obtain ⟨m, rfl⟩ : ∃ m, n = m + 1 := by
      have := weightOf_segment_pos (.applied name false (ts.map .type) false)
      exact ⟨n - 1, by omega⟩
    obtain ⟨hname, hargs⟩ := Segment.wellNamed_applied.1 ⟨hp.1 _ hlast, hss _ hlast⟩
    refine hp.isReadBy (by simp [Path.segments]) fun s hs => ?_
    rcases List.mem_append.1 hs with hs' | hs'
    · obtain ⟨name, -, rfl⟩ := List.mem_map.1 hs'
      exact plain_isReadBy (hp.1 _ hs)
    · rw [List.mem_singleton.1 hs']
      refine applied_isReadBy hname hne fun t ht => ?_
      have htyped := Argument.wellNamed_type.1 (hargs _ (List.mem_map_of_mem ht))
      have hless := Nat.lt_of_lt_of_le (weightOf_lt_applied ht) hroom
      exact ih t ht htyped (Nat.lt_succ_iff.1 hless)

/-- A type in normal form is read again from its tokens. -/
theorem TypeExpr.IsNormal.readTokens?_eq {t : TypeExpr} (ht : t.IsNormal) (hnamed : t.WellNamed) :
    readTokens? (fun g => g.type true) t.tokens = some t := by
  have hn : weightOf t.tokens ≤ depthOf t.tokens := by
    rw [depthOf, Tokens.weight]
    omega
  have hread := (ht.isReadBy hnamed hn).2 [] .nil
  rw [List.append_nil] at hread
  exact hread.runAll?

end JsonAdapters.Code
