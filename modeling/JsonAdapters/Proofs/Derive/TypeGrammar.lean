import JsonAdapters.Proofs.Derive.TypeFaults

/-!
# The grammar of field types

A field type is written as a path of plain names, whose last name may have types in angle brackets
that are field types themselves. Parentheses and groups around types do not matter. The paths and
the nesting are those of the expression; empty brackets are none, and a lone `Self` is the record.
Whatever is no such expression is refused, with one fault for each part of it that is none.

## Main definitions

* `Code.TypeExpr.IsFieldType`: the type expressions of field types.
* `TypeName.Names`, `FieldType.Writes`: what names and type expressions stand for.
* `Code.TypeExpr.faults`: what is wrong with a type expression, from left to right.

## Main statements

* `FieldType.ofTypeExpr_eq_ok_iff`: which field types are read.
* `FieldType.exists_writes_iff`: which expressions are of field types.
* `FieldType.ofTypeExpr_exact`: all of it, with what is reported about other expressions.
-/

namespace JsonAdapters

open Code

/-! ## Expressions of field types -/

/-- The expression is, parentheses and groups aside, a path of plain names, the last of which may
have such expressions in angle brackets. -/
inductive Code.TypeExpr.IsFieldType : TypeExpr → Prop where
  | paren {t : TypeExpr} : t.IsFieldType → IsFieldType (.paren t)
  | group {t : TypeExpr} : t.IsFieldType → IsFieldType (.group t)
  | plain (absolute : Bool) (around : List String) (n : String) :
    IsFieldType (.path (.mk absolute (around.map .plain ++ [.plain n])))
  | applied (absolute : Bool) (around : List String) (n : String) (turbofish trailing : Bool)
    {ts : List TypeExpr} : (∀ t ∈ ts, t.IsFieldType) →
      IsFieldType (.path (.mk absolute
        (around.map .plain ++ [.applied n turbofish (ts.map .type) trailing])))

/-! ## What expressions stand for -/

/-- The names of a path stand for themselves, and a lone `Self` for the record. -/
inductive TypeName.Names (record : String) : Bool → List String → TypeName → Prop where
  | self : Names record false ["Self"] ⟨false, [record]⟩
  | path {absolute : Bool} {segments : List String} :
    (absolute = false → segments ≠ ["Self"]) → Names record absolute segments ⟨absolute, segments⟩

namespace FieldType

mutual

/-- The type expression stands for the field type. -/
inductive Writes (record : String) : TypeExpr → FieldType → Prop where
  | paren {t : TypeExpr} {f : FieldType} : Writes record t f → Writes record (.paren t) f
  | group {t : TypeExpr} {f : FieldType} : Writes record t f → Writes record (.group t) f
  | path {absolute : Bool} {around : List String} {s : Segment} {f : FieldType} :
    EndWrites record absolute around s f →
      Writes record (.path (.mk absolute (around.map .plain ++ [s]))) f

/-- The path that ends with the segment, behind plain names, stands for the field type. -/
inductive EndWrites (record : String) : Bool → List String → Segment → FieldType → Prop where
  | plain {absolute : Bool} {around : List String} {n : String} {name : TypeName} :
    TypeName.Names record absolute (around ++ [n]) name →
      EndWrites record absolute around (.plain n) (.simple name)
  | empty {absolute : Bool} {around : List String} {n : String} {turbofish trailing : Bool}
    {name : TypeName} : TypeName.Names record absolute (around ++ [n]) name →
      EndWrites record absolute around (.applied n turbofish [] trailing) (.simple name)
  | applied {absolute : Bool} {around : List String} {n : String} {turbofish trailing : Bool}
    {name : TypeName} {args : List Argument} {fs : List FieldType} :
    TypeName.Names record absolute (around ++ [n]) name → args ≠ [] → AllWrite record args fs →
      EndWrites record absolute around (.applied n turbofish args trailing) (.applied name fs)

/-- The arguments are types that stand for the field types, one by one. -/
inductive AllWrite (record : String) : List Argument → List FieldType → Prop where
  | nil : AllWrite record [] []
  | cons {t : TypeExpr} {f : FieldType} {args : List Argument} {fs : List FieldType} :
    Writes record t f → AllWrite record args fs → AllWrite record (.type t :: args) (f :: fs)

end

end FieldType

/-! ## What is wrong with other expressions -/

namespace Code

mutual

/-- What is wrong with a type that a field should have, from left to right. -/
def TypeExpr.faults : TypeExpr → List DeclarationFault
  | .paren t | .group t => t.faults
  | .path p => p.faults
  | .other _ => [.notAPath]

def Path.faults : Path → List DeclarationFault
  | .mk _ ss => segmentFaults ss

/-- Brackets in front of the last name hide what is wrong with it. -/
def segmentFaults : List Segment → List DeclarationFault
  | [] => [.notAPath]
  | s :: ss => if ss.isEmpty then s.faults else if s.isPlain then segmentFaults ss
    else [.innerArguments]

def Segment.faults : Segment → List DeclarationFault
  | .plain _ => []
  | .applied _ _ args _ => argumentFaults args
  | .called _ _ => [.callArguments]

/-- Each argument has its own faults. -/
def argumentFaults : List Argument → List DeclarationFault
  | [] => []
  | a :: as => a.faults ++ argumentFaults as

def Argument.faults : Argument → List DeclarationFault
  | .type t => t.faults
  | .lifetime _ | .other _ => [.notATypeArgument]

end

end Code

namespace FieldType

variable {record : String} {absolute : Bool} {around before : List String} {f : FieldType}

/-! ## Reading -/

theorem names_iff {segments : List String} {name : TypeName} :
    TypeName.Names record absolute segments name ↔
      TypeName.ofPath record absolute segments = name := by
  have hcases : (!absolute && decide (segments = ["Self"])) = true ↔
      absolute = false ∧ segments = ["Self"] := by
    simp
  unfold TypeName.ofPath
  constructor
  · rintro (_ | hself)
    · rfl
    · exact if_neg fun h => hself (hcases.1 h).1 (hcases.1 h).2
  · rintro rfl
    split
    · next h =>
      obtain ⟨rfl, rfl⟩ := hcases.1 h
      exact .self
    · next h => exact .path fun ha hs => h (hcases.2 ⟨ha, hs⟩)

/-- Behind plain names, a path is read by its last segment. -/
theorem ofSegments_eq_ok_iff {ss : List Segment} :
    ofSegments record absolute before ss = .ok f ↔
      ∃ (around : List String) (s : Segment), ss = around.map .plain ++ [s] ∧
        ofLastSegment record absolute (around.reverse ++ before) s = .ok f := by
  -- only the last segment may have arguments
  induction ss generalizing before with
  | nil => simp [ofSegments]
  | cons s ss ih =>
    rw [ofSegments]
    cases ss with
    | nil =>
      rw [if_pos List.isEmpty_nil]
      constructor
      · exact fun h => ⟨[], s, rfl, h⟩
      · rintro ⟨around, s', hss, h⟩
        cases around with
        | nil =>
          cases hss
          exact h
        | cons n around => simp at hss
    | cons s₁ ss =>
      rw [if_neg (by simp)]
      constructor
      · intro h
        split at h
        · next hplain =>
          obtain ⟨n, rfl⟩ : ∃ n, s = .plain n := by cases s <;> simp_all [Segment.isPlain]
          obtain ⟨around, s', hss, h⟩ := ih.1 h
          exact ⟨n :: around, s', by rw [hss]; rfl, by simpa [Segment.name] using h⟩
        · cases h
      · rintro ⟨around, s', hss, h⟩
        cases around with
        | nil => simp at hss
        | cons n around =>
          obtain ⟨rfl, hrest⟩ := List.cons.inj hss
          have hplain : (Segment.plain n).isPlain = true := rfl
          rw [if_pos hplain]
          exact ih.2 ⟨around, s', hrest, by simpa [Segment.name] using h⟩

/-- Brackets without arguments are none. -/
theorem endWrites_applied_iff {n : String} {turbofish trailing : Bool} {args : List Argument} :
    EndWrites record absolute around (.applied n turbofish args trailing) f ↔
      ∃ fs, AllWrite record args fs ∧
        f = apply (.ofPath record absolute (around ++ [n])) fs := by
  constructor
  · intro h
    cases h with
    | empty hname => exact ⟨[], .nil, by rw [names_iff.1 hname]; rfl⟩
    | applied hname hne hall =>
      cases hall with
      | nil => exact absurd rfl hne
      | cons h hall => exact ⟨_, .cons h hall, by rw [names_iff.1 hname]; rfl⟩
  · rintro ⟨fs, hall, rfl⟩
    cases hall with
    | nil => exact .empty (names_iff.2 rfl)
    | cons h hall => exact .applied (names_iff.2 rfl) (List.cons_ne_nil _ _) (.cons h hall)

/-- Arguments are read one by one. -/
theorem ofArguments_cons_eq_iff {a : Argument} {as : List Argument} {fs : List FieldType} :
    ofArguments record (a :: as) = (fs, []) ↔
      ∃ f rest, ofArgument record a = .ok f ∧ ofArguments record as = (rest, []) ∧
        fs = f :: rest := by
  rw [ofArguments]
  cases ofArgument record a with
  | error e => simp [Prod.ext_iff]
  | ok f =>
    constructor
    · intro h
      obtain ⟨hfs, hnone⟩ := Prod.ext_iff.1 h
      exact ⟨f, _, rfl, Prod.ext rfl hnone, hfs.symm⟩
    · rintro ⟨_, _, ⟨⟩, has, rfl⟩
      rw [has]

mutual

/-- The field types that are read are those that type expressions stand for. -/
theorem ofTypeExpr_eq_ok_iff : ∀ {t : TypeExpr} {f : FieldType},
    ofTypeExpr record t = .ok f ↔ Writes record t f
  | .paren t, f => by
    rw [ofTypeExpr, ofTypeExpr_eq_ok_iff]
    exact ⟨.paren, fun | .paren h => h⟩
  | .group t, f => by
    rw [ofTypeExpr, ofTypeExpr_eq_ok_iff]
    exact ⟨.group, fun | .group h => h⟩
  | .path p, f => by
    rw [ofTypeExpr]
    exact ofPath_eq_ok_iff
  | .other _, f => by
    rw [ofTypeExpr]
    exact ⟨nofun, nofun⟩

theorem ofPath_eq_ok_iff : ∀ {p : Path} {f : FieldType},
    ofPath record p = .ok f ↔ Writes record (.path p) f
  | .mk absolute ss, f => by
    rw [ofPath, ofSegments_eq_ok_iff]
    constructor
    · rintro ⟨around, s, hss, h⟩
      have hmem : s ∈ ss := hss ▸ List.mem_append_right _ List.mem_cons_self
      rw [List.append_nil, ofLastSegment_of_mem ss s hmem] at h
      exact hss ▸ .path h
    · intro h
      obtain ⟨around, s, hss, h⟩ : ∃ (around : List String) (s : Segment),
          ss = around.map .plain ++ [s] ∧ EndWrites record absolute around s f := by
        cases h with
        | path h => exact ⟨_, _, rfl, h⟩
      have hmem : s ∈ ss := hss ▸ List.mem_append_right _ List.mem_cons_self
      refine ⟨around, s, hss, ?_⟩
      rw [List.append_nil, ofLastSegment_of_mem ss s hmem]
      exact h

theorem ofLastSegment_of_mem : ∀ ss : List Segment, ∀ s ∈ ss,
    ∀ {absolute : Bool} {around : List String} {f : FieldType},
      ofLastSegment record absolute around.reverse s = .ok f ↔ EndWrites record absolute around s f
  | s :: ss, s', hs, absolute, around, f =>
    (List.mem_cons.1 hs).elim (fun h => h ▸ ofLastSegment_eq_ok_iff s)
      fun h => ofLastSegment_of_mem ss s' h

theorem ofLastSegment_eq_ok_iff : ∀ (s : Segment) {absolute : Bool} {around : List String}
    {f : FieldType},
      ofLastSegment record absolute around.reverse s = .ok f ↔ EndWrites record absolute around s f
  | .plain n, absolute, around, f => by
    rw [ofLastSegment, List.reverse_cons, List.reverse_reverse]
    constructor
    · intro h
      cases h
      exact .plain (names_iff.2 rfl)
    · rintro ⟨hname⟩
      rw [names_iff.1 hname]
  | .applied n turbofish args trailing, absolute, around, f => by
    rw [ofLastSegment, List.reverse_cons, List.reverse_reverse, endWrites_applied_iff]
    constructor
    · intro h
      obtain ⟨hnone, rfl⟩ := Report.check_eq_ok.1 h
      exact ⟨_, ofArguments_eq_iff.1 (Prod.ext rfl hnone), rfl⟩
    · rintro ⟨fs, hall, rfl⟩
      rw [ofArguments_eq_iff.2 hall]
      exact Report.check_eq_ok.2 ⟨rfl, rfl⟩
  | .called _ _, absolute, around, f => by
    rw [ofLastSegment]
    exact ⟨nofun, nofun⟩

theorem ofArguments_eq_iff : ∀ {args : List Argument} {fs : List FieldType},
    ofArguments record args = (fs, []) ↔ AllWrite record args fs
  | [], fs => by
    rw [ofArguments]
    constructor
    · intro h
      cases h
      exact .nil
    · rintro ⟨⟩
      rfl
  | a :: as, fs => by
    rw [ofArguments_cons_eq_iff]
    constructor
    · rintro ⟨f, rest, ha, has, rfl⟩
      obtain ⟨t, rfl, ht⟩ := ofArgument_eq_ok_iff.1 ha
      exact .cons ht (ofArguments_eq_iff.1 has)
    · intro h
      -- the relation is taken apart before the recursive call, for the sake of termination
      obtain ⟨t, f, rest, ht, rfl, rfl, has⟩ : ∃ t f rest, Writes record t f ∧ a = .type t ∧
          fs = f :: rest ∧ AllWrite record as rest := by
        cases h with
        | cons ht has => exact ⟨_, _, _, ht, rfl, rfl, has⟩
      exact ⟨f, rest, ofArgument_eq_ok_iff.2 ⟨t, rfl, ht⟩, ofArguments_eq_iff.2 has, rfl⟩

theorem ofArgument_eq_ok_iff : ∀ {a : Argument} {f : FieldType},
    ofArgument record a = .ok f ↔ ∃ t, a = .type t ∧ Writes record t f
  | .type t, f => by
    rw [ofArgument, ofTypeExpr_eq_ok_iff]
    simp
  | .lifetime _, f | .other _, f => by
    rw [ofArgument]
    simp

end

/-! ## Acceptance -/

mutual

theorem Writes.isFieldType : ∀ {t : TypeExpr} {f : FieldType}, Writes record t f → t.IsFieldType
  | _, _, .paren h => .paren h.isFieldType
  | _, _, .group h => .group h.isFieldType
  | _, _, .path h => h.isFieldType

theorem EndWrites.isFieldType : ∀ {absolute : Bool} {around : List String} {s : Segment}
    {f : FieldType}, EndWrites record absolute around s f →
      (TypeExpr.path (.mk absolute (around.map .plain ++ [s]))).IsFieldType
  | absolute, around, _, _, .plain _ => .plain absolute around _
  | absolute, around, _, _, .empty _ => by
    have hnone : ∀ t ∈ ([] : List TypeExpr), t.IsFieldType := nofun
    exact .applied absolute around _ _ _ hnone
  | absolute, around, _, _, .applied _ _ hall => by
    obtain ⟨ts, rfl, hts⟩ := hall.areFieldTypes
    exact .applied absolute around _ _ _ hts

theorem AllWrite.areFieldTypes : ∀ {args : List Argument} {fs : List FieldType},
    AllWrite record args fs → ∃ ts : List TypeExpr, args = ts.map .type ∧ ∀ t ∈ ts, t.IsFieldType
  | _, _, .nil => ⟨[], rfl, nofun⟩
  | _, _, .cons (t := t) h hall => by
    obtain ⟨ts, rfl, hts⟩ := hall.areFieldTypes
    exact ⟨t :: ts, rfl, List.forall_mem_cons.2 ⟨h.isFieldType, hts⟩⟩

end

theorem exists_allWrite {ts : List TypeExpr} (h : ∀ t ∈ ts, ∃ f, Writes record t f) :
    ∃ fs, AllWrite record (ts.map .type) fs := by
  induction ts with
  | nil => exact ⟨[], .nil⟩
  | cons t ts ih =>
    obtain ⟨⟨f, hf⟩, hts⟩ := List.forall_mem_cons.1 h
    obtain ⟨fs, hfs⟩ := ih hts
    exact ⟨f :: fs, .cons hf hfs⟩

/-- Which expressions are of field types does not depend on the record. -/
theorem exists_writes_iff {t : TypeExpr} : (∃ f, Writes record t f) ↔ t.IsFieldType := by
  constructor
  · rintro ⟨f, h⟩
    exact h.isFieldType
  · intro h
    induction h with
    | paren _ ih =>
      obtain ⟨f, hf⟩ := ih
      exact ⟨f, .paren hf⟩
    | group _ ih =>
      obtain ⟨f, hf⟩ := ih
      exact ⟨f, .group hf⟩
    | plain absolute around n => exact ⟨_, .path (.plain (names_iff.2 rfl))⟩
    | applied absolute around n turbofish trailing _ ih =>
      obtain ⟨fs, hfs⟩ := exists_allWrite ih
      exact ⟨_, .path (endWrites_applied_iff.2 ⟨fs, hfs, rfl⟩)⟩

/-! ## Reports -/

/-- All that an outcome reports. -/
def reported {α : Type} : Except FaultReport α → List DeclarationFault
  | .ok _ => []
  | .error e => e.leaves

theorem reported_check {α : Type} (rs : List FaultReport) (a : α) :
    reported (Report.check rs a) = rs.flatMap Report.leaves := by
  cases h : Report.check rs a with
  | ok b =>
    obtain ⟨rfl, -⟩ := Report.check_eq_ok.1 h
    rfl
  | error e => exact Report.leaves_of_check h

mutual

/-- What is reported about a type is what is wrong with it. -/
theorem reported_ofTypeExpr : ∀ t : TypeExpr, reported (ofTypeExpr record t) = t.faults
  | .paren t | .group t => by rw [ofTypeExpr, TypeExpr.faults, reported_ofTypeExpr t]
  | .path p => by rw [ofTypeExpr, TypeExpr.faults, reported_ofPath p]
  | .other _ => by
    rw [ofTypeExpr, TypeExpr.faults]
    rfl

theorem reported_ofPath : ∀ p : Path, reported (ofPath record p) = p.faults
  | .mk absolute ss => by rw [ofPath, Path.faults, reported_ofSegments ss]

theorem reported_ofSegments : ∀ (ss : List Segment) {absolute : Bool} {before : List String},
    reported (ofSegments record absolute before ss) = segmentFaults ss
  | [], _, _ => by
    rw [ofSegments, segmentFaults]
    rfl
  | s :: ss, _, _ => by
    rw [ofSegments, segmentFaults]
    split
    · exact reported_ofLastSegment s
    · split
      · exact reported_ofSegments ss
      · rfl

theorem reported_ofLastSegment : ∀ (s : Segment) {absolute : Bool} {before : List String},
    reported (ofLastSegment record absolute before s) = s.faults
  | .plain n, _, _ => by
    rw [ofLastSegment, Segment.faults]
    rfl
  | .applied n _ args _, _, _ => by
    rw [ofLastSegment, Segment.faults, ← reported_ofArguments args]
    exact reported_check _ _
  | .called _ _, _, _ => by
    rw [ofLastSegment, Segment.faults]
    rfl

theorem reported_ofArguments : ∀ args : List Argument,
    (ofArguments record args).2.flatMap Report.leaves = argumentFaults args
  | [] => by
    rw [ofArguments, argumentFaults]
    rfl
  | a :: as => by
    rw [ofArguments, argumentFaults, ← reported_ofArgument a, ← reported_ofArguments as]
    cases ofArgument record a <;> rfl

theorem reported_ofArgument : ∀ a : Argument, reported (ofArgument record a) = a.faults
  | .type t => by rw [ofArgument, Argument.faults, reported_ofTypeExpr t]
  | .lifetime _ | .other _ => by
    rw [ofArgument, Argument.faults]
    rfl

end

/-- The reader of field types accepts its grammar exactly. A type expression is read if it is,
parentheses and groups aside, a path of plain names whose last name may have such types in angle
brackets; the field type that is read has the same paths and the same nesting, without empty
brackets, and the record in place of each lone `Self`. Of any other expression all faults are
reported: one for what is no path, for brackets in front of the last name and for an argument list
in parentheses, and otherwise, from left to right, one for each argument that is no type, and those
of each type among the arguments. -/
theorem ofTypeExpr_exact (record : String) (t : TypeExpr) :
    ((∃ f, ofTypeExpr record t = .ok f) ↔ t.IsFieldType) ∧
    (∀ f, ofTypeExpr record t = .ok f ↔ Writes record t f) ∧
    ∀ e, ofTypeExpr record t = .error e → e.leaves = t.faults ∧ e.count = t.faults.length := by
  refine ⟨?_, fun f => ofTypeExpr_eq_ok_iff, fun e he => ?_⟩
  · simp only [ofTypeExpr_eq_ok_iff, exists_writes_iff]
  · have hreported : reported (ofTypeExpr record t) = t.faults := reported_ofTypeExpr t
    have hleaves : e.leaves = t.faults := by rwa [he] at hreported
    exact ⟨hleaves, by rw [Report.count, hleaves]⟩

end FieldType

namespace Samples

/-- A type that is a path of names. -/
def namedType (names : List String) : TypeExpr := .path (.mk false (names.map .plain))

/-- A lone name applied to arguments. -/
def appliedType (name : String) (args : List Argument) : TypeExpr :=
  .path (.mk false [.applied name false args false])

/-- The type `Option<(Box<Self>)>`. -/
def nestedSelf : TypeExpr :=
  appliedType "Option" [.type (.paren (appliedType "Box" [.type (.path (.ofName "Self"))]))]

/-- The type `Pair<&str, 'a, Vec<a<>::Item, ()>>`. -/
def faultyPair : TypeExpr :=
  appliedType "Pair" [
    .type (.other [.punct '&' false, .ident "str"]),
    .lifetime [.punct '\'' true, .ident "a"],
    .type (appliedType "Vec" [
      .type (.path (.mk false [.applied "a" false [] false, .plain "Item"])),
      .type (.other [.group .paren []])])]

/-- A type is read as `Option<Box<Node>>`, and four faults of another one are reported. -/
theorem nestedSelf_read :
    nestedSelf.IsFieldType ∧
    FieldType.Writes "Node" nestedSelf (.applied ⟨false, ["Option"]⟩
      [.applied ⟨false, ["Box"]⟩ [.simple ⟨false, ["Node"]⟩]]) ∧
    ∃ e, FieldType.ofTypeExpr "Node" faultyPair = .error e ∧ e.count = 4 ∧
      e.leaves = [.notAPath, .notATypeArgument, .innerArguments, .notAPath] := by
  obtain ⟨haccepted, hread, -⟩ := FieldType.ofTypeExpr_exact "Node" nestedSelf
  obtain ⟨-, -, hrefused⟩ := FieldType.ofTypeExpr_exact "Node" faultyPair
  obtain ⟨hleaves, hcount⟩ := hrefused _ rfl
  exact ⟨haccepted.1 ⟨_, rfl⟩, (hread _).1 rfl, _, rfl, hcount, hleaves⟩

end Samples

end JsonAdapters
