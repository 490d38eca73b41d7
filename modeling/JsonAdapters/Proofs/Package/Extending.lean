import JsonAdapters.Package.Generation
import JsonAdapters.Proofs.Derive.Validation
import JsonAdapters.Proofs.Outcome
import JsonAdapters.Proofs.Record.Descent
import JsonAdapters.Type.Token

/-!
# Records that extend others

The token of a record asks for the token of the record that it extends, and so on along its line of
descent. A pass does not look at what the paths name, so that records may extend each other; it is
then that the tokens never come to an end.

How paths are resolved is left to the language: it is a parameter.

## Main definitions

* `RecordPlan.Resolution`, `RecordPlan.parent?`: the record that a record extends.
* `RecordPlan.tokenWithin`: the token of a record, computed with a bounded depth of calls.
* `RecordPlan.AllResolved`: records whose paths name records among them.

## Main statements

* `RecordPlan.AllResolved.tokenWithin_eq`: how deep the calls for a token are nested.
* `generate_tokens_end_iff`.
-/

namespace JsonAdapters

open Code Relation

namespace RecordPlan

/-- How paths are resolved: which record a path names in the place where a record is declared. -/
abbrev Resolution := RecordPlan → Path → Option RecordPlan

/-- The names that lead to a record from the root on. -/
def place (r : RecordPlan) : List String := r.module ++ [r.name]

variable (resolve : Resolution)

/-- The record that a record extends. -/
def parent? (r : RecordPlan) : Option RecordPlan := r.extending.bind (resolve r)

/-- What the code of a token (`Emit.tokenCode`) is worth: the name of the record, extended by the
token of the record that it extends, if it extends one. There is no token yet if calls would be
nested deeper than the bound. -/
def tokenWithin : Nat → RecordPlan → Option (TypeToken (List String))
  | 0, _ => none
  | n + 1, r =>
    match r.extending with
    | none => some (.named r.place r.name)
    | some p => do
      let parent ← tokenWithin n (← resolve r p)
      return (TypeToken.named r.place r.name).extending parent

/-- Each path that one of the records extends names one of the records. -/
def AllResolved (rs : List RecordPlan) : Prop :=
  ∀ r ∈ rs, ∀ p ∈ r.extending, ∃ q ∈ rs, resolve r p = some q

variable {resolve} {rs : List RecordPlan} {r q : RecordPlan} {l : List RecordPlan} {n : Nat}

theorem tokenWithin_of_root (h : r.extending = none) :
    tokenWithin resolve (n + 1) r = some (.named r.place r.name) := by
  simp only [tokenWithin, h]

/-- One call asks for the token of the record that is extended. -/
theorem tokenWithin_of_step (h : parent? resolve r = some q) :
    tokenWithin resolve (n + 1) r =
      (tokenWithin resolve n q).map (TypeToken.named r.place r.name).extending := by
  obtain ⟨p, hp, hresolve⟩ := Option.bind_eq_some_iff.1 h
  cases hq : tokenWithin resolve n q <;> simp [tokenWithin, hp, hresolve, hq]

namespace AllResolved

theorem of_parent? (h : ∀ r ∈ rs, r.extending = none ∨ ∃ q ∈ rs, parent? resolve r = some q) :
    AllResolved resolve rs := by
  intro r hr p hp
  obtain hnone | ⟨q, hq, hparent⟩ := h r hr
  · cases hnone.symm.trans hp
  · rw [parent?, show r.extending = some p from hp, Option.bind_some] at hparent
    exact ⟨q, hq, hparent⟩

theorem mem_of_reaches (h : AllResolved resolve rs) (hr : r ∈ rs)
    (hq : ReflTransGen (Descends (parent? resolve)) r q) : q ∈ rs := by
  induction hq with
  | refl => exact hr
  | tail _ hstep ih =>
    obtain ⟨p, hp, hresolve⟩ := Option.bind_eq_some_iff.1 hstep
    obtain ⟨q', hq', heq⟩ := h _ ih p hp
    obtain rfl := Option.some.inj (hresolve.symm.trans heq)
    exact hq'

theorem extending_eq_none (h : AllResolved resolve rs) (hr : r ∈ rs)
    (hroot : parent? resolve r = none) :
    r.extending = none := by
  cases hp : r.extending with
  | none => rfl
  | some p =>
    obtain ⟨q, -, hq⟩ := h r hr p hp
    rw [parent?, hp, Option.bind_some, hq] at hroot
    cases hroot

/-- The token of a record is there as soon as the bound exceeds the line of descent. -/
theorem tokenWithin_eq (h : AllResolved resolve rs) (hr : r ∈ rs)
    (hl : Lineage (parent? resolve) r l) :
    ∃ t, ∀ n, tokenWithin resolve n r = if l.length < n then some t else none := by
  induction hl with
  | @root r hroot =>
    refine ⟨.named r.place r.name, fun n => ?_⟩
    cases n with
    | zero => rfl
    | succ n => exact tokenWithin_of_root (h.extending_eq_none hr hroot)
  | @step r q l hstep hl ih =>
    obtain ⟨t, ht⟩ := ih (h.mem_of_reaches hr (.single hstep))
    refine ⟨(TypeToken.named r.place r.name).extending t, fun n => ?_⟩
    cases n with
    | zero => rfl
    | succ n =>
      rw [tokenWithin_of_step hstep, ht n, List.length_cons]
      by_cases hn : l.length < n
      · rw [if_pos hn, if_pos (Nat.succ_lt_succ hn), Option.map_some]
      · rw [if_neg hn, if_neg (by omega), Option.map_none]

theorem exists_lineage_of_tokenWithin (h : AllResolved resolve rs) (hr : r ∈ rs)
    {t : TypeToken (List String)} (ht : tokenWithin resolve n r = some t) :
    ∃ l, Lineage (parent? resolve) r l := by
  induction n generalizing r t with
  | zero => cases ht
  | succ n ih =>
    cases hstep : parent? resolve r with
    | none => exact ⟨[], .root hstep⟩
    | some q =>
      rw [tokenWithin_of_step hstep] at ht
      obtain ⟨parent, hparent, -⟩ := Option.map_eq_some_iff.1 ht
      obtain ⟨l, hl⟩ := ih (h.mem_of_reaches hr (.single hstep)) hparent
      exact ⟨q :: l, .step hstep hl⟩

/-- The line of descent of one of the records holds others of them. -/
theorem lineage_subset (h : AllResolved resolve rs) (hr : r ∈ rs)
    (hl : Lineage (parent? resolve) r l) : r :: l ⊆ rs :=
  List.cons_subset.2 ⟨hr, fun _ hq => h.mem_of_reaches hr (hl.mem_iff.1 hq).to_reflTransGen⟩

end AllResolved

end RecordPlan

open RecordPlan

/-- A pass takes records whatever they extend. Where each path names one of the records, the line of
descent of a record ends exactly if no record on it is its own ancestor, and exactly then its token
can be computed. The line is then shorter than the list of records and ends with a record that
extends none, and the calls for the token are nested as deep as the line is long. -/
theorem generate_tokens_end_iff {d : Discovery} {o : Options} {out : Output}
    (h : generate d o = .ok out) :
    ∃ rs, plansOf d.records = .ok rs ∧ ∀ resolve, AllResolved resolve rs → ∀ r ∈ rs,
      ((∃ l, Lineage (parent? resolve) r l) ↔ FreeOfCycles (parent? resolve) r) ∧
      ((∃ n t, tokenWithin resolve n r = some t) ↔ FreeOfCycles (parent? resolve) r) ∧
      ∀ l, Lineage (parent? resolve) r l →
        l.length < rs.length ∧
        ((r :: l).getLast (List.cons_ne_nil r l)).extending = none ∧
        ∃ t, ∀ n, tokenWithin resolve n r = if l.length < n then some t else none := by
  obtain ⟨rs, hrs, -⟩ := Outcome.except_bind_eq_ok.1 h
  refine ⟨rs, hrs, fun resolve hall r hr => ?_⟩
  -- a line that comes back to no record is finite, as there are finitely many records
  have hfree : FreeOfCycles (parent? resolve) r → ∃ l, Lineage (parent? resolve) r l := by
    intro hfree
    obtain ⟨l, hl, -⟩ := hfree.exists_lineage fun b p hb _ => hall.mem_of_reaches hr hb
    exact ⟨l, hl⟩
  refine ⟨⟨fun ⟨l, hl⟩ => hl.freeOfCycles, hfree⟩, ⟨fun ⟨n, t, ht⟩ => ?_, fun h => ?_⟩,
    fun l hl => ?_⟩
  · obtain ⟨l, hl⟩ := hall.exists_lineage_of_tokenWithin hr ht
    exact hl.freeOfCycles
  · obtain ⟨l, hl⟩ := hfree h
    obtain ⟨t, ht⟩ := hall.tokenWithin_eq hr hl
    exact ⟨l.length + 1, t, by rw [ht, if_pos (Nat.lt_succ_self _)]⟩
  · have hsubset := hall.lineage_subset hr hl
    have hlast := hsubset (List.getLast_mem (List.cons_ne_nil r l))
    exact ⟨(hl.nodup.subperm hsubset).length_le,
      hall.extending_eq_none hlast hl.parent?_getLast, hall.tokenWithin_eq hr hl⟩

namespace Samples

/-- A structure without fields, of a name, that extends a structure of another name. -/
def extendingDeclaration (name : String) (parent : Option String) : Declaration where
  attributes := parent.toList.map (textSettingOf "extends")
  visibility := []
  name := name
  generic := false
  shape := .named []

def extendingPlan (name : String) (parent : Option String) : RecordPlan where
  name := name
  visibility := []
  module := ["m"]
  fields := []
  skipped := []
  default := none
  extending := parent.map .ofName

/-- Declarations of one module, each with the name that it extends. -/
def foundExtending (names : List (String × Option String)) : Discovery where
  records := names.map fun (n, parent) => ⟨["m"], extendingDeclaration n parent⟩
  markers := []
  scopes := []

theorem generate_foundExtending {names : List (String × Option String)} {rs : List RecordPlan}
    (h : plansOf (foundExtending names).records = .ok rs) :
    ∃ out, generate (foundExtending names) {} = .ok out := by
  rw [generate, h]
  exact ⟨_, rfl⟩

/-- A lone name stands for a record of the same module. -/
def byName (rs : List RecordPlan) : Resolution := fun r p =>
  rs.find? fun q => q.module = r.module ∧ p.isIdent q.name

/-- Of three records, the first extends the last, which extends the second: the token of the first
takes three calls. -/
theorem descending_token_ends :
    let a := extendingPlan "A" (some "C")
    let b := extendingPlan "B" none
    let c := extendingPlan "C" (some "B")
    let d := foundExtending [("A", some "C"), ("B", none), ("C", some "B")]
    (∃ out, generate d {} = .ok out) ∧ plansOf d.records = .ok [a, b, c] ∧
      FreeOfCycles (parent? (byName [a, b, c])) a ∧
      ∃ t, ∀ n, tokenWithin (byName [a, b, c]) n a = if 2 < n then some t else none := by
  intro a b c d
  have hplans : plansOf d.records = .ok [a, b, c] := rfl
  have hall : AllResolved (byName [a, b, c]) [a, b, c] :=
    .of_parent? (List.forall_mem_cons.2 ⟨.inr ⟨c, by simp, rfl⟩,
      List.forall_mem_cons.2 ⟨.inl rfl, List.forall_mem_singleton.2 (.inr ⟨b, by simp, rfl⟩)⟩⟩)
  have hline : Lineage (parent? (byName [a, b, c])) a [c, b] :=
    .step rfl (.step rfl (.root rfl))
  obtain ⟨out, hout⟩ := generate_foundExtending hplans
  obtain ⟨rs, hrs, htokens⟩ := generate_tokens_end_iff hout
  obtain rfl : [a, b, c] = rs := Except.ok.inj (hplans.symm.trans hrs)
  obtain ⟨hends, -, htoken⟩ := htokens (byName [a, b, c]) hall a List.mem_cons_self
  exact ⟨⟨out, hout⟩, hplans, hends.1 ⟨_, hline⟩, (htoken _ hline).2.2⟩

/-- Two records that extend each other are accepted. Their lines of descent do not end, and no depth
of calls is enough for their tokens. -/
theorem entwined_accepted :
    let a := extendingPlan "A" (some "B")
    let b := extendingPlan "B" (some "A")
    let d := foundExtending [("A", some "B"), ("B", some "A")]
    (∃ out, generate d {} = .ok out) ∧ plansOf d.records = .ok [a, b] ∧
      AllResolved (byName [a, b]) [a, b] ∧
      ∀ r ∈ [a, b], (¬ ∃ l, Lineage (parent? (byName [a, b])) r l) ∧
        ∀ n, tokenWithin (byName [a, b]) n r = none := by
  intro a b d
  have hab : parent? (byName [a, b]) a = some b := rfl
  have hba : parent? (byName [a, b]) b = some a := rfl
  have hall : AllResolved (byName [a, b]) [a, b] :=
    .of_parent? (List.forall_mem_cons.2 ⟨.inr ⟨b, by simp, hab⟩,
      List.forall_mem_singleton.2 (.inr ⟨a, by simp, hba⟩)⟩)
  -- each of the two comes back to itself
  have hself : ∀ r ∈ [a, b], TransGen (Descends (parent? (byName [a, b]))) r r :=
    List.forall_mem_cons.2 ⟨.head hab (.single hba),
      List.forall_mem_singleton.2 (.head hba (.single hab))⟩
  refine ⟨generate_foundExtending rfl, rfl, hall, fun r hr => ?_⟩
  have hends : ¬ ∃ l, Lineage (parent? (byName [a, b])) r l :=
    fun ⟨l, hl⟩ => hl.not_transGen_self (hself r hr)
  refine ⟨hends, fun n => Option.eq_none_iff_forall_ne_some.2 fun t ht => hends ?_⟩
  exact hall.exists_lineage_of_tokenWithin hr ht

end Samples

end JsonAdapters
