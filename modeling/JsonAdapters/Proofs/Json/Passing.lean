import JsonAdapters.Proofs.Json.Looking
import JsonAdapters.Proofs.Json.Tree

/-!
# Passing values

What it means for the steps of a reader to pass one whole value: `Passes` follows the value and
takes, for each part of it, the step that reads such a part. A reader that moves past a value in any
other way, for instance by skipping it, is compared with these steps.

## Main definitions

* `Json.Reader.AtValue`: a value comes next, or text that is none.
* `Json.Reader.BeforeItem`, `Json.Reader.BeforeName`: inside a container, between its parts.
* `Json.Reader.Passes`: from one place to another, the steps pass a value.

## Main statements

* `Json.Reader.Passes.unique`: at one place, one value is passed at most, in one way.

## Design notes

The grammar says which texts spell a value, and nothing about readers; `Passes` says how readers
move, and nothing about texts. Adapters are compared with `Passes`, since they take the same steps,
and `Passes` is compared with the grammar once.
-/

namespace JsonAdapters.Json

namespace Reader

open Outcome

variable {r r' r₁ r₂ : Reader} {α β : Type}

/-! ## Places -/

/-- A value is due: at the top of a document, in an array, or behind the name of a member. -/
def ValueDue (r : Reader) : Prop :=
  match r.frames, r.due with
  | [], .first | .array _ :: _, .first | .array _ :: _, .further | .object _ :: _, .memberValue =>
    True
  | _, _ => False

/-- A value is due and the container does not end here; what was looked at is there. -/
structure AtValue (r : Reader) : Prop where
  due : r.ValueDue
  truthful : r.Truthful
  more : ∀ r', look r ≠ .ok .close r'

/-- Between the items of an array. -/
structure BeforeItem (r : Reader) : Prop where
  inArray : r.inArray = true
  due : r.due = .first ∨ r.due = .further
  looked : r.looked = none

/-- Between the members of an object. -/
structure BeforeName (r : Reader) : Prop where
  nameDue : r.nameDue = true
  due : r.due = .first ∨ r.due = .further
  looked : r.looked = none

theorem ValueDue.nameDue (h : r.ValueDue) : r.nameDue = false := by
  unfold ValueDue at h
  unfold Reader.nameDue
  split at h <;> simp_all

theorem ValueDue.ne_nothing (h : r.ValueDue) : r.due ≠ .nothing := by
  unfold ValueDue at h
  split at h <;> simp_all

theorem ValueDue.of_memberValue (h : r.ValueDue) (hd : r.due = .memberValue) :
    r.inArray = false := by
  unfold ValueDue at h
  unfold Reader.inArray
  split at h <;> simp_all

/-! ## Looking at a value -/

/-- What is still to be passed before a value. -/
def LeadIn (r : Reader) (lead : List Char) : Prop :=
  match r.looked with
  | some _ => lead = []
  | none => Lead r.due lead

theorem starts_seen {m k : Mark} : (r.seen k).Starts m ↔ r.Starts m := by
  cases m <;> rfl

theorem starts_movedTo {m : Mark} {rest : List Char} {p q : Position} :
    (r.movedTo rest p).Starts m ↔ (r.movedTo rest q).Starts m := by
  cases m <;> rfl

/-- One token stands at one place. -/
theorem Starts.unique {m k : Mark} (h : r.Starts m) (h' : r.Starts k) : m = k := by
  obtain ⟨c, t, hr, -⟩ := h.head
  have hm := classify_complete hr h
  rw [classify_complete hr h'] at hm
  injection hm with hm
  exact hm.symm

/-- The token of a value is found behind its lead. -/
theorem AtValue.look_sound {m : Mark} (h : AtValue r) (hl : look r = .ok m r₁) :
    ∃ lead rest p, r.rest = lead ++ rest ∧ r.LeadIn lead ∧ r₁ = (r.movedTo rest p).seen m ∧
      (r.movedTo rest p).Starts m := by
  -- behind a remembered token nothing is left to pass
  cases hlooked : r.looked with
  | some k =>
    rw [look_of_looked hlooked] at hl
    injection hl with hm hr
    subst hm hr
    refine ⟨[], r.rest, r.position, rfl, ?_, ?_, h.truthful k hlooked⟩
    · rw [LeadIn, hlooked]
    · rw [seen, movedTo, ← hlooked]
  | none =>
    obtain ⟨lead, rest, p, hr, hlead, rfl, hm⟩ :=
      Reader.look_sound hlooked h.due.ne_nothing h.due.of_memberValue hl
    refine ⟨lead, rest, p, hr, ?_, rfl, starts_seen.1 hm⟩
    rw [LeadIn, hlooked]
    refine hlead.of_ne_close ?_
    rintro rfl
    exact h.more _ hl

theorem AtValue.look_complete {m : Mark} {lead rest : List Char} (h : AtValue r)
    (hr : r.rest = lead ++ rest) (hlead : r.LeadIn lead)
    (hm : (r.movedTo rest r.position).Starts m) (hne : m ≠ .close) :
    ∃ p, look r = .ok m ((r.movedTo rest p).seen m) := by
  rw [LeadIn] at hlead
  cases hlooked : r.looked with
  | some k =>
    rw [hlooked] at hlead
    obtain rfl : lead = [] := hlead
    obtain rfl : r.rest = rest := hr
    obtain rfl := (h.truthful k hlooked).unique (show r.Starts m from hm)
    refine ⟨r.position, ?_⟩
    rw [look_of_looked hlooked, seen, movedTo, ← hlooked]
  | none =>
    rw [hlooked] at hlead
    exact Reader.look_complete hlooked hr (Lead.leads hlead hne) fun p => starts_movedTo.1 hm

/-- The token of a value is neither the end of a container nor a name. -/
theorem AtValue.look_ne {m : Mark} (h : AtValue r) (hl : look r = .ok m r₁) :
    m ≠ .close ∧ m ≠ .name := by
  refine ⟨fun hm => h.more r₁ (hm ▸ hl), ?_⟩
  rintro rfl
  obtain ⟨lead, rest, p, -, -, -, hname, -⟩ := h.look_sound hl
  rw [movedTo_nameDue, h.due.nameDue] at hname
  cases hname

/-- Looking at a value stays at the value. -/
theorem AtValue.look_atValue {m : Mark} (h : AtValue r) (hl : look r = .ok m r₁) :
    AtValue r₁ ∧ look r₁ = .ok m r₁ := by
  obtain ⟨lead, rest, p, -, -, rfl, hm⟩ := h.look_sound hl
  have hl₁ : look ((r.movedTo rest p).seen m) = .ok m ((r.movedTo rest p).seen m) :=
    look_of_looked rfl
  refine ⟨⟨h.due, ?_, ?_⟩, hl₁⟩
  · rintro _ ⟨⟩
    exact starts_seen.2 hm
  · intro r' hr'
    rw [hl₁] at hr'
    injection hr' with hclose
    exact (h.look_ne hl).1 hclose

/-- Where a value is due, looking at a value is looking. -/
theorem AtValue.lookValue_eq (h : AtValue r) : lookValue r = look r := by
  simp only [lookValue, get_bind_run, h.due.nameDue, h.due.ne_nothing, ite_run, decide_false,
    Bool.or_false, Bool.false_eq_true, if_false]
  cases hl : look r with
  | ok m r₁ =>
    rw [bind_of_ok hl]
    simp only [(h.look_ne hl).1, if_false]
    rfl
  | error e r₁ =>
    exact bind_eq_error.2 (.inl hl)

theorem AtValue.lookKind_eq_ok_iff {k : Kind} {m : Mark} (h : AtValue r) :
    lookKind k r = .ok m r₁ ↔ look r = .ok m r₁ ∧ Mark.kind m = k := by
  simp only [lookKind, bind_eq_ok, h.lookValue_eq, ite_run, fail_bind_apply, pure_run]
  constructor
  · rintro ⟨m', r', hl, hk⟩
    split at hk
    · cases hk
    · next hk' =>
      cases hk
      exact ⟨hl, by simpa using hk'⟩
  · rintro ⟨hl, rfl⟩
    exact ⟨m, r₁, hl, by simp⟩

theorem AtValue.peek_eq_ok_iff {k : Kind} (h : AtValue r) :
    peek r = .ok k r₁ ↔ ∃ m, look r = .ok m r₁ ∧ k = Mark.kind m := by
  simp only [peek, bind_eq_ok, h.lookValue_eq, pure_run]
  constructor
  · rintro ⟨m, r', hl, ⟨⟩⟩
    exact ⟨m, hl, rfl⟩
  · rintro ⟨m, hl, rfl⟩
    exact ⟨m, r₁, hl, rfl⟩

/-- Looking for a kind blames the document only. -/
theorem AtValue.lookKind_innocent {k : Kind} {e : ReadFailure} (h : AtValue r)
    (he : lookKind k r = .error e r₁) : Innocent e := by
  simp only [lookKind, bind_eq_error, h.lookValue_eq, ite_run, fail_bind_apply, pure_run] at he
  obtain hl | ⟨m, r', hl, hk⟩ := he
  · exact look_innocent _ _ _ hl
  · split at hk
    · cases hk
      exact ⟨nofun, nofun⟩
    · cases hk

theorem AtValue.peek_innocent {e : ReadFailure} (h : AtValue r) (he : peek r = .error e r₁) :
    Innocent e := by
  simp only [peek, bind_eq_error, h.lookValue_eq] at he
  obtain hl | ⟨m, r', hl, hk⟩ := he
  · exact look_innocent _ _ _ hl
  · cases hk

/-- A step that reads a value of a kind reads the same after a peek. -/
theorem AtValue.lookKind_peek {k k' : Kind} (h : AtValue r) (hp : peek r = .ok k r₁) :
    lookKind k' r₁ = lookKind k' r := by
  obtain ⟨m, hl, -⟩ := h.peek_eq_ok_iff.1 hp
  obtain ⟨h₁, hl₁⟩ := h.look_atValue hl
  simp only [lookKind, bind, EStateM.bind, h.lookValue_eq, h₁.lookValue_eq, hl, hl₁]

theorem AtValue.peek_atValue {k : Kind} (h : AtValue r) (hp : peek r = .ok k r₁) : AtValue r₁ := by
  obtain ⟨m, hl, -⟩ := h.peek_eq_ok_iff.1 hp
  exact (h.look_atValue hl).1

/-! ## Passing a value -/

/-- Read the text of a number of any length. -/
def numeral : ReadM String := do
  let _ ← lookKind .number
  passNumber false

mutual

/-- The steps for the value lead from the first reader to the second. -/
def Passes : Tree → Reader → Reader → Prop
  | .null, r, r' => null r = .ok () r'
  | .bool b, r, r' => bool r = .ok b r'
  | .number text, r, r' => numeral r = .ok text r'
  | .string s, r, r' => string r = .ok s r'
  | .array js, r, r' => ∃ r₁ r₂, enterArray r = .ok () r₁ ∧ PassesItems js r₁ r₂ ∧
      leaveArray r₂ = .ok () r'
  | .object ms, r, r' => ∃ r₁ r₂, enterObject r = .ok () r₁ ∧ PassesMembers ms r₁ r₂ ∧
      leaveObject r₂ = .ok () r'

/-- The steps for the rest of an array, up to its end. -/
def PassesItems : List Tree → Reader → Reader → Prop
  | [], r, r' => more r = .ok false r'
  | j :: js, r, r' => ∃ r₁ r₂, more r = .ok true r₁ ∧ Passes j r₁ r₂ ∧ PassesItems js r₂ r'

/-- The steps for the rest of an object, up to its end. -/
def PassesMembers : List (String × Tree) → Reader → Reader → Prop
  | [], r, r' => more r = .ok false r'
  | (s, j) :: ms, r, r' => ∃ r₁ r₂ r₃, more r = .ok true r₁ ∧ name r₁ = .ok s r₂ ∧
      Passes j r₂ r₃ ∧ PassesMembers ms r₃ r'

end

/-- The kind of a value that is passed shows beforehand. -/
theorem Passes.peek {j : Tree} (h : Passes j r r') : ∃ r₁, peek r = .ok j.kind r₁ := by
  have hlook {k : Kind} {m : Mark} {r₁ : Reader} (hl : lookKind k r = .ok m r₁) :
      Reader.peek r = .ok k r₁ := by
    simp only [lookKind, bind_eq_ok, ite_run, fail_bind_apply, pure_run] at hl
    obtain ⟨m', r'', hv, hk⟩ := hl
    split at hk
    · cases hk
    · next hk' =>
      cases hk
      simp only [ne_eq, Decidable.not_not] at hk'
      rw [Reader.peek, bind_of_ok hv, hk']
      rfl
  cases j with
  | null | bool | number | string =>
    obtain ⟨m, r₁, hl, -⟩ := bind_eq_ok.1 h
    exact ⟨r₁, hlook hl⟩
  | array js | object ms =>
    obtain ⟨r₁, r₂, h, -⟩ := h
    obtain ⟨m, r₁, hl, -⟩ := bind_eq_ok.1 h
    exact ⟨r₁, hlook hl⟩

theorem PassesItems.more {js : List Tree} (h : PassesItems js r r') :
    ∃ r₁, Reader.more r = .ok (!js.isEmpty) r₁ := by
  cases js with
  | nil => exact ⟨r', h⟩
  | cons j js =>
    obtain ⟨r₁, r₂, hm, -⟩ := h
    exact ⟨r₁, hm⟩

theorem PassesMembers.more {ms : List (String × Tree)} (h : PassesMembers ms r r') :
    ∃ r₁, Reader.more r = .ok (!ms.isEmpty) r₁ := by
  cases ms with
  | nil => exact ⟨r', h⟩
  | cons m ms =>
    obtain ⟨r₁, r₂, r₃, hm, -⟩ := h
    exact ⟨r₁, hm⟩

/-- Where one more item is found, the rest of the array starts with it. -/
theorem passesItems_iff_of_more {js : List Tree} (hm : more r = .ok true r₁) :
    PassesItems js r r' ↔
      ∃ k ks a, js = k :: ks ∧ Passes k r₁ a ∧ PassesItems ks a r' := by
  constructor
  · intro h
    cases js with
    | nil => cases hm.symm.trans h
    | cons j js =>
      obtain ⟨r₃, r₂, hm', hj, hjs⟩ := h
      cases hm.symm.trans hm'
      exact ⟨j, js, r₂, rfl, hj, hjs⟩
  · rintro ⟨j, js, r₂, rfl, hj, hjs⟩
    exact ⟨r₁, r₂, hm, hj, hjs⟩

/-- Where one more name is found, the rest of the object starts with a member of that name. -/
theorem passesMembers_iff_of_name {ms : List (String × Tree)} {key : String}
    (hm : more r = .ok true r₁) (hn : name r₁ = .ok key r₂) : PassesMembers ms r r' ↔
      ∃ k ns a, ms = (key, k) :: ns ∧ Passes k r₂ a ∧ PassesMembers ns a r' := by
  constructor
  · intro h
    cases ms with
    | nil => cases hm.symm.trans h
    | cons m ms =>
      obtain ⟨r₃, r₄, r₅, hm', hn', hj, hms⟩ := h
      cases hm.symm.trans hm'
      cases hn.symm.trans hn'
      exact ⟨m.2, ms, r₅, rfl, hj, hms⟩
  · rintro ⟨j, ms, r₅, rfl, hj, hms⟩
    exact ⟨r₁, r₂, r₅, hm, hn, hj, hms⟩

/-- A peek changes nothing about what is passed. -/
theorem AtValue.passes_peek {k : Kind} {j : Tree} (h : AtValue r) (hp : Reader.peek r = .ok k r₁) :
    Passes j r₁ r' ↔ Passes j r r' := by
  -- all steps for a value start by looking for its kind
  have hbind {α : Type} (k' : Kind) (f : Mark → ReadM α) :
      (lookKind k' >>= f) r₁ = (lookKind k' >>= f) r := by
    change EStateM.bind _ f _ = EStateM.bind _ f _
    rw [EStateM.bind, EStateM.bind, h.lookKind_peek hp]
  cases j <;>
    simp only [Passes, null, bool, numeral, string, enterArray, enterObject, hbind]

mutual

/-- At one place, one value is passed at most, in one way. -/
theorem Passes.unique {r a b : Reader} : ∀ {j k : Tree}, Passes j r a → Passes k r b → j = k ∧ a = b
  | j, k, h, h' => by
    -- the kind shows beforehand, so that both values are of the same kind
    obtain ⟨r₁, hp⟩ := h.peek
    obtain ⟨r₂, hp'⟩ := h'.peek
    rw [hp] at hp'
    injection hp' with hk
    cases j <;> cases k <;> simp only [Tree.kind, reduceCtorEq] at hk
    case null.null | bool.bool | number.number | string.string =>
      cases Eq.trans (Eq.symm h) h'
      exact ⟨rfl, rfl⟩
    case array.array =>
      obtain ⟨x, y, hx, hy, hz⟩ := h
      obtain ⟨x', y', hx', hy', hz'⟩ := h'
      cases hx.symm.trans hx'
      obtain ⟨rfl, rfl⟩ := PassesItems.unique hy hy'
      cases hz.symm.trans hz'
      exact ⟨rfl, rfl⟩
    case object.object =>
      obtain ⟨x, y, hx, hy, hz⟩ := h
      obtain ⟨x', y', hx', hy', hz'⟩ := h'
      cases hx.symm.trans hx'
      obtain ⟨rfl, rfl⟩ := PassesMembers.unique hy hy'
      cases hz.symm.trans hz'
      exact ⟨rfl, rfl⟩

theorem PassesItems.unique {r a b : Reader} :
    ∀ {js ks : List Tree}, PassesItems js r a → PassesItems ks r b → js = ks ∧ a = b
  | [], [], h, h' => by
    cases Eq.trans (Eq.symm h) h'
    exact ⟨rfl, rfl⟩
  | [], _ :: _, h, ⟨_, _, h', _⟩ => by cases Eq.trans (Eq.symm h) h'
  | _ :: _, [], ⟨_, _, h, _⟩, h' => by cases Eq.trans (Eq.symm h) h'
  | j :: js, k :: ks, ⟨x, y, hx, hy, hz⟩, ⟨x', y', hx', hy', hz'⟩ => by
    cases hx.symm.trans hx'
    obtain ⟨rfl, rfl⟩ := Passes.unique hy hy'
    obtain ⟨rfl, rfl⟩ := PassesItems.unique hz hz'
    exact ⟨rfl, rfl⟩

theorem PassesMembers.unique {r a b : Reader} :
    ∀ {ms ns : List (String × Tree)}, PassesMembers ms r a → PassesMembers ns r b → ms = ns ∧ a = b
  | [], [], h, h' => by
    cases Eq.trans (Eq.symm h) h'
    exact ⟨rfl, rfl⟩
  | [], _ :: _, h, ⟨_, _, _, h', _⟩ => by cases Eq.trans (Eq.symm h) h'
  | _ :: _, [], ⟨_, _, _, h, _⟩, h' => by cases Eq.trans (Eq.symm h) h'
  | (s, j) :: ms, (t, k) :: ns, ⟨x, y, z, hx, hs, hy, hz⟩, ⟨x', y', z', hx', hs', hy', hz'⟩ => by
    cases hx.symm.trans hx'
    cases hs.symm.trans hs'
    obtain ⟨rfl, rfl⟩ := Passes.unique hy hy'
    obtain ⟨rfl, rfl⟩ := PassesMembers.unique hz hz'
    exact ⟨rfl, rfl⟩

end

end Reader

end JsonAdapters.Json
