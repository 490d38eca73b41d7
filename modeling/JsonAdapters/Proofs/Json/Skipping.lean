import JsonAdapters.Proofs.Json.Spelling

/-!
# Skipping values

A reader skips a value without a tree in mind: it counts the containers that are open. It gets past
a value exactly when the steps for some value do, and to the same place. Steps that fail, here and
elsewhere at a value, blame the document.

## Main definitions

* `Json.Reader.PassesRest`: the rest of the innermost container is passed.
* `Json.Reader.Closes`: the rest of some containers is passed, innermost first.

## Main statements

* `Json.Reader.skipRest_reaches`: skipping the rest of containers closes them.
* `Json.Reader.AtValue.skip_eq_ok_iff`: a value is skipped exactly when there is one.
-/

namespace JsonAdapters.Json

open Outcome

namespace Reader

variable {r r' r₁ r₂ : Reader} {e : ReadFailure}

/-! ## Failures of steps -/

/-- Passing a literal does not fail. -/
theorem passLiteral_innocent (m : Mark) : FailsOnly Innocent (passLiteral m) := .modify _

/-- A text fails by its spelling. -/
theorem scanText_blameless {ending : Ending} {open? : Option (Escape × Position)}
    {p q : Position} {cs : List Char} {cause : ReadCause}
    (h : scanText ending open? p cs = .error (cause, q)) : cause.Blameless := by
  fun_induction scanText ending open? p cs with
  | case1 =>
    cases h
    exact unclosed_blameless _
  | case2 =>
    cases h
    exact unescaped_blameless _ _
  | case3 => cases h
  | case4 p r hq ih => exact ih h
  | case5 =>
    cases h
    exact malformed_blameless _
  | case6 p c r hq hb hc ih =>
    cases hr : scanText ending none (p.past c) r with
    | error x =>
      rw [hr] at h ih
      cases h
      exact ih rfl
    | ok x =>
      rw [hr] at h
      cases h
  | case7 e start p c r e' he ih => exact ih h
  | case8 =>
    cases h
    exact malformed_blameless _
  | case9 e start p c r d he ih =>
    cases hr : scanText ending none (p.past c) r with
    | error x =>
      rw [hr] at h ih
      cases h
      exact ih rfl
    | ok x =>
      rw [hr] at h
      cases h

/-- Passing a text fails by its spelling. -/
theorem passText_innocent : FailsOnly Innocent passText := by
  refine .bind .get fun r => ?_
  split
  · exact .bind (.set _) fun _ => .pure _
  · next h => exact failAt_innocent (scanText_blameless h)

/-- A number fails by its spelling. -/
theorem scanNumber_blameless {ending : Ending} {s : NumberState} {cs : List Char}
    {cause : ReadCause} (h : scanNumber ending s cs = .error cause) : cause.Blameless := by
  induction cs generalizing s with
  | nil =>
    unfold scanNumber at h
    split at h
    · cases h
      exact unreadable_blameless _
    · split at h <;> cases h
      exact malformed_blameless _
  | cons c cs ih =>
    rw [scanNumber] at h
    split at h
    · split at h
      · next s' _ =>
        cases hr : scanNumber ending s' cs with
        | error x =>
          rw [hr] at h
          cases h
          exact ih hr
        | ok x =>
          rw [hr] at h
          cases h
      · cases h
        exact malformed_blameless _
    · split at h <;> cases h
      exact malformed_blameless _

/-- Passing a number fails by its spelling, or by its size. -/
theorem passNumber_innocent (kept : Bool) : FailsOnly Innocent (passNumber kept) := by
  -- what is left to do, from the last step back
  have hset (r : Reader) (cs : List Char) : FailsOnly Innocent (do
      set r
      return String.ofList cs : ReadM String) :=
    .bind (.set _) fun _ => .pure _
  refine .bind .get fun r => ?_
  split
  · next h => exact fail_innocent (scanNumber_blameless h)
  · have hends (cs rest : List Char) : FailsOnly Innocent (do
        if !endsNumber (r.ending.next rest) then
          failAt (r.position.right cs.length) (.malformed .trailingDataAfterNumber)
        set (valueDone { r with position := r.position.right cs.length, rest })
        return String.ofList cs : ReadM String) :=
      .ite (fun _ => .bind (failAt_innocent (malformed_blameless _)) fun _ => hset _ cs)
        (fun _ => hset _ cs)
    exact .ite (fun _ => .bind (fail_innocent ⟨nofun, nofun⟩) fun _ => hends _ _)
      (fun _ => hends _ _)

/-- Entering fails by the depth. -/
theorem enter_innocent (frame : Frame) : FailsOnly Innocent (enter frame) := by
  have hgo : FailsOnly Innocent (do
      advance
      modify fun r : Reader => { r with
        frames := frame :: r.frames
        due := .first
        looked := none } : ReadM Unit) :=
    .bind (.modify _) fun _ => .modify _
  exact .bind .get fun _ => .ite (fun _ => .bind (fail_innocent ⟨nofun, nofun⟩) fun _ => hgo)
    (fun _ => hgo)

/-- A step for a kind blames the document, if what it does with the token does. -/
theorem AtValue.step_innocent {α : Type} {k : Kind} {f : Mark → ReadM α} (h : AtValue r)
    (hf : ∀ m, FailsOnly Innocent (f m)) (he : (lookKind k >>= f) r = .error e r') :
    Innocent e := by
  obtain hl | ⟨m, r₁, -, hs⟩ := bind_eq_error.1 he
  · exact h.lookKind_innocent hl
  · exact hf m _ _ _ hs

/-- Where a value may stand, reading `null` is no wrong step. -/
theorem AtValue.null_innocent (h : AtValue r) (he : null r = .error e r') : Innocent e :=
  h.step_innocent passLiteral_innocent he

/-- Where a value may stand, reading a boolean is no wrong step. -/
theorem AtValue.bool_innocent (h : AtValue r) (he : bool r = .error e r') : Innocent e :=
  h.step_innocent (fun m => .bind (passLiteral_innocent m) fun _ => .pure _) he

/-- Where a value may stand, reading a string is no wrong step. -/
theorem AtValue.string_innocent (h : AtValue r) (he : string r = .error e r') : Innocent e :=
  h.step_innocent (fun _ => .bind passText_innocent fun _ => .bind (.modify _) fun _ => .pure _) he

/-- Where a value may stand, reading a number is no wrong step. -/
theorem AtValue.number_innocent (h : AtValue r) (he : number r = .error e r') : Innocent e :=
  h.step_innocent (fun _ => passNumber_innocent true) he

/-- Where a value may stand, entering an array is no wrong step. -/
theorem AtValue.enterArray_innocent (h : AtValue r) (he : enterArray r = .error e r') :
    Innocent e :=
  h.step_innocent (fun _ => enter_innocent _) he

/-- Where a value may stand, entering an object is no wrong step. -/
theorem AtValue.enterObject_innocent (h : AtValue r) (he : enterObject r = .error e r') :
    Innocent e :=
  h.step_innocent (fun _ => enter_innocent _) he

/-- Within an array or object, where no value of a member is due, asking for more is no wrong step.
-/
theorem more_innocent (hf : r.frames ≠ []) (hd : r.due ≠ .memberValue)
    (he : more r = .error e r') : Innocent e := by
  have hf : r.frames.isEmpty = false := by simpa using hf
  simp only [more, get_bind_run, hf, hd, Bool.false_or, decide_false, Bool.false_eq_true,
    ite_run, if_false, bind_eq_error, pure_run] at he
  obtain hl | ⟨m, r₁, -, h⟩ := he
  · exact look_innocent _ _ _ hl
  · cases h

/-- Before an item, asking for more is no wrong step. -/
theorem BeforeItem.more_innocent (h : BeforeItem r) (he : more r = .error e r') : Innocent e :=
  Reader.more_innocent h.frames_ne (ne_memberValue_of h.due) he

/-- Before a name, asking for more is no wrong step. -/
theorem BeforeName.more_innocent (h : BeforeName r) (he : more r = .error e r') : Innocent e :=
  Reader.more_innocent h.frames_ne (ne_memberValue_of h.due) he

/-- Where a name was seen, reading it is no wrong step. -/
theorem name_innocent (h : r.nameDue = true) (hl : r.looked = some .name)
    (he : name r = .error e r') : Innocent e := by
  rw [name_eq h hl] at he
  exact FailsOnly.bind passText_innocent (fun _ => .bind (.modify _) fun _ => .pure _) _ _ _ he

/-! ## The rest of a container -/

/-- The steps for the rest of the innermost container, and out of it. -/
inductive PassesRest : Reader → Reader → Prop
  | done {r r₁ r' : Reader} : more r = .ok false r₁ → leave r₁ = .ok () r' → PassesRest r r'
  | part {r r₁ r₂ r₃ r' : Reader} {j : Tree} : more r = .ok true r₁ → toValue r₁ = .ok () r₂ →
      Passes j r₂ r₃ → PassesRest r₃ r' → PassesRest r r'

/-- The steps for the rest of as many containers, innermost first, and out of them. -/
inductive Closes : Nat → Reader → Reader → Prop
  | zero {r : Reader} : Closes 0 r r
  | succ {depth : Nat} {r r₁ r' : Reader} : PassesRest r r₁ → Closes depth r₁ r' →
      Closes (depth + 1) r r'

/-- Inside a container, between its parts. -/
def Between (r : Reader) : Prop := BeforeItem r ∨ BeforeName r

/-- Between items or members, an array or object is open. -/
theorem Between.frames_ne (h : Between r) : r.frames ≠ [] := by
  obtain h | h := h
  · exact h.frames_ne
  · exact h.frames_ne

/-- Between items or members, asking for more is no wrong step. -/
theorem Between.more_innocent (h : Between r) (he : more r = .error e r') : Innocent e := by
  obtain h | h := h
  · exact h.more_innocent he
  · exact h.more_innocent he

/-- A value that is complete inside a container leaves the reader between parts. -/
theorem valueDone_between (h : r.frames ≠ []) : Between r.valueDone := by
  cases hf : r.frames with
  | nil => exact absurd hf h
  | cons f fs =>
    cases f with
    | array i => exact .inl (valueDone_beforeItem (by simp [Reader.inArray, hf])).1
    | object n => exact .inr (valueDone_beforeName hf).1

/-- One more item is a value, and one more member a name. -/
theorem Between.more_true (h : Between r) (hm : more r = .ok true r₁) :
    r₁.frames.length = r.frames.length ∧ r₁.rest.length ≤ r.rest.length ∧
      ((BeforeItem r ∧ AtValue r₁ ∧ r₁.inArray = true) ∨
        (BeforeName r ∧ r₁.nameDue = true ∧ r₁.looked = some .name)) := by
  obtain h | h := h
  · obtain ⟨lead, rest, hr, -, hv, p, m, rfl⟩ := h.more_sound hm
    exact ⟨rfl, by simp [hr, seen], .inl ⟨h, hv, h.inArray⟩⟩
  · obtain ⟨lead, rest, hr, -, p, tail, rfl, rfl⟩ := h.more_sound hm
    exact ⟨rfl, by simp [hr, seen], .inr ⟨h, h.nameDue, rfl⟩⟩

/-- At its end, a container is left. -/
theorem Between.leave_of_end (h : Between r) (hm : more r = .ok false r₁) :
    ∃ r', leave r₁ = .ok () r' ∧ r'.rest.length < r.rest.length ∧
      r'.frames.length + 1 = r.frames.length ∧ (r'.frames ≠ [] → Between r') := by
  have hpos := List.length_pos_iff.2 h.frames_ne
  -- both kinds of containers differ in their brackets only
  have hgo {c : Char} {lead rest : List Char} (hr : r.rest = lead ++ c :: rest)
      (hend : AtEnd r r₁ c rest) : ∃ r', leave r₁ = .ok () r' ∧ r'.rest.length < r.rest.length ∧
        r'.frames.length + 1 = r.frames.length ∧ (r'.frames ≠ [] → Between r') := by
    refine ⟨_, leave_of_close hend.rest hend.looked, ?_, ?_, fun hne => ?_⟩
    · simp only [hr, valueDone_rest, List.length_append, List.length_cons]
      omega
    · rw [valueDone_length]
      simp only [hend.frames, List.length_drop]
      omega
    · refine valueDone_between fun hf => hne ?_
      exact List.length_eq_zero_iff.1 ((valueDone_length _).trans (List.length_eq_zero_iff.2 hf))
  obtain h | h := h
  · obtain ⟨lead, _, hr, tail, rfl, -, hend, -⟩ := h.more_sound hm
    exact hgo hr hend
  · obtain ⟨lead, _, hr, tail, rfl, -, hend, -⟩ := h.more_sound hm
    exact hgo hr hend

/-- An item is its value. -/
theorem toValue_of_item (h : r.inArray = true) : toValue r = .ok () r := by
  simp only [toValue, get_bind_run, nameDue_of_inArray h, Bool.false_eq_true, if_false]
  rfl

/-- A value of a member stands after its name. -/
theorem toValue_of_name (h : r.nameDue = true) : toValue r = (do let _ ← name) r := by
  simp only [toValue, get_bind_run, h, if_true]

/-- In front of a part, the reader moves to its value, or the document is to blame. -/
theorem Between.toValue_ends (h : Between r) (hm : more r = .ok true r₁) :
    Ends toValue r₁ (fun _ r₂ => AtValue r₂ ∧ r₂.frames.length = r.frames.length ∧
      r₂.rest.length ≤ r.rest.length ∧ r₂.frames ≠ []) (fun e _ => Innocent e) := by
  obtain ⟨hlength, hrest, ⟨hb, hv, ha⟩ | ⟨hb, hn, hl⟩⟩ := h.more_true hm
  -- an item is a value already; a member has its name and the colon in front
  · refine .intro (fun _ r₂ ht => ?_) (fun e r₂ ht => ?_)
    · rw [toValue_of_item ha] at ht
      cases ht
      refine ⟨hv, hlength, hrest, fun hf => h.frames_ne ?_⟩
      exact List.length_eq_zero_iff.1 (hlength.symm.trans (List.length_eq_zero_iff.2 hf))
    · rw [toValue_of_item ha] at ht
      cases ht
  · refine .intro (fun _ r₂ ht => ?_) (fun e r₂ ht => ?_)
    · rw [toValue_of_name hn] at ht
      obtain ⟨s, r₂, hs, ht⟩ := bind_eq_ok.1 ht
      cases ht
      obtain ⟨text, rest, p, htext, -, rfl⟩ := name_sound hn hl hs
      have hpos := List.length_pos_iff.2 h.frames_ne
      have htext := congrArg List.length htext
      simp only [List.length_drop, List.length_append, List.length_cons] at htext
      refine ⟨named_atValue _ _ _ _, ?_, ?_, nofun⟩
      · simp only [named, List.length_cons, List.length_drop]
        omega
      · simp only [named, movedTo_rest]
        omega
    · rw [toValue_of_name hn] at ht
      obtain ht | ⟨s, r₂, -, ht⟩ := bind_eq_error.1 ht
      · exact name_innocent hn hl ht
      · cases ht

/-- In front of a member, the reader moves past the name, or the document is to blame. -/
theorem BeforeName.name_ends (h : BeforeName r) (hm : more r = .ok true r₁) :
    Ends name r₁ (fun _ r₂ => AtValue r₂ ∧ (∃ n fs, r₂.frames = .object n :: fs) ∧
      r₂.rest.length ≤ r.rest.length) (fun e _ => Innocent e) := by
  obtain ⟨lead, _, hr, -, p, tail, rfl, rfl⟩ := h.more_sound hm
  have hn : ((r.movedTo ('"' :: tail) p).seen .name).nameDue = true := h.nameDue
  refine .intro (fun s r₂ hs => ?_) fun e r₂ hs => name_innocent hn rfl hs
  obtain ⟨text, rest, q, htext, -, rfl⟩ := name_sound hn rfl hs
  refine ⟨named_atValue _ _ _ _, ⟨_, _, rfl⟩, ?_⟩
  have htext := congrArg List.length htext
  simp only [seen, movedTo_rest, List.drop_succ_cons, List.drop_zero, List.length_append,
    List.length_cons] at htext
  simp only [hr, named, movedTo_rest, List.length_append, List.length_cons]
  omega

/-- The rest of an array is passed as its items and its end. -/
theorem BeforeItem.passesRest_iff (h : BeforeItem r) :
    PassesRest r r' ↔ ∃ js r₁, PassesItems js r r₁ ∧ leaveArray r₁ = .ok () r' := by
  constructor
  · intro hp
    induction hp with
    | done hm hl =>
      obtain ⟨-, -, -, -, -, -, -, ha⟩ := h.more_sound hm
      exact ⟨[], _, hm, (leaveArray_eq ha).trans hl⟩
    | @part r r₁ r₂ r₃ r' j hm ht hj _ ih =>
      obtain ⟨_, rest, -, -, hv, p, m, rfl⟩ := h.more_sound hm
      have ha : ((r.movedTo rest p).seen m).inArray = true := h.inArray
      cases (toValue_of_item ha).symm.trans ht
      obtain ⟨js, r₄, hjs, hl⟩ := ih (hj.beforeItem hv h.inArray).1
      exact ⟨_ :: js, r₄, ⟨_, _, hm, hj, hjs⟩, hl⟩
  · rintro ⟨js, r₁, hjs, hl⟩
    induction js generalizing r with
    | nil =>
      obtain ⟨-, -, -, -, -, -, -, ha⟩ := h.more_sound hjs
      exact .done hjs ((leaveArray_eq ha).symm.trans hl)
    | cons j js ih =>
      obtain ⟨r₂, r₃, hm, hj, hjs⟩ := hjs
      obtain ⟨_, rest, -, -, hv, p, m, rfl⟩ := h.more_sound hm
      exact .part hm (toValue_of_item h.inArray) hj (ih (hj.beforeItem hv h.inArray).1 hjs)

/-- The rest of an object is passed as its members and its end. -/
theorem BeforeName.passesRest_iff (h : BeforeName r) :
    PassesRest r r' ↔ ∃ ms r₁, PassesMembers ms r r₁ ∧ leaveObject r₁ = .ok () r' := by
  constructor
  · intro hp
    induction hp with
    | done hm hl =>
      obtain ⟨-, -, -, -, -, -, -, hn⟩ := h.more_sound hm
      exact ⟨[], _, hm, (leaveObject_eq hn).trans hl⟩
    | @part r r₁ r₂ r₃ r' j hm ht hj _ ih =>
      obtain ⟨_, _, -, -, p, tail, rfl, rfl⟩ := h.more_sound hm
      have hn : ((r.movedTo ('"' :: tail) p).seen .name).nameDue = true := h.nameDue
      rw [toValue_of_name hn] at ht
      obtain ⟨s, r₂, hs, ht⟩ := bind_eq_ok.1 ht
      cases ht
      obtain ⟨text, rest, q, -, -, rfl⟩ := name_sound hn rfl hs
      obtain ⟨ms, r₄, hms, hl⟩ := ih (hj.beforeName (named_atValue _ _ _ _) rfl).1
      exact ⟨(s, _) :: ms, r₄, ⟨_, _, _, hm, hs, hj, hms⟩, hl⟩
  · rintro ⟨ms, r₁, hms, hl⟩
    induction ms generalizing r with
    | nil =>
      obtain ⟨-, -, -, -, -, -, -, hn⟩ := h.more_sound hms
      exact .done hms ((leaveObject_eq hn).symm.trans hl)
    | cons m ms ih =>
      obtain ⟨s, j⟩ := m
      obtain ⟨r₂, r₃, r₄, hm, hs, hj, hms⟩ := hms
      obtain ⟨_, _, -, -, p, tail, rfl, rfl⟩ := h.more_sound hm
      have hn : ((r.movedTo ('"' :: tail) p).seen .name).nameDue = true := h.nameDue
      have ht := (toValue_of_name hn).trans (bind_of_ok hs)
      obtain ⟨text, rest, q, -, -, rfl⟩ := name_sound hn rfl hs
      exact .part hm ht hj (ih (hj.beforeName (named_atValue _ _ _ _) rfl).1 hms)

/-! ## Skipping -/

/-- Into a container that is a value: it is passed as the rest of the container is. -/
structure Entered (r r' : Reader) : Prop where
  between : Between r'
  length : r'.frames.length = r.frames.length + 1
  rest : r'.rest.length < r.rest.length
  passes (a : Reader) : (∃ j, Passes j r a) ↔ PassesRest r' a

/-- A number is kept when it is a number that keeps to the limits. -/
theorem number_eq_ok_iff {text : String} : number r = .ok text r' ↔
    numeral r = .ok text r' ∧ isSupported text.toList = true := by
  constructor
  · intro h
    obtain ⟨m, r₁, hl, h⟩ := bind_eq_ok.1 h
    obtain ⟨rest, hr, hn, hstops, hk, rfl⟩ := passNumber_eq_ok_iff.1 h
    exact ⟨bind_eq_ok.2 ⟨m, r₁, hl, passNumber_eq_ok_iff.2 ⟨rest, hr, hn, hstops, by simp, rfl⟩⟩,
      hk rfl⟩
  · rintro ⟨h, hk⟩
    obtain ⟨m, r₁, hl, h⟩ := bind_eq_ok.1 h
    obtain ⟨rest, hr, hn, hstops, -, rfl⟩ := passNumber_eq_ok_iff.1 h
    exact bind_eq_ok.2
      ⟨m, r₁, hl, passNumber_eq_ok_iff.2 ⟨rest, hr, hn, hstops, fun _ => hk, rfl⟩⟩

/-- A number beyond the limits is refused where it starts. -/
theorem AtValue.number_unsupported {text : String} (h : AtValue r) (hn : numeral r = .ok text r')
    (hk : isSupported text.toList = false) : ∃ r₁,
    number r = .error (.error ⟨.unsupportedNumber text, r.path, r₁.position⟩) r₁ := by
  obtain ⟨m, r₁, hl, hpass⟩ := bind_eq_ok.1 hn
  -- looking ahead leaves the path as it is
  have hpath : r₁.path = r.path := by
    obtain ⟨hlook, -⟩ := h.lookKind_eq_ok_iff.1 hl
    obtain ⟨lead, rest, p, -, -, rfl, -⟩ := h.look_sound hlook
    rfl
  obtain ⟨rest, hr, hnumber, hstops, -, -⟩ := passNumber_eq_ok_iff.1 hpass
  have hscan : scanNumber r₁.ending .start r₁.rest = .ok (text.toList, rest) :=
    scanNumber_eq_ok_iff.2 ⟨hr, hnumber, hstops.endsScan⟩
  refine ⟨r₁, (bind_of_ok hl).trans ?_⟩
  simp only [passNumber, get_bind_run, hscan, ite_run, fail_bind_apply]
  rw [if_pos (by rw [hk]; rfl), String.ofList_toList, hpath]

/-- A step for a kind succeeds only at a value of the kind. -/
theorem AtValue.kind_unique {α : Type} {k : Kind} {f : Mark → ReadM α} {a : α} {j : Tree}
    (h : AtValue r) (hs : (lookKind k >>= f) r = .ok a r₁) (hj : Passes j r r') : j.kind = k := by
  obtain ⟨m, r₂, hl, -⟩ := bind_eq_ok.1 hs
  obtain ⟨hlook, rfl⟩ := h.lookKind_eq_ok_iff.1 hl
  obtain ⟨r₃, hp⟩ := hj.peek
  obtain ⟨m', hlook', hk⟩ := h.peek_eq_ok_iff.1 hp
  cases hlook.symm.trans hlook'
  exact hk

/-- An array that is entered is passed by passing its items. -/
theorem AtValue.entered_array (h : AtValue r) (he : enterArray r = .ok () r₁) : Entered r r₁ := by
  obtain ⟨lead, rest, p, hr, -, -, rfl⟩ := h.enterArray_sound he
  have hb := opened_beforeItem r rest p
  refine ⟨.inl hb, rfl, ?_, fun a => ?_⟩
  · simp only [hr, opened, List.length_append, List.length_cons]
    omega
  · rw [hb.passesRest_iff]
    constructor
    · rintro ⟨j, hj⟩
      obtain ⟨js, rfl⟩ := Tree.kind_eq_iff.1 (h.kind_unique he hj)
      obtain ⟨r₁, r₂, he', hjs, hl⟩ := hj
      cases he.symm.trans he'
      exact ⟨_, r₂, hjs, hl⟩
    · rintro ⟨js, r₂, hjs, hl⟩
      exact ⟨.array js, _, r₂, he, hjs, hl⟩

/-- An object that is entered is passed by passing its members. -/
theorem AtValue.entered_object (h : AtValue r) (he : enterObject r = .ok () r₁) :
    Entered r r₁ := by
  obtain ⟨lead, rest, p, hr, -, -, rfl⟩ := h.enterObject_sound he
  have hb := opened_beforeName r rest p
  refine ⟨.inr hb, rfl, ?_, fun a => ?_⟩
  · simp only [hr, opened, List.length_append, List.length_cons]
    omega
  · rw [hb.passesRest_iff]
    constructor
    · rintro ⟨j, hj⟩
      obtain ⟨ms, rfl⟩ := Tree.kind_eq_iff.1 (h.kind_unique he hj)
      obtain ⟨r₁, r₂, he', hms, hl⟩ := hj
      cases he.symm.trans he'
      exact ⟨_, r₂, hms, hl⟩
    · rintro ⟨ms, r₂, hms, hl⟩
      exact ⟨.object ms, _, r₂, he, hms, hl⟩

/-- A value that is passed inside a container leaves the reader between parts. -/
theorem Passes.between {j : Tree} (h : Passes j r r') (hr : AtValue r) (hne : r.frames ≠ []) :
    Between r' ∧ r'.frames.length = r.frames.length := by
  obtain ⟨⟨lead, text, rest, p, -, -, -, -, rfl⟩, -⟩ := h.sound hr
  exact ⟨valueDone_between hne, valueDone_length _⟩

/-- Where a token stands, a value that is passed is of its kind. -/
theorem AtValue.kind_of_look {m : Mark} {j : Tree} (h : AtValue r) (hl : look r = .ok m r₁)
    (hj : Passes j r r') : j.kind = Mark.kind m := by
  obtain ⟨r₂, hp⟩ := hj.peek
  obtain ⟨m', hl', hk⟩ := h.peek_eq_ok_iff.1 hp
  cases hl.symm.trans hl'
  exact hk

/-- What the head of a value passes: a scalar, or the bracket of a container. -/
def PassesHead (r : Reader) (entered : Bool) (r' : Reader) : Prop :=
  if entered then Entered r r' else ∃ j, Passes j r r'

/-- The head of a value is passed by the step for its kind. -/
theorem AtValue.skipHead_of_kind {α : Type} {m : Mark} {k : Kind} {f : Mark → ReadM α}
    (entered : Bool) (h : AtValue r) (hl : look r = .ok m r₁) (hk : Mark.kind m = k)
    (hskip : skipMark m r₁ = (do let _ ← f m; return entered : ReadM Bool) r₁)
    (hf : ∀ m, FailsOnly Innocent (f m))
    (hok : ∀ a r', (lookKind k >>= f) r = .ok a r' → PassesHead r entered r')
    (hpasses : ∀ j r', j.kind = k → Passes j r r' → ∃ a r'', (lookKind k >>= f) r = .ok a r'') :
    Ends skipHead r (PassesHead r) (fun e _ => Innocent e ∧ ∀ j r', ¬Passes j r r') := by
  -- both readers look at the same mark, so they go the same way
  have hstep : (lookKind k >>= f) r = f m r₁ :=
    bind_of_ok (h.lookKind_eq_ok_iff.2 ⟨hl, hk⟩)
  have heq : skipHead r = (do let _ ← f m; return entered : ReadM Bool) r₁ :=
    (bind_of_ok (h.lookValue_eq.trans hl)).trans hskip
  refine .intro (fun b r' hs => ?_) (fun e r' hs => ?_)
  · obtain ⟨a, r₂, hs, hret⟩ := bind_eq_ok.1 (heq.symm.trans hs)
    cases hret
    exact hok a _ (hstep.trans hs)
  · obtain hs | ⟨a, r₂, -, hret⟩ := bind_eq_error.1 (heq.symm.trans hs)
    · refine ⟨h.step_innocent hf (hstep.trans hs), fun j r'' hj => ?_⟩
      obtain ⟨a, _, ha⟩ := hpasses j r'' ((h.kind_of_look hl hj).trans hk) hj
      cases (hstep.trans hs).symm.trans ha
    · cases hret

/-- The head of a value is passed, or there is no value. -/
theorem AtValue.skipHead_ends (h : AtValue r) : Ends skipHead r (PassesHead r)
    (fun e _ => Innocent e ∧ ∀ j r', ¬Passes j r r') := by
  cases hl : look r with
  | error e r₁ =>
    refine .of_error (bind_of_error (h.lookValue_eq.trans hl))
      ⟨look_innocent _ _ _ hl, fun j r' hj => ?_⟩
    obtain ⟨r₂, hp⟩ := hj.peek
    obtain ⟨m, hl', -⟩ := h.peek_eq_ok_iff.1 hp
    cases hl.symm.trans hl'
  | ok m r₁ =>
    cases m with
    | close => exact absurd rfl (h.look_ne hl).1
    | name => exact absurd rfl (h.look_ne hl).2
    | null =>
      refine h.skipHead_of_kind false hl rfl rfl passLiteral_innocent (fun _ r' hs => ⟨.null, hs⟩)
        fun j r' hk hj => ?_
      cases Tree.kind_eq_iff.1 hk
      exact ⟨(), r', hj⟩
    | bool b =>
      refine h.skipHead_of_kind false hl rfl
        (f := fun m => do passLiteral m; return (m = .bool true : Bool)) ?_
        (fun m => .bind (passLiteral_innocent m) fun _ => .pure _)
        (fun b r' hs => ⟨.bool b, hs⟩) fun j r' hk hj => ?_
      · simp only [skipMark, bind_assoc, pure_bind]
      · obtain ⟨b, rfl⟩ := Tree.kind_eq_iff.1 hk
        exact ⟨b, r', hj⟩
    | number =>
      refine h.skipHead_of_kind false hl rfl rfl (fun _ => passNumber_innocent false)
        (fun text r' hs => ⟨.number text, hs⟩) fun j r' hk hj => ?_
      obtain ⟨text, rfl⟩ := Tree.kind_eq_iff.1 hk
      exact ⟨text, r', hj⟩
    | string =>
      refine h.skipHead_of_kind false hl rfl
        (f := fun _ => do let s ← passText; modify valueDone; return s) ?_
        (fun _ => .bind passText_innocent fun _ => .bind (.modify _) fun _ => .pure _)
        (fun s r' hs => ⟨.string s, hs⟩) fun j r' hk hj => ?_
      · simp only [skipMark, bind_assoc, pure_bind]
      · obtain ⟨s, rfl⟩ := Tree.kind_eq_iff.1 hk
        exact ⟨s, r', hj⟩
    | openArray =>
      refine h.skipHead_of_kind true hl rfl rfl (fun _ => enter_innocent (.array 0))
        (fun _ r' hs => h.entered_array hs) fun j r' hk hj => ?_
      obtain ⟨js, rfl⟩ := Tree.kind_eq_iff.1 hk
      obtain ⟨r₂, -, he, -⟩ := hj
      exact ⟨(), r₂, he⟩
    | openObject =>
      refine h.skipHead_of_kind true hl rfl rfl (fun _ => enter_innocent (.object none))
        (fun _ r' hs => h.entered_object hs) fun j r' hk hj => ?_
      obtain ⟨ms, rfl⟩ := Tree.kind_eq_iff.1 hk
      obtain ⟨r₂, -, he, -⟩ := hj
      exact ⟨(), r₂, he⟩

/-! ## Closing containers -/

/-- With one more part in front, the rest of a container is the part and what follows it. -/
theorem passesRest_part {a : Reader} (hm : more r = .ok true r₁) (ht : toValue r₁ = .ok () r₂) :
    PassesRest r a ↔ ∃ j r₃, Passes j r₂ r₃ ∧ PassesRest r₃ a := by
  constructor
  · intro h
    cases h with
    | done hm' => cases hm.symm.trans hm'
    | part hm' ht' hj hp =>
      cases hm.symm.trans hm'
      cases ht.symm.trans ht'
      exact ⟨_, _, hj, hp⟩
  · rintro ⟨j, r₃, hj, hp⟩
    exact .part hm ht hj hp

/-- To close more arrays and objects, the innermost is passed first. -/
theorem closes_succ {depth : Nat} {a : Reader} :
    Closes (depth + 1) r a ↔ ∃ r₁, PassesRest r r₁ ∧ Closes depth r₁ a := by
  constructor
  · rintro ⟨⟩
    exact ⟨_, ‹_›, ‹_›⟩
  · rintro ⟨r₁, hp, hc⟩
    exact .succ hp hc

/-- With one more part in front, closing containers is passing the part and closing them then. -/
theorem closes_part {depth : Nat} {a : Reader} (hm : more r = .ok true r₁)
    (ht : toValue r₁ = .ok () r₂) : Closes (depth + 1) r a ↔
      ∃ j r₃, Passes j r₂ r₃ ∧ Closes (depth + 1) r₃ a := by
  simp only [closes_succ, passesRest_part hm ht]
  constructor
  · rintro ⟨b, ⟨j, r₃, hj, hp⟩, hc⟩
    exact ⟨j, r₃, hj, b, hp, hc⟩
  · rintro ⟨j, r₃, hj, b, hp, hc⟩
    exact ⟨b, ⟨j, r₃, hj, hp⟩, hc⟩

/-- At its end, an array or object is left. -/
theorem closes_end {depth : Nat} {a : Reader} (hm : more r = .ok false r₁)
    (hl : leave r₁ = .ok () r₂) : Closes (depth + 1) r a ↔ Closes depth r₂ a := by
  rw [closes_succ]
  constructor
  · rintro ⟨b, hp, hc⟩
    cases hp with
    | done hm' hl' =>
      cases hm.symm.trans hm'
      cases hl.symm.trans hl'
      exact hc
    | part hm' => cases hm.symm.trans hm'
  · exact fun hc => ⟨r₂, .done hm hl, hc⟩

/-- Past a scalar, the same containers are left to close. -/
theorem closes_scalar {depth : Nat} {j : Tree} {r₃ : Reader} (hm : more r = .ok true r₁)
    (ht : toValue r₁ = .ok () r₂) (hj : Passes j r₂ r₃) (a : Reader) :
    Closes (depth + 1) r a ↔ Closes (depth + 1) r₃ a := by
  rw [closes_part hm ht]
  constructor
  · rintro ⟨k, r₄, hk, hc⟩
    obtain ⟨-, rfl⟩ := hj.unique hk
    exact hc
  · exact fun hc => ⟨j, r₃, hj, hc⟩

/-- Inside a container that was entered, one more is left to close. -/
theorem closes_entered {depth : Nat} {r₃ : Reader} (hm : more r = .ok true r₁)
    (ht : toValue r₁ = .ok () r₂) (he : Entered r₂ r₃) (a : Reader) :
    Closes (depth + 1) r a ↔ Closes (depth + 2) r₃ a := by
  rw [closes_part hm ht, closes_succ]
  constructor
  · rintro ⟨j, r₄, hj, hc⟩
    exact ⟨r₄, (he.passes r₄).1 ⟨j, hj⟩, hc⟩
  · rintro ⟨r₄, hp, hc⟩
    obtain ⟨j, hj⟩ := (he.passes r₄).2 hp
    exact ⟨j, r₄, hj, hc⟩

/-- No container is closed where it cannot be told whether there is another part. -/
theorem not_closes_of_more {depth : Nat} (hm : more r = .error e r₁) (a : Reader) :
    ¬Closes (depth + 1) r a := by
  intro hc
  obtain ⟨r₂, hp, -⟩ := closes_succ.1 hc
  cases hp with
  | done hm' => cases hm.symm.trans hm'
  | part hm' => cases hm.symm.trans hm'

/-- No container is closed where the value of the next part cannot be reached. -/
theorem not_closes_of_toValue {depth : Nat} (hm : more r = .ok true r₁)
    (ht : toValue r₁ = .error e r₂) (a : Reader) : ¬Closes (depth + 1) r a := by
  intro hc
  obtain ⟨r₃, hp, -⟩ := closes_succ.1 hc
  cases hp with
  | done hm' => cases hm.symm.trans hm'
  | part hm' ht' =>
    cases hm.symm.trans hm'
    cases ht.symm.trans ht'

/-- The run from `r` ends at a place of `p`, or the document is to blame and `p` has none. -/
def Reaches (x : ReadM Unit) (r : Reader) (p : Reader → Prop) : Prop :=
  Ends x r (fun _ r' => p r') (fun e _ => Innocent e ∧ ∀ r', ¬p r')

/-- What is reached may be said in another way. -/
theorem Reaches.of_iff {x : ReadM Unit} {p q : Reader → Prop} (h : Reaches x r q)
    (hpq : ∀ a, p a ↔ q a) : Reaches x r p :=
  h.mono (fun _ r' _ hq => (hpq r').2 hq) fun _ _ he => ⟨he.1, fun r' hp => he.2 r' ((hpq r').1 hp)⟩

/-- Skipping the rest of containers closes them. -/
theorem skipRest_reaches {fuel depth : Nat} {r : Reader} (hf : r.rest.length < fuel)
    (hd : depth ≤ r.frames.length) (hb : depth ≠ 0 → Between r) :
    Reaches (skipRest fuel depth) r (Closes depth r) := by
  -- Every round moves on in the text, which is what the fuel counts.
  induction fuel generalizing r depth with
  | zero => exact absurd hf (Nat.not_lt_zero _)
  | succ fuel ih =>
    cases depth with
    | zero => exact Ends.pure .zero
    | succ depth =>
      have hb := hb (Nat.succ_ne_zero _)
      have hround : skipRest (fuel + 1) (depth + 1) = (do
          if ← more then
            toValue
            if ← skipHead then skipRest fuel (depth + 2) else skipRest fuel (depth + 1)
          else
            leave
            skipRest fuel depth : ReadM Unit) := rfl
      rw [hround]
      have hmore : Ends more r (fun _ _ => True)
          (fun e _ => Innocent e ∧ ∀ r', ¬Closes (depth + 1) r r') :=
        .intro (fun _ _ _ => trivial) fun e r₁ hm => ⟨hb.more_innocent hm, not_closes_of_more hm⟩
      refine hmore.bind fun b r₁ hm _ => ?_
      cases b with
      | false =>
        obtain ⟨r₂, hl, hrest, hlength, hb₂⟩ := hb.leave_of_end hm
        refine .congr (bind_of_ok hl)
          ((ih (by omega) (by omega) fun hne => hb₂ fun hnil => ?_).of_iff
            fun _ => closes_end hm hl)
        rw [hnil] at hlength
        simp only [List.length_nil] at hlength
        omega
      | true =>
        have htoValue := hb.toValue_ends hm
        refine Ends.bind (.intro (fun _ r₂ ht => htoValue.ok ht) fun e r₂ ht =>
          ⟨htoValue.error ht, not_closes_of_toValue hm ht⟩) fun _ r₂ ht hv => ?_
        obtain ⟨hv, hlength, hrest, hne⟩ := hv
        have hhead : Ends skipHead r₂ (PassesHead r₂)
            (fun e _ => Innocent e ∧ ∀ r', ¬Closes (depth + 1) r r') := by
          refine hv.skipHead_ends.mono (fun _ _ _ h => h) fun e _ he => ⟨he.1, fun r' hc => ?_⟩
          obtain ⟨j, r₄, hj, -⟩ := (closes_part hm ht).1 hc
          exact he.2 j r₄ hj
        refine hhead.bind fun entered r₃ _ hpassed => ?_
        cases entered with
        | false =>
          obtain ⟨j, hj⟩ := hpassed
          obtain ⟨hb₃, hlength₃⟩ := hj.between hv hne
          have hmoved := hj.rest_lt hv
          exact (ih (by omega) (by omega) fun _ => hb₃).of_iff (closes_scalar hm ht hj)
        | true =>
          have hent : Entered r₂ r₃ := hpassed
          have hmoved := hent.rest
          have hdeep := hent.length
          exact (ih (by omega) (by omega) fun _ => hent.between).of_iff (closes_entered hm ht hent)

/-- A value is skipped, or there is none. -/
theorem AtValue.skip_ends (h : AtValue r) : Ends skip r (fun _ r' => ∃ j, Passes j r r')
    (fun e _ => Innocent e ∧ ∀ j r', ¬Passes j r r') := by
  have hhead := h.skipHead_ends
  cases hh : skipHead r with
  | error e r₁ => exact .of_error (bind_of_error hh) (hhead.error hh)
  | ok entered r₁ =>
    refine .congr (bind_of_ok hh) ?_
    cases entered with
    | false => exact .pure (hhead.ok hh)
    | true =>
      have hent : Entered r r₁ := hhead.ok hh
      have hlength := hent.length
      -- of the containers that are open, the one that was entered is to be closed
      have hone {a : Reader} : Closes 1 r₁ a ↔ ∃ j, Passes j r a := by
        rw [closes_succ, hent.passes]
        constructor
        · rintro ⟨b, hp, ⟨⟩⟩
          exact hp
        · exact fun hp => ⟨a, hp, .zero⟩
      refine .congr (get_bind_run _) ((skipRest_reaches (Nat.lt_succ_self _) (by omega)
        fun _ => hent.between).mono (fun _ r' _ hc => hone.1 hc) fun e _ he => ?_)
      exact ⟨he.1, fun j r' hj => he.2 r' (hone.2 ⟨j, hj⟩)⟩

/-- Skipping gets past exactly what the steps for some value pass. -/
theorem AtValue.skip_eq_ok_iff (h : AtValue r) : skip r = .ok () r' ↔ ∃ j, Passes j r r' := by
  refine ⟨fun hs => h.skip_ends.ok hs, ?_⟩
  rintro ⟨j, hj⟩
  cases hs : skip r with
  | ok u r'' =>
    obtain ⟨k, hk⟩ := h.skip_ends.ok hs
    rw [(hj.unique hk).2]
  | error e r'' => exact absurd hj ((h.skip_ends.error hs).2 j r')

end Reader

end JsonAdapters.Json
