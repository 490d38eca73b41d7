import JsonAdapters.Proofs.Json.Scanning
import JsonAdapters.Proofs.Outcome

/-!
# Looking at a token

Before a reader consumes a token it passes what leads up to it and remembers the token. Here each
look is characterised by the text it passes and by the token it finds, so that all that follows
speaks of leads and tokens and no longer of commas and colons.

## Main definitions

* `Json.Reader.Starts`: a token stands at the start of the rest.
* `Json.Reader.Truthful`: what is remembered is true.
* `Json.Leads`: what stands before a token when something is due.
* `Json.Innocent`: failures that say nothing against the caller.

## Main statements

* `Json.Reader.look_sound`, `Json.Reader.look_complete`.
-/

namespace JsonAdapters.Json

open Outcome

/-- What may stand before a token: the end of a container needs no comma. -/
def Leads (due : Due) : Mark → List Char → Prop
  | .close, cs => due ≠ .memberValue ∧ IsBlank cs
  | _, cs => Lead due cs

/-- What leads to anything but a closing bracket leads to a value or a name. -/
theorem Leads.of_ne_close {due : Due} {m : Mark} {cs : List Char} (h : Leads due m cs)
    (hm : m ≠ .close) : Lead due cs := by
  cases m with
  | close => exact absurd rfl hm
  | _ => exact h

/-- What leads to a value or a name leads to all marks but closing brackets. -/
theorem Lead.leads {due : Due} {m : Mark} {cs : List Char} (h : Lead due cs)
    (hm : m ≠ .close) : Leads due m cs := by
  cases m with
  | close => exact absurd rfl hm
  | _ => exact h

/-- The document is to blame, and not a container that was taken for longer or shorter than it
is. -/
def ReadCause.Blameless (cause : ReadCause) : Prop :=
  cause ≠ .moreElements ∧ cause ≠ .fewerElements

/-- A failure because of the document. -/
def Innocent : ReadFailure → Prop
  | .misuse => False
  | .error e => e.cause.Blameless

namespace Reader

/-- The token stands at the start of the rest, where it is allowed. -/
def Starts (r : Reader) : Mark → Prop
  | .close => (r.inArray = true ∧ ∃ rest, r.rest = ']' :: rest) ∨
      (r.nameDue = true ∧ ∃ rest, r.rest = '\x7d' :: rest)
  | .name => r.nameDue = true ∧ ∃ rest, r.rest = '"' :: rest
  | .string => r.nameDue = false ∧ ∃ rest, r.rest = '"' :: rest
  | .openArray => r.nameDue = false ∧ ∃ rest, r.rest = '[' :: rest
  | .openObject => r.nameDue = false ∧ ∃ rest, r.rest = '\x7b' :: rest
  | .number => r.nameDue = false ∧ ∃ c rest, r.rest = c :: rest ∧ (c = '-' ∨ c.isDigit = true)
  | .null => r.nameDue = false ∧ ∃ rest, r.rest = word .null ++ rest ∧ Stops r.ending rest
  | .bool b => r.nameDue = false ∧ ∃ rest, r.rest = word (.bool b) ++ rest ∧ Stops r.ending rest

/-- A remembered token stands where the reader is. -/
def Truthful (r : Reader) : Prop := ∀ m, r.looked = some m → r.Starts m

/-- The reader further on in the same container. -/
def movedTo (r : Reader) (rest : List Char) (p : Position) : Reader :=
  { r with rest, position := p }

@[simp] theorem movedTo_rest (r : Reader) (rest : List Char) (p : Position) :
    (r.movedTo rest p).rest = rest := rfl

@[simp] theorem movedTo_ending (r : Reader) (rest : List Char) (p : Position) :
    (r.movedTo rest p).ending = r.ending := rfl

@[simp] theorem movedTo_frames (r : Reader) (rest : List Char) (p : Position) :
    (r.movedTo rest p).frames = r.frames := rfl

@[simp] theorem movedTo_due (r : Reader) (rest : List Char) (p : Position) :
    (r.movedTo rest p).due = r.due := rfl

@[simp] theorem movedTo_looked (r : Reader) (rest : List Char) (p : Position) :
    (r.movedTo rest p).looked = r.looked := rfl

@[simp] theorem movedTo_nameDue (r : Reader) (rest : List Char) (p : Position) :
    (r.movedTo rest p).nameDue = r.nameDue := rfl

@[simp] theorem movedTo_inArray (r : Reader) (rest : List Char) (p : Position) :
    (r.movedTo rest p).inArray = r.inArray := rfl

@[simp] theorem movedTo_movedTo (r : Reader) (rest rest' : List Char) (p p' : Position) :
    (r.movedTo rest p).movedTo rest' p' = r.movedTo rest' p' := rfl

/-- The reader with a token that it looked at. -/
def seen (r : Reader) (m : Mark) : Reader := { r with looked := some m }

/-! ## Steps of a look -/

variable {r r' : Reader} {α β : Type}

theorem fail_apply (cause : ReadCause) (r : Reader) :
    (fail cause : ReadM α) r = .error (.error ⟨cause, r.path, r.position⟩) r := rfl

theorem failAt_bind_apply (p : Position) (cause : ReadCause) (f : α → ReadM β) (r : Reader) :
    ((failAt p cause : ReadM α) >>= f) r = .error (.error ⟨cause, r.path, p⟩) r := rfl

theorem fail_bind_apply (cause : ReadCause) (f : α → ReadM β) (r : Reader) :
    ((fail cause : ReadM α) >>= f) r = .error (.error ⟨cause, r.path, r.position⟩) r := rfl

theorem next_apply (r : Reader) : next r = .ok (r.ending.next r.rest) r := rfl

theorem skipBlanks_apply (r : Reader) : skipBlanks r =
    let (p, rest) := JsonAdapters.skipBlanks r.position r.rest
    if rest.head? = some '/' then fail (.malformed .commentsNotEnabled) (r.movedTo rest p)
    else .ok () (r.movedTo rest p) := by
  simp only [skipBlanks, get_bind_run, set_bind_run, ite_run]
  rfl

/-- Neither a blank nor the start of a comment comes next. -/
def Bare (cs : List Char) : Prop := Unblank cs ∧ cs.head? ≠ some '/'

theorem Bare.nil : Bare [] := ⟨nofun, nofun⟩

theorem Bare.cons {c : Char} {cs : List Char} (hb : isBlank c = false) (hc : c ≠ '/') :
    Bare (c :: cs) :=
  ⟨.cons hb, by simpa using hc⟩

/-- Blanks are passed up to the first other character, which starts no comment. -/
theorem skipBlanks_sound {u : Unit} (h : skipBlanks r = .ok u r') :
    ∃ blanks rest p, r.rest = blanks ++ rest ∧ IsBlank blanks ∧ Bare rest ∧
      r' = r.movedTo rest p := by
  simp only [skipBlanks_apply] at h
  split at h
  · cases h
  · next hs =>
    cases h
    obtain ⟨blanks, hr, hb, hu⟩ := skipBlanks_split r.position r.rest
    exact ⟨blanks, _, _, hr, hb, ⟨hu, hs⟩, rfl⟩

/-- Blanks before a bare text are skipped, all of them. -/
theorem skipBlanks_complete {blanks rest : List Char} (hr : r.rest = blanks ++ rest)
    (hb : IsBlank blanks) (hrest : Bare rest) :
    ∃ p, skipBlanks r = .ok () (r.movedTo rest p) := by
  have h : (JsonAdapters.skipBlanks r.position r.rest).2 = rest :=
    skipBlanks_snd_iff.2 ⟨blanks, hr, hb, hrest.1⟩
  refine ⟨(JsonAdapters.skipBlanks r.position r.rest).1, ?_⟩
  rw [skipBlanks_apply]
  dsimp only
  rw [h, if_neg hrest.2]

/-- One character is passed, and the position goes past it. -/
theorem advance_of_cons {c : Char} {rest : List Char} (hr : r.rest = c :: rest) :
    advance r = .ok () (r.movedTo rest (r.position.past c)) := by
  rw [advance, modify_run, hr]
  rfl

/-- A colon that is passed stands behind blanks. -/
theorem passColon_sound {u : Unit} (h : passColon r = .ok u r') :
    ∃ blanks rest p, r.rest = blanks ++ ':' :: rest ∧ IsBlank blanks ∧
      r' = r.movedTo rest p := by
  simp only [passColon, bind_eq_ok, next_apply] at h
  obtain ⟨_, r₁, hs, _, _, ⟨⟩, h⟩ := h
  obtain ⟨blanks, rest, p, hr, hb, -, rfl⟩ := skipBlanks_sound hs
  cases rest with
  | nil =>
    cases he : r.ending <;> simp only [movedTo_ending, movedTo_rest, he, Ending.next] at h <;>
      cases h
  | cons c rest =>
    simp only [movedTo_rest, Ending.next, ite_run] at h
    split at h
    · next hc =>
      subst hc
      rw [advance_of_cons rfl] at h
      cases h
      exact ⟨blanks, rest, _, hr, hb, rfl⟩
    · cases h

/-- A colon behind blanks is passed. -/
theorem passColon_complete {blanks rest : List Char} (hr : r.rest = blanks ++ ':' :: rest)
    (hb : IsBlank blanks) : ∃ p, passColon r = .ok () (r.movedTo rest p) := by
  obtain ⟨p, hp⟩ := skipBlanks_complete hr hb (.cons (by decide) (by decide))
  refine ⟨p.past ':', ?_⟩
  rw [passColon, bind_of_ok hp]
  rfl

/-- What stands before a token, a comma apart. -/
def LeadsOpen (due : Due) (cs : List Char) : Prop :=
  if due = .memberValue then Lead .memberValue cs else IsBlank cs

/-- Where one more part is due, a comma makes the lead complete. -/
theorem LeadsOpen.lead_of_comma {due : Due} {a b : List Char} (h : LeadsOpen due a)
    (hd : due = .further) (hb : IsBlank b) : Lead due (a ++ ',' :: b) := by
  subst hd
  exact ⟨a, b, rfl, by simpa [LeadsOpen] using h, hb⟩

/-- A lead is complete without a comma, unless one more part is due and there is one. -/
theorem LeadsOpen.leads {due : Due} {m : Mark} {cs : List Char} (h : LeadsOpen due cs)
    (hfurther : ¬(due = .further ∧ m ≠ .close)) (hnothing : due ≠ .nothing)
    (hclose : m = .close → due ≠ .memberValue) : Leads due m cs := by
  by_cases hm : m = .close
  · subst hm
    have hd := hclose rfl
    exact ⟨hd, by rwa [LeadsOpen, if_neg hd] at h⟩
  · refine Lead.leads ?_ hm
    cases due with
    | nothing => exact absurd rfl hnothing
    | further => exact absurd ⟨rfl, hm⟩ hfurther
    | first | memberValue => exact h

/-- Where no comma is due, what leads to a mark is blank, but for the colon behind a name. -/
theorem leadsOpen_of_leads {due : Due} {m : Mark} {cs : List Char} (h : Leads due m cs)
    (hfurther : ¬(due = .further ∧ m ≠ .close)) : LeadsOpen due cs := by
  by_cases hm : m = .close
  · subst hm
    rw [LeadsOpen, if_neg h.1]
    exact h.2
  · have h := h.of_ne_close hm
    cases due with
    | nothing => exact h.elim
    | further => exact absurd ⟨rfl, hm⟩ hfurther
    | first | memberValue => exact h

/-- What is passed before a mark leads there, and what follows is bare. -/
theorem passLead_sound {u : Unit} (h : passLead r = .ok u r') :
    ∃ lead rest p, r.rest = lead ++ rest ∧ LeadsOpen r.due lead ∧ Bare rest ∧
      r' = r.movedTo rest p := by
  rw [passLead, get_bind_run] at h
  split at h
  · next hd =>
    -- the value of a member is led by its colon
    obtain ⟨_, r₁, hc, hs⟩ := bind_eq_ok.1 h
    obtain ⟨a, rest, p, hr, ha, rfl⟩ := passColon_sound hc
    obtain ⟨b, rest', q, hrest, hb, hn, rfl⟩ := skipBlanks_sound hs
    rw [movedTo_rest] at hrest
    refine ⟨a ++ ':' :: b, rest', q, ?_, ?_, hn, rfl⟩
    · rw [hr, hrest]
      simp
    · rw [LeadsOpen, if_pos hd]
      exact ⟨a, b, rfl, ha, hb⟩
  · next hd =>
    obtain ⟨b, rest, p, hrest, hb, hn, rfl⟩ := skipBlanks_sound h
    refine ⟨b, rest, p, hrest, ?_, hn, rfl⟩
    rwa [LeadsOpen, if_neg hd]

/-- What leads to a bare text is passed up to it. -/
theorem passLead_complete {lead rest : List Char} (hr : r.rest = lead ++ rest)
    (hl : LeadsOpen r.due lead) (hrest : Bare rest) :
    ∃ p, passLead r = .ok () (r.movedTo rest p) := by
  simp only [passLead, get_bind_run, ite_run]
  rw [LeadsOpen] at hl
  split
  · next hd =>
    rw [if_pos hd] at hl
    obtain ⟨a, b, rfl, ha, hb⟩ := hl
    have hcolon : r.rest = a ++ ':' :: (b ++ rest) := by simpa using hr
    obtain ⟨p, hp⟩ := passColon_complete hcolon ha
    obtain ⟨q, hq⟩ := skipBlanks_complete (movedTo_rest r (b ++ rest) p) hb hrest
    exact ⟨q, by rw [bind_of_ok hp, hq, movedTo_movedTo]⟩
  · next hd =>
    rw [if_neg hd] at hl
    exact skipBlanks_complete hr hl hrest

/-- A token starts with any character but control characters, and is not passed. -/
theorem tokenStart_eq_ok_iff {c : Char} :
    tokenStart r = .ok c r' ↔ r' = r ∧ ∃ t, r.rest = c :: t ∧ ¬c.toNat < 0x20 := by
  simp only [tokenStart, bind_eq_ok, next_apply]
  cases hr : r.rest with
  -- at the end of the text there is no character, whatever the reason
  | nil =>
    cases he : r.ending <;> simp [Ending.next, fail_apply, get_bind_run]
  | cons d t =>
    simp only [Ending.next]
    constructor
    · rintro ⟨_, _, ⟨⟩, h⟩
      simp only [ite_run, fail_bind_apply, pure_run] at h
      split at h
      · cases h
      · cases h
        exact ⟨rfl, t, rfl, ‹_›⟩
    · rintro ⟨rfl, t, ⟨rfl, rfl⟩, h⟩
      refine ⟨_, _, rfl, ?_⟩
      simp only [ite_run, if_neg h, pure_run]

/-- What is passed as a comma is one with the blanks behind it, and only where one more value or
name may follow. Without a comma nothing is passed. -/
theorem passComma_sound {comma : Bool} (h : passComma r = .ok comma r') :
    if comma then r.due = .further ∧ ∃ blanks rest p, r.rest = ',' :: (blanks ++ rest) ∧
      IsBlank blanks ∧ r' = r.movedTo rest p
    else r' = r := by
  simp only [passComma, bind_eq_ok] at h
  obtain ⟨c, r₁, hc, h⟩ := h
  obtain ⟨rfl, t, hr, -⟩ := tokenStart_eq_ok_iff.1 hc
  split at h
  · next hcomma =>
    subst hcomma
    simp only [get_bind_run, ite_run, fail_bind_apply] at h
    split at h
    · cases h
    · next hd =>
      rw [bind_of_ok (advance_of_cons hr)] at h
      obtain ⟨_, r₂, hs, h⟩ := bind_eq_ok.1 h
      cases h
      obtain ⟨blanks, rest, p, hrest, hb, -, rfl⟩ := skipBlanks_sound hs
      rw [movedTo_rest] at hrest
      exact ⟨by simpa using hd, blanks, rest, p, by rw [hr, hrest], hb, rfl⟩
  · cases h
    rfl

/-- Nothing is passed where no comma stands. -/
theorem passComma_of_other {c : Char} {t : List Char} (hr : r.rest = c :: t) (hc : c ≠ ',')
    (hs : ¬c.toNat < 0x20) : passComma r = .ok false r := by
  rw [passComma, bind_of_ok (tokenStart_eq_ok_iff.2 ⟨rfl, t, hr, hs⟩), if_neg hc]
  rfl

/-- A comma that is due is passed with the blanks behind it. -/
theorem passComma_of_comma {blanks rest : List Char} (hd : r.due = .further)
    (hr : r.rest = ',' :: (blanks ++ rest)) (hb : IsBlank blanks) (hrest : Bare rest) :
    ∃ p, passComma r = .ok true (r.movedTo rest p) := by
  obtain ⟨p, hp⟩ := skipBlanks_complete (movedTo_rest r (blanks ++ rest) (r.position.past ',')) hb
    hrest
  refine ⟨p, ?_⟩
  have hs : tokenStart r = .ok ',' r := tokenStart_eq_ok_iff.2 ⟨rfl, _, hr, by decide⟩
  simp only [passComma, bind_of_ok hs, if_true, get_bind_run, hd, ne_eq, not_true_eq_false,
    if_false, bind_of_ok (advance_of_cons hr), bind_of_ok hp]
  rfl

/-! ## Tokens -/

/-- A word is seen where it stands as a whole; nothing is passed. -/
theorem literal_eq_ok_iff {m mark : Mark} :
    literal mark r = .ok m r' ↔
      m = mark ∧ r' = r ∧ ∃ rest, r.rest = word mark ++ rest ∧ Stops r.ending rest := by
  rw [← checkLiteral_eq_ok_iff]
  simp only [literal, get_bind_run]
  cases h : checkLiteral r.ending (word mark) r.rest with
  | ok u => simp [eq_comm]
  | error cause => simp [fail_apply]

/-- The mark that a first character is taken for starts there. -/
theorem classify_sound {c : Char} {t : List Char} {m : Mark} (hr : r.rest = c :: t)
    (h : classify c r = .ok m r') : r' = r ∧ r.Starts m := by
  simp only [classify, get_bind_run, ite_run, fail_bind_apply] at h
  split at h
  · cases h
  next hn =>
  -- Only names and closing brackets may stand where a name is due.
  have hvalue (h₁ : c ≠ '"') (h₂ : c ≠ '\x7d') : r.nameDue = false := by
    simpa [h₁, h₂] using hn
  split at h
  · cases h
    exact ⟨rfl, hvalue (by decide) (by decide), t, hr⟩
  · cases h
    exact ⟨rfl, hvalue (by decide) (by decide), t, hr⟩
  · simp only [ite_run, pure_run] at h
    split at h
    · next ha =>
      cases h
      exact ⟨rfl, .inl ⟨ha, t, hr⟩⟩
    · cases h
  · simp only [ite_run, pure_run] at h
    split at h
    · next ha =>
      cases h
      exact ⟨rfl, .inr ⟨ha, t, hr⟩⟩
    · cases h
  · cases h
    refine ⟨rfl, ?_⟩
    split
    · next ha => exact ⟨ha, t, hr⟩
    · next ha => exact ⟨by simpa using ha, t, hr⟩
  · cases h
  · cases h
  · obtain ⟨rfl, rfl, hw⟩ := literal_eq_ok_iff.1 h
    exact ⟨rfl, hvalue (by decide) (by decide), hw⟩
  · obtain ⟨rfl, rfl, hw⟩ := literal_eq_ok_iff.1 h
    exact ⟨rfl, hvalue (by decide) (by decide), hw⟩
  · obtain ⟨rfl, rfl, hw⟩ := literal_eq_ok_iff.1 h
    exact ⟨rfl, hvalue (by decide) (by decide), hw⟩
  · simp only [ite_run, pure_run] at h
    split at h
    · next hd =>
      cases h
      exact ⟨rfl, hvalue (by assumption) (by assumption), c, t, hr, by simpa using hd⟩
    · cases h

/-- No array stands where a name is due. -/
theorem nameDue_of_inArray (h : r.inArray = true) : r.nameDue = false := by
  unfold inArray at h
  unfold nameDue
  split at h
  · next hf => rw [hf]
  · cases h

/-- A mark that starts at a character is told by it. -/
theorem classify_complete {c : Char} {t : List Char} {m : Mark} (hr : r.rest = c :: t)
    (h : r.Starts m) : classify c r = .ok m r := by
  simp only [classify, get_bind_run, ite_run, fail_bind_apply]
  cases m with
  | close =>
    obtain ⟨ha, rest, hrest⟩ | ⟨ha, rest, hrest⟩ := h
    · cases hr.symm.trans hrest
      simp [ha, nameDue_of_inArray ha]
    · cases hr.symm.trans hrest
      simp [ha]
  | number =>
    obtain ⟨hn, d, rest, hrest, hd⟩ := h
    cases hr.symm.trans hrest
    simp only [hn, Bool.false_and, Bool.false_eq_true, if_false]
    split <;> first | (exfalso; revert hd; decide) | simp [hd]
  | null =>
    obtain ⟨hn, rest, hrest, hs⟩ := h
    cases hr.symm.trans hrest
    simpa [hn] using literal_eq_ok_iff.2 ⟨rfl, rfl, rest, hrest, hs⟩
  | bool b =>
    obtain ⟨hn, rest, hrest, hs⟩ := h
    cases b <;> cases hr.symm.trans hrest <;>
      simpa [hn] using literal_eq_ok_iff.2 ⟨rfl, rfl, rest, hrest, hs⟩
  | name | string | openArray | openObject =>
    obtain ⟨hn, rest, hrest⟩ := h
    cases hr.symm.trans hrest
    simp [hn]

/-- A token starts with a character of its own. -/
theorem Starts.head {m : Mark} (h : r.Starts m) :
    ∃ c t, r.rest = c :: t ∧ isBlank c = false ∧ c ≠ '/' ∧ c ≠ ',' ∧ ¬c.toNat < 0x20 := by
  have fixed {c : Char} {t : List Char} (hr : r.rest = c :: t)
      (hc : isBlank c = false ∧ c ≠ '/' ∧ c ≠ ',' ∧ ¬c.toNat < 0x20) :
      ∃ c t, r.rest = c :: t ∧ isBlank c = false ∧ c ≠ '/' ∧ c ≠ ',' ∧ ¬c.toNat < 0x20 :=
    ⟨c, t, hr, hc⟩
  cases m with
  | close =>
    obtain ⟨-, t, hr⟩ | ⟨-, t, hr⟩ := h
    · exact fixed hr (by decide)
    · exact fixed hr (by decide)
  -- the only token that starts with one of many characters
  | number =>
    obtain ⟨-, c, t, hr, rfl | hd⟩ := h
    · exact fixed hr (by decide)
    · refine fixed hr ⟨?_, ?_, ?_, ?_⟩
      · simp only [isBlank, Bool.or_eq_false_iff, decide_eq_false_iff_not]
        refine ⟨⟨⟨?_, ?_⟩, ?_⟩, ?_⟩ <;> rintro rfl <;> cases hd
      · rintro rfl
        cases hd
      · rintro rfl
        cases hd
      · simp only [Char.isDigit, Bool.and_eq_true, decide_eq_true_eq] at hd
        have h48 : 48 ≤ c.toNat := hd.1
        omega
  | null =>
    obtain ⟨-, t, hr, -⟩ := h
    exact fixed hr (by decide)
  | bool b =>
    obtain ⟨-, t, hr, -⟩ := h
    cases b <;> exact fixed hr (by decide)
  | name | string | openArray | openObject =>
    obtain ⟨-, t, hr⟩ := h
    exact fixed hr (by decide)

/-! ## Looking -/

/-- A token that was looked at is not looked for again. -/
theorem look_of_looked {m : Mark} (h : r.looked = some m) : look r = .ok m r := by
  simp only [look, get_bind_run, h, pure_run]

/-- No container ends in front of the value of a member. -/
theorem Starts.due_ne_memberValue (h : r.Starts .close)
    (hd : r.due = .memberValue → r.inArray = false) : r.due ≠ .memberValue := by
  intro hdue
  obtain ⟨ha, -⟩ | ⟨hname, -⟩ := h
  · rw [hd hdue] at ha
    cases ha
  · unfold nameDue at hname
    split at hname <;> simp [hdue] at hname

/-- A look passes a lead and finds a token. -/
theorem look_sound {m : Mark} (hl : r.looked = none) (hn : r.due ≠ .nothing)
    (hd : r.due = .memberValue → r.inArray = false) (h : look r = .ok m r') :
    ∃ lead rest p, r.rest = lead ++ rest ∧ Leads r.due m lead ∧
      r' = (r.movedTo rest p).seen m ∧ r'.Starts m := by
  simp only [look, get_bind_run, hl, bind_eq_ok, ite_run, fail_bind_apply, failAt_bind_apply,
    modify_bind_run, pure_run] at h
  obtain ⟨_, r₁, hlead, comma, r₂, hcomma, c, r₃, hstart, m', r₄, hmark, h⟩ := h
  obtain ⟨lead, rest, p, hr, hopen, hbare, rfl⟩ := passLead_sound hlead
  obtain ⟨rfl, t, ht, -⟩ := tokenStart_eq_ok_iff.1 hstart
  obtain ⟨rfl, hm⟩ := classify_sound ht hmark
  split at h
  · cases h
  next hclose =>
  split at h
  · cases h
  next hmissing =>
  injection h with hm' hr'
  subst hm' hr'
  -- neither complaint about commas was made, so the lead has a comma exactly when it needs one
  have hcomma := passComma_sound hcomma
  cases comma with
  | true =>
    obtain ⟨hdue, blanks, rest', q, hrest, hb, rfl⟩ := hcomma
    rw [movedTo_rest] at hrest
    have hne : m' ≠ .close := by simpa using hclose
    exact ⟨lead ++ ',' :: blanks, rest', q, by simp [hr, hrest],
      (hopen.lead_of_comma hdue hb).leads hne, rfl, hm⟩
  | false =>
    obtain rfl := hcomma
    refine ⟨lead, rest, p, hr, hopen.leads ?_ hn ?_, rfl, hm⟩
    · rintro ⟨hdue, hne⟩
      exact hmissing (by simp [hdue, hne])
    · rintro rfl
      exact Starts.due_ne_memberValue (r := r.movedTo rest p) hm hd

/-- The token behind a lead is found. -/
theorem look_complete {m : Mark} {lead rest : List Char} (hl : r.looked = none)
    (hr : r.rest = lead ++ rest) (hlead : Leads r.due m lead)
    (hm : ∀ p, (r.movedTo rest p).Starts m) : ∃ p, look r = .ok m ((r.movedTo rest p).seen m) := by
  obtain ⟨c, t, hc, hblank, hslash, hcomma, hcontrol⟩ := (hm r.position).head
  rw [movedTo_rest] at hc
  have hbare : Bare rest := hc ▸ .cons hblank hslash
  have hstart (p : Position) : tokenStart (r.movedTo rest p) = .ok c (r.movedTo rest p) :=
    tokenStart_eq_ok_iff.2 ⟨rfl, t, hc, hcontrol⟩
  have hmark (p : Position) : classify c (r.movedTo rest p) = .ok m (r.movedTo rest p) :=
    classify_complete hc (hm p)
  -- the lead has a comma exactly when one more part is due and is there
  by_cases hfurther : r.due = .further ∧ m ≠ .close
  · obtain ⟨hdue, hne⟩ := hfurther
    have h := hlead.of_ne_close hne
    rw [hdue] at h
    obtain ⟨a, b, rfl, ha, hb⟩ := h
    have ha : LeadsOpen r.due a := by
      rw [LeadsOpen, if_neg (by simp [hdue])]
      exact ha
    have hsplit : r.rest = a ++ ',' :: (b ++ rest) := by simp [hr]
    obtain ⟨p, hp⟩ := passLead_complete hsplit ha (.cons (by decide) (by decide))
    obtain ⟨q, hq⟩ := passComma_of_comma (r := r.movedTo (',' :: (b ++ rest)) p) hdue rfl hb hbare
    rw [movedTo_movedTo] at hq
    refine ⟨q, ?_⟩
    simp only [look, get_bind_run, hl, bind_of_ok hp, bind_of_ok hq, bind_of_ok (hstart q),
      bind_of_ok (hmark q)]
    simp [hne]
    rfl
  · obtain ⟨p, hp⟩ := passLead_complete hr (leadsOpen_of_leads hlead hfurther) hbare
    have hq : passComma (r.movedTo rest p) = .ok false (r.movedTo rest p) :=
      passComma_of_other hc hcomma hcontrol
    refine ⟨p, ?_⟩
    simp only [look, get_bind_run, hl, bind_of_ok hp, bind_of_ok hq, bind_of_ok (hstart p),
      bind_of_ok (hmark p)]
    simp [hfurther]
    rfl

/-! ## Failures of a look -/

theorem failAt_innocent {p : Position} {cause : ReadCause} (h : cause.Blameless) :
    FailsOnly Innocent (failAt p cause : ReadM α) :=
  .bind .get fun _ => .throw h

theorem fail_innocent {cause : ReadCause} (h : cause.Blameless) :
    FailsOnly Innocent (fail cause : ReadM α) :=
  .bind .get fun _ => failAt_innocent h

theorem malformed_blameless (m : Malformation) : (ReadCause.malformed m).Blameless := ⟨nofun, nofun⟩

theorem unreadable_blameless (reason : String) : (ReadCause.unreadable reason).Blameless :=
  ⟨nofun, nofun⟩

/-- Texts that end too early are not faults of a value. -/
theorem unclosed_blameless (ending : Ending) : ending.unclosed.Blameless := by
  cases ending with
  | finished => exact malformed_blameless _
  | failing | undecodable => exact unreadable_blameless _
  | cut reason =>
    cases reason with
    | none => exact malformed_blameless _
    | some => exact unreadable_blameless _

/-- Faulty escapes are not faults of a value. -/
theorem unescaped_blameless (ending : Ending) (e : Escape) : (ending.unescaped e).Blameless := by
  cases ending with
  | failing => exact unreadable_blameless _
  | finished | cut | undecodable => exact malformed_blameless _

theorem next_innocent : FailsOnly Innocent next := .bind .get fun _ => .pure _

theorem skipBlanks_innocent : FailsOnly Innocent skipBlanks :=
  .bind .get fun _ => .bind (.set _) fun _ =>
    .ite (fun _ => fail_innocent (malformed_blameless _)) (fun _ => .pure _)

theorem passColon_innocent : FailsOnly Innocent passColon := by
  refine .bind skipBlanks_innocent fun _ => .bind next_innocent fun c => ?_
  cases c with
  | char c _ => exact .ite (fun _ => .modify _) (fun _ => fail_innocent (malformed_blameless _))
  | stray | finished => exact fail_innocent (malformed_blameless _)
  | failing reason => exact fail_innocent (unreadable_blameless reason)

theorem passLead_innocent : FailsOnly Innocent passLead :=
  .bind .get fun _ => .ite (fun _ => .bind passColon_innocent fun _ => skipBlanks_innocent)
    (fun _ => skipBlanks_innocent)

theorem tokenStart_innocent : FailsOnly Innocent tokenStart := by
  refine .bind next_innocent fun c => ?_
  cases c with
  | char c _ =>
    exact .ite (fun _ => .bind (fail_innocent (malformed_blameless _)) fun _ => .pure _)
      (fun _ => .pure _)
  | stray => exact .bind .get fun _ => fail_innocent (malformed_blameless _)
  | finished => exact fail_innocent (malformed_blameless _)
  | failing reason => exact fail_innocent (unreadable_blameless reason)

theorem passComma_innocent : FailsOnly Innocent passComma := by
  refine .bind tokenStart_innocent fun c =>
    .ite (fun _ => .bind .get fun _ => ?_) (fun _ => .pure _)
  have hpass : FailsOnly Innocent (do advance; skipBlanks; return true) :=
    .bind (.modify _) fun _ => .bind skipBlanks_innocent fun _ => .pure _
  exact .ite (fun _ => .bind (fail_innocent (malformed_blameless _)) fun _ => hpass)
    (fun _ => hpass)

/-- A misspelled word is no fault of a value. -/
theorem checkLiteral_blameless {ending : Ending} {word cs : List Char} {cause : ReadCause}
    (h : checkLiteral ending word cs = .error cause) : cause.Blameless := by
  fun_induction checkLiteral ending word cs with
  | case1 _ _ _ _ _ ih => exact ih h
  | case2 | case3 | case4 | case7 | case8 =>
    cases h
    exact malformed_blameless _
  | case5 | case10 =>
    cases h
    exact unreadable_blameless _
  | case6 | case9 => cases h

theorem literal_innocent (mark : Mark) : FailsOnly Innocent (literal mark) := by
  refine .bind .get fun r => ?_
  split
  · exact .pure _
  · next h => exact fail_innocent (checkLiteral_blameless h)

theorem classify_innocent (c : Char) : FailsOnly Innocent (classify c) := by
  have hfail {α : Type} (m : Malformation) : FailsOnly Innocent (fail (.malformed m) : ReadM α) :=
    fail_innocent (malformed_blameless m)
  -- each branch answers, or fails because of what stands there
  refine .bind .get fun r => ?_
  refine .ite (fun _ => .bind (hfail _) fun _ => ?_) (fun _ => ?_)
  all_goals
    dsimp only
    split
    · exact .pure _
    · exact .pure _
    · exact .ite (fun _ => .pure _) (fun _ => hfail _)
    · exact .ite (fun _ => .pure _) (fun _ => hfail _)
    · exact .pure _
    · exact hfail _
    · exact hfail _
    · exact literal_innocent _
    · exact literal_innocent _
    · exact literal_innocent _
    · exact .ite (fun _ => .pure _) (fun _ => hfail _)

/-- A look fails only because of the document. -/
theorem look_innocent : FailsOnly Innocent look := by
  -- each stage of the look, from the last one back
  have hfail {α : Type} (m : Malformation) : FailsOnly Innocent (fail (.malformed m) : ReadM α) :=
    fail_innocent (malformed_blameless m)
  have hremember (m : Mark) : FailsOnly Innocent (do
      modify fun r : Reader => { r with looked := some m }
      return m : ReadM Mark) :=
    .bind (.modify _) fun _ => .pure _
  have hmissing (comma : Bool) (m : Mark) : FailsOnly Innocent (do
      if (← get).due = .further && !comma && m ≠ .close then fail (.malformed .missingComma)
      modify fun r : Reader => { r with looked := some m }
      return m : ReadM Mark) :=
    .bind .get fun _ => .ite (fun _ => .bind (hfail _) fun _ => hremember m) (fun _ => hremember m)
  refine .bind .get fun r => ?_
  split
  · exact .pure _
  · refine .bind passLead_innocent fun _ => .bind .get fun _ =>
      .bind passComma_innocent fun comma => .bind tokenStart_innocent fun c =>
        .bind (classify_innocent c) fun m => ?_
    exact .ite (fun _ => .bind (failAt_innocent (malformed_blameless _)) fun _ => hmissing comma m)
      (fun _ => hmissing comma m)

end Reader

end JsonAdapters.Json
