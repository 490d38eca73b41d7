import JsonAdapters.Json.Reader
import JsonAdapters.Proofs.Json.Grammar

/-!
# Scanners against the grammar

The reader takes blanks, literals and numbers off the front of its rest by small scanners.
Each of them is characterised here by what it takes, in the words of the grammar, and by what it
leaves: a scanner takes as much as it can, so that the next character tells where it stops.

## Main statements

* `skipBlanks_snd_iff`, `checkLiteral_eq_ok_iff`, `scanNumber_eq_ok_iff`.
-/

namespace JsonAdapters.Json

/-! ## Blanks -/

theorem IsBlank.nil : IsBlank [] := fun _ h => nomatch h

/-- A blank before blanks makes blanks. -/
theorem IsBlank.cons {c : Char} {cs : List Char} (hc : isBlank c = true) (hcs : IsBlank cs) :
    IsBlank (c :: cs) := by
  intro d hd
  obtain rfl | hd := List.mem_cons.1 hd
  · exact hc
  · exact hcs d hd

/-- No blank comes next. -/
def Unblank (cs : List Char) : Prop := ∀ c r, cs = c :: r → isBlank c = false

/-- A text that starts with no blank is not blank at its start. -/
theorem Unblank.cons {c : Char} {r : List Char} (h : isBlank c = false) : Unblank (c :: r) := by
  intro d s hd
  cases hd
  exact h

/-- What is skipped is blank, and what is left does not start with a blank. -/
theorem skipBlanks_split (p : Position) (cs : List Char) :
    ∃ blanks, cs = blanks ++ (skipBlanks p cs).2 ∧ IsBlank blanks ∧
      Unblank (skipBlanks p cs).2 := by
  -- a line break of two characters, then the other line breaks and the blanks within a line
  fun_induction skipBlanks p cs with
  | case1 p r ih =>
    obtain ⟨blanks, hr, hb, hu⟩ := ih
    exact ⟨'\r' :: '\n' :: blanks, by rw [List.cons_append, List.cons_append, ← hr],
      .cons (by decide) (.cons (by decide) hb), hu⟩
  | case2 p c r _ hc ih =>
    obtain ⟨blanks, hr, hb, hu⟩ := ih
    refine ⟨c :: blanks, by rw [List.cons_append, ← hr], .cons ?_ hb, hu⟩
    simp only [Bool.or_eq_true, decide_eq_true_eq] at hc
    obtain rfl | rfl := hc <;> rfl
  | case3 p c r _ _ hc ih =>
    obtain ⟨blanks, hr, hb, hu⟩ := ih
    refine ⟨c :: blanks, by rw [List.cons_append, ← hr], .cons ?_ hb, hu⟩
    simp only [Bool.or_eq_true, decide_eq_true_eq] at hc
    obtain rfl | rfl := hc <;> rfl
  | case4 p c r _ h₁ h₂ =>
    refine ⟨[], rfl, .nil, .cons ?_⟩
    simp only [Bool.or_eq_true, decide_eq_true_eq, not_or] at h₁ h₂
    simp [isBlank, h₁, h₂]
  | case5 p => exact ⟨[], rfl, .nil, nofun⟩

/-- Blanks end at the first other character, so that there is one way to split them off. -/
theorem IsBlank.split_unique {a b : List Char} (ha : IsBlank a) (hb : IsBlank b)
    {r t : List Char} (hr : Unblank r) (ht : Unblank t) (h : a ++ r = b ++ t) : a = b ∧ r = t := by
  induction a generalizing b with
  | nil =>
    cases b with
    | nil => exact ⟨rfl, h⟩
    | cons c b =>
      have hc := hr c (b ++ t) h
      rw [hb c (List.mem_cons_self ..)] at hc
      cases hc
  | cons c a ih =>
    cases b with
    | nil =>
      have hc := ht c (a ++ r) h.symm
      rw [ha c (List.mem_cons_self ..)] at hc
      cases hc
    | cons d b =>
      simp only [List.cons_append, List.cons.injEq] at h
      obtain ⟨rfl, h⟩ := h
      obtain ⟨rfl, rfl⟩ := ih (fun x hx => ha x (List.mem_cons_of_mem _ hx))
        (fun x hx => hb x (List.mem_cons_of_mem _ hx)) h
      exact ⟨rfl, rfl⟩

/-- Exactly the blanks in front are skipped. -/
theorem skipBlanks_snd_iff {p : Position} {cs rest : List Char} :
    (skipBlanks p cs).2 = rest ↔ ∃ blanks, cs = blanks ++ rest ∧ IsBlank blanks ∧ Unblank rest := by
  obtain ⟨blanks, hcs, hb, hu⟩ := skipBlanks_split p cs
  constructor
  · rintro rfl
    exact ⟨blanks, hcs, hb, hu⟩
  · rintro ⟨blanks', hcs', hb', hu'⟩
    exact (hb.split_unique hb' hu hu' (hcs.symm.trans hcs')).2

/-! ## Literals -/

/-- A literal or a number may end here. -/
def Stops (ending : Ending) (rest : List Char) : Prop :=
  match ending.next rest with
  | .char c _ => Reader.delimits c = true
  | .finished => True
  | .stray | .failing _ => False

/-- A literal is its word with an end behind it. -/
theorem checkLiteral_eq_ok_iff {ending : Ending} {word cs : List Char} :
    Reader.checkLiteral ending word cs = .ok () ↔
      ∃ rest, cs = word ++ rest ∧ Stops ending rest := by
  -- letter by letter, as the word is compared
  induction word generalizing cs with
  | nil =>
    rw [Reader.checkLiteral]
    simp only [List.nil_append, exists_eq_left', Stops]
    cases ending.next cs <;> simp
  | cons w word ih =>
    rw [Reader.checkLiteral]
    cases cs with
    | nil =>
      cases ending <;> simp [Ending.next]
    | cons c cs =>
      simp only [Ending.next, List.cons_append, List.cons.injEq]
      split
      · next h =>
        subst h
        simpa using ih
      · next h => simp [h]

/-! ## Numbers -/

namespace NumberState

/-- From this state, the characters lead to a state in which a number may end. -/
def Takes : NumberState → List Char → Prop
  | s, [] => s.accepts = true
  | s, c :: cs => ∃ s', s.step c = some s' ∧ Takes s' cs

theorem takes_nil {s : NumberState} : s.Takes [] ↔ s.accepts = true := Iff.rfl

theorem takes_cons {s : NumberState} {c : Char} {cs : List Char} :
    s.Takes (c :: cs) ↔ ∃ s', s.step c = some s' ∧ s'.Takes cs := Iff.rfl

/-- A machine that does nothing but take digits. -/
private theorem takes_of_digits {s t : NumberState}
    (hs : ∀ c, s.step c = if c.isDigit then some t else none) (c : Char) (cs : List Char) :
    s.Takes (c :: cs) ↔ c.isDigit = true ∧ t.Takes cs := by
  rw [takes_cons, hs]
  by_cases h : c.isDigit = true <;> simp [h]

/-- After the first digit of a power, digits follow. -/
theorem takes_power {cs : List Char} : power.Takes cs ↔ AllDigits cs := by
  induction cs with
  | nil => exact ⟨fun _ => nofun, fun _ => rfl⟩
  | cons c cs ih =>
    rw [takes_of_digits (t := .power) (fun _ => rfl), ih]
    simp [AllDigits]

/-- After the sign of a power, a digit follows. -/
theorem takes_markSign {cs : List Char} : markSign.Takes cs ↔ IsDigits cs := by
  cases cs with
  | nil => simp [takes_nil, accepts, IsDigits]
  | cons c cs =>
    rw [takes_of_digits (t := .power) (fun _ => rfl), takes_power]
    simp [IsDigits, AllDigits]

/-- A sign is no digit. -/
private theorem isDigit_of_sign {c : Char} (h : c = '+' ∨ c = '-') : c.isDigit = false := by
  obtain rfl | rfl := h <;> rfl

/-- The mark of an exponent is no digit. -/
private theorem isDigit_of_mark {c : Char} (h : c = 'e' ∨ c = 'E') : c.isDigit = false := by
  obtain rfl | rfl := h <;> rfl

/-- After the mark of a power, a sign or a digit follows. -/
theorem takes_mark {cs : List Char} : mark.Takes cs ↔ IsPower cs := by
  cases cs with
  | nil => simp [takes_nil, accepts, IsPower, IsDigits]
  | cons c cs =>
    rw [takes_cons]
    by_cases hsign : c = '+' ∨ c = '-'
    · have hd := isDigit_of_sign hsign
      simp [step, hsign, takes_markSign, IsPower, IsDigits, AllDigits, hd, and_assoc]
    · by_cases hd : c.isDigit = true <;>
        simp [step, hsign, hd, takes_power, IsPower, IsDigits, AllDigits, and_assoc]

/-- An exponent starts with its mark. -/
theorem isExponent_cons {c : Char} {cs : List Char} :
    IsExponent (c :: cs) ↔ (c = 'e' ∨ c = 'E') ∧ IsPower cs := by
  simp [IsExponent, and_assoc]

/-- A fraction starts with a point. -/
theorem isFraction_cons {c : Char} {cs : List Char} :
    IsFraction (c :: cs) ↔ c = '.' ∧ IsDigits cs := by
  simp [IsFraction, and_assoc]

/-- A state that takes digits until something else follows. -/
private theorem takes_of_loop {s : NumberState} {follows : List Char → Prop}
    (hnil : s.accepts = true ∧ follows [])
    (hdigit : ∀ c, c.isDigit = true → s.step c = some s)
    (hother : ∀ c cs, c.isDigit = false → (s.Takes (c :: cs) ↔ follows (c :: cs)))
    (hfollows : ∀ c cs, follows (c :: cs) → c.isDigit = false) {cs : List Char} :
    s.Takes cs ↔ ∃ ds rest, cs = ds ++ rest ∧ AllDigits ds ∧ follows rest := by
  induction cs with
  | nil => exact ⟨fun _ => ⟨[], [], rfl, nofun, hnil.2⟩, fun _ => hnil.1⟩
  | cons c cs ih =>
    -- a digit is taken and the state stays; anything else must be what follows already
    cases hc : c.isDigit with
    | true =>
      rw [takes_cons, hdigit c hc]
      simp only [Option.some.injEq, exists_eq_left', ih]
      constructor
      · rintro ⟨ds, rest, rfl, hds, hrest⟩
        exact ⟨c :: ds, rest, rfl, by simp [AllDigits, hc]; exact hds, hrest⟩
      · rintro ⟨ds, rest, hcs, hds, hrest⟩
        cases ds with
        | nil =>
          rw [List.nil_append] at hcs
          -- what follows does not start with a digit
          subst hcs
          rw [hfollows c cs hrest] at hc
          cases hc
        | cons d ds =>
          simp only [List.cons_append, List.cons.injEq] at hcs
          obtain ⟨rfl, rfl⟩ := hcs
          exact ⟨ds, rest, rfl, fun x hx => hds x (List.mem_cons_of_mem _ hx), hrest⟩
    | false =>
      rw [hother c cs hc]
      refine ⟨fun h => ⟨[], c :: cs, rfl, nofun, h⟩, ?_⟩
      rintro ⟨ds, rest, hcs, hds, hrest⟩
      cases ds with
      | nil =>
        rw [List.nil_append] at hcs
        exact hcs ▸ hrest
      | cons d ds =>
        simp only [List.cons_append, List.cons.injEq] at hcs
        obtain ⟨rfl, rfl⟩ := hcs
        rw [hds c (List.mem_cons_self ..)] at hc
        cases hc

/-- Digits of a fraction go on up to an exponent or the end. -/
theorem takes_fraction {cs : List Char} :
    fraction.Takes cs ↔ ∃ ds rest, cs = ds ++ rest ∧ AllDigits ds ∧ IsExponent rest := by
  refine takes_of_loop ⟨rfl, .inl rfl⟩ (fun c hc => by simp [step, hc]) (fun c cs hc => ?_)
    (fun c cs h => isDigit_of_mark (isExponent_cons.1 h).1)
  rw [takes_cons, isExponent_cons]
  by_cases h : c = 'e' ∨ c = 'E' <;> simp [step, hc, h, takes_mark]

/-- After the point, at least one digit follows. -/
theorem takes_point {cs : List Char} :
    point.Takes cs ↔ ∃ ds rest, cs = ds ++ rest ∧ IsDigits ds ∧ IsExponent rest := by
  cases cs with
  | nil => simp [takes_nil, accepts, IsDigits]
  | cons c cs =>
    rw [takes_of_digits (t := .fraction) (fun _ => rfl), takes_fraction]
    constructor
    · rintro ⟨hc, ds, rest, rfl, hds, hrest⟩
      exact ⟨c :: ds, rest, rfl, ⟨nofun, by simp [AllDigits, hc]; exact hds⟩, hrest⟩
    · rintro ⟨ds, rest, hcs, ⟨hne, hds⟩, hrest⟩
      cases ds with
      | nil => exact absurd rfl hne
      | cons d ds =>
        simp only [List.cons_append, List.cons.injEq] at hcs
        obtain ⟨rfl, rfl⟩ := hcs
        exact ⟨hds c (List.mem_cons_self ..), ds, rest, rfl,
          fun x hx => hds x (List.mem_cons_of_mem _ hx), hrest⟩

/-- What may follow the whole part of a number. -/
def IsTail (cs : List Char) : Prop :=
  ∃ fraction exponent, cs = fraction ++ exponent ∧ IsFraction fraction ∧ IsExponent exponent

theorem isTail_nil : IsTail [] := ⟨[], [], rfl, .inl rfl, .inl rfl⟩

/-- What follows a whole number starts with a point or the mark of a power. -/
theorem isTail_cons {c : Char} {cs : List Char} :
    IsTail (c :: cs) ↔ (c = '.' ∧ point.Takes cs) ∨ ((c = 'e' ∨ c = 'E') ∧ mark.Takes cs) := by
  rw [takes_point, takes_mark]
  constructor
  · rintro ⟨f, e, hcs, hf, he⟩
    cases f with
    | nil =>
      rw [List.nil_append] at hcs
      exact .inr (isExponent_cons.1 (hcs ▸ he))
    | cons d f =>
      simp only [List.cons_append, List.cons.injEq] at hcs
      obtain ⟨rfl, rfl⟩ := hcs
      obtain ⟨hd, hf⟩ := isFraction_cons.1 hf
      exact .inl ⟨hd, f, e, rfl, hf, he⟩
  · rintro (⟨rfl, ds, rest, rfl, hds, hrest⟩ | ⟨hc, hp⟩)
    · exact ⟨'.' :: ds, rest, rfl, isFraction_cons.2 ⟨rfl, hds⟩, hrest⟩
    · exact ⟨[], c :: cs, rfl, .inl rfl, isExponent_cons.2 ⟨hc, hp⟩⟩

/-- No digit follows a leading zero. -/
theorem takes_zero {cs : List Char} : zero.Takes cs ↔ IsTail cs := by
  cases cs with
  | nil => exact ⟨fun _ => isTail_nil, fun _ => rfl⟩
  | cons c cs =>
    rw [takes_cons, isTail_cons]
    by_cases hp : c = '.'
    · simp [step, hp]
    · by_cases hm : c = 'e' ∨ c = 'E' <;> simp [step, hp, hm]

/-- Digits of a whole number go on up to its tail. -/
theorem takes_whole {cs : List Char} :
    whole.Takes cs ↔ ∃ ds rest, cs = ds ++ rest ∧ AllDigits ds ∧ IsTail rest := by
  refine takes_of_loop ⟨rfl, isTail_nil⟩ (fun c hc => by simp [step, hc]) (fun c cs hc => ?_)
    (fun c cs h => ?_)
  · rw [takes_cons, isTail_cons]
    by_cases hp : c = '.'
    · simp [step, hp]
    · by_cases hm : c = 'e' ∨ c = 'E' <;> simp [step, hc, hp, hm]
  · obtain ⟨rfl, -⟩ | ⟨hm, -⟩ := isTail_cons.1 h
    · rfl
    · exact isDigit_of_mark hm

/-- A whole number is zero, or starts with another digit. -/
theorem isWhole_cons {c : Char} {cs : List Char} :
    IsWhole (c :: cs) ↔ (c = '0' ∧ cs = []) ∨ (isLeading c = true ∧ AllDigits cs) := by
  simp only [IsWhole, List.cons.injEq]
  constructor
  · rintro (h | ⟨d, ds, ⟨rfl, rfl⟩, h⟩)
    · exact .inl h
    · exact .inr h
  · rintro (h | h)
    · exact .inl h
    · exact .inr ⟨c, cs, ⟨rfl, rfl⟩, h⟩

/-- The first digit tells whether further digits may follow. -/
theorem isUnsigned_cons {c : Char} {cs : List Char} :
    IsUnsigned (c :: cs) ↔ (c = '0' ∧ zero.Takes cs) ∨ (isLeading c = true ∧ whole.Takes cs) := by
  rw [takes_zero, takes_whole]
  constructor
  -- a whole number has a first digit, which decides between the two cases
  · rintro ⟨w, f, e, hcs, hw, hf, he⟩
    cases w with
    | nil => obtain h | ⟨d, ds, h, -⟩ := hw <;> cases h
    | cons d w =>
      simp only [List.cons_append, List.cons.injEq] at hcs
      obtain ⟨rfl, rfl⟩ := hcs
      obtain ⟨hz, rfl⟩ | ⟨hl, hds⟩ := isWhole_cons.1 hw
      · exact .inl ⟨hz, f, e, rfl, hf, he⟩
      · exact .inr ⟨hl, w, f ++ e, rfl, hds, f, e, rfl, hf, he⟩
  · rintro (⟨rfl, f, e, rfl, hf, he⟩ | ⟨hl, ds, rest, rfl, hds, f, e, rfl, hf, he⟩)
    · exact ⟨['0'], f, e, rfl, .inl rfl, hf, he⟩
    · exact ⟨c :: ds, f, e, rfl, isWhole_cons.2 (.inr ⟨hl, hds⟩), hf, he⟩

theorem not_isUnsigned_nil : ¬IsUnsigned [] := by
  rintro ⟨w, f, e, hcs, hw, -, -⟩
  obtain ⟨rfl, -⟩ := List.append_eq_nil_iff.1 hcs.symm
  obtain h | ⟨d, ds, h, -⟩ := hw <;> cases h

/-- Zero is no leading digit. -/
private theorem isLeading_zero : isLeading '0' = false := rfl

/-- After the minus sign, a number without a sign follows. -/
theorem takes_minus {cs : List Char} : minus.Takes cs ↔ IsUnsigned cs := by
  cases cs with
  | nil => simp [takes_nil, accepts, not_isUnsigned_nil]
  | cons c cs =>
    rw [takes_cons, isUnsigned_cons]
    by_cases hz : c = '0'
    · simp [step, hz, isLeading_zero]
    · by_cases hl : isLeading c = true <;> simp [step, hz, hl]

/-- The scanner takes the numbers of the grammar. -/
theorem takes_start {cs : List Char} : start.Takes cs ↔ IsNumber cs := by
  cases cs with
  | nil => simp [takes_nil, accepts, IsNumber, not_isUnsigned_nil]
  | cons c cs =>
    rw [takes_cons, IsNumber, isUnsigned_cons]
    by_cases hm : c = '-'
    · subst hm
      simp [step, takes_minus, show isLeading '-' = false from rfl]
    · by_cases hz : c = '0'
      · simp [step, hz, isLeading_zero]
      · by_cases hl : isLeading c = true <;> simp [step, hm, hz, hl]

theorem isDigit_of_isLeading {c : Char} (h : isLeading c = true) : c.isDigit = true := by
  simp only [isLeading, Char.isDigit, Bool.and_eq_true, decide_eq_true_eq] at h ⊢
  exact ⟨Nat.le_trans (by decide) h.1, h.2⟩

/-- A number takes number characters only. -/
theorem isNumberChar_of_step {s t : NumberState} {c : Char} (h : s.step c = some t) :
    isNumberChar c = true := by
  have hdigit := @isDigit_of_isLeading c
  have hzero : c = '0' → c.isDigit = true := by
    rintro rfl
    rfl
  -- digits aside, a state takes signs, the point and the marks of exponents at most
  cases s <;> grind [step, isNumberChar]

end NumberState

/-- A number starts with a sign or a digit. -/
theorem IsNumber.head {cs : List Char} (h : IsNumber cs) :
    ∃ c t, cs = c :: t ∧ (c = '-' ∨ c.isDigit = true) := by
  obtain h | ⟨ds, rfl, -⟩ := h
  · cases cs with
    | nil => exact absurd h NumberState.not_isUnsigned_nil
    | cons c t =>
      refine ⟨c, t, rfl, .inr ?_⟩
      obtain ⟨rfl, -⟩ | ⟨hc, -⟩ := NumberState.isUnsigned_cons.1 h
      · rfl
      · exact NumberState.isDigit_of_isLeading hc
  · exact ⟨'-', ds, rfl, .inl rfl⟩

/-- Behind a number, the scan of number characters ends. -/
def EndsScan (ending : Ending) : List Char → Prop
  | [] => ∀ reason, ending ≠ .failing reason
  | c :: _ => isNumberChar c = false

/-- A number character that the machine takes goes to the front of what is scanned behind it. -/
theorem scanNumber_cons {ending : Ending} {s s' : NumberState} {c : Char}
    (h : s.step c = some s') (cs : List Char) :
    scanNumber ending s (c :: cs) =
      (scanNumber ending s' cs).map fun (ds, rest) => (c :: ds, rest) := by
  rw [scanNumber, if_pos (NumberState.isNumberChar_of_step h), h]
  cases hr : scanNumber ending s' cs <;> simp only [hr] <;> rfl

/-- A number character that the machine refuses is an error. -/
theorem scanNumber_refused {ending : Ending} {s : NumberState} {c : Char}
    (hc : isNumberChar c = true) (h : s.step c = none) (cs : List Char) :
    scanNumber ending s (c :: cs) = .error (.malformed .malformedNumber) := by
  rw [scanNumber, if_pos hc, h]

/-- Without a number character the scan ends. -/
theorem scanNumber_ended {ending : Ending} {s : NumberState} {cs : List Char}
    (h : EndsScan ending cs) : scanNumber ending s cs =
      if s.accepts then .ok ([], cs) else .error (.malformed .malformedNumber) := by
  cases cs with
  | nil =>
    cases ending with
    | failing reason => exact absurd rfl (h reason)
    | finished | cut _ | undecodable => rfl
  | cons c cs =>
    rw [EndsScan] at h
    rw [scanNumber, h]
    rfl

/-- A scanned number is taken from the front, and ends where a number may end. -/
theorem scanNumber_sound_of_ended {ending : Ending} {s : NumberState} {cs ds rest : List Char}
    (he : EndsScan ending cs) (h : scanNumber ending s cs = .ok (ds, rest)) :
    cs = ds ++ rest ∧ s.Takes ds ∧ EndsScan ending rest := by
  rw [scanNumber_ended he] at h
  split at h
  · next ha =>
    cases h
    exact ⟨rfl, ha, he⟩
  · cases h

/-- The scanner takes the longest run of number characters, and it must be a number. -/
theorem scanNumber_sound {ending : Ending} {s : NumberState} {cs ds rest : List Char}
    (h : scanNumber ending s cs = .ok (ds, rest)) :
    cs = ds ++ rest ∧ s.Takes ds ∧ EndsScan ending rest := by
  -- one character at a time, whatever state the machine has got to
  induction cs generalizing s ds with
  | nil =>
    refine scanNumber_sound_of_ended (fun reason hf => ?_) h
    subst hf
    cases h
  | cons c cs ih =>
    cases hc : isNumberChar c with
    | false => exact scanNumber_sound_of_ended hc h
    | true =>
      cases hs : s.step c with
      | none =>
        rw [scanNumber_refused hc hs] at h
        cases h
      | some s' =>
        rw [scanNumber_cons hs] at h
        cases hr : scanNumber ending s' cs with
        | error e =>
          rw [hr] at h
          cases h
        | ok p =>
          rw [hr] at h
          cases h
          obtain ⟨hcs, hd, he⟩ := ih hr
          exact ⟨by rw [hcs]; rfl, ⟨s', hs, hd⟩, he⟩

/-- A number is scanned whole, where it may end. -/
theorem scanNumber_complete {ending : Ending} {s : NumberState} {ds rest : List Char}
    (hd : s.Takes ds) (he : EndsScan ending rest) :
    scanNumber ending s (ds ++ rest) = .ok (ds, rest) := by
  induction ds generalizing s with
  | nil =>
    exact (scanNumber_ended he).trans (if_pos hd)
  | cons d ds ih =>
    obtain ⟨s', hs, hd⟩ := hd
    rw [List.cons_append, scanNumber_cons hs, ih hd]
    rfl

/-- Exactly the numbers of the grammar are scanned. -/
theorem scanNumber_eq_ok_iff {ending : Ending} {cs ds rest : List Char} :
    scanNumber ending .start cs = .ok (ds, rest) ↔
      cs = ds ++ rest ∧ IsNumber ds ∧ EndsScan ending rest := by
  rw [← NumberState.takes_start]
  refine ⟨scanNumber_sound, ?_⟩
  rintro ⟨rfl, hd, he⟩
  exact scanNumber_complete hd he

/-- A number may end wherever a literal may. -/
theorem Stops.endsScan {ending : Ending} {rest : List Char} (h : Stops ending rest) :
    EndsScan ending rest := by
  cases rest with
  | nil =>
    rintro reason rfl
    exact h
  | cons c rest =>
    have hc : Reader.delimits c = true := h
    simp only [Reader.delimits, Bool.or_eq_true, decide_eq_true_eq] at hc
    rw [EndsScan]
    obtain (((((((hc | hc) | hc) | hc) | hc) | hc) | hc) | hc) | hc := hc <;> subst hc <;> rfl

end JsonAdapters.Json
