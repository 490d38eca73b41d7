import JsonAdapters.Proofs.Json.Grammar

/-!
# String text against the grammar

The scanner of strings is a machine with one open escape sequence at most. What completes the
sequence is said first, then what the machine takes up to the closing quote.

## Main statements

* `Escape.completes_letter_iff`: what may stand behind a backslash.
* `scanText_sound`, `scanText_complete`: what is scanned is text of the grammar, and all of it is.
-/

namespace JsonAdapters.Json

namespace Escape

/-- From this state, the characters complete the escape sequence of a character. -/
inductive Completes : Escape → Char → List Char → Prop
  | last {e : Escape} {c d : Char} : e.step d = .char c → Completes e c [d]
  | more {e e' : Escape} {c d : Char} {ds : List Char} : e.step d = .more e' →
      Completes e' c ds → Completes e c (d :: ds)

/-- After a step of this outcome, the characters complete the escape sequence of a character. -/
def CompletesAfter (s : EscapeStep) (c : Char) (ds : List Char) : Prop :=
  (s = .char c ∧ ds = []) ∨ ∃ e, s = .more e ∧ Completes e c ds

theorem completesAfter_char {c d : Char} {ds : List Char} :
    CompletesAfter (.char d) c ds ↔ d = c ∧ ds = [] := by
  simp [CompletesAfter]

theorem completesAfter_more {e : Escape} {c : Char} {ds : List Char} :
    CompletesAfter (.more e) c ds ↔ Completes e c ds := by
  simp [CompletesAfter]

theorem not_completesAfter_fault {m : Malformation} {c : Char} {ds : List Char} :
    ¬CompletesAfter (.fault m) c ds := by
  simp [CompletesAfter]

/-- A sequence is completed by a first character and what is owed after it. -/
theorem completes_iff {e : Escape} {c : Char} {cs : List Char} : Completes e c cs ↔
    ∃ d ds, cs = d :: ds ∧ CompletesAfter (e.step d) c ds := by
  constructor
  · intro h
    cases h with
    | last hd => exact ⟨_, [], rfl, .inl ⟨hd, rfl⟩⟩
    | more hd hds => exact ⟨_, _, rfl, .inr ⟨_, hd, hds⟩⟩
  · rintro ⟨d, ds, rfl, ⟨hd, rfl⟩ | ⟨e', hd, hds⟩⟩
    · exact .last hd
    · exact .more hd hds

/-- One digit of a code unit. -/
private theorem completes_of_digit {start : Nat → Nat → Escape} {done : Nat → EscapeStep}
    (hstep : ∀ owed value c, (start owed value).step c =
      match hexValue? c with
      | none => .fault .malformedEscapeSequence
      | some d =>
        if owed ≤ 1 then done (16 * value + d) else .more (start (owed - 1) (16 * value + d)))
    (owed value : Nat) {c : Char} {cs : List Char} : Completes (start owed value) c cs ↔
      ∃ x d ds, cs = x :: ds ∧ hexValue? x = some d ∧ CompletesAfter
        (if owed ≤ 1 then done (16 * value + d) else .more (start (owed - 1) (16 * value + d)))
        c ds := by
  rw [completes_iff]
  constructor
  · rintro ⟨x, ds, rfl, h⟩
    rw [hstep] at h
    split at h
    · exact absurd h not_completesAfter_fault
    · next d hx => exact ⟨x, d, ds, rfl, hx, h⟩
  · rintro ⟨x, d, ds, rfl, hx, h⟩
    refine ⟨x, ds, rfl, ?_⟩
    rw [hstep, hx]
    exact h

/-- Four digits complete a code unit, however the unit goes on. -/
private theorem completes_of_digits {start : Nat → Nat → Escape} {done : Nat → EscapeStep}
    (hstep : ∀ owed value c, (start owed value).step c =
      match hexValue? c with
      | none => .fault .malformedEscapeSequence
      | some d =>
        if owed ≤ 1 then done (16 * value + d) else .more (start (owed - 1) (16 * value + d)))
    {c : Char} {cs : List Char} : Completes (start 4 0) c cs ↔
      ∃ n unit rest, cs = unit ++ rest ∧ SpellsUnit n unit ∧ CompletesAfter (done n) c rest := by
  -- three digits that leave some owed, and the one that ends the unit
  have hmore (owed value : Nat) (howed : 1 < owed) {c : Char} {cs : List Char} :
      Completes (start owed value) c cs ↔ ∃ x d ds, cs = x :: ds ∧ hexValue? x = some d ∧
        Completes (start (owed - 1) (16 * value + d)) c ds := by
    simp only [completes_of_digit hstep, if_neg (Nat.not_le.2 howed), completesAfter_more]
  have hlast (value : Nat) {c : Char} {cs : List Char} : Completes (start 1 value) c cs ↔
      ∃ x d ds, cs = x :: ds ∧ hexValue? x = some d ∧
        CompletesAfter (done (16 * value + d)) c ds := by
    simp only [completes_of_digit hstep, Nat.le_refl, if_true]
  rw [hmore 4 0 (by decide)]
  constructor
  · rintro ⟨a, va, ds, rfl, ha, h⟩
    obtain ⟨b, vb, ds, rfl, hb, h⟩ := (hmore 3 _ (by decide)).1 h
    obtain ⟨x, vx, ds, rfl, hx, h⟩ := (hmore 2 _ (by decide)).1 h
    obtain ⟨y, vy, ds, rfl, hy, h⟩ := (hlast _).1 h
    exact ⟨_, [a, b, x, y], ds, rfl, ⟨a, b, x, y, va, vb, vx, vy, rfl, ha, hb, hx, hy, by simp⟩, h⟩
  · rintro ⟨n, unit, rest, rfl, ⟨a, b, x, y, va, vb, vx, vy, rfl, ha, hb, hx, hy, rfl⟩, h⟩
    refine ⟨a, va, _, rfl, ha, (hmore 3 _ (by decide)).2 ⟨b, vb, _, rfl, hb, ?_⟩⟩
    refine (hmore 2 _ (by decide)).2 ⟨x, vx, _, rfl, hx, (hlast _).2 ⟨y, vy, _, rfl, hy, ?_⟩⟩
    simpa using h

theorem completes_digits_iff {c : Char} {cs : List Char} : Completes (.digits 4 0) c cs ↔
    ∃ n ds rest, cs = ds ++ rest ∧ SpellsUnit n ds ∧ CompletesAfter (unit n) c rest :=
  @completes_of_digits .digits unit (fun _ _ _ => rfl) _ _

theorem completes_pairDigits_iff {high : Nat} {c : Char} {cs : List Char} :
    Completes (.pairDigits high 4 0) c cs ↔
      ∃ n ds rest, cs = ds ++ rest ∧ SpellsUnit n ds ∧ CompletesAfter (pair high n) c rest :=
  @completes_of_digits (.pairDigits high) (pair high) (fun _ _ _ => rfl) _ _

/-- The second half of a surrogate pair. -/
theorem completes_pairSlash_iff {high : Nat} {c : Char} {cs : List Char} :
    Completes (.pairSlash high) c cs ↔ ∃ low es, cs = '\\' :: 'u' :: es ∧ SpellsUnit low es ∧
      isLowSurrogate low = true ∧ c = surrogateChar high low := by
  constructor
  -- a backslash, the letter, four digits: each step leaves one way on
  · intro h
    obtain ⟨x, cs, rfl, hslash⟩ := completes_iff.1 h
    simp only [step] at hslash
    split at hslash
    · next hx =>
      obtain ⟨y, cs, rfl, hletter⟩ := completes_iff.1 (completesAfter_more.1 hslash)
      simp only [step] at hletter
      split at hletter
      · next hy =>
        obtain ⟨low, es, rest, rfl, hes, hpair⟩ :=
          completes_pairDigits_iff.1 (completesAfter_more.1 hletter)
        simp only [pair] at hpair
        split at hpair
        · next hl =>
          obtain ⟨hc, rfl⟩ := completesAfter_char.1 hpair
          exact ⟨low, es, by rw [hx, hy, List.append_nil], hes, hl, hc.symm⟩
        · exact absurd hpair not_completesAfter_fault
      · exact absurd hletter not_completesAfter_fault
    · exact absurd hslash not_completesAfter_fault
  · rintro ⟨low, es, rfl, hes, hl, hc⟩
    have hslash : step (.pairSlash high) '\\' = .more (.pairLetter high) := rfl
    have hletter : step (.pairLetter high) 'u' = .more (.pairDigits high 4 0) := rfl
    refine .more hslash (.more hletter ?_)
    refine completes_pairDigits_iff.2 ⟨low, es, [], (List.append_nil es).symm, hes, .inl ⟨?_, rfl⟩⟩
    rw [pair, if_pos hl, hc, surrogateChar]

/-- A code unit stands for itself, or is the first half of a surrogate pair. -/
theorem completesAfter_unit_iff {n : Nat} {c : Char} {rest : List Char} :
    CompletesAfter (unit n) c rest ↔
      (isHighSurrogate n = true ∧ Completes (.pairSlash n) c rest) ∨
        (isHighSurrogate n = false ∧ isLowSurrogate n = false ∧ Char.ofNat n = c ∧ rest = []) := by
  simp only [unit]
  split
  · next hh =>
    simp only [completesAfter_more, hh, true_and, Bool.true_eq_false, false_and, or_false]
  · next hh =>
    have hh := Bool.eq_false_iff.2 hh
    split
    · next hl =>
      simp only [hh, hl, not_completesAfter_fault, Bool.false_eq_true, Bool.true_eq_false,
        false_and, and_false, or_false]
    · next hl =>
      simp only [hh, Bool.eq_false_iff.2 hl, completesAfter_char, Bool.false_eq_true, false_and,
        false_or, true_and]

/-- What stands behind a backslash. -/
theorem completes_letter_iff {c : Char} {cs : List Char} :
    Completes .letter c cs ↔ SpellsEscape c cs := by
  have hu : step .letter 'u' = .more (.digits 4 0) := rfl
  constructor
  · intro h
    obtain ⟨x, cs, rfl, hs⟩ := completes_iff.1 h
    simp only [step] at hs
    split at hs
    · next d hp =>
      obtain ⟨rfl, rfl⟩ := completesAfter_char.1 hs
      exact .letter hp
    -- no plain escape: only a code unit is left
    · split at hs
      · next hx =>
        subst hx
        obtain ⟨n, ds, rest, rfl, hds, hn⟩ := completes_digits_iff.1 (completesAfter_more.1 hs)
        obtain ⟨hh, hr⟩ | ⟨hh, hl, rfl, rfl⟩ := completesAfter_unit_iff.1 hn
        · obtain ⟨low, es, rfl, hes, hl, hc⟩ := completes_pairSlash_iff.1 hr
          rw [hc]
          exact .pair hds hh hes hl
        · rw [List.append_nil]
          exact .unit hds hh hl
      · exact absurd hs not_completesAfter_fault
  · intro h
    cases h with
    | letter hp =>
      refine .last ?_
      simp only [step, hp]
    | unit hds hh hl =>
      exact .more hu (completes_digits_iff.2 ⟨_, _, [], (List.append_nil _).symm, hds,
        completesAfter_unit_iff.2 (.inr ⟨hh, hl, rfl, rfl⟩)⟩)
    | pair hds hh hes hl =>
      exact .more hu (completes_digits_iff.2 ⟨_, _, _, rfl, hds, completesAfter_unit_iff.2
        (.inl ⟨hh, completes_pairSlash_iff.2 ⟨_, _, rfl, hes, hl, rfl⟩⟩)⟩)

end Escape

/-! ## Scanning -/

/-- Text up to a closing quote, when an escape sequence may be open. -/
def Scans : Option (Escape × Position) → List Char → List Char → Prop
  | none, out, text => SpellsText out text
  | some (e, _), out, text => ∃ c cs esc rest, out = c :: cs ∧ text = esc ++ rest ∧
      e.Completes c esc ∧ SpellsText cs rest

/-- What is scanned up to the closing quote is text of the grammar. -/
theorem scanText_sound {ending : Ending} {open? : Option (Escape × Position)} {p q : Position}
    {cs out rest : List Char} (h : scanText ending open? p cs = .ok (out, q, rest)) :
    ∃ text, cs = text ++ '"' :: rest ∧ Scans open? out text := by
  -- cases 4, 7 and 9 are the start, the middle and the end of an escape sequence
  fun_induction scanText ending open? p cs generalizing out q rest with
  | case1 => cases h
  | case2 => cases h
  | case3 p r =>
    cases h
    exact ⟨[], rfl, .nil⟩
  | case4 p r hq ih =>
    -- the sequence that was opened is completed somewhere in the text
    obtain ⟨text, rfl, d, ds, esc, more, rfl, rfl, he, ht⟩ := ih h
    exact ⟨'\\' :: (esc ++ more), rfl, .escaped (Escape.completes_letter_iff.1 he) ht⟩
  | case5 => cases h
  | case6 p c r hq hb hc ih =>
    cases hr : scanText ending none (p.past c) r with
    | error e =>
      rw [hr] at h
      cases h
    | ok x =>
      rw [hr] at h
      cases h
      obtain ⟨text, rfl, ht⟩ := ih hr
      exact ⟨c :: text, rfl, .plain hq hb (by omega) ht⟩
  | case7 e start p c r e' he ih =>
    obtain ⟨text, rfl, d, ds, esc, more, rfl, rfl, hd, ht⟩ := ih h
    exact ⟨c :: (esc ++ more), rfl, d, ds, c :: esc, more, rfl, rfl, .more he hd, ht⟩
  | case8 => cases h
  | case9 e start p c r d he ih =>
    cases hr : scanText ending none (p.past c) r with
    | error e =>
      rw [hr] at h
      cases h
    | ok x =>
      rw [hr] at h
      cases h
      obtain ⟨text, rfl, ht⟩ := ih hr
      exact ⟨c :: text, rfl, d, _, [c], text, rfl, rfl, .last he, ht⟩

/-- An open escape sequence is completed, and scanning goes on behind it. -/
theorem scanText_completes {ending : Ending} {e : Escape} {c : Char} {esc : List Char}
    (h : e.Completes c esc) (start p : Position) {cs out rest : List Char}
    (hcs : ∀ p, ∃ q, scanText ending none p cs = .ok (out, q, rest)) :
    ∃ q, scanText ending (some (e, start)) p (esc ++ cs) = .ok (c :: out, q, rest) := by
  induction h generalizing p with
  | @last e c d hd =>
    obtain ⟨q, hq⟩ := hcs (p.past d)
    refine ⟨q, ?_⟩
    simp only [List.cons_append, List.nil_append, scanText, hd, hq]
    rfl
  | @more e e' c d ds hd _ ih =>
    obtain ⟨q, hq⟩ := ih (p.past d)
    refine ⟨q, ?_⟩
    simp only [List.cons_append, scanText, hd, hq]

/-- Text of the grammar is scanned up to the closing quote behind it. -/
theorem scanText_complete {ending : Ending} {out text : List Char} (h : SpellsText out text)
    (p : Position) (rest : List Char) :
    ∃ q, scanText ending none p (text ++ '"' :: rest) = .ok (out, q, rest) := by
  induction h generalizing p with
  | nil => exact ⟨p.past '"', by simp [scanText]⟩
  | @plain c cs text hq hb hc _ ih =>
    obtain ⟨q, hr⟩ := ih (p.past c)
    have hn : ¬c.toNat < 0x20 := by omega
    refine ⟨q, ?_⟩
    simp only [List.cons_append, scanText, hq, hb, hn, if_false, hr]
    rfl
  | @escaped c esc cs text he _ ih =>
    obtain ⟨q, hr⟩ := scanText_completes (Escape.completes_letter_iff.2 he) p (p.past '\\') ih
    refine ⟨q, ?_⟩
    simp only [List.cons_append, List.append_assoc, scanText, show ('\\' : Char) ≠ '"' by decide,
      if_true, if_false, hr]

end JsonAdapters.Json
