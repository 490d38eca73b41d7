import Mathlib.Algebra.Order.Field.Basic
import Mathlib.Algebra.Order.Field.Power
import Mathlib.Algebra.Order.Ring.Rat
import Mathlib.Tactic.FieldSimp
import Mathlib.Tactic.Linarith
import Mathlib.Tactic.Ring
import JsonAdapters.Proofs.Json.Printing

/-!
# Numbers of number texts

Which rational number a number text denotes, stated over the grammar: digits before the point count
ones, digits behind it are a fraction, and the exponent scales by a power of ten. Reading the digits
of a text as one decimal keeps the number and its sign.

## Main definitions

* `Json.DenotesUnsigned`, `Json.Denotes`: the number of a text.
* `Decimal.toRat`: the number of digits with a power of ten.

## Main statements

* `Json.denotes_of_isNumber`, `Json.Denotes.unique`: every number text denotes one number.
* `Decimal.ofText_of_unsigned`: what is read denotes the number.
-/

namespace JsonAdapters

open Decimal (digitsValue)

namespace Json

/-! ## Denoted numbers -/

/-- The fraction is nothing, or a point with digits. -/
def DenotesFraction (x : ℚ) (cs : List Char) : Prop :=
  (cs = [] ∧ x = 0) ∨
    ∃ ds, cs = '.' :: ds ∧ IsDigits ds ∧ x = (digitsValue ds : ℚ) / 10 ^ ds.length

/-- The power is digits with an optional sign. -/
def DenotesPower (p : ℤ) (cs : List Char) : Prop :=
  (IsDigits cs ∧ p = digitsValue cs) ∨
    ∃ ds, IsDigits ds ∧
      ((cs = '+' :: ds ∧ p = digitsValue ds) ∨ (cs = '-' :: ds ∧ p = -(digitsValue ds : ℤ)))

/-- The exponent is nothing, or a mark with a power. -/
def DenotesExponent (p : ℤ) (cs : List Char) : Prop :=
  (cs = [] ∧ p = 0) ∨ ∃ mark ps, cs = mark :: ps ∧ (mark = 'e' ∨ mark = 'E') ∧ DenotesPower p ps

/-- The text without sign denotes the number. -/
def DenotesUnsigned (x : ℚ) (cs : List Char) : Prop :=
  ∃ whole fraction exponent, cs = whole ++ (fraction ++ exponent) ∧ IsWhole whole ∧
    ∃ y p, DenotesFraction y fraction ∧ DenotesExponent p exponent ∧
      x = (digitsValue whole + y) * 10 ^ p

/-- The text denotes the number. -/
def Denotes (x : ℚ) (cs : List Char) : Prop :=
  DenotesUnsigned x cs ∨ ∃ ds, cs = '-' :: ds ∧ DenotesUnsigned (-x) ds

theorem IsFraction.denotes {cs : List Char} (h : IsFraction cs) : ∃ y, DenotesFraction y cs := by
  obtain h | ⟨ds, h, hds⟩ := h
  · exact ⟨_, .inl ⟨h, rfl⟩⟩
  · exact ⟨_, .inr ⟨ds, h, hds, rfl⟩⟩

theorem IsPower.denotes {cs : List Char} (h : IsPower cs) : ∃ p, DenotesPower p cs := by
  obtain h | ⟨sign, ds, rfl, rfl | rfl, hds⟩ := h
  · exact ⟨_, .inl ⟨h, rfl⟩⟩
  · exact ⟨_, .inr ⟨ds, hds, .inl ⟨rfl, rfl⟩⟩⟩
  · exact ⟨_, .inr ⟨ds, hds, .inr ⟨rfl, rfl⟩⟩⟩

theorem IsExponent.denotes {cs : List Char} (h : IsExponent cs) : ∃ p, DenotesExponent p cs := by
  obtain h | ⟨mark, ps, h, hmark, hpower⟩ := h
  · exact ⟨_, .inl ⟨h, rfl⟩⟩
  · obtain ⟨p, hp⟩ := hpower.denotes
    exact ⟨p, .inr ⟨mark, ps, h, hmark, hp⟩⟩

theorem IsUnsigned.denotes {cs : List Char} (h : IsUnsigned cs) : ∃ x, DenotesUnsigned x cs := by
  obtain ⟨whole, fraction, exponent, h, hwhole, hfraction, hexponent⟩ := h
  obtain ⟨y, hy⟩ := hfraction.denotes
  obtain ⟨p, hp⟩ := hexponent.denotes
  exact ⟨_, whole, fraction, exponent, h, hwhole, y, p, hy, hp, rfl⟩

/-- Every number text denotes a number. -/
theorem denotes_of_isNumber {cs : List Char} (h : IsNumber cs) : ∃ x, Denotes x cs := by
  obtain h | ⟨ds, h, hds⟩ := h
  · obtain ⟨x, hx⟩ := h.denotes
    exact ⟨x, .inl hx⟩
  · obtain ⟨x, hx⟩ := hds.denotes
    exact ⟨-x, .inr ⟨ds, h, (neg_neg x).symm ▸ hx⟩⟩

/-! ## Digits at the front -/

theorem IsWhole.isDigits {cs : List Char} (h : IsWhole cs) : IsDigits cs := by
  obtain rfl | ⟨d, ds, rfl, hd, hds⟩ := h
  · exact ⟨nofun, fun c hc => List.mem_singleton.1 hc ▸ rfl⟩
  · refine ⟨nofun, fun c hc => ?_⟩
    obtain rfl | hc := List.mem_cons.1 hc
    · simp only [NumberState.isLeading, Bool.and_eq_true, decide_eq_true_eq] at hd
      simp only [Char.isDigit, Bool.and_eq_true, decide_eq_true_eq]
      exact ⟨Nat.le_trans (by decide) hd.1, hd.2⟩
    · exact hds c hc

theorem AllDigits.takeWhile_append {ds cs : List Char} (hds : AllDigits ds)
    (hcs : ∀ c ∈ cs.head?, c.isDigit = false) :
    (ds ++ cs).takeWhile Char.isDigit = ds := by
  rw [List.takeWhile_append_of_pos hds]
  cases cs with
  | nil => simp
  | cons c cs => simp [hcs c rfl]

theorem IsDigits.head?_ne {ds cs : List Char} (hds : IsDigits ds) {c : Char}
    (hc : c.isDigit = false) : (ds ++ cs).head? ≠ some c := by
  obtain ⟨hne, hall⟩ := hds
  cases ds with
  | nil => exact absurd rfl hne
  | cons d ds =>
    intro h
    obtain rfl : d = c := Option.some.inj h
    rw [hall d (List.mem_cons_self ..)] at hc
    cases hc

theorem DenotesUnsigned.head?_ne {x : ℚ} {cs : List Char} (h : DenotesUnsigned x cs) {c : Char}
    (hc : c.isDigit = false) : cs.head? ≠ some c := by
  obtain ⟨whole, fraction, exponent, rfl, hwhole, -⟩ := h
  exact hwhole.isDigits.head?_ne hc

theorem DenotesExponent.head?_not_digit {p : ℤ} {cs : List Char} (h : DenotesExponent p cs) :
    ∀ c ∈ cs.head?, c.isDigit = false ∧ c ≠ '.' := by
  obtain ⟨rfl, -⟩ | ⟨mark, ps, rfl, rfl | rfl, -⟩ := h
  · nofun
  all_goals
    rintro c ⟨⟩
    decide

end Json

/-! ## Decimals -/

namespace Decimal

open Json

def toRat (d : Decimal) : ℚ := d.coefficient * 10 ^ d.exponent

theorem digitsValue_append (as bs : List Char) :
    digitsValue (as ++ bs) = digitsValue as * 10 ^ bs.length + digitsValue bs := by
  have happend : digitsValue (as ++ bs) = Nat.ofDigitChars 10 bs (digitsValue as) :=
    Nat.ofDigitChars_append 0
  rw [happend, Nat.ofDigitChars_eq_ofDigitChars_zero, Nat.mul_comm]
  rfl

/-- The power of ten of an exponent, as reading finds it. -/
def powerValue : List Char → ℤ
  | [] => 0
  | _ :: '-' :: ds => -(digitsValue ds : ℤ)
  | _ :: '+' :: ds => digitsValue ds
  | _ :: ds => digitsValue ds

theorem powerValue_of_denotes {p : ℤ} {cs : List Char} (h : DenotesExponent p cs) :
    powerValue cs = p := by
  obtain ⟨rfl, rfl⟩ | ⟨mark, ps, rfl, -, hp⟩ := h
  · rfl
  obtain ⟨hds, rfl⟩ | ⟨ds, -, ⟨rfl, rfl⟩ | ⟨rfl, rfl⟩⟩ := hp
  · have hhead (c : Char) (hc : c.isDigit = false) : ps.head? ≠ some c := by
      rw [← List.append_nil ps]
      exact hds.head?_ne hc
    have hminus := hhead '-' rfl
    have hplus := hhead '+' rfl
    unfold powerValue
    split
    · next h => cases h
    · next h => cases h; exact absurd rfl hminus
    · next h => cases h; exact absurd rfl hplus
    · next h => cases h; rfl
  · rfl
  · rfl

/-- The digits of a text are a decimal of the number that it denotes. -/
theorem ofText_of_unsigned {s : String} {negative : Bool} {cs : List Char} {x : ℚ}
    (hs : s.toList = if negative then '-' :: cs else cs) (h : DenotesUnsigned x cs) :
    ∃ d : Decimal, ofText s = (negative, d) ∧ d.toRat = x := by
  obtain ⟨whole, fraction, exponent, rfl, hwhole, y, p, hy, hp, rfl⟩ := h
  have hdigits := hwhole.isDigits
  -- a number without its sign starts with a digit
  have hsign : (s.toList.head? == some '-') = negative := by
    cases negative with
    | true => rw [hs]; rfl
    | false =>
      rw [hs, if_neg (by decide), beq_eq_false_iff_ne]
      exact hdigits.head?_ne rfl
  have hunsigned : (if negative then s.toList.drop 1 else s.toList) =
      whole ++ (fraction ++ exponent) := by
    cases negative <;> rw [hs] <;> rfl
  have hexponent := hp.head?_not_digit
  have hpower := powerValue_of_denotes hp
  -- the whole part ends before a point, a mark of a power, or the end
  have htake : (whole ++ (fraction ++ exponent)).takeWhile Char.isDigit = whole := by
    refine hdigits.2.takeWhile_append fun c hc => ?_
    obtain ⟨rfl, -⟩ | ⟨ds, rfl, -⟩ := hy
    · exact (hexponent c hc).1
    · cases hc
      rfl
  -- without a point, there are no digits of a fraction
  obtain ⟨rfl, rfl⟩ | ⟨ds, rfl, hds, rfl⟩ := hy
  · have hpoint : (exponent.head? == some '.') = false := by
      rw [beq_eq_false_iff_ne]
      intro h
      exact (hexponent '.' h).2 rfl
    refine ⟨⟨digitsValue whole, p⟩, ?_, by rw [toRat, add_zero]⟩
    rw [List.nil_append] at hunsigned htake
    simp only [ofText, hsign, hunsigned, htake, List.drop_left, hpoint]
    simp only [List.append_nil, Bool.false_eq_true, if_false, List.length_nil, Nat.cast_zero,
      sub_zero]
    exact congrArg (fun p => (negative, (⟨digitsValue whole, p⟩ : Decimal))) hpower
  · have htake' : (ds ++ exponent).takeWhile Char.isDigit = ds :=
      hds.2.takeWhile_append fun c hc => (hexponent c hc).1
    refine ⟨⟨digitsValue (whole ++ ds), p - ds.length⟩, ?_, ?_⟩
    · rw [List.cons_append] at hunsigned htake
      simp only [ofText, hsign, hunsigned, htake, List.drop_left]
      simp only [List.head?_cons, beq_self_eq_true, if_true, List.drop_succ_cons, List.drop_zero,
        htake', List.drop_left]
      exact congrArg
        (fun p => (negative, (⟨digitsValue (whole ++ ds), p - ds.length⟩ : Decimal))) hpower
    · have hten : (10 : ℚ) ≠ 0 := by norm_num
      rw [toRat, digitsValue_append, zpow_sub₀ hten, zpow_natCast]
      push_cast
      field_simp

/-- Text of a number is read as its sign and a decimal of its absolute value. -/
theorem ofText_of_denotes {s : String} {x : ℚ} (h : Denotes x s.toList) :
    ∃ d : Decimal, ofText s = (s.toList.head? == some '-', d) ∧
      x = if s.toList.head? = some '-' then -d.toRat else d.toRat := by
  obtain h | ⟨ds, hs, h⟩ := h
  · have hhead : s.toList.head? ≠ some '-' := h.head?_ne rfl
    obtain ⟨d, hd, hx⟩ := @ofText_of_unsigned s false _ _ rfl h
    refine ⟨d, ?_, ?_⟩
    · rw [beq_eq_false_iff_ne.2 hhead]
      exact hd
    · rw [if_neg hhead, hx]
  · obtain ⟨d, hd, hx⟩ := @ofText_of_unsigned s true _ _ hs h
    rw [hs]
    refine ⟨d, hd, ?_⟩
    rw [List.head?_cons, if_pos rfl, hx, neg_neg]

end Decimal

/-- A text denotes at most one number. -/
theorem Json.Denotes.unique {x y : ℚ} {cs : List Char} (hx : Denotes x cs) (hy : Denotes y cs) :
    x = y := by
  have htext : (String.ofList cs).toList = cs := String.toList_ofList
  obtain ⟨d, hd, rfl⟩ := Decimal.ofText_of_denotes (htext.symm ▸ hx)
  obtain ⟨e, he, rfl⟩ := Decimal.ofText_of_denotes (htext.symm ▸ hy)
  obtain rfl : d = e := (Prod.mk.inj (hd.symm.trans he)).2
  rfl

/-! ## Integers -/

/-- The text has neither a fraction nor an exponent. -/
def Json.IsPlain (cs : List Char) : Prop := '.' ∉ cs ∧ 'e' ∉ cs ∧ 'E' ∉ cs

theorem Json.AllDigits.isPlain {cs : List Char} (h : AllDigits cs) : IsPlain cs := by
  refine ⟨fun hc => ?_, fun hc => ?_, fun hc => ?_⟩
  all_goals exact absurd (h _ hc) (by decide)

/-- Without sign, a plain text is digits, and they denote what digits are worth. -/
theorem Json.DenotesUnsigned.plain_iff {x : ℚ} {cs : List Char} (h : DenotesUnsigned x cs) :
    (AllDigits cs ↔ IsPlain cs) ∧ (AllDigits cs → x = digitsValue cs) := by
  obtain ⟨whole, fraction, exponent, rfl, hwhole, y, p, hy, hp, rfl⟩ := h
  -- only digits are left where there is neither a point nor a mark
  have hdigits := hwhole.isDigits.2
  obtain ⟨rfl, rfl⟩ | ⟨ds, rfl, -⟩ := hy
  · obtain ⟨rfl, rfl⟩ | ⟨mark, ps, rfl, hmark, -⟩ := hp
    · simp only [List.append_nil]
      refine ⟨⟨AllDigits.isPlain, fun _ => hdigits⟩, fun _ => ?_⟩
      rw [zpow_zero, mul_one, add_zero]
    · have hmem : mark ∈ whole ++ ([] ++ mark :: ps) := by simp
      have hnot : ¬IsPlain (whole ++ ([] ++ mark :: ps)) := by
        intro hplain
        obtain rfl | rfl := hmark
        · exact hplain.2.1 hmem
        · exact hplain.2.2 hmem
      have hnone : ¬AllDigits (whole ++ ([] ++ mark :: ps)) := fun hall => hnot hall.isPlain
      exact ⟨iff_of_false hnone hnot, fun hall => absurd hall hnone⟩
  · have hnot : ¬IsPlain (whole ++ ('.' :: ds ++ exponent)) := fun hplain =>
      hplain.1 (by simp)
    have hnone : ¬AllDigits (whole ++ ('.' :: ds ++ exponent)) := fun hall => hnot hall.isPlain
    exact ⟨iff_of_false hnone hnot, fun hall => absurd hall hnone⟩

/-- The integer that is read off a text is the number that it denotes. Plain texts are read. -/
theorem Json.Denotes.integerOf?_eq_some_iff {x : ℚ} {cs : List Char} (h : Denotes x cs) (n : ℤ) :
    integerOf? cs = some n ↔ IsPlain cs ∧ x = n := by
  obtain h | ⟨ds, rfl, h⟩ := h
  · obtain ⟨hplain, hvalue⟩ := h.plain_iff
    -- the sign decides which way the text is read
    have hsign : ∀ ds, cs ≠ '-' :: ds := by
      rintro ds rfl
      exact h.head?_ne (c := '-') rfl rfl
    by_cases hall : AllDigits cs
    · rw [integerOf?_digits (List.all_eq_true.2 hall), hvalue hall, Option.some.injEq]
      exact ⟨fun hn => ⟨hplain.1 hall, by rw [← hn, Int.cast_natCast]⟩,
        fun hn => by exact_mod_cast hn.2⟩
    · have hnone : integerOf? cs = none := by
        unfold integerOf?
        split
        · exact absurd rfl (hsign _)
        · exact if_neg fun hds => hall (List.all_eq_true.1 hds)
      rw [hnone]
      exact iff_of_false nofun fun hn => hall (hplain.2 hn.1)
  · obtain ⟨hplain, hvalue⟩ := h.plain_iff
    have hcons : IsPlain ('-' :: ds) ↔ IsPlain ds := by simp [IsPlain]
    rw [hcons, ← hplain]
    by_cases hall : AllDigits ds
    · have hx : x = -(digitsValue ds : ℚ) := by rw [← hvalue hall, neg_neg]
      rw [integerOf?, if_pos (List.all_eq_true.2 hall), Option.some.injEq, hx]
      have hcast : ((-(digitsValue ds : ℤ) : ℤ) : ℚ) = -(digitsValue ds : ℚ) := by
        rw [Int.cast_neg, Int.cast_natCast]
      rw [← hcast, Int.cast_inj]
      exact ⟨fun hn => ⟨hall, hn⟩, fun hn => hn.2⟩
    · rw [integerOf?, if_neg fun hds => hall (List.all_eq_true.1 hds)]
      exact iff_of_false nofun fun hn => hall hn.1

/-! ## Limits -/

namespace Decimal

open Json

theorem digitsValue_cons (c : Char) (cs : List Char) :
    digitsValue (c :: cs) = (c.toNat - '0'.toNat) * 10 ^ cs.length + digitsValue cs := by
  rw [← List.singleton_append, digitsValue_append]
  congr 2
  exact Nat.zero_add _

theorem digitsValue_lt {ds : List Char} (h : AllDigits ds) : digitsValue ds < 10 ^ ds.length := by
  induction ds with
  | nil => exact Nat.one_pos
  | cons c ds ih =>
    have hlast := ih fun d hd => h d (List.mem_cons_of_mem _ hd)
    have hdigit : c.toNat - '0'.toNat ≤ 9 := by
      have hc := h c (List.mem_cons_self ..)
      simp only [Char.isDigit, Bool.and_eq_true, decide_eq_true_eq] at hc
      have hle : c.toNat ≤ 57 := hc.2
      have hzero : '0'.toNat = 48 := rfl
      omega
    have hle := Nat.mul_le_mul_right (10 ^ ds.length) hdigit
    rw [digitsValue_cons, List.length_cons, pow_succ]
    omega

/-- Zeros in front are worth nothing. -/
theorem digitsValue_dropZeros {ds : List Char} (h : AllDigits ds) :
    digitsValue (ds.dropWhile fun c => c = '+' || c = '-' || c = '0') = digitsValue ds := by
  induction ds with
  | nil => rfl
  | cons c ds ih =>
    have hds : AllDigits ds := fun d hd => h d (List.mem_cons_of_mem _ hd)
    have hc := h c (List.mem_cons_self ..)
    by_cases hzero : c = '0'
    · subst hzero
      rw [List.dropWhile_cons_of_pos rfl, ih hds, digitsValue_cons, Nat.sub_self, Nat.zero_mul,
        Nat.zero_add]
    · have hplus : c ≠ '+' := by
        rintro rfl
        cases hc
      have hminus : c ≠ '-' := by
        rintro rfl
        cases hc
      rw [List.dropWhile_cons_of_neg (by simp [hzero, hplus, hminus])]

/-- Behind digits, signs and points the mark of an exponent is found. -/
theorem exponentDigits_append {as bs : List Char} (h : ∀ c ∈ as, c ≠ 'e' ∧ c ≠ 'E') :
    exponentDigits (as ++ bs) = exponentDigits bs := by
  rw [exponentDigits, List.dropWhile_append_of_pos fun c hc => by simp [h c hc]]
  rfl

theorem exponentDigits_minus (cs : List Char) : exponentDigits ('-' :: cs) = exponentDigits cs :=
  rfl

/-- An exponent with few digits is small. -/
theorem power_lt {p : ℤ} {cs : List Char} {n : ℕ} (h : DenotesExponent p cs)
    (hlength : (exponentDigits cs).length ≤ n) : p < (10 ^ n : ℕ) := by
  have hpos : 0 < 10 ^ n := Nat.pow_pos (by omega)
  obtain ⟨-, rfl⟩ | ⟨mark, ps, rfl, hmark, hp⟩ := h
  · omega
  -- leading zeros and the sign do not count as digits
  have hdigits : exponentDigits (mark :: ps) =
      ps.dropWhile fun c => c = '+' || c = '-' || c = '0' := by
    rw [exponentDigits, List.dropWhile_cons_of_neg (by obtain rfl | rfl := hmark <;> decide)]
    rfl
  rw [hdigits] at hlength
  have hsmall {ds : List Char} (hds : AllDigits ds)
      (hlength : (ds.dropWhile fun c => c = '+' || c = '-' || c = '0').length ≤ n) :
      digitsValue ds < 10 ^ n := by
    have hall : AllDigits (ds.dropWhile fun c => c = '+' || c = '-' || c = '0') :=
      fun c hc => hds c ((List.dropWhile_sublist _).subset hc)
    rw [← digitsValue_dropZeros hds]
    exact (digitsValue_lt hall).trans_le (Nat.pow_le_pow_right (by omega) hlength)
  obtain ⟨hds, rfl⟩ | ⟨ds, hds, ⟨rfl, rfl⟩ | ⟨rfl, rfl⟩⟩ := hp
  · exact_mod_cast hsmall hds.2 hlength
  · rw [List.dropWhile_cons_of_pos rfl] at hlength
    exact_mod_cast hsmall hds.2 hlength
  · omega

/-- Nothing in front of the exponent is a mark. -/
theorem exponentDigits_parts {x : ℚ} {whole fraction exponent : List Char} (hwhole : IsWhole whole)
    (hfraction : DenotesFraction x fraction) :
    exponentDigits (whole ++ (fraction ++ exponent)) = exponentDigits exponent := by
  have hmark {ds : List Char} (hds : AllDigits ds) : ∀ c ∈ ds, c ≠ 'e' ∧ c ≠ 'E' := by
    intro c hc
    constructor <;> rintro rfl <;> exact absurd (hds _ hc) (by decide)
  have hfraction : ∀ c ∈ fraction, c ≠ 'e' ∧ c ≠ 'E' := by
    obtain ⟨rfl, -⟩ | ⟨ds, rfl, hds, -⟩ := hfraction
    · nofun
    · intro c hc
      obtain rfl | hc := List.mem_cons.1 hc
      · decide
      · exact hmark hds.2 c hc
  rw [exponentDigits_append (hmark hwhole.isDigits.2), exponentDigits_append hfraction]

/-- A short text without sign denotes no large number. -/
theorem unsigned_lt {x : ℚ} {cs : List Char} {m n : ℕ} (h : DenotesUnsigned x cs)
    (hlength : cs.length ≤ m) (hexponent : (exponentDigits cs).length ≤ n) :
    0 ≤ x ∧ x < 10 ^ (m + (10 ^ n - 1)) := by
  obtain ⟨whole, fraction, exponent, rfl, hwhole, y, p, hy, hp, rfl⟩ := h
  rw [exponentDigits_parts hwhole hy] at hexponent
  have hpower := power_lt hp hexponent
  -- a fraction is below one, so the whole part gives the size
  have hy' : 0 ≤ y ∧ y < 1 := by
    obtain ⟨-, rfl⟩ | ⟨ds, -, hds, rfl⟩ := hy
    · exact ⟨le_refl _, one_pos⟩
    · have hlt : (digitsValue ds : ℚ) < 10 ^ ds.length := by exact_mod_cast digitsValue_lt hds.2
      exact ⟨by positivity, (div_lt_one (by positivity)).2 hlt⟩
  have hlt : (digitsValue whole : ℚ) + 1 ≤ 10 ^ m := by
    rw [List.length_append] at hlength
    have hpow := Nat.pow_le_pow_right (show 0 < 10 by omega) (show whole.length ≤ m by omega)
    exact_mod_cast (digitsValue_lt hwhole.isDigits.2).trans_le hpow
  have hnonneg : (0 : ℚ) ≤ digitsValue whole + y := add_nonneg (Nat.cast_nonneg _) hy'.1
  have hten : (1 : ℚ) ≤ 10 := by norm_num
  have hscale : (10 : ℚ) ^ p ≤ 10 ^ (10 ^ n - 1) := by
    rw [← zpow_natCast]
    exact zpow_le_zpow_right₀ hten (by omega)
  refine ⟨mul_nonneg hnonneg (by positivity), ?_⟩
  calc (digitsValue whole + y) * 10 ^ p ≤ (digitsValue whole + y) * 10 ^ (10 ^ n - 1) := by gcongr
    _ < 10 ^ m * 10 ^ (10 ^ n - 1) := by
        gcongr
        linarith
    _ = 10 ^ (m + (10 ^ n - 1)) := (pow_add ..).symm

/-- A short text without sign and without exponent denotes no tiny number. -/
theorem le_unsigned {x : ℚ} {cs : List Char} {m : ℕ} (h : DenotesUnsigned x cs) (hx : x ≠ 0)
    (hlength : cs.length ≤ m + 2) (hexponent : 'e' ∉ cs ∧ 'E' ∉ cs) : 1 / 10 ^ m ≤ x := by
  obtain ⟨whole, fraction, exponent, rfl, hwhole, y, p, hy, hp, rfl⟩ := h
  -- without a mark, there is no power
  obtain rfl : p = 0 := by
    obtain ⟨-, rfl⟩ | ⟨mark, ps, rfl, hmark, -⟩ := hp
    · rfl
    · have hmem : mark ∈ whole ++ (fraction ++ mark :: ps) := by simp
      obtain rfl | rfl := hmark
      · exact absurd hmem hexponent.1
      · exact absurd hmem hexponent.2
  rw [zpow_zero, mul_one] at hx ⊢
  have hone {n : ℕ} (hn : (n : ℚ) ≠ 0) : (1 : ℚ) ≤ n := by
    exact_mod_cast Nat.one_le_iff_ne_zero.2 fun h => hn (by rw [h, Nat.cast_zero])
  obtain ⟨-, rfl⟩ | ⟨ds, rfl, hds, rfl⟩ := hy
  · rw [add_zero] at hx ⊢
    refine le_trans ?_ (hone hx)
    exact (div_le_one (by positivity)).2 (one_le_pow₀ (by norm_num))
  -- a digit of the whole part and the point leave at most `m` places
  · have hwhole' : 1 ≤ whole.length := List.length_pos_iff.2 hwhole.isDigits.1
    have hplaces : ds.length ≤ m := by
      simp only [List.length_append, List.length_cons] at hlength
      omega
    have hsum : (digitsValue whole : ℚ) + digitsValue ds / 10 ^ ds.length =
        (digitsValue (whole ++ ds) : ℕ) / 10 ^ ds.length := by
      rw [digitsValue_append]
      push_cast
      field_simp
    rw [hsum] at hx ⊢
    have hvalue := hone (div_ne_zero_iff.1 hx).1
    calc (1 : ℚ) / 10 ^ m ≤ 1 / 10 ^ ds.length := by gcongr; norm_num
      _ ≤ (digitsValue (whole ++ ds) : ℕ) / 10 ^ ds.length := by gcongr

end Decimal

/-- A text that keeps to the limits denotes no large number. -/
theorem Json.Denotes.abs_lt {x : ℚ} {cs : List Char} (h : Denotes x cs)
    (hk : isSupported cs = true) : |x| < 10 ^ 199 := by
  rw [isSupported, Bool.and_eq_true, decide_eq_true_eq, decide_eq_true_eq] at hk
  obtain ⟨hlength, hexponent⟩ := hk
  obtain h | ⟨ds, rfl, h⟩ := h
  · obtain ⟨hnonneg, hlt⟩ := Decimal.unsigned_lt h hlength hexponent
    rwa [abs_of_nonneg hnonneg]
  · rw [List.length_cons] at hlength
    rw [Decimal.exponentDigits_minus] at hexponent
    obtain ⟨hnonneg, hlt⟩ := Decimal.unsigned_lt h (m := 100) (by omega) hexponent
    rwa [← abs_neg, abs_of_nonneg hnonneg]

end JsonAdapters
