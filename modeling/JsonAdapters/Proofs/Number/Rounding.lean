import Mathlib.Algebra.Order.Field.Basic
import Mathlib.Algebra.Order.Ring.Rat
import Mathlib.Data.Nat.Log
import Mathlib.Order.Monotone.Basic
import Mathlib.Tactic.FieldSimp
import Mathlib.Tactic.Linarith
import Mathlib.Tactic.NormNum
import Mathlib.Tactic.Ring
import JsonAdapters.Number.Decimal

/-!
# Rounding to binary formats

The magnitudes of a format, counted in units of the smallest positive number, grow with their
patterns. A number rounds to the magnitude between whose neighbours' midpoints it lies; a midpoint
rounds to the even pattern. That is the magnitude that the quotient of two integers is given.

## Main definitions

* `Binary.Format.units`, `Binary.Format.toRat`: a magnitude, in units and as a number.
* `Binary.Format.midpoint`: the number half way to the next magnitude.
* `Binary.Format.Rounds`: the numbers that round to a magnitude.
* `Binary.Format.overflow`: the least number that is too large.

## Main statements

* `Binary.Format.Rounds.unique`: a number rounds to one magnitude.
* `Binary.Format.ofRatio_rounds`: quotients are rounded.
-/

namespace JsonAdapters.Binary

theorem twoPow_eq (n : ℕ) : twoPow n = 2 ^ n := rfl

namespace Format

variable {fmt : Format} {mag m : ℕ} {x y : ℚ}

/-- A format with a fraction and with more than one exponent, and no larger than `double`. -/
structure Proper (fmt : Format) : Prop where
  precision : 2 ≤ fmt.precision
  precision_le : fmt.precision ≤ 53
  exponentBits : 2 ≤ fmt.exponentBits
  exponentBits_le : fmt.exponentBits ≤ 11

/-- The format of `f32` is proper. -/
theorem single_proper : single.Proper := ⟨by decide, by decide, by decide, by decide⟩

/-- The format of `f64` is proper. -/
theorem double_proper : double.Proper := ⟨by decide, by decide, by decide, by decide⟩

/-! ## Magnitudes -/

/-- Patterns of one exponent field. -/
def fractions (fmt : Format) : ℕ := 2 ^ fmt.fractionBits

/-- The magnitude in units of the smallest positive number. -/
def units (fmt : Format) (mag : ℕ) : ℕ := fmt.significand mag * 2 ^ fmt.shift mag

/-- The number of a magnitude. -/
def toRat (fmt : Format) (mag : ℕ) : ℚ := fmt.units mag / 2 ^ fmt.unitExponent

theorem twoPow_fractionBits (fmt : Format) : twoPow fmt.fractionBits = fmt.fractions := rfl

/-- There is a fraction. -/
theorem fractions_pos (fmt : Format) : 0 < fmt.fractions := Nat.two_pow_pos _

/-- The leading bit of a significand doubles the number of fractions. -/
theorem Proper.two_pow_precision (h : fmt.Proper) : 2 ^ fmt.precision = 2 * fmt.fractions := by
  have hp : fmt.precision = fmt.fractionBits + 1 := by
    have := h.precision
    unfold fractionBits
    omega
  rw [hp, pow_succ, fractions, Nat.mul_comm]

/-- The number of fractions is even. -/
theorem Proper.fractions_even (h : fmt.Proper) : ∃ n, fmt.fractions = 2 * n := by
  have hp : fmt.fractionBits = fmt.fractionBits - 1 + 1 := by
    have := h.precision
    unfold fractionBits
    omega
  exact ⟨2 ^ (fmt.fractionBits - 1), by rw [fractions, hp, pow_succ, Nat.mul_comm]; rfl⟩

/-- Exponent field and fraction of a pattern. -/
theorem exponentField_eq {e r : ℕ} (hr : r < fmt.fractions) :
    fmt.exponentField (e * fmt.fractions + r) = e := by
  rw [exponentField, twoPow_fractionBits, Nat.mul_comm, Nat.mul_add_div (fractions_pos fmt),
    Nat.div_eq_of_lt hr, Nat.add_zero]

/-- The exponent field gives the shift, where 0 and 1 give the same. -/
theorem shift_eq {e r : ℕ} (hr : r < fmt.fractions) :
    fmt.shift (e * fmt.fractions + r) = e - 1 := by
  rw [shift, exponentField_eq hr]

/-- Magnitudes of the least exponent field have no hidden bit. -/
theorem significand_of_lt {r : ℕ} (hr : r < fmt.fractions) :
    fmt.significand r = r ∧ fmt.shift r = 0 := by
  have hfield : fmt.exponentField r = 0 := by
    have := exponentField_eq (e := 0) hr
    rwa [Nat.zero_mul, Nat.zero_add] at this
  rw [significand, shift, hfield, if_pos rfl]
  exact ⟨rfl, rfl⟩

/-- Normal numbers have a leading bit. -/
theorem significand_succ_field {e r : ℕ} (hr : r < fmt.fractions) :
    fmt.significand ((e + 1) * fmt.fractions + r) = fmt.fractions + r := by
  have hmod : ((e + 1) * fmt.fractions + r) % twoPow fmt.fractionBits = r := by
    rw [twoPow_fractionBits, Nat.mul_comm, Nat.mul_add_mod, Nat.mod_eq_of_lt hr]
  rw [significand, exponentField_eq hr, if_neg (Nat.succ_ne_zero e), hmod, Nat.add_comm r]
  rfl

/-- Subnormal numbers count units. -/
theorem units_of_lt {r : ℕ} (hr : r < fmt.fractions) : fmt.units r = r := by
  obtain ⟨hsignificand, hshift⟩ := significand_of_lt hr
  rw [units, hsignificand, hshift, pow_zero, Nat.mul_one]

/-- Normal numbers count units that double with the exponent. -/
theorem units_succ_field {e r : ℕ} (hr : r < fmt.fractions) :
    fmt.units ((e + 1) * fmt.fractions + r) = (fmt.fractions + r) * 2 ^ e := by
  rw [units, significand_succ_field hr, shift_eq hr, Nat.add_sub_cancel]

/-- A pattern is an exponent field and a fraction. -/
theorem exists_fields (fmt : Format) (mag : ℕ) :
    ∃ e r, r < fmt.fractions ∧ mag = e * fmt.fractions + r := by
  refine ⟨mag / fmt.fractions, mag % fmt.fractions, Nat.mod_lt _ (fractions_pos fmt), ?_⟩
  rw [Nat.mul_comm]
  exact (Nat.div_add_mod ..).symm

/-- A significand is no longer than the precision, and as even as its pattern. -/
theorem significand_spec (hp : fmt.Proper) (mag : ℕ) :
    fmt.significand mag < 2 * fmt.fractions ∧ fmt.significand mag % 2 = mag % 2 := by
  obtain ⟨e, r, hr, rfl⟩ := exists_fields fmt mag
  obtain ⟨n, hn⟩ := hp.fractions_even
  cases e with
  | zero =>
    rw [Nat.zero_mul, Nat.zero_add, (significand_of_lt hr).1]
    omega
  | succ e =>
    rw [significand_succ_field hr, hn, Nat.mul_left_comm (e + 1) 2 n]
    omega

/-- Significands are below 2^53. -/
theorem Proper.significand_lt (hp : fmt.Proper) (mag : ℕ) : fmt.significand mag < 2 ^ 53 := by
  refine (significand_spec hp mag).1.trans_le ?_
  rw [← hp.two_pow_precision]
  exact Nat.pow_le_pow_right (by omega) hp.precision_le

/-- Only the least significand of an exponent is closer to the magnitude below than to the one
above, unless it is the least exponent. -/
theorem shift_pred (fmt : Format) (mag : ℕ) :
    fmt.shift mag =
      if fmt.significand (mag + 1) = fmt.fractions ∧ 0 < fmt.shift (mag + 1)
      then fmt.shift (mag + 1) - 1 else fmt.shift (mag + 1) := by
  obtain ⟨e, r, hr, rfl⟩ := exists_fields fmt mag
  rw [shift_eq hr]
  by_cases hlast : r + 1 < fmt.fractions
  · rw [Nat.add_assoc, shift_eq hlast]
    cases e with
    | zero =>
      rw [if_neg (by omega)]
    | succ e =>
      rw [significand_succ_field hlast, if_neg (by omega)]
  · have hnext : e * fmt.fractions + r + 1 = (e + 1) * fmt.fractions + 0 := by
      rw [Nat.add_one_mul]
      omega
    rw [hnext, significand_succ_field (fractions_pos fmt), shift_eq (fractions_pos fmt)]
    split <;> omega

/-- The distance from one magnitude to the next. -/
theorem units_succ (fmt : Format) (mag : ℕ) :
    fmt.units (mag + 1) = fmt.units mag + 2 ^ fmt.shift mag := by
  obtain ⟨e, r, hr, rfl⟩ := exists_fields fmt mag
  rw [shift_eq hr]
  by_cases hlast : r + 1 < fmt.fractions
  · cases e with
    | zero => rw [Nat.zero_mul, Nat.zero_add, units_of_lt hr, units_of_lt hlast, pow_zero]
    | succ e =>
      rw [Nat.add_assoc, units_succ_field hr, units_succ_field hlast, Nat.add_sub_cancel]
      ring
  -- the last fraction of an exponent is followed by the first one of the next exponent
  · have hnext : e * fmt.fractions + r + 1 = (e + 1) * fmt.fractions + 0 := by
      rw [Nat.add_one_mul]
      omega
    rw [hnext, units_succ_field (fractions_pos fmt)]
    cases e with
    | zero =>
      rw [Nat.zero_mul, Nat.zero_add, units_of_lt hr, Nat.zero_sub, pow_zero]
      omega
    | succ e =>
      have hr' : fmt.fractions = r + 1 := by omega
      rw [units_succ_field hr, Nat.add_sub_cancel, hr']
      ring

/-- Greater patterns are greater numbers. -/
theorem units_strictMono (fmt : Format) : StrictMono fmt.units := by
  refine strictMono_nat_of_lt_succ fun mag => ?_
  rw [units_succ]
  exact Nat.lt_add_of_pos_right (Nat.two_pow_pos _)

/-! ## Midpoints -/

/-- Half way to the next magnitude. -/
def midpoint (fmt : Format) (mag : ℕ) : ℚ := fmt.units mag + 2 ^ fmt.shift mag / 2

/-- The midpoint is below the next number by half a step. -/
theorem midpoint_eq (fmt : Format) (mag : ℕ) :
    fmt.midpoint mag = fmt.units (mag + 1) - 2 ^ fmt.shift mag / 2 := by
  rw [midpoint, units_succ]
  push_cast
  ring

/-- Midpoints grow with their numbers. -/
theorem midpoint_strictMono (fmt : Format) : StrictMono fmt.midpoint := by
  refine strictMono_nat_of_lt_succ fun mag => ?_
  rw [midpoint_eq, midpoint]
  have h₁ : (0 : ℚ) < 2 ^ fmt.shift mag := by positivity
  have h₂ : (0 : ℚ) < 2 ^ fmt.shift (mag + 1) := by positivity
  linarith

/-- The number, in units, lies between the midpoints next to the magnitude, or at one of them if the
pattern is even. -/
structure Rounds (fmt : Format) (x : ℚ) (mag : ℕ) : Prop where
  below : ∀ m, mag = m + 1 → fmt.midpoint m < x ∨ (fmt.midpoint m = x ∧ mag % 2 = 0)
  above : x < fmt.midpoint mag ∨ (x = fmt.midpoint mag ∧ mag % 2 = 0)

/-- A number is not above the midpoint behind its nearest one. -/
theorem Rounds.le_midpoint (h : fmt.Rounds x mag) : x ≤ fmt.midpoint mag := by
  obtain h | h := h.above
  · exact h.le
  · exact h.1.le

/-- A number rounds to no larger magnitude. -/
theorem Rounds.le (h : fmt.Rounds x mag) (h' : fmt.Rounds x m) : m ≤ mag := by
  by_contra hlt
  obtain ⟨k, rfl⟩ : ∃ k, m = k + 1 := ⟨m - 1, by omega⟩
  have hmono : fmt.midpoint mag ≤ fmt.midpoint k :=
    (midpoint_strictMono fmt).monotone (by omega)
  obtain hbelow | ⟨hbelow, heven⟩ := h'.below k rfl
  · have := h.le_midpoint
    linarith
  -- at a midpoint the two patterns are neighbours, and only one of them is even
  · obtain habove | ⟨habove, heven'⟩ := h.above
    · linarith
    · obtain rfl : mag = k := (midpoint_strictMono fmt).injective (by linarith)
      omega

/-- There is one nearest number, ties being broken to the even one. -/
theorem Rounds.unique (h : fmt.Rounds x mag) (h' : fmt.Rounds x m) : mag = m :=
  le_antisymm (h'.le h) (h.le h')

/-- What rounds to a positive magnitude is of its size. -/
theorem Rounds.size (h : fmt.Rounds x mag) (hpos : mag ≠ 0) :
    (fmt.units mag : ℚ) ≤ x * 2 ∧ x ≤ fmt.units mag * 2 := by
  obtain ⟨m, rfl⟩ : ∃ m, mag = m + 1 := ⟨mag - 1, by omega⟩
  have hgap (k : ℕ) : (2 : ℚ) ^ fmt.shift k ≤ fmt.units (k + 1) := by
    rw [units_succ]
    exact_mod_cast Nat.le_add_left ..
  refine ⟨?_, ?_⟩
  · have hmid := midpoint_eq fmt m
    have hle := hgap m
    obtain hbelow | ⟨hbelow, -⟩ := h.below m rfl
    · linarith
    · linarith
  · have hsignificand : 0 < fmt.significand (m + 1) :=
      Nat.pos_of_mul_pos_right (Nat.zero_lt_of_lt (units_strictMono fmt m.succ_pos))
    have hle : (2 : ℚ) ^ fmt.shift (m + 1) ≤ fmt.units (m + 1) := by
      rw [units]
      exact_mod_cast Nat.le_mul_of_pos_left _ hsignificand
    have hmid := h.le_midpoint
    rw [midpoint] at hmid
    linarith

/-! ## Patterns -/

/-- Magnitudes up to infinity leave room for the sign. -/
theorem infinity_lt_signBit (fmt : Format) : fmt.infinity < fmt.signBit := by
  have hsign : fmt.signBit = 2 ^ fmt.exponentBits * fmt.fractions := pow_add ..
  have hpos : 0 < 2 ^ fmt.exponentBits := Nat.two_pow_pos _
  rw [hsign]
  exact Nat.mul_lt_mul_of_pos_right (Nat.sub_lt hpos Nat.one_pos) (fractions_pos fmt)

/-- A magnitude with a sign is a pattern of both. -/
theorem withSign_spec (hmag : mag ≤ fmt.infinity) (negative : Bool) :
    fmt.withSign negative mag < 2 * fmt.signBit ∧
      fmt.magnitude (fmt.withSign negative mag) = mag ∧
      fmt.isNegative (fmt.withSign negative mag) = negative := by
  have hlt : mag < fmt.signBit := hmag.trans_lt (infinity_lt_signBit fmt)
  rw [withSign, magnitude, isNegative]
  cases negative with
  | true =>
    rw [if_pos rfl, Nat.add_mod_right, Nat.mod_eq_of_lt hlt]
    exact ⟨by omega, rfl, decide_eq_true (by omega)⟩
  | false =>
    rw [if_neg (by decide), Nat.mod_eq_of_lt hlt]
    exact ⟨by omega, rfl, decide_eq_false (by omega)⟩

/-! ## Overflow -/

/-- The least number that is too large for the format. -/
def overflow (fmt : Format) : ℚ := fmt.midpoint (fmt.infinity - 1) / 2 ^ fmt.unitExponent

/-- Infinity is an even pattern, so that the midpoint below it rounds to it. -/
theorem Proper.infinity_even (hp : fmt.Proper) : 0 < fmt.infinity ∧ fmt.infinity % 2 = 0 := by
  obtain ⟨n, hn⟩ := hp.fractions_even
  have hpos := fractions_pos fmt
  have hfields : 2 ^ 2 ≤ 2 ^ fmt.exponentBits := Nat.pow_le_pow_right (by omega) hp.exponentBits
  have hinfinity : fmt.infinity = (2 ^ fmt.exponentBits - 1) * fmt.fractions := rfl
  refine ⟨hinfinity ▸ Nat.mul_pos (by omega) hpos, ?_⟩
  rw [hinfinity, hn, Nat.mul_left_comm]
  omega

/-- Numbers round to finite magnitudes up to the overflow. -/
theorem Rounds.lt_infinity_iff (hp : fmt.Proper) (h : fmt.Rounds (x * 2 ^ fmt.unitExponent) mag) :
    mag < fmt.infinity ↔ x < fmt.overflow := by
  obtain ⟨hpos, heven⟩ := hp.infinity_even
  have hscale : (0 : ℚ) < 2 ^ fmt.unitExponent := by positivity
  rw [overflow, lt_div_iff₀ hscale]
  constructor
  · intro hlt
    have hmono := (midpoint_strictMono fmt).monotone (show mag ≤ fmt.infinity - 1 by omega)
    obtain habove | ⟨habove, hmag⟩ := h.above
    · exact habove.trans_le hmono
    -- the midpoint itself belongs to an even pattern, and the last finite one is odd
    · have hlast : mag < fmt.infinity - 1 := by omega
      exact habove ▸ midpoint_strictMono fmt hlast
  · intro hlt
    by_contra hle
    obtain ⟨m, rfl⟩ : ∃ m, mag = m + 1 := ⟨mag - 1, by omega⟩
    have hmono := (midpoint_strictMono fmt).monotone (show fmt.infinity - 1 ≤ m by omega)
    obtain hbelow | ⟨hbelow, -⟩ := h.below m rfl
    · linarith
    · linarith

/-- The midpoint below infinity. -/
theorem midpoint_last {k : ℕ} (hk : 2 ^ fmt.exponentBits = k + 4) :
    fmt.midpoint (fmt.infinity - 1) = (4 * fmt.fractions - 1) * 2 ^ k := by
  have hpos := fractions_pos fmt
  have hlast : fmt.infinity - 1 = (k + 1 + 1) * fmt.fractions + (fmt.fractions - 1) := by
    have hinfinity : fmt.infinity = (k + 3) * fmt.fractions := by
      rw [infinity, twoPow_eq, hk]
      rfl
    rw [hinfinity, Nat.add_mul, Nat.add_mul (k + 1), Nat.add_mul k]
    omega
  have hlt : fmt.fractions - 1 < fmt.fractions := by omega
  rw [midpoint, hlast, units_succ_field hlt, shift_eq hlt, Nat.add_sub_cancel]
  push_cast [Nat.cast_sub (show 1 ≤ fmt.fractions from hpos)]
  ring

/-- From this number of units on, an `f32` is infinite. -/
theorem single_overflow : single.overflow = (2 ^ 25 - 1) * 2 ^ 103 := by
  have hmid := midpoint_last (show 2 ^ single.exponentBits = 252 + 4 from rfl)
  have hunit : single.unitExponent = 149 := rfl
  have hfractions : single.fractions = 2 ^ 23 := rfl
  rw [overflow, hmid, hunit, hfractions]
  norm_num

/-- From this number of units on, an `f64` is infinite. -/
theorem double_overflow : double.overflow = (2 ^ 54 - 1) * 2 ^ 970 := by
  have hmid := midpoint_last (show 2 ^ double.exponentBits = 970 + 1074 + 4 from rfl)
  have hunit : double.unitExponent = 1074 := rfl
  have hfractions : double.fractions = 2 ^ 52 := rfl
  rw [overflow, hmid, hunit, hfractions, pow_add, ← mul_assoc,
    mul_div_cancel_right₀ _ (by positivity)]
  norm_num

/-- Finite magnitudes are below the overflow. -/
theorem toRat_lt_overflow (hmag : mag < fmt.infinity) : fmt.toRat mag < fmt.overflow := by
  have hgap : (0 : ℚ) < 2 ^ fmt.shift mag / 2 := by positivity
  have hmono := (midpoint_strictMono fmt).monotone (show mag ≤ fmt.infinity - 1 by omega)
  have hlt : (fmt.units mag : ℚ) < fmt.midpoint (fmt.infinity - 1) := by
    refine lt_of_lt_of_le ?_ hmono
    rw [midpoint]
    linarith
  rw [toRat, overflow]
  gcongr

/-- Positive magnitudes are one unit at least. -/
theorem le_toRat (hpos : mag ≠ 0) : 1 / 2 ^ fmt.unitExponent ≤ fmt.toRat mag := by
  have hmono := units_strictMono fmt (Nat.pos_of_ne_zero hpos)
  have hunit : (1 : ℚ) ≤ fmt.units mag := by exact_mod_cast Nat.one_le_of_lt hmono
  rw [toRat]
  gcongr

/-- A magnitude with a large exponent field is a large number. -/
theorem le_toRat_of_field {k : ℕ} (h : (k + fmt.unitExponent + 1) * fmt.fractions ≤ mag) :
    fmt.fractions * 2 ^ k ≤ fmt.toRat mag := by
  have hunits := units_succ_field (e := k + fmt.unitExponent) (fractions_pos fmt)
  have hmono := (units_strictMono fmt).monotone h
  rw [Nat.add_zero, Nat.add_zero] at hunits
  rw [hunits, pow_add, ← Nat.mul_assoc] at hmono
  rw [toRat, le_div_iff₀ (by positivity)]
  exact_mod_cast hmono

/-! ## Quotients -/

/-- A quotient is rounded to the integer between whose neighbours' midpoints it lies. -/
theorem roundHalfEven_nearest (num : ℕ) {den : ℕ} (hden : 0 < den) :
    (2 * num < (2 * roundHalfEven num den + 1) * den ∨
      2 * num = (2 * roundHalfEven num den + 1) * den ∧ roundHalfEven num den % 2 = 0) ∧
    (2 * roundHalfEven num den * den < 2 * num + den ∨
      2 * roundHalfEven num den * den = 2 * num + den ∧ roundHalfEven num den % 2 = 0) := by
  have hnum : den * (num / den) + num % den = num := Nat.div_add_mod num den
  have hlt : num % den < den := Nat.mod_lt _ hden
  unfold roundHalfEven
  generalize num / den = q at hnum ⊢
  generalize num % den = r at hnum hlt ⊢
  subst hnum
  dsimp only
  split
  · next h => exact ⟨.inl (by linarith), .inl (by linarith)⟩
  split
  · next h => exact ⟨.inl (by linarith), .inl (by linarith)⟩
  -- a tie goes to the even one of the two integers
  · next h h' =>
    have hr : den = 2 * r := by omega
    obtain hq | hq : q % 2 = 0 ∨ q % 2 = 1 := by omega
    · rw [hq]
      exact ⟨.inr ⟨by rw [hr]; ring, hq⟩, .inl (by linarith)⟩
    · rw [hq]
      exact ⟨.inl (by linarith), .inr ⟨by rw [hr]; ring, by omega⟩⟩

/-- The magnitude of an exponent and a significand that may be one too large for the exponent. -/
theorem units_scaled {k q : ℕ} (hq : q ≤ 2 * fmt.fractions) (hk : k = 0 ∨ fmt.fractions ≤ q) :
    fmt.units (k * fmt.fractions + q) = q * 2 ^ k ∧
      fmt.shift (k * fmt.fractions + q) = if q < 2 * fmt.fractions then k else k + 1 := by
  have hpos := fractions_pos fmt
  by_cases hlow : q < fmt.fractions
  · obtain rfl : k = 0 := hk.resolve_right (by omega)
    rw [shift_eq hlow, Nat.zero_mul, Nat.zero_add, units_of_lt hlow, if_pos (by omega), pow_zero]
    exact ⟨(Nat.mul_one q).symm, rfl⟩
  by_cases hhigh : q < 2 * fmt.fractions
  · obtain ⟨r, rfl⟩ : ∃ r, q = fmt.fractions + r := ⟨q - fmt.fractions, by omega⟩
    have hr : r < fmt.fractions := by omega
    have hfields : k * fmt.fractions + (fmt.fractions + r) = (k + 1) * fmt.fractions + r := by
      rw [Nat.add_one_mul, Nat.add_assoc]
    rw [hfields, units_succ_field hr, shift_eq hr, if_pos hhigh]
    exact ⟨rfl, rfl⟩
  · obtain rfl : q = 2 * fmt.fractions := by omega
    have hfields : k * fmt.fractions + 2 * fmt.fractions = (k + 1 + 1) * fmt.fractions + 0 := by
      ring
    rw [hfields, units_succ_field hpos, shift_eq hpos, if_neg hhigh]
    exact ⟨by ring, rfl⟩

/-- A number rounds to the significand nearest to it among those of its exponent. -/
theorem rounds_of_nearest (hp : fmt.Proper) {k q : ℕ} (hq : q ≤ 2 * fmt.fractions)
    (hk : k = 0 ∨ (fmt.fractions ≤ q ∧ (fmt.fractions : ℚ) * 2 ^ k ≤ x))
    (habove : x < (q + 1 / 2) * 2 ^ k ∨ (x = (q + 1 / 2) * 2 ^ k ∧ q % 2 = 0))
    (hbelow : (q - 1 / 2) * 2 ^ k < x ∨ ((q - 1 / 2) * 2 ^ k = x ∧ q % 2 = 0)) :
    fmt.Rounds x (k * fmt.fractions + q) := by
  have hk' : k = 0 ∨ fmt.fractions ≤ q := hk.imp_right And.left
  obtain ⟨hunits, hshift⟩ := units_scaled hq hk'
  have hpos := fractions_pos fmt
  have hscale : (0 : ℚ) < 2 ^ k := by positivity
  have heven (h : q % 2 = 0) : (k * fmt.fractions + q) % 2 = 0 := by
    obtain ⟨n, hn⟩ := hp.fractions_even
    rw [hn, Nat.mul_left_comm]
    omega
  refine ⟨fun m hm => ?_, ?_⟩
  · rw [midpoint_eq, ← hm, hunits]
    push_cast
    by_cases hlast : m < k * fmt.fractions + fmt.fractions ∧ k ≠ 0
    -- below the least significand of an exponent the magnitudes are closer
    · obtain ⟨hlow, hk₀⟩ := hlast
      obtain ⟨hle, hx⟩ := hk.resolve_left hk₀
      obtain rfl : q = fmt.fractions := by omega
      have hhalf : (0 : ℚ) < 2 ^ fmt.shift m / 2 := by positivity
      exact .inl (by linarith)
    · have hgap : fmt.shift m = k := by
        have hq' : 1 ≤ q := by
          obtain rfl | hle := hk'
          · omega
          · omega
        obtain rfl : m = k * fmt.fractions + (q - 1) := by omega
        exact (units_scaled (by omega) (by omega)).2.trans (if_pos (by omega))
      have hmid : (q : ℚ) * 2 ^ k - 2 ^ k / 2 = (q - 1 / 2) * 2 ^ k := by ring
      rw [hgap, hmid]
      exact hbelow.imp_right (And.imp_right heven)
  · rw [midpoint, hunits]
    push_cast
    by_cases hfull : q < 2 * fmt.fractions
    · have hmid : (q : ℚ) * 2 ^ k + 2 ^ k / 2 = (q + 1 / 2) * 2 ^ k := by ring
      rw [hshift, if_pos hfull, hmid]
      exact habove.imp_right (And.imp_right heven)
    · have hgap : (2 : ℚ) ^ (k + 1) / 2 = 2 ^ k := by
        rw [pow_succ]
        ring
      rw [hshift, if_neg hfull, hgap]
      have hx : x ≤ (q + 1 / 2) * 2 ^ k := by
        obtain h | h := habove
        · exact h.le
        · exact h.1.le
      exact .inl (by linarith)

/-- A number is below the power of its length. -/
theorem lt_two_pow_bitLength (n : ℕ) : n < 2 ^ bitLength n := by
  unfold bitLength
  split
  · next h => rw [h]; exact Nat.one_pos
  · exact Nat.lt_log2_self

/-- A number has its highest bit. -/
theorem two_pow_le_of_bitLength {n k : ℕ} (h : bitLength n = k + 1) : 2 ^ k ≤ n := by
  unfold bitLength at h
  split at h
  · cases h
  · next hn =>
    cases h
    exact Nat.log2_self_le hn

/-- A number below a power is no longer than it. -/
theorem bitLength_le_of_lt {n k : ℕ} (h : n < 2 ^ k) : bitLength n ≤ k := by
  by_contra hlt
  obtain ⟨j, hj⟩ : ∃ j, bitLength n = j + 1 := ⟨bitLength n - 1, by omega⟩
  have hle : 2 ^ k ≤ 2 ^ j := Nat.pow_le_pow_right (by omega) (by omega)
  have := two_pow_le_of_bitLength hj
  omega

/-- What is kept of a quotient are as many bits as the format has, or all of them. -/
theorem scaled_bounds (hp : fmt.Proper) (num : ℕ) {den : ℕ} (hden : 0 < den) :
    let k := bitLength (num / den) - fmt.precision
    num < 2 * fmt.fractions * (den * 2 ^ k) ∧ (k = 0 ∨ fmt.fractions * (den * 2 ^ k) ≤ num) := by
  intro k
  have hprecision := hp.two_pow_precision
  have hlow : num / den * den ≤ num := Nat.div_mul_le_self ..
  have hhigh : num < (num / den + 1) * den := by
    rw [Nat.mul_comm]
    exact Nat.lt_mul_div_succ num hden
  refine ⟨?_, ?_⟩
  · have hbits : num / den + 1 ≤ 2 ^ (fmt.precision + k) :=
      (lt_two_pow_bitLength _).trans_le (Nat.pow_le_pow_right (by omega) (by omega))
    have hle := Nat.mul_le_mul_right den hbits
    rw [pow_add, hprecision] at hle
    calc num < 2 * fmt.fractions * 2 ^ k * den := hhigh.trans_le hle
      _ = 2 * fmt.fractions * (den * 2 ^ k) := by ring
  -- without a shift the quotient may be small; with one, it has all bits of a significand
  · by_cases hk : k = 0
    · exact .inl hk
    · have hbits : bitLength (num / den) = fmt.precision + (k - 1) + 1 := by omega
      have hle := Nat.mul_le_mul_right den (two_pow_le_of_bitLength hbits)
      have hscale : 2 ^ (fmt.precision + (k - 1)) = fmt.fractions * 2 ^ k := by
        obtain ⟨j, hj⟩ : ∃ j, k = j + 1 := ⟨k - 1, by omega⟩
        rw [pow_add, hprecision, hj, Nat.add_sub_cancel, pow_succ]
        ring
      rw [hscale] at hle
      refine .inr ?_
      calc fmt.fractions * (den * 2 ^ k) = fmt.fractions * 2 ^ k * den := by ring
        _ ≤ num := hle.trans hlow

/-- A quotient is given the magnitude to which it rounds, or infinity if that is too large. -/
theorem ofRatio_rounds (hp : fmt.Proper) (num : ℕ) {den : ℕ} (hden : 0 < den) :
    ∃ mag, fmt.Rounds ((num : ℚ) / den * 2 ^ fmt.unitExponent) mag ∧
      fmt.ofRatio num den = min fmt.infinity mag := by
  let scaled := num * 2 ^ fmt.unitExponent
  let k := bitLength (scaled / den) - fmt.precision
  let q := roundHalfEven scaled (den * 2 ^ k)
  refine ⟨k * fmt.fractions + q, ?_, rfl⟩
  -- all comparisons are made over the common denominator
  have hscale : 0 < den * 2 ^ k := Nat.mul_pos hden (Nat.two_pow_pos k)
  obtain ⟨hhigh, hlow⟩ := scaled_bounds hp scaled hden
  obtain ⟨habove, hbelow⟩ := roundHalfEven_nearest scaled hscale
  change 2 * scaled < (2 * q + 1) * (den * 2 ^ k) ∨ 2 * scaled = (2 * q + 1) * (den * 2 ^ k) ∧ _
    at habove
  change 2 * q * (den * 2 ^ k) < 2 * scaled + den * 2 ^ k ∨
    2 * q * (den * 2 ^ k) = 2 * scaled + den * 2 ^ k ∧ _ at hbelow
  have hq : q ≤ 2 * fmt.fractions := by
    have hle : 2 * q * (den * 2 ^ k) < (4 * fmt.fractions + 1) * (den * 2 ^ k) := by
      have : 2 * q * (den * 2 ^ k) ≤ 2 * scaled + den * 2 ^ k := by omega
      linarith
    have := Nat.lt_of_mul_lt_mul_right hle
    omega
  -- from here on, the bounds are carried over to the rationals
  have hden' : (0 : ℚ) < den := by exact_mod_cast hden
  have hx : (num : ℚ) / den * 2 ^ fmt.unitExponent = scaled / den := by
    simp only [scaled]
    push_cast
    ring
  rw [hx]
  refine rounds_of_nearest hp hq (hlow.imp_right fun hlow => ⟨?_, ?_⟩) ?_ ?_
  · have hle : 2 * fmt.fractions * (den * 2 ^ k) ≤ (2 * q + 1) * (den * 2 ^ k) := by
      have : 2 * scaled ≤ (2 * q + 1) * (den * 2 ^ k) := by omega
      linarith
    have := Nat.le_of_mul_le_mul_right hle hscale
    omega
  · rw [le_div_iff₀ hden']
    calc (fmt.fractions : ℚ) * 2 ^ k * den = fmt.fractions * (den * 2 ^ k) := by ring
      _ ≤ scaled := by exact_mod_cast hlow
  · rw [div_lt_iff₀ hden', div_eq_iff hden'.ne']
    refine habove.imp (fun h => ?_) fun ⟨h, heven⟩ => ⟨?_, heven⟩
    · have h' : (2 * scaled : ℚ) < (2 * q + 1) * (den * 2 ^ k) := by exact_mod_cast h
      linarith
    · have h' : (2 * scaled : ℚ) = (2 * q + 1) * (den * 2 ^ k) := by exact_mod_cast h
      linarith
  · rw [lt_div_iff₀ hden', eq_div_iff hden'.ne']
    refine hbelow.imp (fun h => ?_) fun ⟨h, heven⟩ => ⟨?_, heven⟩
    · have h' : (2 * q * (den * 2 ^ k) : ℚ) < 2 * scaled + den * 2 ^ k := by exact_mod_cast h
      linarith
    · have h' : (2 * q * (den * 2 ^ k) : ℚ) = 2 * scaled + den * 2 ^ k := by exact_mod_cast h
      linarith

end Format

end JsonAdapters.Binary
