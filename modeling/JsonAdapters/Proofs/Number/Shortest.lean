import Mathlib.Tactic.NormNum
import JsonAdapters.Proofs.Number.Denoting
import JsonAdapters.Proofs.Number.Rounding

/-!
# Shortest decimals

The decimal that is found for a magnitude rounds to the magnitude. The power of ten above the
magnitude is estimated from its binary logarithm, and eighteen digits below that power there is a
decimal in the interval of any magnitude of 53 bits.

## Main definitions

* `Decimal.Target.Admits`: the numbers of an interval.

## Main statements

* `Decimal.Target.magnitude_spec`: the power of ten above a number.
* `Decimal.shortest_rounds`: the decimal that is found rounds to the magnitude.
-/

namespace JsonAdapters

open Binary (Format twoPow twoPow_eq)

/-! ## Powers of two and ten -/

section Powers

/-! The quotient `p / n` approximates the decimal logarithm of two from above. -/

variable {p n a : ℕ} {b s : ℤ}

/-- Powers of two against powers of ten, as long as the error of the logarithm is small. -/
theorem two_pow_ten_pow (hlow : 2 ^ n ≤ 10 ^ p) (hhigh : 10 ^ p ≤ 2 ^ (n + 1)) (ha : a ≤ 3 * n) :
    2 ^ (n * a) ≤ 10 ^ (p * a) * 10 ^ n ∧ 10 ^ (p * a) ≤ 2 ^ (n * a) * 10 ^ n := by
  have hsmall : 2 ^ a ≤ 10 ^ n := by
    calc 2 ^ a ≤ 2 ^ (3 * n) := Nat.pow_le_pow_right (by omega) ha
      _ = 8 ^ n := pow_mul ..
      _ ≤ 10 ^ n := Nat.pow_le_pow_left (by omega) n
  refine ⟨?_, ?_⟩
  · calc 2 ^ (n * a) = (2 ^ n) ^ a := pow_mul ..
      _ ≤ (10 ^ p) ^ a := Nat.pow_le_pow_left hlow a
      _ = 10 ^ (p * a) := (pow_mul ..).symm
      _ ≤ 10 ^ (p * a) * 10 ^ n := Nat.le_mul_of_pos_right _ (Nat.pow_pos (by omega))
  · calc 10 ^ (p * a) = (10 ^ p) ^ a := pow_mul ..
      _ ≤ (2 ^ (n + 1)) ^ a := Nat.pow_le_pow_left hhigh a
      _ = 2 ^ (n * a) * 2 ^ a := by rw [← pow_mul, Nat.add_one_mul, pow_add]
      _ ≤ 2 ^ (n * a) * 10 ^ n := Nat.mul_le_mul_left _ hsmall

/-- The powers of ten around a power of two whose logarithm is estimated as `s`. -/
theorem ten_zpow_estimate (hn : n ≠ 0) (hlow : 2 ^ n ≤ 10 ^ p) (hhigh : 10 ^ p ≤ 2 ^ (n + 1))
    (hb : b.natAbs ≤ 3 * n) (hs : n * s ≤ b * p) (hs' : b * p < n * s + n) :
    (10 : ℚ) ^ (s - 1) ≤ 2 ^ b ∧ (2 : ℚ) ^ b ≤ 10 ^ (s + 2) := by
  -- both sides are compared after raising them to the power `n`
  obtain ⟨h₁, h₂⟩ := two_pow_ten_pow hlow hhigh hb
  have hroot {x y : ℚ} (hx : 0 ≤ x) (hy : 0 ≤ y) (h : x ^ n ≤ y ^ n) : x ≤ y :=
    (pow_le_pow_iff_left₀ hx hy hn).1 h
  have hten : (1 : ℚ) ≤ 10 := by norm_num
  have hne : (10 : ℚ) ≠ 0 := by norm_num
  have htwo : (2 : ℚ) ≠ 0 := by norm_num
  have hmain : (10 : ℚ) ^ (b * p) ≤ 2 ^ (b * n) * 10 ^ (n : ℤ) ∧
      (2 : ℚ) ^ (b * n) ≤ 10 ^ (b * p) * 10 ^ (n : ℤ) := by
    have h₁' : (2 : ℚ) ^ (n * b.natAbs) ≤ 10 ^ (p * b.natAbs) * 10 ^ n := by exact_mod_cast h₁
    have h₂' : (10 : ℚ) ^ (p * b.natAbs) ≤ 2 ^ (n * b.natAbs) * 10 ^ n := by exact_mod_cast h₂
    have hpow (base : ℚ) (k : ℕ) : base ^ ((b.natAbs : ℤ) * k) = base ^ (k * b.natAbs) := by
      rw [← Nat.cast_mul, zpow_natCast, Nat.mul_comm]
    obtain hb | hb := b.natAbs_eq
    · rw [hb, hpow, hpow, zpow_natCast]
      exact ⟨h₂', h₁'⟩
    -- a negative power turns the comparison around
    · rw [hb, neg_mul, neg_mul, zpow_neg, zpow_neg, hpow, hpow, zpow_natCast]
      have hx : (0 : ℚ) < 10 ^ (p * b.natAbs) := by positivity
      have hy : (0 : ℚ) < 2 ^ (n * b.natAbs) := by positivity
      refine ⟨?_, ?_⟩
      · rw [inv_le_comm₀ hx (by positivity), mul_inv, inv_inv]
        exact (mul_inv_le_iff₀ (by positivity)).2 h₁'
      · rw [inv_le_comm₀ hy (by positivity), mul_inv, inv_inv]
        exact (mul_inv_le_iff₀ (by positivity)).2 h₂'
  refine ⟨hroot (by positivity) (by positivity) ?_, hroot (by positivity) (by positivity) ?_⟩
  · rw [← zpow_natCast, ← zpow_natCast, ← zpow_mul, ← zpow_mul]
    calc (10 : ℚ) ^ ((s - 1) * n) ≤ 10 ^ (b * p - n) := zpow_le_zpow_right₀ hten (by linarith)
      _ = 10 ^ (b * p) / 10 ^ (n : ℤ) := zpow_sub₀ hne _ _
      _ ≤ 2 ^ (b * n) := (div_le_iff₀ (by positivity)).2 hmain.1
  · rw [← zpow_natCast, ← zpow_natCast, ← zpow_mul, ← zpow_mul]
    calc (2 : ℚ) ^ (b * n) ≤ 10 ^ (b * p) * 10 ^ (n : ℤ) := hmain.2
      _ = 10 ^ (b * p + n) := (zpow_add₀ hne _ _).symm
      _ ≤ 10 ^ ((s + 2) * n) := zpow_le_zpow_right₀ hten (by linarith)

/-- Five decimals of the logarithm. -/
theorem two_pow_ten_pow_decimals : 2 ^ 100000 ≤ 10 ^ 30103 ∧ 10 ^ 30103 ≤ 2 ^ (100000 + 1) := by
  decide +kernel

end Powers

namespace Decimal

theorem tenPow_pos (n : ℕ) : 0 < tenPow n := Nat.pow_pos (by omega)

theorem cast_tenPow (n : ℕ) : (tenPow n : ℚ) = 10 ^ n := Nat.cast_pow 10 n

theorem ten_zpow_of_nonneg {e : ℤ} (h : 0 ≤ e) : (10 : ℚ) ^ e = tenPow e.toNat := by
  obtain ⟨n, rfl⟩ := Int.eq_ofNat_of_zero_le h
  have htoNat : (n : ℤ).toNat = n := Int.toNat_natCast n
  rw [htoNat, zpow_natCast, cast_tenPow]

/-- Powers of ten with a negative exponent are fractions. -/
theorem ten_zpow_of_neg {e : ℤ} (h : ¬0 ≤ e) : (10 : ℚ) ^ e = (tenPow (-e).toNat : ℚ)⁻¹ := by
  rw [← ten_zpow_of_nonneg (by omega), zpow_neg, inv_inv]

namespace Target

variable {t : Target} {x : ℚ} {e top : ℤ} {c fuel digits : ℕ}

/-! ## Intervals -/

/-- The number. -/
def toRat (t : Target) : ℚ := t.value / t.den

/-- The number lies in the interval. -/
structure Admits (t : Target) (x : ℚ) : Prop where
  lower : (t.lower : ℚ) / t.den < x ∨ ((t.lower : ℚ) / t.den = x ∧ t.closed = true)
  upper : x < (t.upper : ℚ) / t.den ∨ (x = (t.upper : ℚ) / t.den ∧ t.closed = true)

theorem contains_iff {num den : ℕ} (ht : 0 < t.den) (hden : 0 < den) :
    t.contains num den = true ↔ t.Admits (num / den) := by
  have ht' : (0 : ℚ) < t.den := by exact_mod_cast ht
  have hden' : (0 : ℚ) < den := by exact_mod_cast hden
  -- the comparisons cross-multiply, so that no division is left
  have hlower : (t.lower : ℚ) / t.den < num / den ↔ t.lower * den < num * t.den := by
    rw [div_lt_div_iff₀ ht' hden']
    exact_mod_cast Iff.rfl
  have hlower' : (t.lower : ℚ) / t.den = num / den ↔ t.lower * den = num * t.den := by
    rw [div_eq_div_iff ht'.ne' hden'.ne']
    exact_mod_cast Iff.rfl
  have hupper : (num : ℚ) / den < t.upper / t.den ↔ num * t.den < t.upper * den := by
    rw [div_lt_div_iff₀ hden' ht']
    exact_mod_cast Iff.rfl
  have hupper' : (num : ℚ) / den = t.upper / t.den ↔ num * t.den = t.upper * den := by
    rw [div_eq_div_iff hden'.ne' ht'.ne']
    exact_mod_cast Iff.rfl
  -- the bounds themselves are admitted only where the target is closed
  rw [contains]
  constructor
  · intro h
    refine ⟨?_, ?_⟩
    · rw [hlower, hlower']
      split at h
      · next hc =>
        simp only [Bool.and_eq_true, decide_eq_true_eq] at h
        exact h.1.lt_or_eq.imp_right fun h => ⟨h, hc⟩
      · simp only [Bool.and_eq_true, decide_eq_true_eq] at h
        exact .inl h.1
    · rw [hupper, hupper']
      split at h
      · next hc =>
        simp only [Bool.and_eq_true, decide_eq_true_eq] at h
        exact h.2.lt_or_eq.imp_right fun h => ⟨h, hc⟩
      · simp only [Bool.and_eq_true, decide_eq_true_eq] at h
        exact .inl h.2
  · rintro ⟨hl, hu⟩
    rw [hlower, hlower'] at hl
    rw [hupper, hupper'] at hu
    split
    · simp only [Bool.and_eq_true, decide_eq_true_eq]
      omega
    · next hc =>
      simp only [Bool.and_eq_true, decide_eq_true_eq]
      exact ⟨hl.resolve_right fun h => hc h.2, hu.resolve_right fun h => hc h.2⟩

/-! ## Decimals of one exponent -/

/-- The neighbours of the number among the multiples of a power of ten, and which of them is taken:
those that lie in the interval are kept, and of two the closer one. -/
theorem onGrid_eq (ht : 0 < t.den) (e : ℤ) : ∃ (num den : ℕ) (fits : ℕ → Bool), 0 < den ∧
    (num : ℚ) / den = t.toRat / 10 ^ e ∧ (∀ c, fits c = true ↔ t.Admits (Decimal.toRat ⟨c, e⟩)) ∧
    t.onGrid e =
      if (fits (num / den) && num / den != 0) = true then
        if fits (num / den + 1) = true then
          some (if 2 * (num % den) < den then num / den else num / den + 1)
        else some (num / den)
      else if fits (num / den + 1) = true then some (num / den + 1) else none := by
  -- the target is scaled from below or from above, as the exponent is positive or not
  by_cases he : 0 ≤ e
  · refine ⟨t.value, t.den * tenPow e.toNat, fun c => t.contains (c * tenPow e.toNat) 1,
      Nat.mul_pos ht (tenPow_pos _), ?_, fun c => ?_, ?_⟩
    · rw [ten_zpow_of_nonneg he, toRat, div_div]
      push_cast
      rfl
    · rw [contains_iff ht Nat.one_pos, Decimal.toRat, ten_zpow_of_nonneg he, Nat.cast_one, div_one]
      push_cast
      rfl
    · simp only [onGrid, if_pos he]
      split <;> next h₁ h₂ => simp only [h₁, h₂, if_true, if_false, Bool.false_eq_true]
  · refine ⟨t.value * tenPow (-e).toNat, t.den, fun c => t.contains c (tenPow (-e).toNat), ht, ?_,
      fun c => ?_, ?_⟩
    · rw [ten_zpow_of_neg he, toRat, div_inv_eq_mul, div_mul_eq_mul_div]
      push_cast
      rfl
    · rw [contains_iff ht (tenPow_pos _), Decimal.toRat, ten_zpow_of_neg he, div_eq_mul_inv]
    · simp only [onGrid, if_neg he]
      split <;> next h₁ h₂ => simp only [h₁, h₂, if_true, if_false, Bool.false_eq_true]

/-- The neighbours of the number are on both sides of it. -/
theorem toRat_neighbours {num den : ℕ} (hden : 0 < den)
    (h : (num : ℚ) / den = t.toRat / 10 ^ e) :
    Decimal.toRat ⟨num / den, e⟩ ≤ t.toRat ∧ t.toRat < Decimal.toRat ⟨num / den + 1, e⟩ ∧
      Decimal.toRat ⟨num / den + 1, e⟩ ≤ t.toRat + 10 ^ e := by
  have hten : (0 : ℚ) < 10 ^ e := by positivity
  have hden' : (0 : ℚ) < den := by exact_mod_cast hden
  have hlow : ((num / den : ℕ) : ℚ) ≤ t.toRat / 10 ^ e := by
    rw [← h, le_div_iff₀ hden']
    exact_mod_cast Nat.div_mul_le_self num den
  have hhigh : t.toRat / 10 ^ e < ((num / den : ℕ) : ℚ) + 1 := by
    rw [← h, div_lt_iff₀ hden', mul_comm]
    exact_mod_cast Nat.lt_mul_div_succ num hden
  rw [le_div_iff₀ hten] at hlow
  rw [div_lt_iff₀ hten] at hhigh
  simp only [Decimal.toRat]
  push_cast
  exact ⟨hlow, hhigh, by linarith⟩

/-- What is found lies in the interval, and is no more than one step above the number. -/
theorem onGrid_eq_some (ht : 0 < t.den) (h : t.onGrid e = some c) :
    c ≠ 0 ∧ t.Admits (Decimal.toRat ⟨c, e⟩) ∧ Decimal.toRat ⟨c, e⟩ ≤ t.toRat + 10 ^ e := by
  obtain ⟨num, den, fits, hden, hratio, hfits, heq⟩ := onGrid_eq ht e
  obtain ⟨hlow, -, hhigh⟩ := toRat_neighbours hden hratio
  have hten : (0 : ℚ) < 10 ^ e := by positivity
  -- of the two neighbours on the grid, the lower one counts only if it is not zero
  have hfirst (h : (fits (num / den) && num / den != 0) = true) : num / den ≠ 0 ∧
      t.Admits (Decimal.toRat ⟨num / den, e⟩) ∧
      Decimal.toRat ⟨num / den, e⟩ ≤ t.toRat + 10 ^ e := by
    rw [Bool.and_eq_true, bne_iff_ne] at h
    exact ⟨h.2, (hfits _).1 h.1, by linarith⟩
  have hsecond (h : fits (num / den + 1) = true) : num / den + 1 ≠ 0 ∧
      t.Admits (Decimal.toRat ⟨num / den + 1, e⟩) ∧
      Decimal.toRat ⟨num / den + 1, e⟩ ≤ t.toRat + 10 ^ e :=
    ⟨Nat.succ_ne_zero _, (hfits _).1 h, hhigh⟩
  rw [heq] at h
  by_cases h₁ : (fits (num / den) && num / den != 0) = true
  · rw [if_pos h₁] at h
    split at h
    · next h₂ =>
      split at h
      · cases h
        exact hfirst h₁
      · cases h
        exact hsecond h₂
    · cases h
      exact hfirst h₁
  · rw [if_neg h₁] at h
    split at h
    · next h₂ =>
      cases h
      exact hsecond h₂
    · cases h

/-- A multiple of the power of ten is found if one step above the number is in the interval. -/
theorem onGrid_isSome (ht : 0 < t.den) (hlower : (t.lower : ℚ) / t.den ≤ t.toRat)
    (h : t.toRat + 10 ^ e < t.upper / t.den) : (t.onGrid e).isSome = true := by
  obtain ⟨num, den, fits, hden, hratio, hfits, heq⟩ := onGrid_eq ht e
  obtain ⟨-, hlow, hhigh⟩ := toRat_neighbours hden hratio
  have hsecond : fits (num / den + 1) = true :=
    (hfits _).2 ⟨.inl (by linarith), .inl (by linarith)⟩
  rw [heq, if_pos hsecond, if_pos hsecond]
  split <;> rfl

/-- If anything can be found with the numbers of digits that are tried, it is. -/
theorem search_spec (h : ∃ n, digits ≤ n ∧ n < digits + fuel ∧ (t.onGrid (top - n)).isSome = true) :
    ∃ c n, n < digits + fuel ∧ t.search top fuel digits = ⟨c, top - n⟩ ∧
      t.onGrid (top - n) = some c := by
  induction fuel generalizing digits with
  | zero =>
    obtain ⟨n, hle, hlt, -⟩ := h
    omega
  | succ fuel ih =>
    rw [search]
    cases hfound : t.onGrid (top - digits) with
    | some c => exact ⟨c, digits, by omega, rfl, hfound⟩
    | none =>
      obtain ⟨n, hle, hlt, hsome⟩ := h
      have hne : n ≠ digits := by
        rintro rfl
        rw [hfound] at hsome
        cases hsome
      -- nothing is found here, so the digits lie further on
      have hrest : ∃ n, digits + 1 ≤ n ∧ n < digits + 1 + fuel ∧
          (t.onGrid (top - n)).isSome = true := ⟨n, by omega, by omega, hsome⟩
      obtain ⟨c, m, hm, hsearch, hc⟩ := ih hrest
      exact ⟨c, m, by omega, hsearch, hc⟩

/-! ## The power of ten above a number -/

theorem magnitudeFrom_spec (ht : 0 < t.den) (hlow : (10 : ℚ) ^ (e - 1) ≤ t.toRat)
    (hhigh : t.toRat < 10 ^ (e + fuel)) :
    (10 : ℚ) ^ (t.magnitudeFrom fuel e - 1) ≤ t.toRat ∧
      t.toRat < 10 ^ t.magnitudeFrom fuel e := by
  have hden : (0 : ℚ) < t.den := by exact_mod_cast ht
  -- what is compared in natural numbers is the comparison with a power of ten
  have hbelow (e : ℤ) : (if 0 ≤ e then t.value < t.den * tenPow e.toNat
      else t.value * tenPow (-e).toNat < t.den) ↔ t.toRat < 10 ^ e := by
    rw [toRat, div_lt_iff₀ hden]
    split
    · next he =>
      rw [ten_zpow_of_nonneg he, mul_comm]
      exact_mod_cast Iff.rfl
    · next he =>
      have hpos : (0 : ℚ) < tenPow (-e).toNat := by exact_mod_cast tenPow_pos _
      rw [ten_zpow_of_neg he, inv_mul_eq_div, lt_div_iff₀ hpos]
      exact_mod_cast Iff.rfl
  induction fuel generalizing e with
  | zero =>
    rw [Nat.cast_zero, add_zero] at hhigh
    exact ⟨hlow, hhigh⟩
  | succ fuel ih =>
    simp only [magnitudeFrom, hbelow]
    by_cases h : t.toRat < 10 ^ e
    · rw [if_pos h]
      exact ⟨hlow, h⟩
    · rw [if_neg h]
      refine ih (by rw [add_sub_cancel_right]; exact le_of_not_gt h) ?_
      rw [add_assoc, add_comm 1]
      exact_mod_cast hhigh

/-- Numbers of that many bits have a logarithm that is estimated well enough. -/
def maxBits : ℕ := 200000

/-- The bits of a positive number tell its power of two, up to one. -/
theorem two_zpow_bounds {b : ℤ} (hv : 0 < t.value) (hd : 0 < t.den)
    (hb : (Format.bitLength t.value - Format.bitLength t.den : ℤ) - 1 = b) :
    (2 : ℚ) ^ b ≤ t.toRat ∧ t.toRat < 2 ^ b * 4 := by
  -- a length tells a number up to a factor of two
  have hbits {n : ℕ} (hn : 0 < n) :
      ∃ k, Format.bitLength n = k + 1 ∧ 2 ^ k ≤ n ∧ n < 2 ^ (k + 1) := by
    have hlt := Format.lt_two_pow_bitLength n
    obtain ⟨k, hk⟩ : ∃ k, Format.bitLength n = k + 1 := by
      refine ⟨Format.bitLength n - 1, ?_⟩
      by_contra hzero
      have hzero : Format.bitLength n = 0 := by omega
      rw [hzero] at hlt
      omega
    exact ⟨k, hk, Format.two_pow_le_of_bitLength hk, hk ▸ hlt⟩
  obtain ⟨v, hv, hvlow, hvhigh⟩ := hbits hv
  obtain ⟨d, hd', hdlow, hdhigh⟩ := hbits hd
  have hden : (0 : ℚ) < t.den := by exact_mod_cast hd
  have htwo : (2 : ℚ) ≠ 0 := two_ne_zero
  have hvlow' : (2 : ℚ) ^ v ≤ t.value := by exact_mod_cast hvlow
  have hvhigh' : (t.value : ℚ) < 2 ^ (v + 1) := by exact_mod_cast hvhigh
  have hdlow' : (2 : ℚ) ^ d ≤ t.den := by exact_mod_cast hdlow
  have hdhigh' : (t.den : ℚ) < 2 ^ (d + 1) := by exact_mod_cast hdhigh
  -- two such factors, one for each part of the fraction, leave a factor of four
  have hb' : b = v - (d + 1 : ℕ) := by
    rw [← hb, hv, hd']
    push_cast
    ring
  rw [hb', zpow_sub₀ htwo, zpow_natCast, zpow_natCast, toRat]
  refine ⟨?_, ?_⟩
  · rw [div_le_div_iff₀ (by positivity) hden]
    exact mul_le_mul hvlow' hdhigh'.le hden.le (by positivity)
  · rw [div_mul_eq_mul_div, div_lt_div_iff₀ hden (by positivity)]
    calc (t.value : ℚ) * 2 ^ (d + 1) < 2 ^ (v + 1) * 2 ^ (d + 1) := by gcongr
      _ = 2 ^ v * 4 * 2 ^ d := by ring
      _ ≤ 2 ^ v * 4 * t.den := by gcongr

/-- The power of ten that is found is the one above the number. -/
theorem magnitude_spec (hv : 0 < t.value) (hd : 0 < t.den)
    (hvbits : Format.bitLength t.value ≤ maxBits) (hdbits : Format.bitLength t.den ≤ maxBits) :
    (10 : ℚ) ^ (t.magnitude - 1) ≤ t.toRat ∧ t.toRat < 10 ^ t.magnitude := by
  unfold maxBits at hvbits hdbits
  rw [magnitude]
  generalize hb : (Format.bitLength t.value - Format.bitLength t.den : ℤ) - 1 = b
  obtain ⟨hlow, hhigh⟩ := two_zpow_bounds hv hd hb
  obtain ⟨h₁, h₂⟩ := ten_zpow_estimate (s := b * 30103 / 100000) (b := b) (by omega)
    two_pow_ten_pow_decimals.1 two_pow_ten_pow_decimals.2 (by omega) (by omega) (by omega)
  -- the logarithm of two is close to 30103 / 100000
  generalize b * 30103 / 100000 = s at h₁ h₂ ⊢
  have hten : (1 : ℚ) < 10 := by norm_num
  refine magnitudeFrom_spec hd ?_ ?_
  · calc (10 : ℚ) ^ (s - 1 - 1) ≤ 10 ^ (s - 1) := zpow_le_zpow_right₀ hten.le (by omega)
      _ ≤ 2 ^ b := h₁
      _ ≤ t.toRat := hlow
  · have hpos : (0 : ℚ) < 10 ^ (s + 2) := by positivity
    have hsucc : (10 : ℚ) ^ (s - 1 + (4 : ℕ)) = 10 ^ (s + 2) * 10 := by
      rw [← zpow_add_one₀ (by norm_num)]
      congr 1
      push_cast
      ring
    rw [hsucc]
    linarith

/-! ## Intervals of magnitudes -/

variable {fmt : Format} {mag : ℕ}

theorem ofMagnitude_den_pos (fmt : Format) (mag : ℕ) : 0 < (ofMagnitude fmt mag).den :=
  Nat.mul_pos (by omega) (Nat.two_pow_pos _)

theorem ofMagnitude_den (fmt : Format) (mag : ℕ) :
    ((ofMagnitude fmt mag).den : ℚ) = 4 * 2 ^ fmt.unitExponent := by
  simp only [ofMagnitude, twoPow_eq]
  push_cast
  rfl

theorem ofMagnitude_toRat (fmt : Format) (mag : ℕ) :
    (ofMagnitude fmt mag).toRat = fmt.toRat mag := by
  have hvalue : ((ofMagnitude fmt mag).value : ℚ) = 4 * fmt.units mag := by
    simp only [ofMagnitude, twoPow_eq, Format.units]
    push_cast
    ring
  rw [toRat, hvalue, ofMagnitude_den, Format.toRat]
  field_simp

theorem ofMagnitude_upper (fmt : Format) (mag : ℕ) :
    ((ofMagnitude fmt mag).upper : ℚ) / (ofMagnitude fmt mag).den =
      fmt.midpoint mag / 2 ^ fmt.unitExponent := by
  have hupper : ((ofMagnitude fmt mag).upper : ℚ) = 4 * fmt.midpoint mag := by
    simp only [ofMagnitude, twoPow_eq, Format.midpoint, Format.units]
    push_cast
    ring
  rw [hupper, ofMagnitude_den]
  field_simp

theorem ofMagnitude_lower (fmt : Format) (mag : ℕ) :
    ((ofMagnitude fmt (mag + 1)).lower : ℚ) / (ofMagnitude fmt (mag + 1)).den =
      fmt.midpoint mag / 2 ^ fmt.unitExponent := by
  have hpos : 0 < fmt.significand (mag + 1) := by
    have hmono := Format.units_strictMono fmt (Nat.succ_pos mag)
    exact Nat.pos_of_mul_pos_right (Nat.zero_lt_of_lt hmono)
  have hshift := Format.shift_pred fmt mag
  have hlower : ((ofMagnitude fmt (mag + 1)).lower : ℚ) = 4 * fmt.midpoint mag := by
    rw [Format.midpoint_eq, Format.units]
    simp only [ofMagnitude, Format.twoPow_fractionBits, Bool.and_eq_true, beq_iff_eq,
      decide_eq_true_eq]
    rw [twoPow_eq]
    generalize fmt.significand (mag + 1) = q at hpos hshift ⊢
    generalize fmt.shift (mag + 1) = k at hshift ⊢
    rw [hshift]
    -- below a power of two, the distance to the next smaller number is halved
    by_cases hnarrow : q = fmt.fractions ∧ 0 < k
    · obtain ⟨j, rfl⟩ : ∃ j, k = j + 1 := ⟨k - 1, by omega⟩
      rw [if_pos hnarrow, if_pos hnarrow, Nat.add_sub_cancel]
      push_cast [Nat.cast_sub (show 1 ≤ 4 * q by omega)]
      ring
    · rw [if_neg hnarrow, if_neg hnarrow]
      push_cast [Nat.cast_sub (show 2 ≤ 4 * q by omega)]
      ring
  rw [hlower, ofMagnitude_den]
  field_simp

/-- The interval of a magnitude holds the numbers that round to it. -/
theorem ofMagnitude_admits_iff (hp : fmt.Proper) :
    (ofMagnitude fmt (mag + 1)).Admits x ↔ fmt.Rounds (x * 2 ^ fmt.unitExponent) (mag + 1) := by
  have hscale : (0 : ℚ) < 2 ^ fmt.unitExponent := by positivity
  have hclosed : (ofMagnitude fmt (mag + 1)).closed = true ↔ (mag + 1) % 2 = 0 := by
    rw [← (Format.significand_spec hp _).2]
    exact beq_iff_eq
  constructor
  · rintro ⟨hl, hu⟩
    rw [ofMagnitude_lower, hclosed, div_lt_iff₀ hscale, div_eq_iff hscale.ne'] at hl
    rw [ofMagnitude_upper, hclosed, lt_div_iff₀ hscale, eq_div_iff hscale.ne'] at hu
    refine ⟨fun m hm => ?_, hu⟩
    obtain rfl : mag = m := Nat.succ.inj hm
    exact hl
  · rintro ⟨hl, hu⟩
    refine ⟨?_, ?_⟩
    · rw [ofMagnitude_lower, hclosed, div_lt_iff₀ hscale, div_eq_iff hscale.ne']
      exact hl mag rfl
    · rw [ofMagnitude_upper, hclosed, lt_div_iff₀ hscale, eq_div_iff hscale.ne']
      exact hu

theorem ofMagnitude_bits (hp : fmt.Proper) (hmag : mag < fmt.infinity) :
    Format.bitLength (ofMagnitude fmt mag).value ≤ maxBits ∧
      Format.bitLength (ofMagnitude fmt mag).den ≤ maxBits := by
  have hbits := hp.exponentBits_le
  have hfields : 2 ^ fmt.exponentBits ≤ 2 ^ 11 := Nat.pow_le_pow_right (by omega) hbits
  have hfields' : 2 ^ (fmt.exponentBits - 1) ≤ 2 ^ 11 := Nat.pow_le_pow_right (by omega) (by omega)
  refine ⟨?_, ?_⟩
  -- finite numbers have an exponent field below the greatest one
  · have hshift : fmt.shift mag ≤ 2 ^ 11 := by
      have hfield : mag / fmt.fractions < 2 ^ fmt.exponentBits - 1 :=
        Nat.div_lt_of_lt_mul (by rwa [Nat.mul_comm])
      have hle : fmt.shift mag ≤ mag / fmt.fractions := Nat.sub_le _ _
      omega
    have hsignificand := hp.significand_lt mag
    have hvalue : 4 * fmt.significand mag * 2 ^ fmt.shift mag < 2 ^ (55 + fmt.shift mag) := by
      rw [pow_add]
      exact Nat.mul_lt_mul_of_pos_right (by omega) (Nat.two_pow_pos _)
    have hle := Format.bitLength_le_of_lt hvalue
    unfold maxBits
    exact hle.trans (by omega)
  · have hunit : fmt.unitExponent ≤ 2 ^ 12 := by
      have hprecision := hp.precision_le
      unfold Format.unitExponent Format.fractionBits
      rw [twoPow_eq]
      omega
    have hden : 4 * 2 ^ fmt.unitExponent < 2 ^ (3 + fmt.unitExponent) := by
      rw [pow_add]
      exact Nat.mul_lt_mul_of_pos_right (by decide) (Nat.two_pow_pos _)
    have hle := Format.bitLength_le_of_lt hden
    unfold maxBits
    exact hle.trans (by omega)

/-- Eighteen digits are enough for the interval of a magnitude. -/
theorem onGrid_ofMagnitude (hp : fmt.Proper) {top : ℤ}
    (htop : (10 : ℚ) ^ (top - 1) ≤ (ofMagnitude fmt (mag + 1)).toRat) :
    ((ofMagnitude fmt (mag + 1)).onGrid (top - (18 : ℕ))).isSome = true := by
  have hunit : (0 : ℚ) < 2 ^ fmt.unitExponent := by positivity
  have hshift : (0 : ℚ) < 2 ^ fmt.shift (mag + 1) := by positivity
  have hmid : fmt.midpoint mag < fmt.units (mag + 1) := by
    rw [Format.midpoint_eq]
    have : (0 : ℚ) < 2 ^ fmt.shift mag := by positivity
    linarith
  refine onGrid_isSome (ofMagnitude_den_pos fmt _) ?_ ?_
  · rw [ofMagnitude_lower, ofMagnitude_toRat, Format.toRat]
    gcongr
  -- seventeen digits tell all significands apart
  · have hsignificand : (fmt.significand (mag + 1) : ℚ) * 2 < 10 ^ 17 := by
      have hlt := hp.significand_lt (mag + 1)
      have hlt' : fmt.significand (mag + 1) * 2 < 10 ^ 17 := by omega
      exact_mod_cast hlt'
    have hstep : (10 : ℚ) ^ (top - (18 : ℕ)) * 10 ^ 17 = 10 ^ (top - 1) := by
      rw [← zpow_natCast, ← zpow_add₀ (by norm_num)]
      congr 1
      push_cast
      ring
    rw [ofMagnitude_toRat, Format.toRat] at htop ⊢
    rw [ofMagnitude_upper, Format.midpoint, add_div, div_right_comm]
    have hunits : (fmt.units (mag + 1) : ℚ) / 2 ^ fmt.unitExponent =
        fmt.significand (mag + 1) * (2 ^ fmt.shift (mag + 1) / 2 ^ fmt.unitExponent) := by
      rw [Format.units]
      push_cast
      ring
    have hgap : (0 : ℚ) < 2 ^ fmt.shift (mag + 1) / 2 ^ fmt.unitExponent := by positivity
    have hbound := mul_lt_mul_of_pos_right hsignificand hgap
    rw [← hstep, hunits] at htop
    linarith

end Target

variable {fmt : Format} {mag : ℕ}

/-- The decimal that is found for a positive magnitude: it has at most eighteen digits below the
power of ten above the magnitude, and it rounds to the magnitude. -/
theorem shortest_spec (hp : fmt.Proper) (hpos : mag ≠ 0) (hmag : mag < fmt.infinity) :
    ∃ (c n : ℕ) (top : ℤ), shortest fmt mag = ⟨c, top - n⟩ ∧ n ≤ 18 ∧ c ≤ 10 ^ n ∧
      (10 : ℚ) ^ (top - 1) ≤ fmt.toRat mag ∧ fmt.toRat mag < 10 ^ top ∧
      fmt.Rounds (toRat ⟨c, top - n⟩ * 2 ^ fmt.unitExponent) mag := by
  obtain ⟨m, rfl⟩ : ∃ m, mag = m + 1 := ⟨mag - 1, by omega⟩
  let t := Target.ofMagnitude fmt (m + 1)
  have hden : 0 < t.den := Target.ofMagnitude_den_pos fmt _
  have hvalue : 0 < t.value := by
    have hmono := Format.units_strictMono fmt (show 0 < m + 1 by omega)
    have hunits : t.value = 4 * fmt.units (m + 1) := Nat.mul_assoc ..
    omega
  obtain ⟨hvbits, hdbits⟩ := Target.ofMagnitude_bits hp hmag
  obtain ⟨hlow, hhigh⟩ := Target.magnitude_spec hvalue hden hvbits hdbits
  -- the search ends, as eighteen digits are enough
  have hgrid : ∃ n : ℕ, 1 ≤ n ∧ n < 1 + 18 ∧ (t.onGrid (t.magnitude - n)).isSome = true :=
    ⟨18, by omega, by omega, Target.onGrid_ofMagnitude hp hlow⟩
  obtain ⟨c, n, hn, hsearch, hfound⟩ := Target.search_spec hgrid
  obtain ⟨-, hadmits, hle⟩ := Target.onGrid_eq_some hden hfound
  have hshortest : shortest fmt (m + 1) = ⟨c, t.magnitude - n⟩ := by
    rw [shortest, if_neg (Nat.succ_ne_zero m)]
    exact hsearch
  -- the number may be rounded up to a power of ten
  have hc : c ≤ 10 ^ n := by
    have hstep : (0 : ℚ) < 10 ^ (t.magnitude - n) := by positivity
    have htop : (10 : ℚ) ^ t.magnitude = 10 ^ n * 10 ^ (t.magnitude - n) := by
      rw [← zpow_natCast, ← zpow_add₀ (by norm_num)]
      congr 1
      ring
    have hlt : (c : ℚ) * 10 ^ (t.magnitude - n) < (10 ^ n + 1) * 10 ^ (t.magnitude - n) := by
      rw [htop] at hhigh
      rw [toRat] at hle
      linarith
    have hlt' : (c : ℚ) < 10 ^ n + 1 := lt_of_mul_lt_mul_right hlt hstep.le
    exact Nat.lt_succ_iff.1 (by exact_mod_cast hlt')
  rw [Target.ofMagnitude_toRat] at hlow hhigh
  exact ⟨c, n, t.magnitude, hshortest, by omega, hc, hlow, hhigh,
    (Target.ofMagnitude_admits_iff hp).1 hadmits⟩

end Decimal

end JsonAdapters
