import JsonAdapters.Proofs.Number.Shortest

/-!
# Positional text

The text of a decimal denotes the decimal, so that a finite pattern that is printed is parsed as the
same pattern: of the shortest decimal nothing is lost on the way, and it rounds to the magnitude.
How long the text is depends on how far the number is from the point.

## Main statements

* `Decimal.text_denotes`: the number of a text.
* `Decimal.length_text_le`: its length.
* `Decimal.parse_of_denotes`, `Decimal.parse_spec`: parsing a text rounds the number that it
  denotes.
* `Decimal.parse_print`: a finite pattern is parsed as it was printed.
-/

namespace JsonAdapters

open Binary (Format)
open Json (AllDigits Denotes DenotesUnsigned IsDigits IsWhole allDigits_toDigits)

namespace Decimal

variable {d : Decimal} {fmt : Format} {x : ℚ}

/-! ## Trimming -/

/-- Zeros at the end of a fraction are dropped, which changes nothing about the number. -/
theorem trim_spec (fuel : ℕ) (d : Decimal) : (d.trim fuel).toRat = d.toRat ∧
    (d.trim fuel).coefficient ≤ d.coefficient ∧ d.exponent ≤ (d.trim fuel).exponent ∧
    (d.trim fuel).exponent ≤ max d.exponent 0 := by
  induction fuel generalizing d with
  | zero => exact ⟨rfl, le_refl _, le_refl _, Int.le_max_left ..⟩
  | succ fuel ih =>
    rw [trim]
    split
    · next h =>
      rw [Bool.and_eq_true, decide_eq_true_eq, beq_iff_eq] at h
      obtain ⟨hexponent, hdigit⟩ := h
      obtain ⟨hrat, hcoefficient, hlow, hhigh⟩ := ih ⟨d.coefficient / 10, d.exponent + 1⟩
      refine ⟨hrat.trans ?_, by dsimp only at hcoefficient; omega, by dsimp only at hlow; omega,
        by dsimp only at hhigh; omega⟩
      -- a trailing zero moves from the coefficient to the exponent
      obtain ⟨c, hc⟩ : ∃ c, d.coefficient = 10 * c := ⟨d.coefficient / 10, by omega⟩
      have hten : (10 : ℚ) ≠ 0 := by norm_num
      rw [toRat, toRat, hc, Nat.mul_div_cancel_left c (by omega), zpow_add_one₀ hten]
      push_cast
      ring
    · exact ⟨rfl, le_refl _, le_refl _, Int.le_max_left ..⟩

/-! ## Digits -/

theorem digitsValue_replicate (n : ℕ) : digitsValue (List.replicate n '0') = 0 := by
  induction n with
  | zero => rfl
  | succ n ih =>
    rw [List.replicate_succ, ← List.singleton_append, digitsValue_append, ih, Nat.add_zero]
    exact Nat.zero_mul _

/-- Digits with zeros behind them are so many tens. -/
theorem digitsValue_digits_replicate (c n : ℕ) :
    digitsValue (Nat.toDigits 10 c ++ List.replicate n '0') = c * 10 ^ n := by
  rw [digitsValue_append, digitsValue_toDigits, List.length_replicate, digitsValue_replicate,
    Nat.add_zero]

theorem digitsValue_padded (places c : ℕ) :
    digitsValue (padded places (Nat.toDigits 10 c)) = c := by
  rw [padded, digitsValue_append, digitsValue_replicate, digitsValue_toDigits, Nat.zero_mul,
    Nat.zero_add]

theorem length_padded (places : ℕ) (digits : List Char) :
    (padded places digits).length = max digits.length (places + 1) := by
  rw [padded, List.length_append, List.length_replicate]
  omega

/-- The text of a decimal whose zeros were trimmed: digits, with a point before the last ones. -/
theorem toList_text (d : Decimal) :
    let e := d.trim d.exponent.natAbs
    let digits := Nat.toDigits 10 e.coefficient
    let places := (-e.exponent).toNat
    let ds := padded places digits
    d.text.toList =
      if 0 ≤ e.exponent then
        if e.coefficient = 0 then ['0'] else digits ++ List.replicate e.exponent.toNat '0'
      else ds.take (ds.length - places) ++ '.' :: ds.drop (ds.length - places) := by
  intro e digits places ds
  have hdigits : (toString e.coefficient).toList = digits := Nat.toList_repr
  rw [text]
  change String.toList (if 0 ≤ e.exponent then _ else _) = _
  split
  · split
    · rfl
    · rw [String.toList_ofList, hdigits]
  · rw [String.toList_ofList, hdigits]
    rfl

/-- Of an unsigned text that is digits the digits are the number. -/
theorem denotes_of_digits {cs : List Char} (h : Json.IsUnsigned cs) (hall : AllDigits cs) :
    DenotesUnsigned (digitsValue cs) cs := by
  obtain ⟨x, hx⟩ := h.denotes
  exact hx.plain_iff.2 hall ▸ hx

/-- A whole number, a point and digits denote what all the digits are worth, scaled down. -/
theorem denotes_of_point {ds : List Char} {whole places : ℕ} (hall : AllDigits ds)
    (hlength : ds.length = whole + places) (hplaces : 0 < places)
    (hwhole : IsWhole (ds.take whole)) :
    DenotesUnsigned (digitsValue ds / 10 ^ places) (ds.take whole ++ '.' :: ds.drop whole) := by
  have hdrop : (ds.drop whole).length = places := by
    rw [List.length_drop]
    omega
  have hne : ds.drop whole ≠ [] := by
    rintro hnil
    rw [hnil] at hdrop
    exact hplaces.ne hdrop
  have hdigits : IsDigits (ds.drop whole) := ⟨hne, fun c hc => hall c (List.mem_of_mem_drop hc)⟩
  refine ⟨_, '.' :: ds.drop whole, [], by rw [List.append_nil], hwhole, _, 0,
    .inr ⟨_, rfl, hdigits, rfl⟩, .inl ⟨rfl, rfl⟩, ?_⟩
  -- digits before the point count ten to the number of places
  have hvalue : digitsValue ds =
      digitsValue (ds.take whole) * 10 ^ places + digitsValue (ds.drop whole) := by
    rw [← hdrop, ← digitsValue_append, List.take_append_drop]
  rw [hvalue, hdrop, zpow_zero, mul_one]
  push_cast
  field_simp

/-- The text of a decimal denotes the decimal. -/
theorem text_denotes (d : Decimal) : DenotesUnsigned d.toRat d.text.toList := by
  obtain ⟨hrat, -⟩ := trim_spec d.exponent.natAbs d
  have hunsigned := text_isUnsigned d
  rw [← hrat]
  rw [toList_text] at hunsigned ⊢
  generalize d.trim d.exponent.natAbs = e at hunsigned ⊢
  have hall := allDigits_toDigits e.coefficient
  by_cases he : 0 ≤ e.exponent
  -- without a point the text is nothing but digits
  · rw [if_pos he] at hunsigned ⊢
    rw [toRat, ten_zpow_of_nonneg he, cast_tenPow]
    by_cases hzero : e.coefficient = 0
    · rw [if_pos hzero] at hunsigned ⊢
      rw [hzero, Nat.cast_zero, zero_mul]
      exact denotes_of_digits hunsigned fun c hc => List.mem_singleton.1 hc ▸ rfl
    · rw [if_neg hzero] at hunsigned ⊢
      have hvalue := digitsValue_digits_replicate e.coefficient e.exponent.toNat
      have hdigits : AllDigits
          (Nat.toDigits 10 e.coefficient ++ List.replicate e.exponent.toNat '0') := by
        intro c hc
        obtain hc | hc := List.mem_append.1 hc
        · exact hall c hc
        · exact List.eq_of_mem_replicate hc ▸ rfl
      have hdenotes := denotes_of_digits hunsigned hdigits
      rw [hvalue] at hdenotes
      exact_mod_cast hdenotes
  · rw [if_neg he]
    have hplaces : 0 < (-e.exponent).toNat := by omega
    have hlength := length_padded (-e.exponent).toNat (Nat.toDigits 10 e.coefficient)
    have hdigits : AllDigits (padded (-e.exponent).toNat (Nat.toDigits 10 e.coefficient)) :=
      padded_allDigits
    have hdenotes := denotes_of_point hdigits (by omega) hplaces (padded_isWhole hplaces)
    rw [digitsValue_padded] at hdenotes
    rw [toRat, ten_zpow_of_neg he, cast_tenPow, ← div_eq_mul_inv]
    exact hdenotes

/-- A decimal with at most `n` digits below a power of ten has as many digits before the point as
the power, as many behind it as its exponent, and no more of them than it needs. -/
theorem length_text_le {c n : ℕ} (top : ℤ) (hc : c ≤ 10 ^ n) :
    (text ⟨c, top - n⟩).toList.length ≤ max (n + 2 : ℤ) (max (top + 1) (n - top + 2)) := by
  let d : Decimal := ⟨c, top - n⟩
  obtain ⟨-, hcoefficient, hlow, hhigh⟩ := trim_spec d.exponent.natAbs d
  have hdigits : (Nat.toDigits 10 (d.trim d.exponent.natAbs).coefficient).length ≤ n + 1 := by
    rw [Nat.length_toDigits_le_iff (by omega) (by omega), pow_succ]
    have hle : (d.trim d.exponent.natAbs).coefficient ≤ 10 ^ n := hcoefficient.trans hc
    have := Nat.pow_pos (n := n) (show 0 < 10 by omega)
    omega
  change ((d.text).toList.length : ℤ) ≤ _
  rw [toList_text]
  generalize d.trim d.exponent.natAbs = e at hdigits hlow hhigh ⊢
  change top - n ≤ e.exponent at hlow
  change e.exponent ≤ max (top - n) 0 at hhigh
  -- zeros fill up to the point, or digits stand on both of its sides
  by_cases he : 0 ≤ e.exponent
  · rw [if_pos he]
    by_cases hzero : e.coefficient = 0
    · rw [if_pos hzero, List.length_singleton]
      omega
    · rw [if_neg hzero, List.length_append, List.length_replicate]
      omega
  · have hlength := length_padded (-e.exponent).toNat (Nat.toDigits 10 e.coefficient)
    rw [if_neg he, List.length_append, List.length_take, List.length_cons, List.length_drop]
    omega

/-! ## Rounding -/

theorem toRat_nonneg (d : Decimal) : 0 ≤ d.toRat := by
  unfold toRat
  positivity

/-- A decimal is given the magnitude to which it rounds, or infinity if that is too large. -/
theorem round_rounds (hp : fmt.Proper) (d : Decimal) :
    ∃ mag, fmt.Rounds (d.toRat * 2 ^ fmt.unitExponent) mag ∧
      d.round fmt = min fmt.infinity mag := by
  by_cases he : 0 ≤ d.exponent
  · obtain ⟨mag, hmag, hround⟩ :=
      Format.ofRatio_rounds hp (d.coefficient * tenPow d.exponent.toNat) Nat.one_pos
    refine ⟨mag, ?_, ?_⟩
    · rw [toRat, ten_zpow_of_nonneg he]
      push_cast at hmag
      rwa [div_one] at hmag
    · rw [round, if_pos he, hround]
  · obtain ⟨mag, hmag, hround⟩ :=
      Format.ofRatio_rounds hp d.coefficient (tenPow_pos (-d.exponent).toNat)
    refine ⟨mag, ?_, ?_⟩
    · rw [toRat, ten_zpow_of_neg he, ← div_eq_mul_inv]
      exact hmag
    · rw [round, if_neg he, hround]

/-- Parsing a text rounds the absolute value of the number that it denotes, and keeps the sign. -/
theorem parse_of_denotes (hp : fmt.Proper) {s : String} (h : Denotes x s.toList) :
    ∃ mag, fmt.Rounds (|x| * 2 ^ fmt.unitExponent) mag ∧
      parse fmt s = fmt.withSign (s.toList.head? == some '-') (min fmt.infinity mag) := by
  obtain ⟨d, htext, hx⟩ := ofText_of_denotes h
  have habs : |x| = d.toRat := by
    rw [hx]
    split
    · rw [abs_neg, abs_of_nonneg d.toRat_nonneg]
    · exact abs_of_nonneg d.toRat_nonneg
  obtain ⟨mag, hmag, hround⟩ := round_rounds hp d
  refine ⟨mag, habs ▸ hmag, ?_⟩
  rw [parse, htext]
  exact congrArg (fmt.withSign _) hround

/-- What a text is parsed as is no NaN, has the sign of the text, and is finite unless the number is
too large for the format. -/
theorem parse_spec (hp : fmt.Proper) {s : String} (h : Denotes x s.toList) :
    parse fmt s < 2 * fmt.signBit ∧ fmt.magnitude (parse fmt s) ≤ fmt.infinity ∧
      (fmt.isNegative (parse fmt s) = true ↔ s.toList.head? = some '-') ∧
      (fmt.isFinite (parse fmt s) = true ↔ |x| < fmt.overflow) := by
  obtain ⟨mag, hmag, hparse⟩ := parse_of_denotes hp h
  obtain ⟨hlt, hmagnitude, hnegative⟩ := Format.withSign_spec
    (Nat.min_le_left fmt.infinity mag) (s.toList.head? == some '-')
  rw [← hparse] at hlt hmagnitude hnegative
  refine ⟨hlt, hmagnitude ▸ Nat.min_le_left .., ?_, ?_⟩
  · rw [hnegative, beq_iff_eq]
  · rw [← hmag.lt_infinity_iff hp, Format.isFinite, decide_eq_true_eq, hmagnitude]
    omega

/-! ## Printing and parsing -/

/-- The shortest decimal of a finite magnitude rounds to it. -/
theorem shortest_rounds (hp : fmt.Proper) {mag : ℕ} (hmag : mag < fmt.infinity) :
    fmt.Rounds ((shortest fmt mag).toRat * 2 ^ fmt.unitExponent) mag := by
  by_cases hpos : mag = 0
  · subst hpos
    refine ⟨nofun, .inl ?_⟩
    have hzero : (shortest fmt 0).toRat = 0 := by
      rw [shortest, if_pos rfl, toRat, Nat.cast_zero, zero_mul]
    have hgap : (0 : ℚ) < 2 ^ fmt.shift 0 := by positivity
    have hunits : (0 : ℚ) ≤ fmt.units 0 := Nat.cast_nonneg _
    rw [hzero, zero_mul, Format.midpoint]
    linarith
  · obtain ⟨c, n, top, hshortest, -, -, -, -, hrounds⟩ := shortest_spec hp hpos hmag
    rw [hshortest]
    exact hrounds

/-- Printed digits denote the number that was printed, up to rounding, behind a sign if it is
negative. -/
theorem print_parts (fmt : Format) (bits : ℕ) :
    (print fmt bits).toList = if fmt.isNegative bits then
      '-' :: (shortest fmt (fmt.magnitude bits)).text.toList
    else (shortest fmt (fmt.magnitude bits)).text.toList := by
  rw [print]
  split
  · rw [String.toList_append]
    rfl
  · rfl

/-- A finite pattern is parsed as it was printed. -/
theorem parse_print (hp : fmt.Proper) {bits : ℕ} (hbits : bits < 2 * fmt.signBit)
    (hfinite : fmt.isFinite bits = true) : parse fmt (print fmt bits) = bits := by
  have hmag : fmt.magnitude bits < fmt.infinity := of_decide_eq_true hfinite
  obtain ⟨d, htext, hd⟩ := ofText_of_unsigned (print_parts fmt bits) (text_denotes _)
  have hround : d.round fmt = fmt.magnitude bits := by
    obtain ⟨mag, hmag', hround⟩ := round_rounds hp d
    rw [hd] at hmag'
    rw [hround, hmag'.unique (shortest_rounds hp hmag)]
    exact Nat.min_eq_right hmag.le
  rw [parse, htext]
  change fmt.withSign (fmt.isNegative bits) (d.round fmt) = bits
  rw [hround, Format.withSign, Format.magnitude, Format.isNegative]
  simp only [decide_eq_true_eq]
  split
  · next hneg =>
    rw [Nat.mod_eq_sub_mod hneg, Nat.mod_eq_of_lt (by omega)]
    omega
  · next hneg => exact Nat.mod_eq_of_lt (by omega)

/-! ## Limits of readers -/

/-- Positional text has no exponent. -/
theorem text_unmarked (d : Decimal) : ∀ c ∈ d.text.toList, c ≠ 'e' ∧ c ≠ 'E' := by
  have hdigit {c : Char} (hc : c.isDigit = true) : c ≠ 'e' ∧ c ≠ 'E' := by
    constructor <;> rintro rfl <;> cases hc
  intro c hc
  rw [toList_text] at hc
  split at hc
  · split at hc
    · exact hdigit (List.mem_singleton.1 hc ▸ rfl)
    · obtain hc | hc := List.mem_append.1 hc
      · exact hdigit (allDigits_toDigits _ c hc)
      · exact hdigit (List.eq_of_mem_replicate hc ▸ rfl)
  · obtain hc | hc := List.mem_append.1 hc
    · exact hdigit (padded_allDigits c (List.mem_of_mem_take hc))
    obtain rfl | hc := List.mem_cons.1 hc
    · decide
    · exact hdigit (padded_allDigits c (List.mem_of_mem_drop hc))

theorem exponentDigits_text (d : Decimal) : Json.exponentDigits d.text.toList = [] := by
  rw [← List.append_nil d.text.toList, exponentDigits_append (text_unmarked d)]
  rfl

/-- Printed numbers are beyond the limits only if they are too long. -/
theorem print_isSupported_iff (fmt : Format) (bits : ℕ) :
    Json.isSupported (print fmt bits).toList = true ↔ (print fmt bits).toList.length ≤ 100 := by
  have hexponent : Json.exponentDigits (print fmt bits).toList = [] := by
    rw [print_parts]
    split
    · rw [exponentDigits_minus, exponentDigits_text]
    · exact exponentDigits_text _
  rw [Json.isSupported, hexponent, Bool.and_eq_true, decide_eq_true_eq,
    and_iff_left (by decide)]

/-- Zero, and numbers that are neither tiny nor huge, have no more than a hundred characters. -/
theorem length_print_le (hp : fmt.Proper) {bits : ℕ} (hfinite : fmt.isFinite bits = true)
    (hrange : fmt.magnitude bits = 0 ∨ (10 : ℚ) ^ (-80 : ℤ) ≤ fmt.toRat (fmt.magnitude bits) ∧
      fmt.toRat (fmt.magnitude bits) < 10 ^ (98 : ℤ)) :
    (print fmt bits).toList.length ≤ 100 := by
  have hmag : fmt.magnitude bits < fmt.infinity := of_decide_eq_true hfinite
  have hlength : (shortest fmt (fmt.magnitude bits)).text.toList.length ≤ 99 := by
    by_cases hpos : fmt.magnitude bits = 0
    · rw [hpos, shortest, if_pos rfl]
      decide
    · obtain ⟨hlow, hhigh⟩ := hrange.resolve_left hpos
      obtain ⟨c, n, top, hshortest, hn, hc, htop, htop', -⟩ := shortest_spec hp hpos hmag
      have hten : (1 : ℚ) < 10 := by norm_num
      -- the bounds of the number are bounds of its magnitude
      have h₁ : top - 1 < 98 := (zpow_lt_zpow_iff_right₀ hten).1 (htop.trans_lt hhigh)
      have h₂ : -80 < top := (zpow_lt_zpow_iff_right₀ hten).1 (hlow.trans_lt htop')
      have hle := length_text_le top hc
      rw [hshortest]
      omega
  rw [print_parts]
  split
  · rw [List.length_cons]
    omega
  · omega

/-- Tiny and huge numbers have more than a hundred characters. -/
theorem lt_length_print (hp : fmt.Proper) {bits : ℕ} (hfinite : fmt.isFinite bits = true)
    (hrange : (2 : ℚ) * 10 ^ 100 ≤ fmt.toRat (fmt.magnitude bits) ∨ (fmt.magnitude bits ≠ 0 ∧
      fmt.toRat (fmt.magnitude bits) < 1 / 10 ^ 99)) :
    100 < (print fmt bits).toList.length := by
  have hmag : fmt.magnitude bits < fmt.infinity := of_decide_eq_true hfinite
  have hpos : fmt.magnitude bits ≠ 0 := by
    obtain hlarge | htiny := hrange
    · intro hzero
      have hunits : fmt.units 0 = 0 := Format.units_of_lt (Format.fractions_pos fmt)
      rw [hzero, Format.toRat, hunits, Nat.cast_zero, zero_div] at hlarge
      norm_num at hlarge
    · exact htiny.1
  have hscale : (0 : ℚ) < 2 ^ fmt.unitExponent := by positivity
  obtain ⟨hlow, hhigh⟩ := (shortest_rounds hp hmag).size hpos
  have hlow' : fmt.toRat (fmt.magnitude bits) ≤ (shortest fmt (fmt.magnitude bits)).toRat * 2 := by
    rw [Format.toRat, div_le_iff₀ hscale]
    linarith
  have hhigh' : (shortest fmt (fmt.magnitude bits)).toRat ≤ fmt.toRat (fmt.magnitude bits) * 2 := by
    rw [Format.toRat, div_mul_eq_mul_div, le_div_iff₀ hscale]
    exact hhigh
  -- a short text denotes a number that is neither large nor tiny
  have htext : 100 < (shortest fmt (fmt.magnitude bits)).text.toList.length := by
    by_contra hle
    have hdenotes := text_denotes (shortest fmt (fmt.magnitude bits))
    have hexponent := exponentDigits_text (shortest fmt (fmt.magnitude bits))
    obtain hlarge | ⟨-, htiny⟩ := hrange
    · have hlt := (unsigned_lt hdenotes (m := 100) (n := 0) (by omega) (by simp [hexponent])).2
      rw [pow_zero, Nat.sub_self, Nat.add_zero] at hlt
      linarith
    · have hpositive : 0 < fmt.toRat (fmt.magnitude bits) :=
        lt_of_lt_of_le (by positivity) (Format.le_toRat hpos)
      have hmarks := text_unmarked (shortest fmt (fmt.magnitude bits))
      have hle' := le_unsigned hdenotes (by linarith) (m := 98) (by omega)
        ⟨fun he => (hmarks _ he).1 rfl, fun he => (hmarks _ he).2 rfl⟩
      have hten : (1 : ℚ) / 10 ^ 98 = 10 * (1 / 10 ^ 99) := by norm_num
      rw [hten] at hle'
      have hnonneg : (0 : ℚ) < 1 / 10 ^ 99 := by positivity
      linarith
  rw [print_parts]
  split
  · rw [List.length_cons]
    omega
  · exact htext

end Decimal

end JsonAdapters
