import JsonAdapters.Proofs.Adapter.Numbers
import JsonAdapters.Proofs.Number.Positional

/-!
# Floating point numbers

A finite number is written as the positional text of its shortest decimal, which is parsed as the
same bits. It is read back unless the text is longer than readers take. A number text is read as the
nearest number of the type; there is one for every text that a reader takes as `double`, but numbers
too large for `single` become infinities, which are not written again.

## Main definitions

* `Scalar.Floating`: the two types with their values and formats.

## Main statements

* `Registry.decode_encode_floating`: which numbers are read back.
* `Scalar.read_floating`: what number texts are read as.
-/

namespace JsonAdapters

open Binary (Format)
open Json (Denotes Reader Writer)
open Json.Reader (AtValue)
open Samples (registryOf registryOf_valid_of_tables schema_sound)

/-- The types of floating point numbers, with their values and formats. -/
inductive Scalar.Floating : Scalar → (Nat → Value) → Format → Prop
  | single : Floating .single .single Binary.single
  | double : Floating .double .double Binary.double

namespace Scalar.Floating

variable {c : Scalar} {mk : Nat → Value} {fmt : Format} {r : Registry} {bits : ℕ} {text : String}
  {x : ℚ}

theorem proper (h : Floating c mk fmt) : fmt.Proper := by
  cases h with
  | single => exact Format.single_proper
  | double => exact Format.double_proper

theorem isNumeric (h : Floating c mk fmt) : c.IsNumeric := by
  cases h with
  | single => exact ⟨nofun, nofun⟩
  | double => exact ⟨nofun, nofun⟩

theorem ofNumber?_eq (h : Floating c mk fmt) (text : String) :
    c.ofNumber? text = some (mk (Decimal.parse fmt text)) := by
  cases h with
  | single => rfl
  | double => rfl

theorem writeValue_eq (h : Floating c mk fmt) (bits : ℕ) :
    c.writeValue (mk bits) = onWriter (Writer.float fmt bits) := by
  cases h with
  | single => rfl
  | double => rfl

theorem finite_iff (h : Floating c mk fmt) : (mk bits).Finite ↔ fmt.isFinite bits = true := by
  cases h with
  | single => exact Iff.rfl
  | double => exact Iff.rfl

theorem hasType (h : Floating c mk fmt) (S : Schema) : (mk bits).HasType S (.scalar c) := by
  cases h with
  | single => trivial
  | double => trivial

theorem encode_eq (h : Floating c mk fmt) (S : Schema) :
    (mk bits).encode S (.scalar c) = .number (Decimal.print fmt bits) := by
  cases h with
  | single => rfl
  | double => rfl

/-! ## Writing and reading back -/

/-- A finite number is written as its text. -/
theorem encode (h : Floating c mk fmt) (hv : r.Valid fun S k => ¬S.Needs (.scalar c) k.serves)
    (hsound : r.schema.Sound) (hs : Served r (.scalar c)) (hfinite : fmt.isFinite bits = true) :
    ∃ r', r.encode (.scalar c) (some (mk bits)) = (.ok (Decimal.print fmt bits), r') ∧
      r'.Valid (fun S k => ¬S.Needs (.scalar c) k.serves) ∧ Served r' (.scalar c) :=
  Registry.encode_number hv hsound hs (h.hasType _) (h.finite_iff.2 hfinite) (h.encode_eq _)

/-- The text of a finite number is read as the same bits, unless it is longer than readers take. -/
theorem decode_print (h : Floating c mk fmt)
    (hv : r.Valid fun S k => ¬S.Needs (.scalar c) k.serves) (hs : Served r (.scalar c))
    (hbits : bits < 2 * fmt.signBit) (hfinite : fmt.isFinite bits = true) :
    ((Decimal.print fmt bits).toList.length ≤ 100 →
      (r.decode (.scalar c) (.ofText (Decimal.print fmt bits))).1 = .ok (some (mk bits))) ∧
    (100 < (Decimal.print fmt bits).toList.length → ∃ position,
      (r.decode (.scalar c) (.ofText (Decimal.print fmt bits))).1 =
        .error (.error (.read ⟨.unsupportedNumber (Decimal.print fmt bits), [], position⟩))) := by
  obtain ⟨hread, hrefused⟩ :=
    Registry.decode_number h.isNumeric hv hs (Decimal.print_isNumber fmt bits)
  rw [h.ofNumber?_eq, Decimal.parse_print h.proper hbits hfinite] at hread
  have hiff := Decimal.print_isSupported_iff fmt bits
  refine ⟨fun hlength => hread (hiff.2 hlength), fun hlength => hrefused ?_⟩
  rw [← Bool.not_eq_true, hiff]
  omega

/-- Positive numbers of `single` are neither tiny nor huge. -/
theorem single_range {mag : ℕ} (hpos : mag ≠ 0) (hmag : mag < Binary.single.infinity) :
    (10 : ℚ) ^ (-80 : ℤ) ≤ Binary.single.toRat mag ∧
      Binary.single.toRat mag < 10 ^ (98 : ℤ) := by
  have hlow : 1 / 2 ^ Binary.single.unitExponent ≤ Binary.single.toRat mag := Format.le_toRat hpos
  have hhigh := Format.toRat_lt_overflow hmag
  have hunit : Binary.single.unitExponent = 149 := rfl
  rw [hunit] at hlow
  rw [Format.single_overflow] at hhigh
  exact ⟨le_trans (by norm_num) hlow, hhigh.trans (by norm_num)⟩

/-- Numbers that are no larger than number texts may be are not too large for `double`. -/
theorem le_double_overflow : (10 : ℚ) ^ 199 ≤ Binary.double.overflow := by
  rw [Format.double_overflow]
  calc (10 : ℚ) ^ 199 ≤ 16 ^ 199 := by gcongr; norm_num
    _ = 2 ^ (4 * 199) := by rw [pow_mul]; norm_num
    _ ≤ 2 ^ 970 := pow_le_pow_right₀ one_le_two (by omega)
    _ ≤ (2 ^ 54 - 1) * 2 ^ 970 := le_mul_of_one_le_left (by positivity) (by norm_num)

/-! ## Reading and writing again -/

/-- Any number text is read as the pattern to which its number rounds. -/
theorem read_eq (h : Floating c mk fmt) {s : Session Reader} {r' : Reader} (hs : AtValue s.stream)
    (hnumber : Reader.number s.stream = .ok text r') :
    c.read s = .ok (some (mk (Decimal.parse fmt text))) { s with stream := r' } := by
  have hread := Scalar.read_number h.isNumeric hs hnumber
  rwa [h.ofNumber?_eq] at hread

/-- Finite numbers are written wherever a value is due, and others are refused. -/
theorem writeValue_ends (h : Floating c mk fmt) {s : Session Writer} (hs : s.stream.AtValue)
    (hsink : s.stream.Unbounded) (bits : ℕ) :
    (fmt.isFinite bits = true → ∃ s', c.writeValue (mk bits) s = .ok () s') ∧
    (fmt.isFinite bits = false → c.writeValue (mk bits) s =
      .error (.error (.write s!"non-finite number: {Writer.nonFiniteText fmt bits}")) s) := by
  rw [h.writeValue_eq]
  refine ⟨fun hfinite => ?_, fun hfinite => ?_⟩
  · have hends := Writer.float_ends fmt bits hs
    cases hrun : Writer.float fmt bits s.stream with
    | ok a w' => exact ⟨{ s with stream := w' }, by simp only [onWriter, hrun]⟩
    | error e w' => exact absurd ⟨hfinite, hsink⟩ (hends.error hrun).2
  · have hrun : Writer.float fmt bits s.stream =
        .error (.refused s!"non-finite number: {Writer.nonFiniteText fmt bits}") s.stream := by
      rw [Writer.float, hfinite]
      rfl
    simp only [onWriter, hrun]
    rfl

end Scalar.Floating

variable {c : Scalar} {mk : Nat → Value} {fmt : Format}

/-- A finite number is written, and the text is read as the same bits if it has no more than a
hundred characters; a longer text is refused. All numbers of `single` are read back, and of `double`
zero and the numbers that are neither tiny nor huge; tiny and huge ones are not. -/
theorem Registry.decode_encode_floating (h : c.Floating mk fmt) {r : Registry} {bits : ℕ}
    (hv : r.Valid fun S k => ¬S.Needs (.scalar c) k.serves) (hsound : r.schema.Sound)
    (hs : Served r (.scalar c)) (hbits : bits < 2 * fmt.signBit)
    (hfinite : fmt.isFinite bits = true) :
    ∃ text r', r.encode (.scalar c) (some (mk bits)) = (.ok text, r') ∧
      (text.toList.length ≤ 100 →
        (r'.decode (.scalar c) (.ofText text)).1 = .ok (some (mk bits))) ∧
      (100 < text.toList.length → ∃ position, (r'.decode (.scalar c) (.ofText text)).1 =
        .error (.error (.read ⟨.unsupportedNumber text, [], position⟩))) ∧
      (c = .single ∨ fmt.magnitude bits = 0 ∨
        ((10 : ℚ) ^ (-80 : ℤ) ≤ fmt.toRat (fmt.magnitude bits) ∧
          fmt.toRat (fmt.magnitude bits) < 10 ^ (98 : ℤ)) → text.toList.length ≤ 100) ∧
      ((2 : ℚ) * 10 ^ 100 ≤ fmt.toRat (fmt.magnitude bits) ∨ (fmt.magnitude bits ≠ 0 ∧
        fmt.toRat (fmt.magnitude bits) < 1 / 10 ^ 99) → 100 < text.toList.length) := by
  obtain ⟨r', hencode, hv', hs'⟩ := h.encode hv hsound hs hfinite
  obtain ⟨hread, hrefused⟩ := h.decode_print hv' hs' hbits hfinite
  refine ⟨Decimal.print fmt bits, r', hencode, hread, hrefused, fun hrange => ?_,
    Decimal.lt_length_print h.proper hfinite⟩
  refine Decimal.length_print_le h.proper hfinite ?_
  obtain rfl | hrange := hrange
  -- every `f32` is within the bounds
  · cases h
    by_cases hpos : Binary.single.magnitude bits = 0
    · exact .inl hpos
    · exact .inr (Scalar.Floating.single_range hpos (of_decide_eq_true hfinite))
  · exact hrange

namespace Samples

/-- The least number of `single` is read back. -/
theorem decode_encode_least :
    ∃ text r', (registryOf ["provider"]).encode (.scalar .single) (some (.single 1)) =
        (.ok text, r') ∧
      (r'.decode (.scalar .single) (.ofText text)).1 = .ok (some (.single 1)) := by
  obtain ⟨text, r', hencode, hdecode, -, hlength, -⟩ :=
    Registry.decode_encode_floating .single (r := registryOf ["provider"])
      (registryOf_valid_of_tables (by decide)) schema_sound
      (.of_closed (L := [.scalar .single]) rfl (by decide) (by decide) (by decide))
      (show 1 < 2 * Binary.single.signBit by decide) (by decide)
  exact ⟨text, r', hencode, hdecode (hlength (.inl rfl))⟩

/-- The number `1e300` is finite and is written, and its text of 301 digits is not read. -/
theorem not_decode_large :
    Binary.double.isFinite 0x7E37E43C8800759C = true ∧
    ∃ text r', (registryOf ["provider"]).encode (.scalar .double)
        (some (.double 0x7E37E43C8800759C)) = (.ok text, r') ∧
      ∃ position, (r'.decode (.scalar .double) (.ofText text)).1 =
        .error (.error (.read ⟨.unsupportedNumber text, [], position⟩)) := by
  have hlarge : (2 : ℚ) * 10 ^ 100 ≤
      Binary.double.toRat (Binary.double.magnitude 0x7E37E43C8800759C) := by
    -- the exponent alone makes it large
    have hfield := Format.le_toRat_of_field (show (944 + Binary.double.unitExponent + 1) *
      Binary.double.fractions ≤ Binary.double.magnitude 0x7E37E43C8800759C by decide)
    refine le_trans ?_ hfield
    have hfractions : Binary.double.fractions = 2 ^ 52 := rfl
    rw [hfractions]
    push_cast
    calc (2 : ℚ) * 10 ^ 100 ≤ 2 ^ 52 * 16 ^ 100 := by gcongr <;> norm_num
      _ = 2 ^ 52 * 2 ^ (4 * 100) := by rw [pow_mul]; norm_num
      _ ≤ 2 ^ 52 * 2 ^ 944 := by gcongr <;> norm_num
  have hlong := Decimal.lt_length_print Format.double_proper (by decide) (.inl hlarge)
  have hfinite : Binary.double.isFinite 0x7E37E43C8800759C = true := by decide
  obtain ⟨r', hencode, hv, hs⟩ := Scalar.Floating.double.encode (r := registryOf ["provider"])
    (registryOf_valid_of_tables (by decide)) schema_sound
    (.of_closed (L := [.scalar .double]) rfl (by decide) (by decide) (by decide)) hfinite
  exact ⟨hfinite, _, r', hencode,
    (Scalar.Floating.double.decode_print hv hs (by decide) (by decide)).2 hlong⟩

end Samples

/-- Where a number comes next, it is read as a number of the type, or as an infinity if it is too
large for `single`; it is never refused, and no text that is delivered is too large for `double`.
What was read can be written wherever a value is due, unless it is an infinity. -/
theorem Scalar.read_floating (h : c.Floating mk fmt) {s : Session Reader} {text : String}
    {r' : Reader} (hs : AtValue s.stream) (hnumber : Reader.number s.stream = .ok text r') :
    ∃ x bits, Denotes x text.toList ∧ c.read s = .ok (some (mk bits)) { s with stream := r' } ∧
      bits < 2 * fmt.signBit ∧ fmt.magnitude bits ≤ fmt.infinity ∧
      (fmt.isNegative bits = true ↔ text.toList.head? = some '-') ∧
      (c = .double → fmt.isFinite bits = true) ∧
      (c = .single → (fmt.isFinite bits = true ↔ |x| < (2 ^ 25 - 1) * 2 ^ 103)) ∧
      ∀ s : Session Writer, s.stream.AtValue → s.stream.Unbounded →
        (fmt.isFinite bits = true → ∃ s', c.writeValue (mk bits) s = .ok () s') ∧
        (fmt.isFinite bits = false → c.writeValue (mk bits) s =
          .error (.error (.write s!"non-finite number: {Writer.nonFiniteText fmt bits}")) s) := by
  obtain ⟨x, hx⟩ := Json.denotes_of_isNumber (isNumber_of_number hnumber)
  obtain ⟨hlt, hmagnitude, hnegative, hfinite⟩ := Decimal.parse_spec h.proper hx
  refine ⟨x, Decimal.parse fmt text, hx, h.read_eq hs hnumber, hlt, hmagnitude, hnegative, ?_, ?_,
    fun s hs hsink => h.writeValue_ends hs hsink _⟩
  · intro hc
    -- the reader refuses numbers that are too long or too large, so no `f64` overflows
    have hsmall := hx.abs_lt (Reader.number_eq_ok_iff.1 hnumber).2
    cases h with
    | single => cases hc
    | double => exact hfinite.2 (hsmall.trans_le Scalar.Floating.le_double_overflow)
  · intro hc
    cases h with
    | single => rw [hfinite, Format.single_overflow]
    | double => cases hc

namespace Samples

/-- A number of 99 zeros is read as `double`, and what was read can be written. -/
theorem read_floating_large :
    let start : Session Reader := ⟨registryOf ["provider"], Reader.ofSource (.ofText "1e99")⟩
    ∃ bits s', Scalar.double.read start = .ok (some (.double bits)) s' ∧
      ∃ s'', Scalar.double.writeValue (.double bits)
        ⟨registryOf ["provider"], Writer.ofSink {}⟩ = .ok () s'' := by
  intro start
  have hscan : Json.scanNumber .finished .start "1e99".toList = .ok ("1e99".toList, []) := rfl
  obtain ⟨-, hnumeral, -⟩ := Json.scanNumber_eq_ok_iff.1 hscan
  obtain ⟨r', hnumber⟩ := number_ofText hnumeral (by decide)
  obtain ⟨x, bits, -, hread, -, -, -, hfinite, -, hwrite⟩ := Scalar.read_floating .double
    (s := start) (Reader.ofSource_atValue _) hnumber
  obtain ⟨haccepted, -⟩ :=
    hwrite ⟨registryOf ["provider"], Writer.ofSink {}⟩ (Writer.ofSink_atValue {}) ⟨rfl, rfl⟩
  exact ⟨bits, _, hread, haccepted (hfinite rfl)⟩

/-- A number that is too large for `single` is read as infinity, which is not written again. -/
theorem read_infinity :
    let start : Session Reader := ⟨registryOf ["provider"], Reader.ofSource (.ofText "1e39")⟩
    (∃ s', Scalar.single.read start = .ok (some (.single 0x7F800000)) s') ∧
    Binary.single.isFinite 0x7F800000 = false ∧
    ∃ s', Scalar.single.writeValue (.single 0x7F800000)
        ⟨registryOf ["provider"], Writer.ofSink {}⟩ =
      .error (.error (.write "non-finite number: inf")) s' := by
  intro start
  have hscan : Json.scanNumber .finished .start "1e39".toList = .ok ("1e39".toList, []) := rfl
  obtain ⟨-, hnumeral, -⟩ := Json.scanNumber_eq_ok_iff.1 hscan
  obtain ⟨r', hnumber⟩ := number_ofText hnumeral (by decide)
  have hread := Scalar.Floating.single.read_eq (s := start) (Reader.ofSource_atValue _) hnumber
  -- beyond the greatest `f32`, rounding gives infinity
  have hparse : Decimal.parse Binary.single "1e39" = 0x7F800000 := by decide
  obtain ⟨-, hrefused⟩ := Scalar.Floating.single.writeValue_ends
    (s := ⟨registryOf ["provider"], Writer.ofSink {}⟩) (Writer.ofSink_atValue {}) ⟨rfl, rfl⟩
    0x7F800000
  rw [hparse] at hread
  exact ⟨⟨_, hread⟩, by decide, _, hrefused (by decide)⟩

end Samples

end JsonAdapters
