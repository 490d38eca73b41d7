import JsonAdapters.Adapter.Scalar
import JsonAdapters.Proofs.Json.Grammar

/-!
# Texts that writers print

What a writer prints for a string, an integer or a floating point number is a text of the grammar.
Integers that are printed are read back.

## Main statements

* `Json.quote_spells`.
* `integer_isNumber`, `integerOf?_toString`.
* `Decimal.print_isNumber`.
-/

namespace JsonAdapters

namespace Json

/-! ## Strings -/

theorem hexValue?_hexDigit : ∀ n < 16, hexValue? (hexDigit n) = some n := by
  decide

/-- A control character is spelled by its number. -/
theorem spellsEscape_control {c : Char} (h : c.toNat < 0x20) :
    SpellsEscape c ['u', '0', '0', hexDigit (c.toNat / 16), hexDigit (c.toNat % 16)] := by
  have hunit : SpellsUnit c.toNat ['0', '0', hexDigit (c.toNat / 16), hexDigit (c.toNat % 16)] := by
    refine ⟨_, _, _, _, 0, 0, c.toNat / 16, c.toNat % 16, rfl, rfl, rfl,
      hexValue?_hexDigit _ (by omega), hexValue?_hexDigit _ (Nat.mod_lt _ (by omega)), ?_⟩
    omega
  have hhigh : isHighSurrogate c.toNat = false := by
    simp only [isHighSurrogate, Bool.and_eq_false_iff, decide_eq_false_iff_not]
    omega
  have hlow : isLowSurrogate c.toNat = false := by
    simp only [isLowSurrogate, Bool.and_eq_false_iff, decide_eq_false_iff_not]
    omega
  have hescape := SpellsEscape.unit hunit hhigh hlow
  rwa [Char.ofNat_toNat] at hescape

theorem escapeChar_spells {c : Char} {cs text : List Char} (h : SpellsText cs text) :
    SpellsText (c :: cs) (escapeChar c ++ text) := by
  unfold escapeChar
  have hletter {letter : Char} (hl : plainEscape? letter = some c) :
      SpellsText (c :: cs) (['\\', letter] ++ text) := .escaped (.letter hl) h
  -- seven characters have letters of their own
  iterate 7
    split
    · next hc =>
      subst hc
      exact hletter rfl
  split
  · next hc => exact .escaped (spellsEscape_control hc) h
  · next hquote hslash _ _ _ _ _ hc => exact .plain hquote hslash (Nat.le_of_not_lt hc) h

/-- The quoted form of a string spells it. -/
theorem quote_spells (s : String) : SpellsString s (quote s).toList := by
  have hgo (cs : List Char) : SpellsText cs (cs.flatMap escapeChar) := by
    induction cs with
    | nil => exact .nil
    | cons c cs ih => exact escapeChar_spells ih
  exact ⟨s.toList.flatMap escapeChar, by rw [quote, String.toList_ofList], hgo s.toList⟩

/-! ## Whole numbers -/

theorem allDigits_toDigits (n : Nat) : AllDigits (Nat.toDigits 10 n) :=
  fun _ hc => Nat.isDigit_of_mem_toDigits (by omega) (by omega) hc

theorem isLeading_digitChar : ∀ n < 10, n ≠ 0 → NumberState.isLeading n.digitChar = true := by
  decide

/-- Digits of a number start with another digit than zero. -/
theorem toDigits_leading (n : Nat) (h : n ≠ 0) :
    ∃ d ds, Nat.toDigits 10 n = d :: ds ∧ NumberState.isLeading d = true := by
  -- the last digit is dropped until it is the only one
  induction n using Nat.strongRecOn with
  | ind n ih =>
    by_cases hn : n < 10
    · exact ⟨n.digitChar, [], Nat.toDigits_of_lt_base hn, isLeading_digitChar n hn h⟩
    · obtain ⟨d, ds, hd, hlead⟩ := ih (n / 10) (by omega) (by omega)
      rw [Nat.toDigits_of_base_le (by omega) (by omega), hd]
      exact ⟨d, _, List.cons_append, hlead⟩

theorem isWhole_toDigits (n : Nat) : IsWhole (Nat.toDigits 10 n) := by
  by_cases h : n = 0
  · exact .inl (h ▸ Nat.toDigits_zero 10)
  · obtain ⟨d, ds, hd, hlead⟩ := toDigits_leading n h
    refine .inr ⟨d, ds, hd, hlead, fun c hc => allDigits_toDigits n c ?_⟩
    rw [hd]
    exact List.mem_cons_of_mem _ hc

theorem IsWhole.isUnsigned {cs : List Char} (h : IsWhole cs) : IsUnsigned cs :=
  ⟨cs, [], [], by simp, h, .inl rfl, .inl rfl⟩

end Json

open Json

/-- Text of an integer: its digits, behind a minus sign if it is negative. -/
theorem toList_toString (n : Int) : (toString n).toList =
    if 0 ≤ n then Nat.toDigits 10 n.toNat else '-' :: Nat.toDigits 10 (-n).toNat := by
  rw [Int.toString_eq_repr, Int.repr_eq_if]
  split
  · exact Nat.toList_repr
  · rw [String.toList_append, Nat.toList_repr]
    rfl

theorem integer_isNumber (n : Int) : IsNumber (toString n).toList := by
  rw [toList_toString]
  split
  · exact .inl (isWhole_toDigits _).isUnsigned
  · exact .inr ⟨_, rfl, (isWhole_toDigits _).isUnsigned⟩

theorem digitsValue_toDigits (n : Nat) : Decimal.digitsValue (Nat.toDigits 10 n) = n :=
  Nat.ofDigitChars_ten_toDigits

theorem integerOf?_digits {ds : List Char} (h : ds.all Char.isDigit = true) :
    integerOf? ds = some (Decimal.digitsValue ds : Int) := by
  unfold integerOf?
  split
  · cases h
  · exact if_pos h

/-- An integer is read from its text. -/
theorem integerOf?_toString (n : Int) : integerOf? (toString n).toList = some n := by
  have hall (k : Nat) : (Nat.toDigits 10 k).all Char.isDigit = true :=
    List.all_eq_true.2 fun c hc => allDigits_toDigits k c hc
  rw [toList_toString]
  split
  · next h => rw [integerOf?_digits (hall _), digitsValue_toDigits, Int.toNat_of_nonneg h]
  · next h =>
    rw [integerOf?, if_pos (hall _), digitsValue_toDigits]
    congr 1
    omega

/-- Text of a number of at most 64 bits keeps to the limits of number texts. -/
theorem integer_isSupported {n : Int} (hleast : -Binary.twoPow 64 ≤ n)
    (hgreatest : n ≤ Binary.twoPow 64) : isSupported (toString n).toList = true := by
  -- there are twenty digits at most, and no exponent
  have hdigits (k : Nat) (hk : k ≤ Binary.twoPow 64) : (Nat.toDigits 10 k).length ≤ 20 := by
    rw [Nat.length_toDigits_le_iff (by omega) (by omega)]
    exact Nat.lt_of_le_of_lt hk (by decide)
  have hlength : (toString n).toList.length ≤ 100 := by
    rw [toList_toString]
    split
    · have := hdigits n.toNat (by omega)
      omega
    · have := hdigits (-n).toNat (by omega)
      rw [List.length_cons]
      omega
  have hexponent : exponentDigits (toString n).toList = [] := by
    have hall : ∀ c ∈ (toString n).toList, (c != 'e' && c != 'E') = true := by
      have hdigit {c : Char} (hc : c.isDigit = true) : (c != 'e' && c != 'E') = true := by
        rw [Bool.and_eq_true, bne_iff_ne, bne_iff_ne]
        constructor <;> rintro rfl <;> exact absurd hc (by decide)
      rw [toList_toString]
      split
      · exact fun c hc => hdigit (allDigits_toDigits _ c hc)
      · intro c hc
        obtain rfl | hc := List.mem_cons.1 hc
        · rfl
        · exact hdigit (allDigits_toDigits _ c hc)
    have hdrop : ((toString n).toList ++ []).dropWhile (fun c => c != 'e' && c != 'E') = [] :=
      List.dropWhile_append_of_pos hall
    rw [List.append_nil] at hdrop
    rw [exponentDigits, hdrop]
    rfl
  rw [isSupported, hexponent, decide_eq_true hlength]
  rfl

/-! ## Floating point numbers -/

namespace Decimal

/-- Digits with as many zeros in front that one stands before the point. -/
def padded (places : Nat) (digits : List Char) : List Char :=
  List.replicate (places + 1 - digits.length) '0' ++ digits

theorem padded_allDigits {places n : Nat} : AllDigits (padded places (Nat.toDigits 10 n)) := by
  intro c hc
  obtain hc | hc := List.mem_append.1 hc
  · rw [List.eq_of_mem_replicate hc]
    rfl
  · exact allDigits_toDigits n c hc

/-- What stands before the point is a whole number. -/
theorem padded_isWhole {places n : Nat} (h : 0 < places) :
    let ds := padded places (Nat.toDigits 10 n)
    IsWhole (ds.take (ds.length - places)) := by
  by_cases hlength : (Nat.toDigits 10 n).length ≤ places
  · -- there is one digit before the point, and it is a zero
    obtain ⟨k, hk⟩ : ∃ k, places + 1 - (Nat.toDigits 10 n).length = k + 1 :=
      ⟨places - (Nat.toDigits 10 n).length, by omega⟩
    have hone : (padded places (Nat.toDigits 10 n)).length - places = 1 := by
      rw [padded, List.length_append, List.length_replicate]
      omega
    refine .inl ?_
    rw [hone, padded, hk, List.replicate_succ]
    rfl
  · have hnone : places + 1 - (Nat.toDigits 10 n).length = 0 := by omega
    have hn : n ≠ 0 := by
      rintro rfl
      rw [Nat.toDigits_zero] at hlength
      exact hlength h
    obtain ⟨d, ds, hd, hlead⟩ := toDigits_leading n hn
    have hall := allDigits_toDigits n
    simp only [padded, hnone, List.replicate_zero, List.nil_append]
    rw [hd] at hlength hall ⊢
    obtain ⟨k, hk⟩ : ∃ k, (d :: ds).length - places = k + 1 :=
      ⟨(d :: ds).length - places - 1, by omega⟩
    rw [hk, List.take_succ_cons]
    exact .inr ⟨d, ds.take k, rfl, hlead,
      fun c hc => hall c (List.mem_cons_of_mem _ (List.mem_of_mem_take hc))⟩

/-- Positional text is a number without sign. -/
theorem text_isUnsigned (d : Decimal) : IsUnsigned d.text.toList := by
  unfold text
  generalize d.trim d.exponent.natAbs = d
  have hdigits : (toString d.coefficient).toList = Nat.toDigits 10 d.coefficient := Nat.toList_repr
  simp only [hdigits]
  -- a power of ten that is not negative puts zeros behind the digits, and no point
  split
  · split
    · exact IsWhole.isUnsigned (.inl rfl)
    · next h =>
      obtain ⟨c, cs, hd, hlead⟩ := toDigits_leading _ h
      have hall := allDigits_toDigits d.coefficient
      rw [hd] at hall ⊢
      rw [String.toList_ofList]
      refine IsWhole.isUnsigned (.inr ⟨c, _, List.cons_append, hlead, fun c' hc' => ?_⟩)
      obtain hc' | hc' := List.mem_append.1 hc'
      · exact hall c' (List.mem_cons_of_mem _ hc')
      · rw [List.eq_of_mem_replicate hc']
        rfl
  · next h =>
    have hplaces : 0 < (-d.exponent).toNat := by omega
    rw [String.toList_ofList]
    let ds := padded (-d.exponent).toNat (Nat.toDigits 10 d.coefficient)
    let whole := ds.length - (-d.exponent).toNat
    refine ⟨ds.take whole, '.' :: ds.drop whole, [], ?_, padded_isWhole hplaces,
      .inr ⟨_, rfl, ?_, ?_⟩, .inl rfl⟩
    · rw [List.append_nil]
      rfl
    · intro hnil
      have hlength := congrArg List.length hnil
      simp only [whole, ds, padded, List.length_drop, List.length_append, List.length_replicate,
        List.length_nil] at hlength
      omega
    · exact fun c hc => padded_allDigits c (List.mem_of_mem_drop hc)

theorem print_isNumber (fmt : Binary.Format) (bits : Nat) : IsNumber (print fmt bits).toList := by
  rw [print]
  split
  · exact .inr ⟨_, by rw [String.toList_append]; rfl, text_isUnsigned _⟩
  · exact .inl (text_isUnsigned _)

end Decimal

end JsonAdapters
