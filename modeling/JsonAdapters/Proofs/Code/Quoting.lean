import JsonAdapters.Code.Literal
import Mathlib.Tactic.Common

/-!
# Quoting

A text that is quoted becomes a string literal. What the literal stands for is the text again,
whichever characters had to be escaped: each step of reading takes one escaped character and leaves
the rest of the literal.

## Main statements

* `Code.cookedText_escapeCodeText`: reading up to the closing quote undoes escaping.
* `Code.stringValue_quoted`: a quoted text stands for itself.
-/

namespace JsonAdapters.Code

/-! ## Numbers of characters -/

theorem hexValue?_digitChar : ∀ d < 16, Json.hexValue? (Nat.digitChar d) = some d := by decide

theorem hexNumber_append (cs : List Char) {c : Char} {d : Nat} (h : Json.hexValue? c = some d) :
    hexNumber (cs ++ [c]) = 16 * hexNumber cs + d := by
  simp [hexNumber, List.foldl_append, h]

theorem hexNumber_hexText (n : Nat) : hexNumber (hexText n) = n := by
  induction n using Nat.strongRecOn with
  | ind n ih =>
    rw [hexText]
    by_cases h : n < 16
    · rw [Nat.toDigits_of_lt_base h]
      simpa [hexNumber] using hexNumber_append [] (hexValue?_digitChar n h)
    · have hrest : hexNumber (Nat.toDigits 16 (n / 16)) = n / 16 := ih (n / 16) (by omega)
      rw [Nat.toDigits_of_base_le (by omega) (by omega),
        hexNumber_append _ (hexValue?_digitChar _ (Nat.mod_lt n (by omega))), hrest]
      omega

/-- Numbers are written in hexadecimal digits. -/
theorem isSome_hexValue?_of_mem_hexText {n : Nat} {c : Char} (h : c ∈ hexText n) :
    (Json.hexValue? c).isSome := by
  induction n using Nat.strongRecOn with
  | ind n ih =>
    rw [hexText] at h
    by_cases hn : n < 16
    · rw [Nat.toDigits_of_lt_base hn, List.mem_singleton] at h
      rw [h, hexValue?_digitChar n hn]
      rfl
    · rw [Nat.toDigits_of_base_le (by omega) (by omega), List.mem_append,
        List.mem_singleton] at h
      obtain h | rfl := h
      · exact ih (n / 16) (by omega) h
      · rw [hexValue?_digitChar _ (Nat.mod_lt n (by omega))]
        rfl

theorem ne_brace_of_mem_hexText {n : Nat} {c : Char} (h : c ∈ hexText n) : c ≠ '}' := by
  rintro rfl
  exact absurd (isSome_hexValue?_of_mem_hexText h) (by decide)

/-! ## Single characters -/

/-- An escape by number gives the character back. -/
theorem cookedText_escapeByNumber (n : Nat) (c : Char) (r : List Char) :
    cookedText (n + 1) (escapeByNumber c ++ r) = c :: cookedText n r := by
  have hdigits : (hexText c.toNat ++ '}' :: r).takeWhile (fun d => decide (d ≠ '}')) =
      hexText c.toNat := by
    rw [List.takeWhile_append_of_pos fun d hd => decide_eq_true (ne_brace_of_mem_hexText hd)]
    simp
  have hrest : (hexText c.toNat ++ '}' :: r).drop ((hexText c.toNat).length + 1) = r := by
    simp [List.drop_append]
  have hsplit : escapeByNumber c ++ r = '\\' :: 'u' :: '{' :: (hexText c.toNat ++ '}' :: r) := by
    simp [escapeByNumber]
  rw [hsplit, cookedText]
  simp only [hdigits, hrest, hexNumber_hexText, Char.ofNat_toNat]
  rfl

/-- Reading takes one escaped character and leaves the rest. -/
theorem cookedText_escapeCodeChar (n : Nat) (c : Char) (next : Option Char) (r : List Char) :
    cookedText (n + 1) (escapeCodeChar c next ++ r) = c :: cookedText n r := by
  -- one case for each character with an escape of its own
  unfold escapeCodeChar
  split
  · next hzero =>
    have hc : c = Char.ofNat 0 := by rw [← hzero, Char.ofNat_toNat]
    subst hc
    split <;> rfl
  split
  · next h => subst h; rfl
  split
  · next h => subst h; rfl
  split
  · next h => subst h; rfl
  split
  · next h => subst h; rfl
  split
  · next h => subst h; rfl
  split
  · exact cookedText_escapeByNumber n c r
  split
  · next hreturn _ hquote hslash _ _ => simp [cookedText, hreturn, hquote, hslash]
  · exact cookedText_escapeByNumber n c r

/-! ## Texts -/

theorem escapeCodeChar_ne_nil (c : Char) (next : Option Char) : escapeCodeChar c next ≠ [] := by
  unfold escapeCodeChar escapeByNumber
  split_ifs <;> simp

theorem length_le_escapeCodeText (cs : List Char) : cs.length ≤ (escapeCodeText cs).length := by
  induction cs with
  | nil => exact Nat.zero_le _
  | cons c cs ih =>
    have hpos := List.length_pos_iff.2 (escapeCodeChar_ne_nil c cs.head?)
    rw [escapeCodeText, List.length_append, List.length_cons]
    omega

theorem cookedText_escapeCodeText {n : Nat} {cs : List Char} (r : List Char)
    (hn : cs.length < n) : cookedText n (escapeCodeText cs ++ '"' :: r) = cs := by
  induction cs generalizing n with
  | nil =>
    obtain ⟨n, rfl⟩ := Nat.exists_eq_succ_of_ne_zero (Nat.ne_of_gt hn)
    simp [escapeCodeText, cookedText]
  | cons c cs ih =>
    obtain ⟨n, rfl⟩ := Nat.exists_eq_succ_of_ne_zero (Nat.ne_of_gt (Nat.zero_lt_of_lt hn))
    rw [escapeCodeText, List.append_assoc, cookedText_escapeCodeChar,
      ih (Nat.lt_of_succ_lt_succ hn)]

/-- A quoted text stands for itself. -/
theorem stringValue_quoted (s : String) : stringValue (quoted s) = s := by
  have hlength := length_le_escapeCodeText s.toList
  rw [quoted, stringValue, String.toList_ofList]
  simp only
  rw [cookedText_escapeCodeText [] (by simp; omega), String.ofList_toList]

end JsonAdapters.Code
