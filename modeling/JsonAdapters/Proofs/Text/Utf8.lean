import JsonAdapters.Text.Utf8
import Mathlib.Tactic.SplitIfs

/-!
# Text as bytes

The bytes of a text are UTF-8, so that decoding them gives the text back, without a fault.

## Main statements

* `Utf8.decodeFrom_encodeChar`: one character.
* `Utf8.decode_toUTF8`: a whole text.
-/

namespace JsonAdapters.Utf8

theorem toNat_ofNat {n : Nat} (h : n < 256) : (UInt8.ofNat n).toNat = n :=
  UInt8.toNat_ofNat_of_lt' h

theorem isContinuation_iff {b : UInt8} :
    isContinuation b = true ↔ 0x80 ≤ b.toNat ∧ b.toNat ≤ 0xBF := by
  simp [isContinuation, UInt8.le_iff_toNat_le]

theorem isSecond_iff {lead b : UInt8} : isSecond lead b = true ↔
    0x80 ≤ b.toNat ∧ b.toNat ≤ 0xBF ∧ (lead.toNat = 0xE0 → 0xA0 ≤ b.toNat) ∧
      (lead.toNat = 0xED → b.toNat ≤ 0x9F) ∧ (lead.toNat = 0xF0 → 0x90 ≤ b.toNat) ∧
      (lead.toNat = 0xF4 → b.toNat ≤ 0x8F) := by
  have hlead (n : UInt8) : (lead == n) = true ↔ lead.toNat = n.toNat := by
    rw [beq_iff_eq, UInt8.toNat_inj]
  simp only [isSecond, hlead, isContinuation]
  split <;> simp [UInt8.le_iff_toNat_le] at * <;> grind

variable {i : Nat} {b b₁ b₂ b₃ : UInt8} {rest : List UInt8}

theorem decodeFrom_one (h : b.toNat < 0x80) : decodeFrom i (b :: rest) =
    (Char.ofNat b.toNat :: (decodeFrom (i + 1) rest).1, (decodeFrom (i + 1) rest).2) := by
  have hb : b < 0x80 := UInt8.lt_iff_toNat_lt.2 h
  simp only [decodeFrom.eq_def i (b :: rest), hb, if_true]

/-- The first byte of a character of more than one byte. -/
theorem lead_of_le (h : 0xC2 ≤ b.toNat) (h' : b.toNat ≤ 0xF4) :
    ¬b < 0x80 ∧ ¬(b < 0xC2 ∨ 0xF4 < b) := by
  simp only [UInt8.lt_iff_toNat_lt, UInt8.reduceToNat]
  omega

theorem decodeFrom_two (h : 0xC2 ≤ b.toNat) (h' : b.toNat < 0xE0)
    (h₁ : isContinuation b₁ = true) : decodeFrom i (b :: b₁ :: rest) =
    (Char.ofNat (b.toNat % 32 * 64 + payload b₁) :: (decodeFrom (i + 2) rest).1,
      (decodeFrom (i + 2) rest).2) := by
  obtain ⟨hone, hlead⟩ := lead_of_le h (by omega)
  have hb : b < 0xE0 := UInt8.lt_iff_toNat_lt.2 h'
  simp [decodeFrom.eq_def i (b :: b₁ :: rest), hone, hlead, hb, h₁]

theorem decodeFrom_three (h : 0xE0 ≤ b.toNat) (h' : b.toNat < 0xF0)
    (h₁ : isSecond b b₁ = true) (h₂ : isContinuation b₂ = true) :
    decodeFrom i (b :: b₁ :: b₂ :: rest) =
      (Char.ofNat ((b.toNat % 16 * 64 + payload b₁) * 64 + payload b₂) ::
        (decodeFrom (i + 3) rest).1, (decodeFrom (i + 3) rest).2) := by
  obtain ⟨hone, hlead⟩ := lead_of_le (b := b) (by omega) (by omega)
  have htwo : ¬b < 0xE0 := fun hb => absurd (UInt8.lt_iff_toNat_lt.1 hb) (Nat.not_lt.2 h)
  have hb : b < 0xF0 := UInt8.lt_iff_toNat_lt.2 h'
  simp [decodeFrom.eq_def i (b :: b₁ :: b₂ :: rest), hone, hlead, htwo, hb, h₁, h₂]

theorem decodeFrom_four (h : 0xF0 ≤ b.toNat) (h' : b.toNat ≤ 0xF4)
    (h₁ : isSecond b b₁ = true) (h₂ : isContinuation b₂ = true) (h₃ : isContinuation b₃ = true) :
    decodeFrom i (b :: b₁ :: b₂ :: b₃ :: rest) =
      (Char.ofNat (((b.toNat % 8 * 64 + payload b₁) * 64 + payload b₂) * 64 + payload b₃) ::
        (decodeFrom (i + 4) rest).1, (decodeFrom (i + 4) rest).2) := by
  obtain ⟨hone, hlead⟩ := lead_of_le (b := b) (by omega) h'
  have hmore : ¬b < 0xE0 ∧ ¬b < 0xF0 := by
    simp only [UInt8.lt_iff_toNat_lt, UInt8.reduceToNat]
    omega
  simp [decodeFrom.eq_def i (b :: b₁ :: b₂ :: b₃ :: rest), hone, hlead, hmore, h₁, h₂, h₃]

theorem payload_ofNat {n : Nat} (h : n < 256) : payload (UInt8.ofNat n) = n % 64 := by
  rw [payload, toNat_ofNat h]

/-- Six bits of a character, in a byte that continues it. -/
theorem isContinuation_ofNat (n : Nat) : isContinuation (UInt8.ofNat (n % 64 + 128)) = true := by
  rw [isContinuation_iff, toNat_ofNat (by omega)]
  omega

/-- The bytes of a character are decoded as the character, whatever follows them. -/
theorem decodeFrom_encodeChar (i : Nat) (c : Char) (rest : List UInt8) :
    decodeFrom i (String.utf8EncodeChar c ++ rest) =
      (c :: (decodeFrom (i + c.utf8Size) rest).1, (decodeFrom (i + c.utf8Size) rest).2) := by
  rw [← String.length_utf8EncodeChar]
  have hchar {n : Nat} (h : n = c.toNat) : Char.ofNat n = c := h ▸ Char.ofNat_toNat c
  have hvalid : c.toNat < 0xD800 ∨ 0xDFFF < c.toNat ∧ c.toNat < 0x110000 := c.valid
  rw [String.utf8EncodeChar]
  simp only [show c.val.toNat = c.toNat from rfl]
  -- as many bytes as the size of the character asks for
  split_ifs with hone htwo hthree
  · have hb := toNat_ofNat (n := c.toNat) (by omega)
    rw [List.singleton_append, decodeFrom_one (by omega), hb, hchar rfl]
    rfl
  · have hb := toNat_ofNat (n := c.toNat / 64 % 32 + 192) (by omega)
    rw [List.cons_append, List.singleton_append,
      decodeFrom_two (by omega) (by omega) (isContinuation_ofNat _), hb,
      payload_ofNat (by omega), hchar (by omega)]
    rfl
  · have hb := toNat_ofNat (n := c.toNat / 4096 % 16 + 224) (by omega)
    have hsecond : isSecond (UInt8.ofNat (c.toNat / 4096 % 16 + 224))
        (UInt8.ofNat (c.toNat / 64 % 64 + 128)) = true := by
      rw [isSecond_iff, hb, toNat_ofNat (by omega)]
      omega
    rw [List.cons_append, List.cons_append, List.singleton_append,
      decodeFrom_three (by omega) (by omega) hsecond (isContinuation_ofNat _), hb,
      payload_ofNat (by omega), payload_ofNat (by omega), hchar (by omega)]
    rfl
  · have hb := toNat_ofNat (n := c.toNat / 262144 % 8 + 240) (by omega)
    have hsecond : isSecond (UInt8.ofNat (c.toNat / 262144 % 8 + 240))
        (UInt8.ofNat (c.toNat / 4096 % 64 + 128)) = true := by
      rw [isSecond_iff, hb, toNat_ofNat (by omega)]
      omega
    rw [List.cons_append, List.cons_append, List.cons_append, List.singleton_append,
      decodeFrom_four (by omega) (by omega) hsecond (isContinuation_ofNat _)
        (isContinuation_ofNat _), hb,
      payload_ofNat (by omega), payload_ofNat (by omega), payload_ofNat (by omega),
      hchar (by omega)]
    rfl

theorem decodeFrom_flatMap (cs : List Char) (i : Nat) :
    decodeFrom i (cs.flatMap String.utf8EncodeChar) = (cs, none) := by
  induction cs generalizing i with
  | nil => simp [decodeFrom]
  | cons c cs ih => rw [List.flatMap_cons, decodeFrom_encodeChar, ih]

theorem toList_loop (bs : ByteArray) (i : Nat) (r : List UInt8) :
    ByteArray.toList.loop bs i r = r.reverse ++ bs.data.toList.drop i := by
  fun_induction ByteArray.toList.loop bs i r with
  | case1 i r h ih =>
    have hi : i < bs.data.toList.length := h
    have hget : bs.get! i = bs.data.toList[i] := getElem!_pos bs.data i h
    rw [ih, List.drop_eq_getElem_cons hi, List.reverse_cons, List.append_assoc, hget]
    rfl
  | case2 i r h => rw [List.drop_eq_nil_of_le (Nat.not_lt.1 h), List.append_nil]

theorem toList_eq_data (bs : ByteArray) : bs.toList = bs.data.toList := by
  rw [ByteArray.toList, toList_loop, List.reverse_nil, List.nil_append, List.drop_zero]

theorem length_toUTF8 (text : String) : text.toUTF8.toList.length = text.utf8ByteSize := by
  rw [toList_eq_data]
  rfl

theorem toList_toUTF8 (text : String) :
    text.toUTF8.toList = text.toList.flatMap String.utf8EncodeChar := by
  have hbytes : (String.ofList text.toList).toByteArray = text.toList.utf8Encode :=
    String.toByteArray_ofList
  rw [String.ofList_toList] at hbytes
  rw [toList_eq_data, String.toUTF8, hbytes, List.utf8Encode, List.toList_data_toByteArray]

/-- The bytes of a text are decoded as the text. -/
theorem decode_toUTF8 (text : String) : decode text.toUTF8.toList = (text.toList, none) := by
  rw [toList_toUTF8, decode, decodeFrom_flatMap]

end JsonAdapters.Utf8
