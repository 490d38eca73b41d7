/-!
# UTF-8

Bytes are decoded to characters up to the first byte sequence that encodes none. Overlong forms,
surrogates and values above U+10FFFF encode no character.

## Main definitions

* `Utf8.Fault`: where decoding stopped and how many bytes cannot be part of any character there.
* `Utf8.decode`: the characters before the first fault, and the fault.
-/

namespace JsonAdapters.Utf8

/-- The place where bytes stop being UTF-8. -/
structure Fault where
  /-- Bytes before the fault. -/
  index : Nat
  /-- How many bytes are wrong; `none` when the text ends inside a character. -/
  length : Option Nat
deriving DecidableEq, Repr

namespace Fault

def message (f : Fault) : String :=
  match f.length with
  | some n => s!"invalid utf-8 sequence of {n} bytes from index {f.index}"
  | none => s!"incomplete utf-8 byte sequence from index {f.index}"

end Fault

def isContinuation (b : UInt8) : Bool :=
  0x80 ≤ b && b ≤ 0xBF

/-- Whether `b` may follow the lead byte `lead` of a character of three or four bytes. -/
def isSecond (lead b : UInt8) : Bool :=
  if lead == 0xE0 then 0xA0 ≤ b && b ≤ 0xBF
  else if lead == 0xED then 0x80 ≤ b && b ≤ 0x9F
  else if lead == 0xF0 then 0x90 ≤ b && b ≤ 0xBF
  else if lead == 0xF4 then 0x80 ≤ b && b ≤ 0x8F
  else isContinuation b

def payload (b : UInt8) : Nat :=
  b.toNat % 64

/-- Characters up to the first fault; `index` counts the bytes already passed. -/
def decodeFrom (index : Nat) : List UInt8 → List Char × Option Fault
  | [] => ([], none)
  | b :: r =>
    if b < 0x80 then
      let (cs, f) := decodeFrom (index + 1) r
      (Char.ofNat b.toNat :: cs, f)
    -- continuation bytes, overlong forms and what is beyond the last code point
    else if b < 0xC2 || 0xF4 < b then
      ([], some ⟨index, some 1⟩)
    else match r with
      | [] => ([], some ⟨index, none⟩)
      | b₁ :: r₁ =>
        if b < 0xE0 then
          if isContinuation b₁ then
            let (cs, f) := decodeFrom (index + 2) r₁
            (Char.ofNat (b.toNat % 32 * 64 + payload b₁) :: cs, f)
          else ([], some ⟨index, some 1⟩)
        -- the second byte excludes overlong forms, surrogates and what is too large
        else if !isSecond b b₁ then
          ([], some ⟨index, some 1⟩)
        else match r₁ with
          | [] => ([], some ⟨index, none⟩)
          | b₂ :: r₂ =>
            if !isContinuation b₂ then
              ([], some ⟨index, some 2⟩)
            else if b < 0xF0 then
              let (cs, f) := decodeFrom (index + 3) r₂
              (Char.ofNat ((b.toNat % 16 * 64 + payload b₁) * 64 + payload b₂) :: cs, f)
            else match r₂ with
              | [] => ([], some ⟨index, none⟩)
              | b₃ :: r₃ =>
                if isContinuation b₃ then
                  let (cs, f) := decodeFrom (index + 4) r₃
                  (Char.ofNat (((b.toNat % 8 * 64 + payload b₁) * 64 + payload b₂) * 64 +
                    payload b₃) :: cs, f)
                else ([], some ⟨index, some 3⟩)

/-- The characters that `bytes` encode, up to the first fault. -/
def decode (bytes : List UInt8) : List Char × Option Fault :=
  decodeFrom 0 bytes

end JsonAdapters.Utf8
