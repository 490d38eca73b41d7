/-!
# Binary floating point

A format is given by the number of significant bits and of exponent bits. Values are bit patterns;
a finite magnitude is `significand · 2 ^ shift` units of the smallest positive number.

## Main definitions

* `Binary.Format`, with the two formats `single` and `double`.
* `Binary.Format.ofRatio`: the bit pattern nearest to a fraction, ties to the even significand.
* `Binary.Format.significand`, `Binary.Format.shift`: the parts of a finite magnitude.
-/

namespace JsonAdapters.Binary

def twoPow (n : Nat) : Nat := Nat.pow 2 n

/-- A binary interchange format. -/
structure Format where
  /-- Significant bits, the leading one included. -/
  precision : Nat
  /-- Bits of the exponent field. -/
  exponentBits : Nat
deriving DecidableEq, Repr

def single : Format := ⟨24, 8⟩

def double : Format := ⟨53, 11⟩

namespace Format

variable (fmt : Format)

def fractionBits : Nat := fmt.precision - 1

/-- The pattern of positive infinity; larger magnitudes are not numbers. -/
def infinity : Nat := (twoPow fmt.exponentBits - 1) * twoPow fmt.fractionBits

def signBit : Nat := twoPow (fmt.exponentBits + fmt.fractionBits)

/-- The smallest positive number is `2 ^ -(unitExponent)`. -/
def unitExponent : Nat := twoPow (fmt.exponentBits - 1) + fmt.fractionBits - 2

def isNegative (bits : Nat) : Bool := fmt.signBit ≤ bits

def magnitude (bits : Nat) : Nat := bits % fmt.signBit

/-- Whether the pattern is a number other than an infinity. -/
def isFinite (bits : Nat) : Bool := fmt.magnitude bits < fmt.infinity

def exponentField (mag : Nat) : Nat := mag / twoPow fmt.fractionBits

/-- Integer significand of a finite magnitude; the hidden bit is set for normal numbers. -/
def significand (mag : Nat) : Nat :=
  if fmt.exponentField mag = 0 then mag
  else mag % twoPow fmt.fractionBits + twoPow fmt.fractionBits

/-- Power of two by which the significand is scaled. -/
def shift (mag : Nat) : Nat := fmt.exponentField mag - 1

/-- Quotient rounded to the nearest integer, a tie to the even one. -/
def roundHalfEven (num den : Nat) : Nat :=
  let q := num / den
  let r := num % den
  if 2 * r < den then q
  else if den < 2 * r then q + 1
  else q + q % 2

def bitLength (n : Nat) : Nat := if n = 0 then 0 else n.log2 + 1

/-- Magnitude nearest to `num / den`; what is too large becomes infinity. -/
def ofRatio (num den : Nat) : Nat :=
  let scaled := num * twoPow fmt.unitExponent
  let k := bitLength (scaled / den) - fmt.precision
  let q := roundHalfEven scaled (den * twoPow k)
  min fmt.infinity (k * twoPow fmt.fractionBits + q)

def withSign (negative : Bool) (mag : Nat) : Nat :=
  if negative then mag + fmt.signBit else mag

end Format

end JsonAdapters.Binary
