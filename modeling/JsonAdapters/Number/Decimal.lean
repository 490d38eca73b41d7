import JsonAdapters.Number.Binary

/-!
# Decimal text of floating point numbers

Writing picks the fewest digits that read back as the same number, and of those the digits nearest
to it; the text is positional, never with an exponent, and whole numbers have no point. Reading is
correctly rounded.

## Main definitions

* `Decimal`: digits with a power of ten.
* `Decimal.shortest`: the shortest decimal that rounds to a finite magnitude.
* `Decimal.text`: positional text.
* `Decimal.ofText?`: the decimal that a number text denotes.
* `Decimal.round`: the nearest bit pattern.
-/

namespace JsonAdapters

/-- The number `coefficient · 10 ^ exponent`. -/
structure Decimal where
  coefficient : Nat
  exponent : Int
deriving DecidableEq, Repr

namespace Decimal

open Binary (Format twoPow)

def tenPow (n : Nat) : Nat := Nat.pow 10 n

/-! ## Shortest digits -/

/-- A positive number with the interval of reals that round to it, all over one denominator. -/
structure Target where
  value : Nat
  lower : Nat
  upper : Nat
  den : Nat
  /-- Whether the ends round to the number too. -/
  closed : Bool

namespace Target

def ofMagnitude (fmt : Format) (mag : Nat) : Target :=
  let q := fmt.significand mag
  let k := fmt.shift mag
  let scale := twoPow k
  let narrow := q == twoPow fmt.fractionBits && 0 < k
  { value := 4 * q * scale
    lower := (4 * q - if narrow then 1 else 2) * scale
    upper := (4 * q + 2) * scale
    den := 4 * twoPow fmt.unitExponent
    closed := q % 2 == 0 }

def contains (t : Target) (num den : Nat) : Bool :=
  if t.closed then t.lower * den ≤ num * t.den && num * t.den ≤ t.upper * den
  else t.lower * den < num * t.den && num * t.den < t.upper * den

/-- The power of ten `e` with `10 ^ (e - 1) ≤ value < 10 ^ e`, searched upwards from `start`. -/
def magnitudeFrom (t : Target) : Nat → Int → Int
  | 0, e => e
  | fuel + 1, e =>
    let below := if 0 ≤ e then t.value < t.den * tenPow e.toNat
      else t.value * tenPow (-e).toNat < t.den
    if below then e else magnitudeFrom t fuel (e + 1)

/-- Digits before the point, or minus the zeros behind it. -/
def magnitude (t : Target) : Int :=
  let bits : Int := (Format.bitLength t.value : Int) - (Format.bitLength t.den : Int)
  t.magnitudeFrom 4 ((bits - 1) * 30103 / 100000 - 1)

/-- The closer of the two neighbours with exponent `e` that lies in the interval. -/
def onGrid (t : Target) (e : Int) : Option Nat :=
  let num := if 0 ≤ e then t.value else t.value * tenPow (-e).toNat
  let den := if 0 ≤ e then t.den * tenPow e.toNat else t.den
  let scaled (c : Nat) : Nat × Nat :=
    if 0 ≤ e then (c * tenPow e.toNat, 1) else (c, tenPow (-e).toNat)
  let c := num / den
  let fits (c : Nat) : Bool := t.contains (scaled c).1 (scaled c).2
  match fits c && c != 0, fits (c + 1) with
  | true, true => some (if 2 * (num % den) < den then c else c + 1)
  | true, false => some c
  | false, true => some (c + 1)
  | false, false => none

def search (t : Target) (top : Int) : Nat → Nat → Decimal
  | 0, _ => ⟨t.value / t.den, 0⟩
  | fuel + 1, digits =>
    match t.onGrid (top - digits) with
    | some c => ⟨c, top - digits⟩
    | none => search t top fuel (digits + 1)

end Target

/-- The shortest decimal that rounds to the magnitude, nearest to it among the shortest. -/
def shortest (fmt : Format) (mag : Nat) : Decimal :=
  if mag = 0 then ⟨0, 0⟩
  else
    let t := Target.ofMagnitude fmt mag
    t.search t.magnitude 18 1

/-! ## Positional text -/

def trim : Nat → Decimal → Decimal
  | 0, d => d
  | fuel + 1, d =>
    if d.exponent < 0 && d.coefficient % 10 == 0 then
      trim fuel ⟨d.coefficient / 10, d.exponent + 1⟩
    else d

def text (d : Decimal) : String :=
  let d := d.trim d.exponent.natAbs
  let digits := (toString d.coefficient).toList
  if 0 ≤ d.exponent then
    if d.coefficient = 0 then "0" else String.ofList (digits ++ List.replicate d.exponent.toNat '0')
  else
    let places := (-d.exponent).toNat
    let padded := List.replicate (places + 1 - digits.length) '0' ++ digits
    let whole := padded.length - places
    String.ofList (padded.take whole ++ '.' :: padded.drop whole)

/-! ## Reading -/

def digitsValue (ds : List Char) : Nat :=
  ds.foldl (fun n c => 10 * n + (c.toNat - '0'.toNat)) 0

/-- The sign and the number that a text such as `-12.5e3` denotes. -/
def ofText (s : String) : Bool × Decimal :=
  let cs := s.toList
  let negative := cs.head? == some '-'
  let cs := if negative then cs.drop 1 else cs
  let whole := cs.takeWhile Char.isDigit
  let cs := cs.drop whole.length
  let fraction := if cs.head? == some '.' then (cs.drop 1).takeWhile Char.isDigit else []
  let cs := if cs.head? == some '.' then cs.drop (fraction.length + 1) else cs
  let power : Int :=
    match cs with
    | [] => 0
    | _ :: '-' :: ds => -(digitsValue ds : Int)
    | _ :: '+' :: ds => digitsValue ds
    | _ :: ds => digitsValue ds
  (negative, ⟨digitsValue (whole ++ fraction), power - fraction.length⟩)

def round (fmt : Format) (d : Decimal) : Nat :=
  if 0 ≤ d.exponent then fmt.ofRatio (d.coefficient * tenPow d.exponent.toNat) 1
  else fmt.ofRatio d.coefficient (tenPow (-d.exponent).toNat)

def parse (fmt : Format) (s : String) : Nat :=
  let (negative, d) := ofText s
  fmt.withSign negative (d.round fmt)

def print (fmt : Format) (bits : Nat) : String :=
  let digits := (shortest fmt (fmt.magnitude bits)).text
  if fmt.isNegative bits then "-" ++ digits else digits

end Decimal

end JsonAdapters
