import JsonAdapters.Text.CodePoints

/-!
# Blank characters

The Unicode property `White_Space`.
-/

namespace JsonAdapters

def blankBounds : List Nat :=
  [0x85, 0x86, 0xa0, 0xa1, 0x1680, 0x1681, 0x2000, 0x200b, 0x2028, 0x202a, 0x202f, 0x2030,
   0x205f, 0x2060, 0x3000, 0x3001]

def isBlank (c : Char) : Bool :=
  if c.toNat < 0x80 then c == ' ' || (9 ≤ c.toNat && c.toNat ≤ 13) else inRanges blankBounds c.toNat

end JsonAdapters
