/-!
# Sets of characters

A set of characters is written as the ordered list of the code points at which membership changes:
the first starts the first range, the second ends it, and so on.

## Main definitions

* `inRanges`: membership in such a list of ranges.
* `Run`, `inRuns`: ranges of every n-th code point, for alphabets in which cases alternate.
-/

namespace JsonAdapters

/-- Whether a number lies in one of the half-open ranges that the list bounds. -/
def inRanges : List Nat → Nat → Bool
  | lo :: hi :: rest, n => if n < lo then false else n < hi || inRanges rest n
  | _, _ => false

/-- Every `step`-th number from `first` to `last`. -/
structure Run where
  first : Nat
  last : Nat
  step : Nat
deriving DecidableEq, Repr

def Run.contains (r : Run) (n : Nat) : Bool :=
  r.first ≤ n && n ≤ r.last && (n - r.first) % r.step == 0

def inRuns (runs : List Run) (n : Nat) : Bool := runs.any (·.contains n)

end JsonAdapters
