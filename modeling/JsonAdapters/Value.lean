/-!
# Values

Values of all types in one inductive type. Floating point numbers are bit patterns, so that two
values are equal when all their bits are.
-/

namespace JsonAdapters

/-- A value of some type. -/
inductive Value
  | bool (b : Bool)
  | int (n : Int)
  | single (bits : Nat)
  | double (bits : Nat)
  | string (s : String)
  | vec (items : List Value)
  | nothing
  | just (v : Value)
  | box (v : Value)
  /-- A map, as its entries in the order in which they are walked. -/
  | map (entries : List (String × Value))
  /-- A record, as its written fields and its skipped fields, in order of declaration. -/
  | record (fields skipped : List Value)
deriving Repr, Inhabited

namespace Value

/-- Put an entry into a map whose keys ascend; an entry with the same key is replaced. -/
def putEntry (key : String) (v : Value) : List (String × Value) → List (String × Value)
  | [] => [(key, v)]
  | (k, w) :: es =>
    if key < k then (key, v) :: (k, w) :: es
    else if key = k then (key, v) :: es
    else (k, w) :: putEntry key v es

end Value

end JsonAdapters
