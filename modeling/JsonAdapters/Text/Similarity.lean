/-!
# Similar names

The similarity of two names after Jaro and Winkler: how many characters agree nearby, how many of
those are out of order, and how long the common start is. Similarities are compared as fractions.

## Main definitions

* `Similarity`, `similarity`.
* `mostSimilar?`: the most similar of some known names, if it is similar enough.
-/

namespace JsonAdapters

/-- A fraction from zero to one. -/
structure Similarity where
  part : Nat
  whole : Nat
deriving Repr

namespace Similarity

def exceeds (a b : Similarity) : Bool := b.part * a.whole < a.part * b.whole

end Similarity

/-- Mark the first character equal to `c` that is not marked yet, among those from the place `lo`
on and before `hi`. -/
def markMatch (c : Char) (lo hi : Nat) : Nat → List (Char × Bool) → Option (List (Char × Bool))
  | _, [] => none
  | j, (d, used) :: r =>
    if hi ≤ j then none
    else if lo ≤ j && c == d && !used then some ((d, true) :: r)
    else (markMatch c lo hi (j + 1) r).map ((d, used) :: ·)

/-- The characters of the first text that have a match nearby, and the marks on the second. -/
def matchNearby (range : Nat) : Nat → List Char → List (Char × Bool) →
    List Char × List (Char × Bool)
  | _, [], b => ([], b)
  | i, c :: r, b =>
    match markMatch c (i - range) (i + range + 1) 0 b with
    | some b => ((c :: (matchNearby range (i + 1) r b).1), (matchNearby range (i + 1) r b).2)
    | none => matchNearby range (i + 1) r b

/-- How many characters two texts start with in common, of the first four. -/
def commonStart (a b : List Char) : Nat :=
  (((a.take 4).zip b).takeWhile fun (c, d) => c == d).length

def nearAgreement (a b : List Char) : Similarity :=
  let (found, marked) := matchNearby (max a.length b.length / 2 - 1) 0 a (b.map (·, false))
  let m := found.length
  if a.isEmpty && b.isEmpty then ⟨1, 1⟩
  else if m = 0 then ⟨0, 1⟩
  else
    let matched := (marked.filter (·.2)).map (·.1)
    let moved := ((found.zip matched).filter fun (c, d) => c ≠ d).length / 2
    ⟨m * b.length * m + m * a.length * m + (m - moved) * a.length * b.length,
      3 * a.length * b.length * m⟩

/-- Similarity of two names; from seven tenths on, a common start counts. -/
def similarity (a b : List Char) : Similarity :=
  let s := nearAgreement a b
  if 7 * s.whole ≤ 10 * s.part then
    ⟨10 * s.part + commonStart a b * (s.whole - s.part), 10 * s.whole⟩
  else s

/-- The known name that is most similar to `name`, among those whose similarity exceeds four
fifths. -/
def mostSimilar? (name : String) (known : List String) : Option String :=
  (known.foldl (fun best k =>
      let s := similarity name.toList k.toList
      if !s.exceeds ⟨4, 5⟩ then best
      else
        match best with
        | none => some (s, k)
        | some (t, _) => if s.exceeds t then some (s, k) else best)
    (none : Option (Similarity × String))).map (·.2)

end JsonAdapters
