/-!
# Type tokens

A token describes a type at run time: which type it is, how it is written, and which types it
extends. Two tokens are of the same type when their identities agree, however they were built.

## Main definitions

* `TypeToken`, `TypeToken.named`, `TypeToken.applied`, `TypeToken.extending`.
* `TypeToken.describes`, `TypeToken.isSubtypeOf`, `TypeToken.text`.
* `TypeToken.shortName`: the short name of a fully written type.
-/

namespace JsonAdapters

/-- Description of a type with identity in `ι`. -/
inductive TypeToken (ι : Type) where
  | mk (id : ι) (raw : String) (args : List (TypeToken ι)) (supertypes : List ι)

namespace TypeToken

variable {ι : Type}

def id : TypeToken ι → ι
  | mk i _ _ _ => i

def raw : TypeToken ι → String
  | mk _ r _ _ => r

def args : TypeToken ι → List (TypeToken ι)
  | mk _ _ as _ => as

def supertypes : TypeToken ι → List ι
  | mk _ _ _ ss => ss

def named (id : ι) (raw : String) : TypeToken ι := mk id raw [] []

/-- Token of the type `id`, written as `raw` applied to arguments. -/
def applied (id : ι) (raw : String) (args : List (TypeToken ι)) : TypeToken ι := mk id raw args []

def isApplied (t : TypeToken ι) : Bool := !t.args.isEmpty

mutual

def map {κ : Type} (f : ι → κ) : TypeToken ι → TypeToken κ
  | mk id raw args supertypes => mk (f id) raw (mapArgs f args) (supertypes.map f)

def mapArgs {κ : Type} (f : ι → κ) : List (TypeToken ι) → List (TypeToken κ)
  | [] => []
  | a :: as => map f a :: mapArgs f as

end

variable [DecidableEq ι]

/-- Append those of `more` that are not listed yet. -/
def addMissing (known more : List ι) : List ι :=
  more.foldl (fun ss i => if i ∈ ss then ss else ss ++ [i]) known

/-- Declare `parent`, and all that it extends, as supertypes. -/
def extending (t parent : TypeToken ι) : TypeToken ι :=
  mk t.id t.raw t.args (addMissing t.supertypes (parent.id :: parent.supertypes))

def describes (t : TypeToken ι) (i : ι) : Bool := t.id = i

def sameType (a b : TypeToken ι) : Bool := a.id = b.id

/-- Whether `b` is the type of `a` or one of its supertypes. -/
def isSubtypeOf (a b : TypeToken ι) : Bool := a.id = b.id || b.id ∈ a.supertypes

omit [DecidableEq ι]

/-! ## Text -/

mutual

/-- A type as it is written: its name, and its arguments in angle brackets. -/
def text : TypeToken ι → String
  | mk _ raw [] _ => raw
  | mk _ raw (a :: as) _ => raw ++ "<" ++ text a ++ moreText as ++ ">"

def moreText : List (TypeToken ι) → String
  | [] => ""
  | a :: as => ", " ++ text a ++ moreText as

end

def lastSegment : List Char → List Char
  | cs => go cs cs
where
  /-- `best` is the text behind the last double colon so far. -/
  go (best : List Char) : List Char → List Char
    | ':' :: ':' :: r => go r r
    | _ :: r => go best r
    | [] => best

/-- Short name of a type: what stands before its arguments, without the path to it. -/
def shortName (full : String) : String :=
  String.ofList (lastSegment (full.toList.takeWhile (· ≠ '<')))

end TypeToken

end JsonAdapters
