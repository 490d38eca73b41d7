/-!
# Reports of several errors

Errors of one declaration are collected: a report is one error at a place, or several reports that
share a place. Places are names from the outside to the inside.

## Main definitions

* `Report`, `Report.collect`, `Report.under`.
* `Report.leaves`, `Report.count`, `Report.text`.
-/

namespace JsonAdapters

/-- One error, or several, at a place. -/
inductive Report (ε : Type) where
  | one (cause : ε) (place : List String)
  | several (reports : List (Report ε)) (place : List String)

namespace Report

variable {ε : Type}

def of (cause : ε) : Report ε := one cause []

def under (name : String) : Report ε → Report ε
  | one c p => one c (name :: p)
  | several rs p => several rs (name :: p)

/-- All reports as one, if there are any; a single one stays as it is. -/
def collect : List (Report ε) → Option (Report ε)
  | [] => none
  | [r] => some r
  | rs => some (several rs [])

def check {α : Type} (rs : List (Report ε)) (a : α) : Except (Report ε) α :=
  match collect rs with
  | some r => .error r
  | none => .ok a

mutual

def leaves : Report ε → List ε
  | one c _ => [c]
  | several rs _ => leavesOf rs

def leavesOf : List (Report ε) → List ε
  | [] => []
  | r :: rs => r.leaves ++ leavesOf rs

end

def count (r : Report ε) : Nat := r.leaves.length

def placeText : List String → String
  | [] => ""
  | p => " at " ++ "/".intercalate p

mutual

def text (message : ε → String) : Report ε → String
  | one c p => message c ++ placeText p
  | several rs p =>
    "Multiple errors: (" ++ ", ".intercalate (texts message rs) ++ ")" ++ placeText p

def texts (message : ε → String) : List (Report ε) → List String
  | [] => []
  | r :: rs => r.text message :: texts message rs

end

end Report

end JsonAdapters
