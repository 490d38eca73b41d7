import JsonAdapters.Json.Fault
import JsonAdapters.Json.Number

/-!
# JSON trees

A JSON document, once its text is forgotten, is a tree. Objects keep their members in the order of
the document, and repeated names; numbers keep their text, since the types that read them differ in
what they take.

## Main definitions

* `Json.Tree`, `Json.Tree.kind`.
* `Json.Tree.depth`: how many containers are nested in a tree.
* `Json.Tree.Supported`: all numbers of the tree keep to the limits of number texts.
-/

namespace JsonAdapters.Json

/-- A JSON value. -/
inductive Tree
  | null
  | bool (b : Bool)
  | number (text : String)
  | string (s : String)
  | array (items : List Tree)
  | object (members : List (String × Tree))
deriving Repr, Inhabited

namespace Tree

/-- Kind of the value. -/
def kind : Tree → Kind
  | null => .null
  | bool _ => .bool
  | number _ => .number
  | string _ => .string
  | array _ => .array
  | object _ => .object

/-- What the values of each kind are. -/
theorem kind_eq_iff {j : Tree} {k : Kind} : j.kind = k ↔
    match k with
    | .null => j = .null
    | .bool => ∃ b, j = .bool b
    | .number => ∃ text, j = .number text
    | .string => ∃ s, j = .string s
    | .array => ∃ js, j = .array js
    | .object => ∃ ms, j = .object ms := by
  cases j <;> cases k <;> simp [kind]

mutual

/-- How many containers are nested in each other, the outermost one included. -/
def depth : Tree → Nat
  | null | bool _ | number _ | string _ => 0
  | array js => depthItems js + 1
  | object ms => depthMembers ms + 1

/-- The greatest depth among items. -/
def depthItems : List Tree → Nat
  | [] => 0
  | j :: js => max (depth j) (depthItems js)

/-- The greatest depth among members. -/
def depthMembers : List (String × Tree) → Nat
  | [] => 0
  | (_, j) :: ms => max (depth j) (depthMembers ms)

end

mutual

/-- Every number keeps to the limits of number texts. -/
def Supported : Tree → Prop
  | null | bool _ | string _ => True
  | number text => isSupported text.toList = true
  | array js => SupportedItems js
  | object ms => SupportedMembers ms

/-- Every number among the items keeps to the limits. -/
def SupportedItems : List Tree → Prop
  | [] => True
  | j :: js => Supported j ∧ SupportedItems js

/-- Every number among the members keeps to the limits. -/
def SupportedMembers : List (String × Tree) → Prop
  | [] => True
  | (_, j) :: ms => Supported j ∧ SupportedMembers ms

end

end Tree

end JsonAdapters.Json
