import JsonAdapters.Text.Letter
import JsonAdapters.Text.Printable

/-!
# Words of a name

A name is cut into words at underscores, between a small and a capital letter, between letters and
digits, and before the last of several capitals that a small letter follows. In snake case the
words are in lower case and joined by underscores.

## Main definitions

* `graphemes`: characters with the marks that are drawn onto them.
* `nameWords`, `snakeCase`.
-/

namespace JsonAdapters

/-- A character with the marks that are drawn onto it. -/
abbrev Grapheme := List Char

def graphemes : List Char → List Grapheme
  | [] => []
  | c :: r =>
    match graphemes r with
    | [] => [[c]]
    | g :: gs =>
      if g.head?.any extendsGrapheme then (c :: g) :: gs else [c] :: g :: gs

namespace Grapheme

def isLower (g : Grapheme) : Bool := g.head?.any isLowerLetter

def isUpper (g : Grapheme) : Bool := g.head?.any isUpperLetter

def isLetter (g : Grapheme) : Bool := g.isLower || g.isUpper

def isDigit (g : Grapheme) : Bool := g.all Char.isDigit

end Grapheme

/-- Whether a word ends behind `g`, which the graphemes follow. -/
def endsWord (g : Grapheme) : List Grapheme → Bool
  | [] => false
  | h :: rest =>
    g.isLower && h.isUpper
      || g.isUpper && h.isUpper && rest.head?.any (·.isLower)
      || g.isLetter && h.isDigit
      || g.isDigit && h.isLetter

/-- Cut graphemes into words; `word` holds those of the current word in reverse. -/
def cutWords (word : List Grapheme) : List Grapheme → List (List Grapheme)
  | [] => [word.reverse]
  | g :: gs =>
    if g = ['_'] then word.reverse :: cutWords [] gs
    else if endsWord g gs then (g :: word).reverse :: cutWords [] gs
    else cutWords (g :: word) gs

def nameWords (s : String) : List String :=
  (cutWords [] (graphemes s.toList)).map fun w => String.ofList w.flatten

def snakeCase (s : String) : String := "_".intercalate ((nameWords s).map lowercase)

end JsonAdapters
