import JsonAdapters.Json.Due
import JsonAdapters.Json.Text
import JsonAdapters.Proofs.Json.Tree

/-!
# The JSON grammar

Which texts spell which tree. The grammar is stated over lists of characters and knows nothing of
streams, of marks and of positions. A value may be spelled in many ways: blanks stand around it, and
characters of strings may be escaped.

## Main definitions

* `Json.IsBlank`: spaces, tabs and line breaks.
* `Json.IsNumber`: number texts.
* `Json.SpellsText`, `Json.SpellsString`: characters of a string, and the string with its quotes.
* `Json.Lead`: what stands before a value or name that is due.
* `Json.Spells`: a value; `Json.IsDocument`: a whole document.
-/

namespace JsonAdapters.Json

/-! ## Blanks -/

/-- Spaces, tabs and line breaks. -/
def isBlank (c : Char) : Bool := c = ' ' || c = '\t' || c = '\n' || c = '\r'

/-- Nothing but blanks. -/
def IsBlank (cs : List Char) : Prop := ∀ c ∈ cs, isBlank c = true

/-! ## Numbers -/

/-- Digits and nothing else. -/
def AllDigits (cs : List Char) : Prop := ∀ c ∈ cs, c.isDigit = true

/-- At least one digit. -/
def IsDigits (cs : List Char) : Prop := cs ≠ [] ∧ AllDigits cs

/-- Zero, or digits that start with another one. -/
def IsWhole (cs : List Char) : Prop :=
  cs = ['0'] ∨ ∃ d ds, cs = d :: ds ∧ NumberState.isLeading d = true ∧ AllDigits ds

/-- Nothing, or a point with digits behind it. -/
def IsFraction (cs : List Char) : Prop := cs = [] ∨ ∃ ds, cs = '.' :: ds ∧ IsDigits ds

/-- An optional sign with digits behind it. -/
def IsPower (cs : List Char) : Prop :=
  IsDigits cs ∨ ∃ sign ds, cs = sign :: ds ∧ (sign = '+' ∨ sign = '-') ∧ IsDigits ds

/-- Nothing, or the mark of an exponent with its power. -/
def IsExponent (cs : List Char) : Prop :=
  cs = [] ∨ ∃ mark ps, cs = mark :: ps ∧ (mark = 'e' ∨ mark = 'E') ∧ IsPower ps

/-- A number without sign. -/
def IsUnsigned (cs : List Char) : Prop :=
  ∃ whole fraction exponent, cs = whole ++ (fraction ++ exponent) ∧
    IsWhole whole ∧ IsFraction fraction ∧ IsExponent exponent

/-- A number. -/
def IsNumber (cs : List Char) : Prop := IsUnsigned cs ∨ ∃ ds, cs = '-' :: ds ∧ IsUnsigned ds

/-! ## Strings -/

/-- Four hexadecimal digits with their value. -/
def SpellsUnit (n : Nat) (cs : List Char) : Prop :=
  ∃ a b c d va vb vc vd, cs = [a, b, c, d] ∧ hexValue? a = some va ∧ hexValue? b = some vb ∧
    hexValue? c = some vc ∧ hexValue? d = some vd ∧
    n = 16 * (16 * (16 * va + vb) + vc) + vd

/-- The character of a surrogate pair. -/
def surrogateChar (high low : Nat) : Char :=
  Char.ofNat (0x10000 + (high - 0xD800) * 1024 + (low - 0xDC00))

/-- What stands behind a backslash, with the character that it denotes. -/
inductive SpellsEscape : Char → List Char → Prop
  | letter {letter c : Char} : plainEscape? letter = some c → SpellsEscape c [letter]
  | unit {n : Nat} {ds : List Char} : SpellsUnit n ds → isHighSurrogate n = false →
      isLowSurrogate n = false → SpellsEscape (Char.ofNat n) ('u' :: ds)
  | pair {high low : Nat} {ds es : List Char} : SpellsUnit high ds → isHighSurrogate high = true →
      SpellsUnit low es → isLowSurrogate low = true →
      SpellsEscape (surrogateChar high low) ('u' :: (ds ++ '\\' :: 'u' :: es))

/-- Characters between two quotes, with the characters that they denote. -/
inductive SpellsText : List Char → List Char → Prop
  | nil : SpellsText [] []
  | plain {c : Char} {cs text : List Char} : c ≠ '"' → c ≠ '\\' → 0x20 ≤ c.toNat →
      SpellsText cs text → SpellsText (c :: cs) (c :: text)
  | escaped {c : Char} {esc cs text : List Char} : SpellsEscape c esc → SpellsText cs text →
      SpellsText (c :: cs) ('\\' :: (esc ++ text))

/-- A string with its quotes. -/
def SpellsString (s : String) (cs : List Char) : Prop :=
  ∃ text, cs = '"' :: (text ++ ['"']) ∧ SpellsText s.toList text

/-! ## Values -/

/-- What stands before a value or a name that is due: a comma unless it is the first one, a colon
if it is the value of a member. -/
def Lead : Due → List Char → Prop
  | .first, cs => IsBlank cs
  | .further, cs => ∃ a b, cs = a ++ ',' :: b ∧ IsBlank a ∧ IsBlank b
  | .memberValue, cs => ∃ a b, cs = a ++ ':' :: b ∧ IsBlank a ∧ IsBlank b
  | .nothing, _ => False

mutual

/-- The text is the value, without blanks before and behind it. -/
def Spells : Tree → List Char → Prop
  | .null, cs => cs = ['n', 'u', 'l', 'l']
  | .bool true, cs => cs = ['t', 'r', 'u', 'e']
  | .bool false, cs => cs = ['f', 'a', 'l', 's', 'e']
  | .number text, cs => cs = text.toList ∧ IsNumber cs
  | .string s, cs => SpellsString s cs
  | .array js, cs => ∃ items, cs = '[' :: (items ++ [']']) ∧ SpellsItems .first js items
  | .object ms, cs => ∃ members, cs = '\x7b' :: (members ++ ['\x7d']) ∧
      SpellsMembers .first ms members

/-- The text is the rest of an array in which `due` is due, up to its bracket. -/
def SpellsItems : Due → List Tree → List Char → Prop
  | _, [], cs => IsBlank cs
  | due, j :: js, cs => ∃ lead text rest, cs = lead ++ (text ++ rest) ∧ Lead due lead ∧
      Spells j text ∧ SpellsItems .further js rest

/-- The text is the rest of an object in which `due` is due, up to its bracket. -/
def SpellsMembers : Due → List (String × Tree) → List Char → Prop
  | _, [], cs => IsBlank cs
  | due, (name, j) :: ms, cs => ∃ lead key colon text rest,
      cs = lead ++ (key ++ (colon ++ (text ++ rest))) ∧ Lead due lead ∧ SpellsString name key ∧
      Lead .memberValue colon ∧ Spells j text ∧ SpellsMembers .further ms rest

end

/-- The text is one document: a value with nothing but blanks around it. -/
def IsDocument (j : Tree) (cs : List Char) : Prop :=
  ∃ before text after, cs = before ++ (text ++ after) ∧ IsBlank before ∧ Spells j text ∧
    IsBlank after

theorem Lead.none : Lead .first [] := nofun

theorem Lead.comma : Lead .further [','] := ⟨[], [], rfl, nofun, nofun⟩

theorem Lead.colon : Lead .memberValue [':'] := ⟨[], [], rfl, nofun, nofun⟩

theorem Spells.isDocument {j : Tree} {cs : List Char} (h : Spells j cs) : IsDocument j cs :=
  ⟨[], cs, [], (List.append_nil cs).symm, nofun, h, nofun⟩

end JsonAdapters.Json
