import JsonAdapters.Json.Text
import JsonAdapters.Text.Blank
import JsonAdapters.Text.Printable
import JsonAdapters.Code.Token

/-!
# Literals

A literal token is known by its first characters. String literals can be read and written: a
written string escapes quotes, backslashes, and the characters that do not print by themselves.

## Main definitions

* `Code.LiteralKind`, `Code.literalKind`.
* `Code.stringValue`: the text that a string literal stands for.
* `Code.quoted`: the literal that stands for a text.
-/

namespace JsonAdapters.Code

/-- Kinds of literals. -/
inductive LiteralKind
  | string
  | byteString
  | cString
  | byte
  | char
  | int
  | float
  | bool
deriving DecidableEq, Repr

/-! ## Kinds -/

/-- Whether an exponent with digits follows, up to the suffix of the number. -/
def exponentFollows (seen : Bool) : List Char → Bool
  | [] => seen
  | c :: r =>
    if c == '_' then exponentFollows seen r
    else if c == '+' || c == '-' then true
    else if c.isDigit then exponentFollows true r
    else seen

/-- Whether the text of a decimal number has a point or an exponent. -/
def isFloatText : List Char → Bool
  | [] => false
  | c :: r =>
    if c.isDigit || c == '_' then isFloatText r
    else if c == '.' then true
    else if c == 'e' || c == 'E' then exponentFollows false r
    else false

def literalKind (text : String) : LiteralKind :=
  match text.toList with
  | '"' :: _ | 'r' :: _ => .string
  | 'c' :: _ => .cString
  | 'b' :: '\'' :: _ => .byte
  | 'b' :: _ => .byteString
  | '\'' :: _ => .char
  | '0' :: 'x' :: _ | '0' :: 'o' :: _ | '0' :: 'b' :: _ => .int
  | cs => if isFloatText cs then .float else .int

/-! ## Values of strings -/

/-- The number that hexadecimal digits write, underscores apart. -/
def hexNumber (cs : List Char) : Nat :=
  cs.foldl (fun n c => match Json.hexValue? c with | some d => 16 * n + d | none => n) 0

/-- The text between the quotes of a string without escapes, up to the last quote. -/
def rawText (cs : List Char) : List Char :=
  ((cs.reverse.dropWhile (· ≠ '"')).drop 1).reverse

/-- The text that follows an opening quote, up to the closing one, with its escapes resolved. The
first argument bounds the number of steps. -/
def cookedText : Nat → List Char → List Char
  | 0, _ | _, [] => []
  | n + 1, c :: r =>
    if c == '"' then []
    else if c == '\r' then '\n' :: cookedText n (r.drop 1)
    else if c != '\\' then c :: cookedText n r
    else
      match r with
      | 'x' :: a :: b :: r => Char.ofNat (hexNumber [a, b]) :: cookedText n r
      | 'n' :: r => '\n' :: cookedText n r
      | 'r' :: r => '\r' :: cookedText n r
      | 't' :: r => '\t' :: cookedText n r
      | '0' :: r => Char.ofNat 0 :: cookedText n r
      | 'u' :: '{' :: r =>
        let digits := r.takeWhile (· ≠ '}')
        Char.ofNat (hexNumber digits) :: cookedText n (r.drop (digits.length + 1))
      | '\n' :: r | '\r' :: r => cookedText n (r.dropWhile isBlank)
      | d :: r => d :: cookedText n r
      | [] => []

def stringValue (text : String) : String :=
  match text.toList with
  | '"' :: r => String.ofList (cookedText (r.length + 1) r)
  | 'r' :: r => String.ofList (rawText ((r.dropWhile (· == '#')).drop 1))
  | _ => ""

/-- Text behind the closing quote of a string literal. -/
def stringSuffix (text : String) : String :=
  String.ofList (text.toList.reverse.takeWhile fun c => c ≠ '"' && c ≠ '#').reverse

/-! ## Writing strings -/

/-- Lower-case hexadecimal digits of a number, without leading zeros. -/
def hexText (n : Nat) : List Char := Nat.toDigits 16 n

def escapeByNumber (c : Char) : List Char :=
  ['\\', 'u', '{'] ++ hexText c.toNat ++ ['}']

/-- Written form of a character that `next` follows. -/
def escapeCodeChar (c : Char) (next : Option Char) : List Char :=
  if c.toNat = 0 then
    if next.any fun d => '0' ≤ d && d ≤ '7' then ['\\', 'x', '0', '0'] else ['\\', '0']
  else if c = '\t' then ['\\', 't']
  else if c = '\r' then ['\\', 'r']
  else if c = '\n' then ['\\', 'n']
  else if c = '"' then ['\\', '"']
  else if c = '\\' then ['\\', '\\']
  else if extendsGrapheme c then escapeByNumber c
  else if isPrintable c then [c]
  else escapeByNumber c

def escapeCodeText : List Char → List Char
  | [] => []
  | c :: r => escapeCodeChar c r.head? ++ escapeCodeText r

def quoted (s : String) : String :=
  String.ofList ('"' :: (escapeCodeText s.toList ++ ['"']))

end JsonAdapters.Code
