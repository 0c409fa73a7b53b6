import UnionScript.Text.Character
/-!
# Numeral — where a number ends, and which texts are numbers

A program text is cut at the longest numeral (`cutNumeral`): hexadecimal digits behind `0x`, or digits with an optional
fraction and exponent, and then perhaps the suffix `L` of an integer.  Cutting is lenient, a bare `0x` is cut as well,
so what a literal finally denotes is asked of `isNumeral`, which states the grammar of numbers on its own.
-/
namespace UnionScript
namespace Numeral

/-! ## Cutting -/

def cutDigits (cs : List Char) : List Char × List Char :=
  (cs.takeWhile Char.isDigit, cs.dropWhile Char.isDigit)

def startsWithDigit (cs : List Char) : Bool :=
  cs.head?.any Char.isDigit

/-- A dot and the digits behind it, of which there must be one. -/
def cutFraction : List Char → List Char × List Char
  | '.' :: cs => if startsWithDigit cs then ('.' :: (cutDigits cs).1, (cutDigits cs).2) else ([], '.' :: cs)
  | cs => ([], cs)

def cutSign : List Char → List Char × List Char
  | '+' :: cs => (['+'], cs)
  | '-' :: cs => (['-'], cs)
  | cs => ([], cs)

/-- The letter `e`, an optional sign and the digits behind it, of which there must be one. -/
def cutExponent : List Char → List Char × List Char
  | [] => ([], [])
  | e :: cs =>
    if (e = 'e' ∨ e = 'E') ∧ startsWithDigit (cutSign cs).2 then
      (e :: (cutSign cs).1 ++ (cutDigits (cutSign cs).2).1, (cutDigits (cutSign cs).2).2)
    else ([], e :: cs)

def cutSuffix : List Char → List Char × List Char
  | 'L' :: cs => (['L'], cs)
  | cs => ([], cs)

def cutHexMark : List Char → List Char × List Char
  | '0' :: x :: cs => if x = 'x' ∨ x = 'X' then (['0', x], cs) else ([], '0' :: x :: cs)
  | cs => ([], cs)

/-- A numeral cut from the front of a text: its characters and whether they make it a number with a fraction. -/
structure Piece where
  run : List Char
  isFloat : Bool
  deriving DecidableEq

/-- The longest numeral at the front of a text that starts with a digit. -/
def cutNumeral (cs : List Char) : Piece :=
  let mark := cutHexMark cs
  if mark.1 ≠ [] then
    let digits := mark.2.takeWhile Text.isHexDigit
    let suffix := cutSuffix (mark.2.dropWhile Text.isHexDigit)
    ⟨mark.1 ++ digits ++ suffix.1, false⟩
  else
    let whole := cutDigits cs
    let fraction := cutFraction whole.2
    let exponent := cutExponent fraction.2
    let suffix := cutSuffix exponent.2
    ⟨whole.1 ++ fraction.1 ++ exponent.1 ++ suffix.1,
      suffix.1.isEmpty && !(fraction.1.isEmpty && exponent.1.isEmpty)⟩

/-! ## The grammar of numbers -/

def dropSuffix (cs : List Char) : List Char :=
  if cs.getLast? = some 'L' then cs.dropLast else cs

/-- At least one hexadecimal digit and nothing else. -/
def isHexDigits (cs : List Char) : Bool :=
  !cs.isEmpty && cs.all Text.isHexDigit

/-- At least one digit and nothing else. -/
def isDigits (cs : List Char) : Bool :=
  !cs.isEmpty && cs.all Char.isDigit

/-- Nothing, or the letter `e`, an optional sign and digits. -/
def isExponent : List Char → Bool
  | [] => true
  | e :: '+' :: cs => (e == 'e' || e == 'E') && isDigits cs
  | e :: '-' :: cs => (e == 'e' || e == 'E') && isDigits cs
  | e :: cs => (e == 'e' || e == 'E') && isDigits cs

/-- Digits, perhaps a dot and more digits, at least one digit in all, and perhaps an exponent. -/
def isDecimal (cs : List Char) : Bool :=
  let whole := cs.takeWhile Char.isDigit
  match cs.dropWhile Char.isDigit with
  | '.' :: rest =>
    !(whole.isEmpty && (rest.takeWhile Char.isDigit).isEmpty) && isExponent (rest.dropWhile Char.isDigit)
  | rest => !whole.isEmpty && isExponent rest

/-- Whether a text denotes a number, be it with the suffix of an integer.  A sign in front is none of it, nor are the names
of the values that are no finite numbers (`inf`, `infinity`, `nan`): a token with such a text is never cut from a program,
but one made by hand is refused here where a general reader of floating-point numbers would take it. -/
def isNumeral (text : String) : Bool :=
  match dropSuffix text.toList with
  | '0' :: 'x' :: digits => isHexDigits digits
  | '0' :: 'X' :: digits => isHexDigits digits
  | digits => isDecimal digits

end Numeral
end UnionScript
