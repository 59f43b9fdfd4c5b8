import Quill.Number.Numeral

/-!
Decimal fractions with an optional exponent, as they are written: `12`, `1.5`, `.5`, `5.`, `1e-3`.
-/
namespace Quill

/-- The number `± digits * 10 ^ exponent`. -/
structure Decimal where
  negative : Bool
  digits : Nat
  exponent : Int
  deriving DecidableEq, Repr

namespace Decimal

/-- Takes a sign off the front of a text. -/
def sign : List Char → Bool × List Char
  | '-' :: rest => (true, rest)
  | '+' :: rest => (false, rest)
  | rest => (false, rest)

/-- Reads what follows the digits: nothing, or an exponent mark and a signed numeral. -/
def exponent? : List Char → Option Int
  | [] => some 0
  | mark :: rest =>
    if mark = 'e' ∨ mark = 'E' then
      let (negative, rest) := sign rest
      (Numeral.digits? rest).map fun n => if negative then -(n : Int) else n
    else none

/-- Takes a point and the digits after it off the front of a text. -/
def fraction : List Char → List Char × List Char
  | '.' :: rest => (rest.takeWhile Char.isDigit, rest.dropWhile Char.isDigit)
  | rest => ([], rest)

/-- Reads a decimal fraction. There is at least one digit before or after the point. -/
def read? (text : List Char) : Option Decimal :=
  let (negative, rest) := sign text
  let whole := rest.takeWhile Char.isDigit
  let (part, rest) := fraction (rest.dropWhile Char.isDigit)
  if whole = [] ∧ part = [] then none
  else (exponent? rest).map fun e => ⟨negative, Numeral.ofDigits (whole ++ part), e - part.length⟩

/-- One more than the position of the first digit that is not zero: the number lies below
`10 ^ size` and, unless it is zero, not below `10 ^ (size - 1)`. -/
def size (number : Decimal) : Int :=
  (Nat.toDigits 10 number.digits).length + number.exponent

end Decimal

end Quill
