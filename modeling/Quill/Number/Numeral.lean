/-!
Decimal numerals in ASCII digits, read up to the limits of the machine words that hold them.
-/
namespace Quill.Numeral

/-- The number that a run of digits stands for. -/
def ofDigits (digits : List Char) : Nat :=
  digits.foldl (fun n d => 10 * n + (d.toNat - '0'.toNat)) 0

/-- Reads a numeral of one or more digits and nothing else. -/
def digits? (text : List Char) : Option Nat :=
  if text ≠ [] ∧ text.all Char.isDigit then some (ofDigits text) else none

/-- The sizes of arrays lie below this number, `2 ^ 64`. -/
def sizeLimit : Nat := 0x10000000000000000

/-- The magnitudes of signed integers lie below this number, `2 ^ 63`, which the least one has. -/
def integerLimit : Nat := 0x8000000000000000

/-- Reads the size of an array, which may have a plus sign. -/
def size? (text : List Char) : Option Nat :=
  let magnitude := match text with
    | '+' :: digits => digits? digits
    | digits => digits? digits
  magnitude.filter (· < sizeLimit)

/-- Reads a signed integer of 64 bits. -/
def integer? (text : List Char) : Option Int :=
  match text with
  | '-' :: digits => ((digits? digits).filter (· ≤ integerLimit)).map fun n => -(n : Int)
  | '+' :: digits => ((digits? digits).filter (· < integerLimit)).map Int.ofNat
  | digits => ((digits? digits).filter (· < integerLimit)).map Int.ofNat

end Quill.Numeral
