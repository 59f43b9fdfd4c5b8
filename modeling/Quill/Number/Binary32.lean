import Quill.Number.Decimal

/-!
Binary floating point numbers of 32 bits. They are read from decimals with one correct rounding, and
printed exactly to six places; both roundings take a tie to the even neighbour.
-/
namespace Quill

/-- A quotient rounded to the nearest number, a tie to the even one. -/
def roundQuotient (num den : Nat) : Nat :=
  let q := num / den
  let r := num % den
  if 2 * r < den then q
  else if 2 * r > den then q + 1
  else q + q % 2

/-- A sign and the other 31 bits: eight of exponent over 23 of fraction. Of two numbers of one sign,
the one with the greater magnitude bits lies farther from zero. -/
structure Binary32 where
  negative : Bool
  magnitude : Fin 0x80000000
  deriving DecidableEq, Repr

namespace Binary32

/-- The number of a bit pattern, of which the low 32 bits count. -/
def ofBits (bits : Nat) : Binary32 :=
  ⟨bits >>> 31 % 2 = 1, Fin.ofNat 0x80000000 bits⟩

def toBits (x : Binary32) : Nat :=
  (if x.negative then 0x80000000 else 0) + x.magnitude.val

def exponentBits (x : Binary32) : Nat := x.magnitude.val >>> 23

def fractionBits (x : Binary32) : Nat := x.magnitude.val % 0x800000

/-- A finite number is `± significand * 2 ^ exponent`. -/
def significand (x : Binary32) : Nat :=
  if x.exponentBits = 0 then x.fractionBits else 0x800000 + x.fractionBits

def exponent (x : Binary32) : Int :=
  (max x.exponentBits 1 : Nat) - 150

/-- The magnitude bits of infinity: those of the finite numbers lie below. -/
def infinityBits : Nat := 255 <<< 23

/-- The exponent of the last place of the numbers around a quotient: their significands have 24
bits, or fewer at the least exponent of the format, -149. -/
def unitExponent (num den : Nat) : Int :=
  let low : Int := (num.log2 : Int) - den.log2 - 24
  let exact := if num <<< (-(low + 24)).toNat < den <<< (low + 24).toNat then low else low + 1
  max exact (-149)

/-- The magnitude bits of the number nearest to a quotient. A significand that is rounded up to 25
bits carries into the exponent. -/
def nearestBits (num den : Nat) : Nat :=
  if num = 0 then 0
  else
    let unit := unitExponent num den
    (unit + 149).toNat <<< 23 + roundQuotient (num <<< (-unit).toNat) (den <<< unit.toNat)

/-- The magnitude bits of the number nearest to a decimal. The powers of ten that are far out of the
range of the format are told by the size of the decimal and not computed. -/
def decimalBits (number : Decimal) : Nat :=
  if number.digits = 0 ∨ number.size < -50 then 0
  else if number.size > 50 then infinityBits
  else nearestBits (number.digits * Nat.pow 10 number.exponent.toNat)
    (Nat.pow 10 (-number.exponent).toNat)

/-- The number nearest to a decimal, unless it is out of the finite range. -/
def ofDecimal? (number : Decimal) : Option Binary32 :=
  let bits := decimalBits number
  if bits < infinityBits then some ⟨number.negative, Fin.ofNat 0x80000000 bits⟩ else none

def read? (text : List Char) : Option Binary32 :=
  (Decimal.read? text).bind ofDecimal?

/-- The magnitude of a finite number in millionths, rounded. -/
def millionths (x : Binary32) : Nat :=
  roundQuotient ((x.significand * 1000000) <<< x.exponent.toNat) (1 <<< (-x.exponent).toNat)

/-- The text of a number with six decimal places. A sign stays on a zero. -/
def sixPlaces (x : Binary32) : String :=
  let sign := if x.negative then "-" else ""
  if x.exponentBits = 255 then
    if x.fractionBits = 0 then sign ++ "inf" else "NaN"
  else
    let places := (Nat.toDigits 10 (x.millionths % 1000000)).leftpad 6 '0'
    sign ++ String.ofList (Nat.toDigits 10 (x.millionths / 1000000) ++ '.' :: places)

end Binary32

end Quill
