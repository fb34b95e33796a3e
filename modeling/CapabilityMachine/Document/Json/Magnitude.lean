/-!
# Magnitudes in JSON

A number without its sign. However a number is written, it has to be in the range of floating-point
numbers of 64 bits, which have 53 binary digits.

To tell whether it is, the leading digits that make a number of 64 bits are rounded to such a
floating-point number, and so is the power of ten that makes up for the place of the point. The
magnitude is out of range if the product of the two is. Very close to the end of the range the
double rounding matters.
-/

namespace CapabilityMachine.Json

/-- The number with at most 53 binary digits and zeros behind them that is nearest to `n`. Of two
that are equally near, it is the one whose digits make an even number. -/
def nearestFloat (n : Nat) : Nat :=
  let unit := 1 <<< (n.log2 - 52)
  let significand := n / unit
  let excess := n % unit
  if unit < 2 * excess ∨ unit = 2 * excess ∧ significand % 2 = 1 then
    (significand + 1) * unit
  else
    significand * unit

/-- The least number that is rounded beyond the greatest floating-point number. -/
def floatBound : Nat := 1 <<< 1024 - 1 <<< 970

/-- Appends digits to the number as long as it has 64 bits, and returns the digits that are
left over. -/
def appendDigits (number : Nat) : List Char → Nat × List Char
  | [] => (number, [])
  | digit :: digits =>
    let longer := 10 * number + (digit.toNat - '0'.toNat)
    if longer < UInt64.size then appendDigits longer digits else (number, digit :: digits)

/-- A number without its sign, as it is written: the digits before and behind the point, and the
exponent if there is one. -/
structure Magnitude where
  whole : List Char
  fraction : List Char
  exponent : Option Int

namespace Magnitude

/-- The number that the digits make, with the power of ten by which it is to be multiplied. -/
def coefficient (magnitude : Magnitude) : Nat × Int :=
  let whole := Nat.ofDigitChars 10 magnitude.whole 0
  (Nat.ofDigitChars 10 magnitude.fraction whole,
    magnitude.exponent.getD 0 - magnitude.fraction.length)

/-- The number that the leading digits make, with the power of ten by which it is to be multiplied.
A digit of the whole part that is left out counts in the power, a digit of the fraction only if it
is not. -/
def leading (magnitude : Magnitude) : Nat × Int :=
  let (whole, wholeRest) := appendDigits 0 magnitude.whole
  let (number, fractionRest) := appendDigits whole magnitude.fraction
  (number, magnitude.exponent.getD 0 + wholeRest.length + fractionRest.length
    - magnitude.fraction.length)

/-- The magnitude is in range. The greatest power of ten in range is that of 308. -/
def isInRange (magnitude : Magnitude) : Bool :=
  let (number, exponent) := magnitude.leading
  if number = 0 ∨ exponent ≤ 0 then
    true
  else if exponent ≤ 308 then
    nearestFloat number * nearestFloat (Nat.pow 10 exponent.toNat) < floatBound
  else
    false

end Magnitude

end CapabilityMachine.Json
