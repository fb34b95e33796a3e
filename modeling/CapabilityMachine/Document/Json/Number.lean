import CapabilityMachine.Document.Datum
import CapabilityMachine.Document.Json.Magnitude
/-!
# Numbers in JSON

An integer is written as its decimal digits. Reading takes a number with a fraction or an exponent
for a decimal, however whole its value, and also a zero with a minus sign, which no integer is
written as. A number out of range is unreadable.
-/

namespace CapabilityMachine.Json

/-- The written form of an integer. -/
def printInt (n : Int) : List Char :=
  if n < 0 then '-' :: Nat.toDigits 10 n.natAbs else Nat.toDigits 10 n.natAbs

/-- The written form of the decimal `coefficient * 10 ^ exponent`. -/
def printDecimal (coefficient exponent : Int) : List Char :=
  printInt coefficient ++ 'e' :: printInt exponent

/-- The digits at the start of the input, of which there has to be one, and what follows them. -/
def readDigits (input : List Char) : Option (List Char × List Char) :=
  match input.span Char.isDigit with
  | ([], _) => none
  | (digits, rest) => some (digits, rest)

/-- The digits of a whole number at the start of the input, without needless zeros in front. -/
def readWhole (input : List Char) : Option (List Char × List Char) := do
  let (digits, rest) ← readDigits input
  guard (digits.head? = some '0' → digits.length = 1)
  return (digits, rest)

/-- The digits behind a decimal point, which are none if there is no point. -/
def readFraction : List Char → Option (List Char × List Char)
  | '.' :: rest => readDigits rest
  | rest => some ([], rest)

/-- The number that the digits of an exponent stand for. -/
def readExponentDigits (negative : Bool) (input : List Char) : Option (Int × List Char) := do
  let (digits, rest) ← readDigits input
  let magnitude : Int := Nat.ofDigitChars 10 digits 0
  return (if negative then -magnitude else magnitude, rest)

/-- The exponent behind the letter for it, if there is such a letter. -/
def readExponent : List Char → Option (Option Int × List Char)
  | letter :: rest =>
    if letter = 'e' ∨ letter = 'E' then do
      let (exponent, rest) ←
        match rest with
        | '+' :: rest => readExponentDigits false rest
        | '-' :: rest => readExponentDigits true rest
        | rest => readExponentDigits false rest
      return (some exponent, rest)
    else
      some (none, letter :: rest)
  | [] => some (none, [])

/-- The magnitude at the start of the input, and what follows it. -/
def readMagnitude (input : List Char) : Option (Magnitude × List Char) := do
  let (whole, rest) ← readWhole input
  let (fraction, rest) ← readFraction rest
  let (exponent, rest) ← readExponent rest
  return (⟨whole, fraction, exponent⟩, rest)

/-- The number with the magnitude and, if it is negative, a minus sign. -/
def Magnitude.toDatum (negative : Bool) (magnitude : Magnitude) : Datum :=
  let (number, power) := magnitude.coefficient
  let coefficient : Int := if negative then -number else number
  if ¬ magnitude.isInRange then
    .unreadable
  else
    match magnitude.fraction, magnitude.exponent with
    | [], none => if negative ∧ number = 0 then .decimal 0 0 else .int coefficient
    | _, _ => .decimal coefficient power

/-- The number at the start of the input, and what follows it. -/
def readNumber : List Char → Option (Datum × List Char)
  | '-' :: rest => (readMagnitude rest).map fun (magnitude, rest) => (magnitude.toDatum true, rest)
  | rest => (readMagnitude rest).map fun (magnitude, rest) => (magnitude.toDatum false, rest)

end CapabilityMachine.Json
