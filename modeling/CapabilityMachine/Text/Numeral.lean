/-!
# Numerals

Written forms of natural numbers: decimal and hexadecimal digits, set to a least width. Listings and
error messages are built from them.
-/

namespace CapabilityMachine.Numeral

/-- The lower-case hexadecimal digits of `n`, with zeros in front up to `width` digits. -/
def hexadecimal (width n : Nat) : String :=
  String.ofList (List.leftpad width '0' (Nat.toDigits 16 n))

/-- The upper-case hexadecimal digits of `n`, with zeros in front up to `width` digits. -/
def upperHexadecimal (width n : Nat) : String :=
  String.ofList ((List.leftpad width '0' (Nat.toDigits 16 n)).map Char.toUpper)

/-- The decimal digits of `n`, with blanks in front up to `width` characters. -/
def rightAligned (width n : Nat) : String :=
  String.ofList (List.leftpad width ' ' (Nat.toDigits 10 n))

/-- A byte offset as messages and listings show it: `0x` and at least four digits. -/
def offset (n : Nat) : String := s!"0x{hexadecimal 4 n}"

end CapabilityMachine.Numeral
