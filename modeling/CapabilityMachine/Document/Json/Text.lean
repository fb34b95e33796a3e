import CapabilityMachine.Text.Numeral
/-!
# Texts in JSON

A text is written between quotation marks. Quotation marks, backslashes and control characters in it
are escaped by a backslash. Reading also accepts escapes for characters that need none; one beyond
the first 65536 may be escaped as a pair of surrogates.

Reading splits a text into pieces, which are characters and escaped numbers. What the pieces mean is
a second question: surrogates that do not come in pairs mean nothing.
-/

namespace CapabilityMachine.Json

/-- The letter that escapes a character, where there is one. -/
def escapeLetter? : Char → Option Char
  | '\"' => some '\"'
  | '\\' => some '\\'
  | '\x08' => some 'b'
  | '\x0c' => some 'f'
  | '\n' => some 'n'
  | '\r' => some 'r'
  | '\t' => some 't'
  | _ => none

/-- The written form of a character of a text. -/
def printCharacter (character : Char) : List Char :=
  match escapeLetter? character with
  | some letter => ['\\', letter]
  | none =>
    if character.toNat < 0x20 then
      '\\' :: 'u' :: (Numeral.hexadecimal 4 character.toNat).toList
    else
      [character]

/-- The written form of a text, with its quotation marks. -/
def printText (text : String) : List Char :=
  '\"' :: text.toList.flatMap printCharacter ++ ['\"']

/-- The number that a hexadecimal digit stands for. -/
def hexDigit? (digit : Char) : Option Nat :=
  if '0' ≤ digit ∧ digit ≤ '9' then some (digit.toNat - '0'.toNat)
  else if 'a' ≤ digit ∧ digit ≤ 'f' then some (digit.toNat - 'a'.toNat + 10)
  else if 'A' ≤ digit ∧ digit ≤ 'F' then some (digit.toNat - 'A'.toNat + 10)
  else none

/-- The number that four hexadecimal digits stand for. -/
def unit? (first second third fourth : Char) : Option Nat := do
  return 4096 * (← hexDigit? first) + 256 * (← hexDigit? second)
    + 16 * (← hexDigit? third) + (← hexDigit? fourth)

/-- The character that is escaped by a letter. -/
def escapedBy? : Char → Option Char
  | '\"' => some '\"'
  | '\\' => some '\\'
  | '/' => some '/'
  | 'b' => some '\x08'
  | 'f' => some '\x0c'
  | 'n' => some '\n'
  | 'r' => some '\r'
  | 't' => some '\t'
  | _ => none

/-- A part of a text as it is written. -/
inductive Piece where
  /-- A character that is written as itself or escaped by a letter. -/
  | character (c : Char)
  /-- A character, or half of a pair of surrogates, that is escaped by its number. -/
  | unit (number : Nat)
deriving DecidableEq, Repr

/-- Reads pieces of a text up to and including the closing quotation mark. -/
def readPieces : List Char → Option (List Piece × List Char)
  | [] => none
  | '\"' :: rest => some ([], rest)
  | '\\' :: 'u' :: first :: second :: third :: fourth :: rest => do
    let number ← unit? first second third fourth
    let (pieces, rest) ← readPieces rest
    return (.unit number :: pieces, rest)
  | '\\' :: letter :: rest => do
    let character ← escapedBy? letter
    let (pieces, rest) ← readPieces rest
    return (.character character :: pieces, rest)
  | character :: rest => do
    guard (character ≠ '\\' ∧ 0x20 ≤ character.toNat)
    let (pieces, rest) ← readPieces rest
    return (.character character :: pieces, rest)

/-- The number is that of an upper surrogate, the first of a pair. -/
def isUpperSurrogate (number : Nat) : Bool :=
  0xD800 ≤ number && number ≤ 0xDBFF

/-- The number is that of a lower surrogate, the second of a pair. -/
def isLowerSurrogate (number : Nat) : Bool :=
  0xDC00 ≤ number && number ≤ 0xDFFF

/-- The character that a pair of surrogates stands for. -/
def joinSurrogates (upper lower : Nat) : Char :=
  Char.ofNat (0x10000 + 0x400 * (upper - 0xD800) + (lower - 0xDC00))

/-- The characters that the pieces of a text stand for, unless a surrogate is not in a pair. -/
def joinPieces : List Piece → Option (List Char)
  | [] => some []
  | .character c :: pieces => (joinPieces pieces).map (c :: ·)
  | .unit number :: pieces =>
    if isUpperSurrogate number then
      match pieces with
      | .unit lower :: pieces =>
        if isLowerSurrogate lower then
          (joinPieces pieces).map (joinSurrogates number lower :: ·)
        else
          none
      | _ => none
    else if isLowerSurrogate number then
      none
    else
      (joinPieces pieces).map (Char.ofNat number :: ·)

/-- Reads a text whose opening quotation mark has been read. The text is `none` if it means
nothing. -/
def readText (input : List Char) : Option (Option String × List Char) := do
  let (pieces, rest) ← readPieces input
  return ((joinPieces pieces).map String.ofList, rest)

end CapabilityMachine.Json
