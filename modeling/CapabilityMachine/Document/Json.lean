import CapabilityMachine.Document.Json.Number
import CapabilityMachine.Document.Json.Text
/-!
# JSON

The textual format. Data are written without blanks, and with the fields of records in their order;
reading accepts blanks between tokens. A text, a number or a record that is well formed but stands
for nothing is read as an unreadable datum.

A reader takes a prefix of its input and returns what it stands for, together with the rest. Each of
its steps either takes a character or enters a smaller part of the grammar, so twice as many steps
as there are characters are enough.
-/

namespace CapabilityMachine.Json

/-- A text that means nothing: a surrogate without its partner. -/
def loneSurrogate : List Char := ['\"', '\\', 'u', 'd', '8', '0', '0', '\"']

mutual

/-- The characters of the datum. -/
def print : Datum → List Char
  | .null => "null".toList
  | .bool b => (toString b).toList
  | .int n => printInt n
  | .decimal coefficient exponent => printDecimal coefficient exponent
  | .text s => printText s
  | .list items => '[' :: printItems items ++ [']']
  | .record fields => '\x7b' :: printFields fields ++ ['\x7d']
  | .unreadable => loneSurrogate

/-- The characters of the items, with commas between them. -/
def printItems : List Datum → List Char
  | [] => []
  | [item] => print item
  | item :: items => print item ++ ',' :: printItems items

/-- The characters of the fields, with commas between them. -/
def printFields : List (String × Datum) → List Char
  | [] => []
  | [(name, datum)] => printText name ++ ':' :: print datum
  | (name, datum) :: fields => printText name ++ ':' :: print datum ++ ',' :: printFields fields

end

/-- The character may stand between tokens. -/
def isBlank (character : Char) : Bool :=
  character = ' ' || character = '\n' || character = '\t' || character = '\r'

/-- The input without the blanks at its start. -/
def skipBlanks (input : List Char) : List Char :=
  input.dropWhile isBlank

/-- The word or number at the start of the input. -/
def readScalar : List Char → Option (Datum × List Char)
  | 'n' :: 'u' :: 'l' :: 'l' :: rest => some (.null, rest)
  | 't' :: 'r' :: 'u' :: 'e' :: rest => some (.bool true, rest)
  | 'f' :: 'a' :: 'l' :: 's' :: 'e' :: rest => some (.bool false, rest)
  | rest => readNumber rest

/-- Reads the name of a field and the colon behind it. The name is `none` if it means nothing. -/
def readName : List Char → Option (Option String × List Char)
  | '\"' :: rest => do
    let (name, rest) ← readText rest
    match skipBlanks rest with
    | ':' :: rest => some (name, rest)
    | _ => none
  | _ => none

/-- The text, if it means something. -/
def textDatum (text : Option String) : Datum :=
  text.elim .unreadable .text

/-- The fields, if all of their names mean something. -/
def namedFields? (fields : List (Option String × Datum)) : Option Fields :=
  fields.mapM fun (name, datum) => name.map (·, datum)

/-- The record of the fields, if all of their names mean something. -/
def recordDatum (fields : List (Option String × Datum)) : Datum :=
  (namedFields? fields).elim .unreadable .record

mutual

/-- Reads a datum, with at most `fuel` steps. -/
def readDatum (fuel : Nat) (input : List Char) : Option (Datum × List Char) :=
  match fuel with
  | 0 => none
  | fuel + 1 =>
    match skipBlanks input with
    | '\"' :: rest => (readText rest).map fun (text, rest) => (textDatum text, rest)
    | '[' :: rest =>
      match skipBlanks rest with
      | ']' :: rest => some (.list [], rest)
      | rest => (readItems fuel rest).map fun (items, rest) => (.list items, rest)
    | '\x7b' :: rest =>
      match skipBlanks rest with
      | '\x7d' :: rest => some (.record [], rest)
      | rest => (readFields fuel rest).map fun (fields, rest) => (recordDatum fields, rest)
    | rest => readScalar rest

/-- Reads the items of a list that has some, up to and including the closing bracket. -/
def readItems (fuel : Nat) (input : List Char) : Option (List Datum × List Char) :=
  match fuel with
  | 0 => none
  | fuel + 1 => do
    let (item, rest) ← readDatum fuel input
    match skipBlanks rest with
    | ']' :: rest => some ([item], rest)
    | ',' :: rest => (readItems fuel rest).map fun (items, rest) => (item :: items, rest)
    | _ => none

/-- Reads the fields of a record that has some, up to and including the closing brace. -/
def readFields (fuel : Nat) (input : List Char) :
    Option (List (Option String × Datum) × List Char) :=
  match fuel with
  | 0 => none
  | fuel + 1 => do
    let (name, rest) ← readName (skipBlanks input)
    let (datum, rest) ← readDatum fuel rest
    match skipBlanks rest with
    | '\x7d' :: rest => some ([(name, datum)], rest)
    | ',' :: rest =>
      (readFields fuel rest).map fun (fields, rest) => ((name, datum) :: fields, rest)
    | _ => none

end

/-- The datum that the text is the written form of, up to blanks. -/
def decode? (text : String) : Option Datum := do
  let input := text.toList
  let (datum, rest) ← readDatum (2 * input.length + 1) input
  guard (skipBlanks rest = [])
  return datum

/-- The datum as a text. -/
def encode (datum : Datum) : String :=
  String.ofList (print datum)

end CapabilityMachine.Json
