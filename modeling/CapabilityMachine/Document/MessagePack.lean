import CapabilityMachine.Document.Datum
import CapabilityMachine.Text.BigEndian
/-!
# MessagePack

The binary format. Every datum starts with a head, which is the datum itself if that is null, a
truth value or an integer, and otherwise tells how many bytes, items or fields follow. A head is
written in the shortest of its forms; reading accepts all of them.

There is no form for decimals, for integers of more than 64 bits, for texts, lists and records whose
length takes more than 32 bits, and for what is unreadable.
-/

namespace CapabilityMachine.MessagePack

/-- What the start of an encoded datum says. -/
inductive Head where
  | null
  | bool (b : Bool)
  | int (n : Int)
  /-- A text of `length` bytes in UTF-8. -/
  | text (length : Nat)
  | list (count : Nat)
  | record (count : Nat)
deriving DecidableEq, Repr

/-- A tag byte and the width of the number that follows it. -/
structure Form where
  tag : UInt8
  width : Nat
deriving DecidableEq, Repr

/-- The forms of integers that are not negative. -/
def unsignedForms : List Form := [⟨0xCC, 1⟩, ⟨0xCD, 2⟩, ⟨0xCE, 4⟩, ⟨0xCF, 8⟩]

/-- The forms of negative integers. -/
def signedForms : List Form := [⟨0xD0, 1⟩, ⟨0xD1, 2⟩, ⟨0xD2, 4⟩, ⟨0xD3, 8⟩]

/-- The forms of the lengths of texts. -/
def textForms : List Form := [⟨0xD9, 1⟩, ⟨0xDA, 2⟩, ⟨0xDB, 4⟩]

/-- The forms of the lengths of lists. -/
def listForms : List Form := [⟨0xDC, 2⟩, ⟨0xDD, 4⟩]

/-- The forms of the lengths of records. -/
def recordForms : List Form := [⟨0xDE, 2⟩, ⟨0xDF, 4⟩]

/-- The number in the first of the forms that is wide enough. -/
def writeNumber (forms : List Form) (n : Nat) : Option (List UInt8) :=
  (forms.find? fun form => n < BigEndian.capacity form.width).map fun form =>
    form.tag :: BigEndian.encode form.width n

/-- The negative integer in the first of the signed forms that is wide enough, as the number modulo
the power of 256. -/
def writeNegative (n : Int) : Option (List UInt8) :=
  (signedForms.find? fun form => -(BigEndian.capacity form.width : Int) ≤ 2 * n).map fun form =>
    form.tag :: BigEndian.encode form.width (n + BigEndian.capacity form.width).toNat

namespace Head

/-- The shortest form of the head. Small numbers are part of the tag byte. -/
def encode? : Head → Option (List UInt8)
  | null => some [0xC0]
  | bool b => some [if b then 0xC3 else 0xC2]
  | int n =>
    if 0 ≤ n then
      if n < 0x80 then some [UInt8.ofNat n.toNat] else writeNumber unsignedForms n.toNat
    else
      if -0x20 ≤ n then some [UInt8.ofNat (n + 0x100).toNat] else writeNegative n
  | text length =>
    if length < 0x20 then some [UInt8.ofNat (0xA0 + length)] else writeNumber textForms length
  | list count =>
    if count < 0x10 then some [UInt8.ofNat (0x90 + count)] else writeNumber listForms count
  | record count =>
    if count < 0x10 then some [UInt8.ofNat (0x80 + count)] else writeNumber recordForms count

/-- The head that is its tag byte alone. -/
def ofTag? (tag : UInt8) : Option Head :=
  let n := tag.toNat
  if n < 0x80 then some (int n)
  else if n < 0x90 then some (record (n - 0x80))
  else if n < 0xA0 then some (list (n - 0x90))
  else if n < 0xC0 then some (text (n - 0xA0))
  else if n = 0xC0 then some null
  else if n = 0xC2 then some (bool false)
  else if n = 0xC3 then some (bool true)
  else if 0xE0 ≤ n then some (int (n - 0x100))
  else none

/-- The signed integer whose last `width` digits to the base 256 are those of `n`. -/
def signed (width n : Nat) : Int :=
  if 2 * n < BigEndian.capacity width then n else n - BigEndian.capacity width

/-- What the number behind a tag byte means, with the width of the number. -/
def interpretations : List (Form × (Nat → Head)) :=
  unsignedForms.map (·, fun n : Nat => int n)
    ++ signedForms.map (fun form => (form, fun n => int (signed form.width n)))
    ++ textForms.map (·, text)
    ++ listForms.map (·, list)
    ++ recordForms.map (·, record)

/-- The head at the start of the input, and what follows it. -/
def read (input : List UInt8) : Option (Head × List UInt8) :=
  match input with
  | [] => none
  | tag :: rest =>
    match ofTag? tag with
    | some head => some (head, rest)
    | none => do
      let (form, meaning) ← interpretations.find? fun entry => entry.1.tag = tag
      guard (form.width ≤ rest.length)
      return (meaning (BigEndian.decode (rest.take form.width)), rest.drop form.width)

end Head

/-- The bytes of a text behind its head. -/
def textBytes (s : String) : List UInt8 :=
  s.toUTF8.data.toList

/-- The bytes of a text, unless it is too long. -/
def encodeText? (s : String) : Option (List UInt8) := do
  let bytes := textBytes s
  return (← (Head.text bytes.length).encode?) ++ bytes

mutual

/-- The bytes of the datum, unless there is something in it that cannot be written. -/
def encode? : Datum → Option (List UInt8)
  | .null => Head.null.encode?
  | .bool b => (Head.bool b).encode?
  | .int n => (Head.int n).encode?
  | .decimal _ _ => none
  | .text s => encodeText? s
  | .list items => do return (← (Head.list items.length).encode?) ++ (← encodeItems? items)
  | .record fields => do return (← (Head.record fields.length).encode?) ++ (← encodeFields? fields)
  | .unreadable => none

/-- The bytes of the items, one after the other. -/
def encodeItems? : List Datum → Option (List UInt8)
  | [] => some []
  | item :: items => do return (← encode? item) ++ (← encodeItems? items)

/-- The bytes of the fields, one after the other, each with its name in front. -/
def encodeFields? : List (String × Datum) → Option (List UInt8)
  | [] => some []
  | (name, datum) :: fields => do
    return (← encodeText? name) ++ (← encode? datum) ++ (← encodeFields? fields)

end

/-- The text of `length` bytes at the start of the input, and what follows it. -/
def readText (length : Nat) (input : List UInt8) : Option (String × List UInt8) := do
  guard (length ≤ input.length)
  let text ← String.fromUTF8? ⟨(input.take length).toArray⟩
  return (text, input.drop length)

/-- The text at the start of the input with its length in front, and what follows it. -/
def readName (input : List UInt8) : Option (String × List UInt8) :=
  match Head.read input with
  | some (.text length, rest) => readText length rest
  | _ => none

mutual

/-- Reads a datum, with at most `fuel` steps. -/
def readDatum (fuel : Nat) (input : List UInt8) : Option (Datum × List UInt8) :=
  match fuel with
  | 0 => none
  | fuel + 1 =>
    match Head.read input with
    | none => none
    | some (.null, rest) => some (.null, rest)
    | some (.bool b, rest) => some (.bool b, rest)
    | some (.int n, rest) => some (.int n, rest)
    | some (.text length, rest) => (readText length rest).map fun (s, rest) => (.text s, rest)
    | some (.list count, rest) =>
      (readItems fuel count rest).map fun (items, rest) => (.list items, rest)
    | some (.record count, rest) =>
      (readFields fuel count rest).map fun (fields, rest) => (.record fields, rest)

/-- Reads `count` items, with at most `fuel` steps. -/
def readItems (fuel count : Nat) (input : List UInt8) : Option (List Datum × List UInt8) :=
  match fuel, count with
  | _, 0 => some ([], input)
  | 0, _ => none
  | fuel + 1, count + 1 => do
    let (item, rest) ← readDatum fuel input
    let (items, rest) ← readItems fuel count rest
    return (item :: items, rest)

/-- Reads `count` fields, with at most `fuel` steps. -/
def readFields (fuel count : Nat) (input : List UInt8) : Option (Fields × List UInt8) :=
  match fuel, count with
  | _, 0 => some ([], input)
  | 0, _ => none
  | fuel + 1, count + 1 => do
    let (name, rest) ← readName input
    let (datum, rest) ← readDatum fuel rest
    let (fields, rest) ← readFields fuel count rest
    return ((name, datum) :: fields, rest)

end

/-- The datum that the bytes encode. Every datum takes a byte, so twice as many steps as there are
bytes are enough. -/
def decode? (input : List UInt8) : Option Datum := do
  let (datum, rest) ← readDatum (2 * input.length + 1) input
  guard (rest = [])
  return datum

end CapabilityMachine.MessagePack
