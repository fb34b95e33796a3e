import CapabilityMachine.Program.AssembleError
import CapabilityMachine.Program.LoadError
import CapabilityMachine.Text.BigEndian
/-!
# The container format

A container holds a code section and a header about it. All numbers are big-endian:

| field | bytes | |
|---|---|---|
| magic | 4 | the letters CPST |
| major version | 1 | has to be 1 |
| minor version | 1 | any |
| flags | 2 | have to be 0 |
| entry | 4 | the offset of the first instruction to run |
| count | 2 | the number of declared capabilities |
| ids | 2 each | the declared capabilities, all different |
| length | 4 | the length of the code section |
| code | length | nothing follows |

`write` puts a container together. `readHeader` takes the header apart up to the ids; what follows
is read by `readCode`, once the limit on the length of the code section is known.
-/

namespace CapabilityMachine.Container

/-- The bytes that every container starts with. -/
def magic : List UInt8 := [0x43, 0x50, 0x53, 0x54]

/-- The major version of the format that is read and written. -/
def majorVersion : UInt8 := 1

/-- The minor version of the format that is written. -/
def minorVersion : UInt8 := 0

/-- The greatest number of capabilities that the header can declare. -/
def maxCapabilities : Nat := 0xFFFF

/-- The greatest number of bytes that the code section can have. -/
def maxCodeLength : Nat := 0xFFFFFFFF

/-- The container with an entry point, declared capabilities and code. -/
def write (entry : Nat) (capabilities : List CapabilityId) (code : List UInt8) :
    Except AssembleError (List UInt8) :=
  if maxCapabilities < capabilities.length then
    .error (.tooManyCapabilities capabilities.length)
  else if maxCodeLength < code.length then
    .error (.codeTooLarge code.length)
  else
    .ok <| magic ++ [majorVersion, minorVersion] ++ BigEndian.encode 2 0
      ++ BigEndian.encode 4 entry
      ++ BigEndian.encode 2 capabilities.length
      ++ capabilities.flatMap (fun id => BigEndian.encode 2 id.number.toNat)
      ++ BigEndian.encode 4 code.length
      ++ code

/-- What stands in front of the code section. -/
structure Header where
  major : UInt8
  minor : UInt8
  entry : Nat
  capabilities : List CapabilityId
deriving DecidableEq, Repr

/-- Takes a field of `width` bytes off the bytes. -/
def takeField (width : Nat) (bytes : List UInt8) :
    Except LoadError (List UInt8 × List UInt8) :=
  let field := bytes.take width
  if field.length < width then
    .error (.truncatedHeader width bytes.length)
  else
    .ok (field, bytes.drop width)

/-- Takes a number of `width` bytes off the bytes. -/
def takeNumber (width : Nat) (bytes : List UInt8) : Except LoadError (Nat × List UInt8) := do
  let (field, rest) ← takeField width bytes
  return (BigEndian.decode field, rest)

/-- Takes `count` capability ids off the bytes, none of which may be among those in `declared` or
come twice. -/
def takeIds (count : Nat) (declared : List CapabilityId) (bytes : List UInt8) :
    Except LoadError (List CapabilityId × List UInt8) :=
  match count with
  | 0 => .ok ([], bytes)
  | count + 1 => do
    let (number, rest) ← takeNumber 2 bytes
    let id : CapabilityId := ⟨UInt16.ofNat number⟩
    if id ∈ declared then
      .error (.duplicateCapability id)
    else
      let (ids, rest) ← takeIds count (id :: declared) rest
      return (id :: ids, rest)

/-- Takes the header off the bytes, up to and including the capability ids. -/
def readHeader (bytes : List UInt8) : Except LoadError (Header × List UInt8) := do
  let (found, rest) ← takeField 4 bytes
  if found ≠ magic then
    .error (.badMagic found)
  let (major, rest) ← takeNumber 1 rest
  let (minor, rest) ← takeNumber 1 rest
  let (major, minor) := (UInt8.ofNat major, UInt8.ofNat minor)
  if major ≠ majorVersion then
    .error (.unsupportedVersion major minor)
  let (flags, rest) ← takeNumber 2 rest
  if flags ≠ 0 then
    .error (.reservedFlags flags)
  let (entry, rest) ← takeNumber 4 rest
  let (count, rest) ← takeNumber 2 rest
  let (capabilities, rest) ← takeIds count [] rest
  return ({ major, minor, entry, capabilities }, rest)

/-- The code section, read from what follows the header. It has to be as long as declared, and no
longer than `limit`. -/
def readCode (limit : Nat) (bytes : List UInt8) : Except LoadError (List UInt8) := do
  let (declared, code) ← takeNumber 4 bytes
  if limit < declared then
    .error (.codeTooLarge declared limit)
  else if code.length < declared then
    .error (.truncatedCode declared code.length)
  else if declared < code.length then
    .error (.trailingBytes (code.length - declared))
  else
    return code

end CapabilityMachine.Container
