import CapabilityMachine.Program.Load
import Mathlib.Data.List.Forall2
/-!
# The grammar of programs

Which byte strings are programs, and which program each of them is, said without reading them from
front to back. A container consists of a header and a code section, the code section spells a
listing of instructions, and the listing becomes a program when its targets are turned into indices.

What is asked of a byte string comes in stages, which are those of loading: `Load.Meets` says for
each stage what it asks, and `LoadError.stage` to which stage an error belongs.
-/

namespace CapabilityMachine

namespace Container

/-- The bytes of the capability ids. -/
def encodeIds (ids : List CapabilityId) : List UInt8 :=
  ids.flatMap fun id => BigEndian.encode 2 id.number.toNat

/-- The bytes of a header up to the capability ids. -/
def Header.front (header : Header) : List UInt8 :=
  magic ++ [header.major, header.minor] ++ BigEndian.encode 2 0
    ++ BigEndian.encode 4 header.entry
    ++ BigEndian.encode 2 header.capabilities.length
    ++ encodeIds header.capabilities

/-- The bytes of a header, with the length of the code section that follows it. -/
def Header.bytes (header : Header) (codeLength : Nat) : List UInt8 :=
  header.front ++ BigEndian.encode 4 codeLength

/-- The version is supported, the numbers fit their fields, and no capability is declared twice. -/
structure Header.WellFormed (header : Header) (codeLength : Nat) : Prop where
  major_eq : header.major = majorVersion
  entry_lt : header.entry < BigEndian.capacity 4
  count_lt : header.capabilities.length < BigEndian.capacity 2
  distinct : header.capabilities.Nodup
  codeLength_lt : codeLength < BigEndian.capacity 4

/-- The byte string is a container with the given header and code section. -/
structure Holds (limit : Nat) (bytes : List UInt8) (header : Header) (code : List UInt8) :
    Prop where
  bytes_eq : bytes = header.bytes code.length ++ code
  wellFormed : header.WellFormed code.length
  length_le : code.length ≤ limit

end Container

namespace Listing

/-- The number of bytes that the instructions take. -/
def codeLength : List Instruction → Nat
  | [] => 0
  | instruction :: rest => instruction.encodedLength + codeLength rest

/-- The byte offset of the instruction at the index. The index behind the last instruction has the
offset of the end of the code. -/
def offset (listing : List Instruction) (index : Nat) : Nat :=
  codeLength (listing.take index)

end Listing

namespace Code

/-- The bytes are the encodings of the listed instructions, one after the other. Targets are byte
offsets and have four bytes. -/
def Spells (code : List UInt8) (listing : List Instruction) : Prop :=
  code = encode listing ∧
    ∀ instruction ∈ listing, ∀ target ∈ instruction.target?, target ≤ maxTarget

/-- The byte offset is that of the instruction at the index, or that of the end of the code. -/
def IsBoundary (listing : List Instruction) (position index : Nat) : Prop :=
  index ≤ listing.length ∧ Listing.offset listing index = position

/-- The second instruction is the first one with its target turned from a byte offset into an
index. -/
def Resolves (listing : List Instruction) (instruction resolved : Instruction) : Prop :=
  match instruction.target? with
  | none => resolved = instruction
  | some target =>
    ∃ index, IsBoundary listing target index ∧ resolved = instruction.withTarget index

end Code

/-- The bounds of the stack height that are computed for the program. -/
def Program.bounds (program : Program) : StackHeight.Bounds :=
  StackHeight.bounds program.instructions program.entry

/-- No instruction leads further than to the end of the code. -/
structure Program.Closed (program : Program) : Prop where
  entry_le : program.entry ≤ program.size
  target_le : ∀ instruction ∈ program.instructions.toList, ∀ target ∈ instruction.target?,
    target ≤ program.size

namespace Load

open Container Code

/-- Every capability that an instruction names is declared. -/
def Declared (declared : List CapabilityId) (listing : List Instruction) : Prop :=
  ∀ instruction ∈ listing, ∀ id ∈ instruction.capability?, id ∈ declared

/-- If the host gives a catalog, it lists every declared capability. -/
def Known (catalog : Option Catalog) (declared : List CapabilityId) : Prop :=
  ∀ table ∈ catalog, ∀ id ∈ declared, table.contains id

/-- If the host gives a catalog, every invocation by id passes as many arguments as it asks for. -/
def Applied (catalog : Option Catalog) (listing : List Instruction) : Prop :=
  ∀ table ∈ catalog, ∀ id argumentCount, .invoke id argumentCount ∈ listing →
    ∃ signature, table.find? id = some signature ∧ signature.arity = argumentCount.toNat

/-- All targets are starts of instructions or the end of the code. -/
def Targeted (listing : List Instruction) : Prop :=
  ∀ instruction ∈ listing, ∀ target ∈ instruction.target?, ∃ index, IsBoundary listing target index

/-- The program that a header and the listing of a code section amount to. -/
structure Denotes (header : Header) (listing : List Instruction) (program : Program) : Prop where
  instructions : List.Forall₂ (Resolves listing) listing program.instructions.toList
  offsets : program.offsets.toList = (List.range listing.length).map (Listing.offset listing)
  entry : IsBoundary listing header.entry program.entry
  capabilities : program.capabilities = header.capabilities
  version : program.version = ⟨header.major, header.minor⟩

/-- Every `pick` finds its value in the part of the stack that is sure to exist. Where control
cannot get, nothing is sure to exist. -/
def Proven (program : Program) : Prop :=
  ∀ index depth, program.get? index = some (.pick depth) →
    depth.toNat < (program.bounds[index]?.join).getD 0

/-- The stages of loading, in their order. -/
inductive Stage where
  /-- The header, up to and including the length of the code section. -/
  | header
  /-- The length of the code section. -/
  | codeLength
  | encoding
  /-- The capabilities that instructions name. -/
  | declarations
  /-- The capabilities that are declared. -/
  | catalog
  | arity
  | entry
  | targets
  | depths
deriving DecidableEq, Repr

/-- The first stage comes before the second one. -/
def Stage.Before (first second : Stage) : Prop :=
  first.ctorIdx < second.ctorIdx

variable (options : LoadOptions) (bytes : List UInt8)

/-- The byte string is a container whose code section spells a listing. -/
def Lists (header : Header) (listing : List Instruction) : Prop :=
  ∃ code, Holds options.maxCodeLength bytes header code ∧ Spells code listing

/-- The byte string has what the stage asks for. -/
def Meets : Stage → Prop
  | .header => ∃ (header : Header) (codeLength : Nat) (rest : List UInt8),
      bytes = header.bytes codeLength ++ rest ∧ header.WellFormed codeLength
  | .codeLength => ∃ header code, Holds options.maxCodeLength bytes header code
  | .encoding => ∃ header listing, Lists options bytes header listing
  | .declarations => ∃ header listing,
      Lists options bytes header listing ∧ Declared header.capabilities listing
  | .catalog => ∃ header listing,
      Lists options bytes header listing ∧ Known options.catalog header.capabilities
  | .arity => ∃ header listing,
      Lists options bytes header listing ∧ Applied options.catalog listing
  | .entry => ∃ header listing,
      Lists options bytes header listing ∧ ∃ index, IsBoundary listing header.entry index
  | .targets => ∃ header listing, Lists options bytes header listing ∧ Targeted listing
  | .depths => ∃ header listing program,
      Lists options bytes header listing ∧ Denotes header listing program ∧ Proven program

/-- The byte string has what all stages before the given one ask for. -/
def Reaches (stage : Stage) : Prop :=
  ∀ earlier : Stage, earlier.Before stage → Meets options bytes earlier

/-- The stage asks for something that the byte string does not have, and no stage before it does. -/
def EarliestViolated (stage : Stage) : Prop :=
  Reaches options bytes stage ∧ ¬Meets options bytes stage

end Load

open Load in
/-- The stage of loading to which the error belongs. -/
def LoadError.stage : LoadError → Stage
  | truncatedHeader _ _ | badMagic _ | unsupportedVersion _ _ | reservedFlags _
  | duplicateCapability _ => .header
  | codeTooLarge _ _ | truncatedCode _ _ | trailingBytes _ => .codeLength
  | unknownOpcode _ _ | truncatedOperand _ _ | invalidFlag _ _ => .encoding
  | undeclaredCapability _ _ => .declarations
  | unknownCapability _ => .catalog
  | arityMismatch _ _ _ _ => .arity
  | invalidEntry _ => .entry
  | invalidTarget _ _ => .targets
  | unprovableStackDepth _ _ _ => .depths

end CapabilityMachine
