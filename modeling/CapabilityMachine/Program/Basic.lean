import CapabilityMachine.Instruction.Basic
import CapabilityMachine.Text.Numeral
/-!
# Programs

A program is code ready to run: a sequence of instructions whose targets are indices into the
sequence, with the byte offset of each instruction and what the container said about the program.
The index behind the last instruction is a target too and stands for the end of the code.

Programs come from `load`, which establishes what the type does not enforce: there are as many
offsets as instructions, the entry point and all targets are at most the number of instructions,
and every capability that an instruction names is declared.
-/

namespace CapabilityMachine

/-- The version of the format that a program was read from. -/
structure FormatVersion where
  major : UInt8
  minor : UInt8
deriving DecidableEq, Repr

/-- A sequence of instructions ready to run. -/
structure Program where
  instructions : Array Instruction
  /-- The offset of each instruction's first byte in the code section. -/
  offsets : Array Nat
  /-- The index of the first instruction to run. -/
  entry : Nat
  /-- The declared capabilities, in the order of their declaration. -/
  capabilities : List CapabilityId
  version : FormatVersion
deriving DecidableEq, Repr

namespace Program

/-- The number of instructions. -/
def size (program : Program) : Nat :=
  program.instructions.size

/-- The instruction at the index, or `none` behind the end of the code. -/
def get? (program : Program) (index : Nat) : Option Instruction :=
  program.instructions[index]?

/-- The offset in the code section of the instruction at the index. -/
def offset? (program : Program) (index : Nat) : Option Nat :=
  program.offsets[index]?

/-- The first line of the listing. -/
def headline (program : Program) : String :=
  s!"; capstan {program.version.major}.{program.version.minor}, entry @{program.entry}\n"

/-- The line of the listing that names the declared capabilities. A program that declares none has
no such line. -/
def requirements (program : Program) : String :=
  match program.capabilities with
  | [] => ""
  | ids => "; requires" ++ String.join (ids.map fun id => s!" {id}") ++ "\n"

/-- The line of the listing for one instruction. -/
def row (index offset : Nat) (instruction : Instruction) : String :=
  s!"{Numeral.rightAligned 4 index} {Numeral.offset offset}  {instruction}\n"

/-- The listing of the program, one line per instruction. Targets are shown as indices. -/
def listing (program : Program) : String :=
  let placed := program.offsets.toList.zip program.instructions.toList
  program.headline ++ program.requirements
    ++ String.join (placed.zipIdx.map fun ((offset, instruction), index) =>
      row index offset instruction)

instance : ToString Program := ⟨listing⟩

end Program

end CapabilityMachine
