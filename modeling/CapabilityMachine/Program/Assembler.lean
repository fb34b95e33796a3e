import CapabilityMachine.Instruction.Encoding
import CapabilityMachine.Program.Container
/-!
# Assembling

Two ways to put a container together. An `Assembler` takes instructions one by one and lets branches
refer to labels, which may be bound to their place in the code before or after; the targets are
filled in when the container is finished. `assemble` takes a whole listing whose targets are indices
of instructions, as in a loaded program.
-/

namespace CapabilityMachine

/-- A place in the code that branches can refer to before it is known. -/
structure Label where
  index : Nat
deriving DecidableEq, Repr

/-- A target in the code that is still to be filled in. -/
structure Fixup where
  /-- The offset of the target's four bytes. -/
  position : Nat
  label : Label
deriving DecidableEq, Repr

/-- A container under construction. -/
structure Assembler where
  code : Array UInt8 := #[]
  /-- The offset of each label, once it is bound. -/
  labels : Array (Option Nat) := #[]
  /-- The targets to fill in, in the order of their instructions. -/
  fixups : Array Fixup := #[]
  /-- The declared capabilities, in the order of their first declaration. -/
  capabilities : List CapabilityId := []
  /-- The label of the entry point, which otherwise is the start of the code. -/
  entry : Option Label := none

namespace Assembler

/-- The offset of the next instruction, unless the code has outgrown the container. -/
def offset (assembler : Assembler) : Except AssembleError Nat :=
  if Container.maxCodeLength < assembler.code.size then
    .error (.codeTooLarge assembler.code.size)
  else
    .ok assembler.code.size

/-- Makes a new label, which is not bound yet. -/
def label (assembler : Assembler) : Label × Assembler :=
  (⟨assembler.labels.size⟩, { assembler with labels := assembler.labels.push none })

/-- Binds a label to the offset of the next instruction. -/
def bind (assembler : Assembler) (label : Label) : Except AssembleError Assembler := do
  let here ← assembler.offset
  match assembler.labels[label.index]? with
  | none => .error (.unboundLabel label.index)
  | some (some _) => .error (.labelRebound label.index)
  | some none =>
    return { assembler with labels := assembler.labels.setIfInBounds label.index (some here) }

/-- Chooses the label for the entry point. -/
def setEntry (assembler : Assembler) (label : Label) : Assembler :=
  { assembler with entry := some label }

/-- Declares a capability, unless it is declared already. -/
def declare (assembler : Assembler) (id : CapabilityId) : Assembler :=
  if id ∈ assembler.capabilities then assembler
  else { assembler with capabilities := assembler.capabilities ++ [id] }

/-- Declares the capability that the instruction names, if it names one. -/
def declareNamed (assembler : Assembler) (instruction : Instruction) : Assembler :=
  match instruction.capability? with
  | some id => assembler.declare id
  | none => assembler

/-- Appends an instruction as it is. -/
def emit (assembler : Assembler) (instruction : Instruction) : Assembler :=
  { assembler with code := assembler.code ++ instruction.encode }

/-- Appends an instruction whose target is a label. The target is written as 0 for now. An
instruction without a target is appended as it is. -/
def emitBranch (assembler : Assembler) (instruction : Instruction) (label : Label) : Assembler :=
  match instruction.target? with
  | none => assembler.emit instruction
  | some _ =>
    let fixup : Fixup := ⟨assembler.code.size + 1, label⟩
    { assembler.emit (instruction.withTarget 0) with fixups := assembler.fixups.push fixup }

/-- Appends an instruction that pushes an integer. -/
def push (assembler : Assembler) (n : Int64) : Assembler :=
  assembler.emit (.push n)

/-- Appends a jump to the label. -/
def jump (assembler : Assembler) (label : Label) : Assembler :=
  assembler.emitBranch (.jump 0) label

/-- Appends a jump to the label that depends on a condition. -/
def branch (assembler : Assembler) (condition : Bool) (label : Label) : Assembler :=
  assembler.emitBranch (.branch condition 0) label

/-- Appends a call of the code at the label. -/
def call (assembler : Assembler) (label : Label) : Assembler :=
  assembler.emitBranch (.call 0) label

/-- Declares a capability, and appends an instruction that pushes a handle for it. -/
def cap (assembler : Assembler) (id : CapabilityId) : Assembler :=
  (assembler.declare id).emit (.cap id)

/-- Declares a capability, and appends an instruction that invokes it. -/
def invoke (assembler : Assembler) (id : CapabilityId) (argumentCount : UInt8) : Assembler :=
  (assembler.declare id).emit (.invoke id argumentCount)

/-- The offset that the label is bound to. -/
def resolve (assembler : Assembler) (label : Label) : Except AssembleError Nat :=
  match assembler.labels[label.index]? with
  | some (some offset) => .ok offset
  | _ => .error (.unboundLabel label.index)

/-- The code with the four bytes at the position replaced by a target. -/
def patch (code : List UInt8) (position target : Nat) : List UInt8 :=
  code.take position ++ BigEndian.encode 4 target ++ code.drop (position + 4)

/-- Writes the offset of a label to where the code is to have it. -/
def fill (assembler : Assembler) (code : List UInt8) (fixup : Fixup) :
    Except AssembleError (List UInt8) := do
  let target ← assembler.resolve fixup.label
  return patch code fixup.position target

/-- The code with the offsets of all labels filled in. -/
def patchedCode (assembler : Assembler) : Except AssembleError (List UInt8) :=
  assembler.fixups.toList.foldlM assembler.fill assembler.code.toList

/-- The offset of the entry point, which is the start of the code if no label was chosen. -/
def entryOffset (assembler : Assembler) : Except AssembleError Nat :=
  match assembler.entry with
  | some label => assembler.resolve label
  | none => .ok 0

/-- The container for the code, if every label that is used is bound. -/
def finish (assembler : Assembler) : Except AssembleError (List UInt8) := do
  let code ← assembler.patchedCode
  let entry ← assembler.entryOffset
  Container.write entry assembler.capabilities code

/-- An assembler without code that has made as many labels as asked for. -/
def withLabels (count : Nat) : Assembler :=
  Nat.repeat (fun assembler => assembler.label.2) count {}

/-- Appends the instruction that has the index in a listing of the given size. The labels with the
numbers up to that size stand for the instructions of the listing and for its end. -/
def emitListed (size : Nat) (assembler : Assembler) :
    Instruction × Nat → Except AssembleError Assembler
  | (instruction, index) => do
    let bound ← assembler.bind ⟨index⟩
    let declared := bound.declareNamed instruction
    match instruction.target? with
    | none => return declared.emit instruction
    | some target =>
      if size < target then
        .error (.targetOutOfRange index target size)
      else
        return declared.emitBranch instruction ⟨target⟩

end Assembler

/-- The container of a listing whose targets are indices of instructions. Execution starts at the
first instruction, and all capabilities that the instructions name are declared. -/
def assemble (listing : List Instruction) : Except AssembleError (List UInt8) := do
  let size := listing.length
  let labelled := Assembler.withLabels (size + 1)
  let emitted ← listing.zipIdx.foldlM (Assembler.emitListed size) labelled
  let assembler ← emitted.bind ⟨size⟩
  assembler.finish

end CapabilityMachine
