import CapabilityMachine.Host.IdTable
import CapabilityMachine.Instruction.Encoding
import CapabilityMachine.Program.Basic
import CapabilityMachine.Program.Container
import CapabilityMachine.Program.StackHeight
/-!
# Loading

`load` turns a byte string into a program, or says why it is none. It checks the container, then the
encoding of every instruction, the capabilities, the targets, and last that no `pick` can reach
below the bottom of the stack. The first violation in this order is reported, and within a stage the
one that comes first in the code.
-/

namespace CapabilityMachine

/-- What a byte string has to satisfy beyond being well formed. -/
structure LoadOptions where
  maxCodeLength : Nat := 16 * 1024 * 1024
  /-- The capabilities of the host. If they are given, a program may declare no others, and has to
  pass as many arguments as each of them takes. -/
  catalog : Option Catalog := none

namespace Load

/-- Fails with the error of the first element that has one. -/
def rejectFirst {α : Type} (problem : α → Option LoadError) (elements : List α) :
    Except LoadError Unit :=
  match elements.findSome? problem with
  | some error => .error error
  | none => .ok ()

/-- The error of an instruction that names a capability which is not declared. -/
def undeclared? (declared : List CapabilityId) (placed : PlacedInstruction) : Option LoadError :=
  match placed.instruction.capability? with
  | some id => if id ∈ declared then none else some (.undeclaredCapability placed.offset id)
  | none => none

/-- The error of a capability that is not in the catalog. -/
def unknown? (catalog : Catalog) (id : CapabilityId) : Option LoadError :=
  if catalog.contains id then none else some (.unknownCapability id)

/-- The error of an instruction that passes another number of arguments to a capability than this
takes. -/
def misapplied? (catalog : Catalog) (placed : PlacedInstruction) : Option LoadError :=
  match placed.instruction with
  | .invoke id argumentCount =>
    let expected := ((catalog.find? id).map Signature.arity).getD 0
    if expected = argumentCount.toNat then none
    else some (.arityMismatch placed.offset id expected argumentCount.toNat)
  | _ => none

/-- Fails unless every capability that an instruction names is declared and, if there is a catalog,
every declared capability is listed there and invoked with as many arguments as it takes. -/
def checkCapabilities (catalog : Option Catalog) (declared : List CapabilityId)
    (code : List PlacedInstruction) : Except LoadError Unit := do
  rejectFirst (undeclared? declared) code
  match catalog with
  | none => return ()
  | some catalog =>
    rejectFirst (unknown? catalog) declared
    rejectFirst (misapplied? catalog) code

/-- The index of the instruction that starts at the byte offset. The offset `codeLength` of the end
of the code belongs to the index behind the last instruction. -/
def boundary? (code : List PlacedInstruction) (codeLength offset : Nat) : Option Nat :=
  if offset = codeLength then some code.length
  else code.findIdx? (·.offset = offset)

/-- The instruction with its target turned from a byte offset into an index. -/
def resolveTarget (code : List PlacedInstruction) (codeLength : Nat)
    (placed : PlacedInstruction) : Except LoadError Instruction :=
  match placed.instruction.target? with
  | none => .ok placed.instruction
  | some target =>
    match boundary? code codeLength target with
    | some index => .ok (placed.instruction.withTarget index)
    | none => .error (.invalidTarget placed.offset target)

/-- The index of the entry point, which has to be the start of an instruction or the end of the
code. -/
def resolveEntry (code : List PlacedInstruction) (codeLength entry : Nat) :
    Except LoadError Nat :=
  match boundary? code codeLength entry with
  | some index => .ok index
  | none => .error (.invalidEntry entry)

/-- The error of a `pick` that may reach below the part of the stack that is sure to exist. Where
control cannot get, nothing is sure to exist. -/
def unproven? (bounds : StackHeight.Bounds) (placed : PlacedInstruction) (index : Nat) :
    Option LoadError :=
  match placed.instruction with
  | .pick depth =>
    let proven := (bounds[index]?.join).getD 0
    if proven < placed.instruction.requiredDepth then
      some (.unprovableStackDepth placed.offset depth proven)
    else none
  | _ => none

end Load

/-- The program that the bytes encode, or the reason why they encode none. -/
def load (options : LoadOptions) (bytes : List UInt8) : Except LoadError Program := do
  let (header, rest) ← Container.readHeader bytes
  let code ← Container.readCode options.maxCodeLength rest
  let placed ← Code.decode code
  Load.checkCapabilities options.catalog header.capabilities placed
  let entry ← Load.resolveEntry placed code.length header.entry
  let instructions ← placed.mapM (Load.resolveTarget placed code.length)
  let bounds := StackHeight.bounds instructions.toArray entry
  Load.rejectFirst (fun (placed, index) => Load.unproven? bounds placed index) placed.zipIdx
  return {
    instructions := instructions.toArray
    offsets := (placed.map PlacedInstruction.offset).toArray
    entry
    capabilities := header.capabilities
    version := ⟨header.major, header.minor⟩
  }

end CapabilityMachine
