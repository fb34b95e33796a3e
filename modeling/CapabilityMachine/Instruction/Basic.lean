import CapabilityMachine.Instruction.Opcode
import CapabilityMachine.Value
/-!
# Instructions

An instruction is an opcode with its operands. Beside the type, this file holds what can be said of
an instruction without running it: where control may go, which capability it names, and how many
values it takes off the stack and leaves there.
-/

namespace CapabilityMachine

/-- An instruction with its operands. A target is a byte offset while code is being encoded or
decoded, and the index of an instruction in a listing or a loaded program. -/
inductive Instruction where
  | nop
  | push (n : Int64)
  | pushBool (b : Bool)
  | pushUnit
  | pop
  | dup
  | swap
  /-- Pushes the value `depth` places below the top again. -/
  | pick (depth : UInt16)
  | binary (op : BinaryOp)
  | unary (op : UnaryOp)
  | jump (target : Nat)
  /-- Pops a truth value and continues at the target if it is `condition`. -/
  | branch (condition : Bool) (target : Nat)
  /-- Continues at the target, to come back at the next `ret`. -/
  | call (target : Nat)
  /-- Goes back to behind the last call, or halts if there is none. -/
  | ret
  /-- Allocates a region of memory and pushes a reference to it. -/
  | alloc (length : UInt16)
  /-- Replaces a reference by the cell at a fixed offset of its region. -/
  | load (offset : UInt16)
  /-- Pops a reference and a value, and writes the value to the cell at a fixed offset. -/
  | store (offset : UInt16)
  /-- Replaces a reference and an offset by the cell they name. -/
  | loadAt
  /-- Pops a reference, an offset and a value, and writes the value to the cell they name. -/
  | storeAt
  | cap (id : CapabilityId)
  /-- Replaces arguments by the result of invoking a capability by its id. -/
  | invoke (id : CapabilityId) (argumentCount : UInt8)
  /-- Replaces a handle and arguments by the result of invoking the handle's capability. -/
  | invokeHandle (argumentCount : UInt8)
  | halt
deriving DecidableEq, Repr, Inhabited

/-- How many values an instruction takes off the stack and how many it then puts there. -/
structure StackEffect where
  pops : Nat
  pushes : Nat
deriving DecidableEq, Repr

namespace Instruction

/-- The operation that the instruction performs. -/
def opcode : Instruction → Opcode
  | nop => .nop
  | push _ => .push
  | pushBool _ => .pushBool
  | pushUnit => .pushUnit
  | pop => .pop
  | dup => .dup
  | swap => .swap
  | pick _ => .pick
  | binary op => .binary op
  | unary op => .unary op
  | jump _ => .jump
  | branch condition _ => .branch condition
  | call _ => .call
  | ret => .ret
  | alloc _ => .alloc
  | load _ => .load
  | store _ => .store
  | loadAt => .loadAt
  | storeAt => .storeAt
  | cap _ => .cap
  | invoke _ _ => .invoke
  | invokeHandle _ => .invokeHandle
  | halt => .halt

/-- The number of bytes that the instruction takes in code. -/
def encodedLength (instruction : Instruction) : Nat :=
  instruction.opcode.encodedLength

/-- Where the instruction may transfer control to, if it names a target. -/
def target? : Instruction → Option Nat
  | jump target | branch _ target | call target => some target
  | _ => none

/-- The instruction with another target, if it names one. -/
def withTarget (instruction : Instruction) (target : Nat) : Instruction :=
  match instruction with
  | jump _ => jump target
  | branch condition _ => branch condition target
  | call _ => call target
  | other => other

/-- The capability that the instruction names by its id. -/
def capability? : Instruction → Option CapabilityId
  | cap id | invoke id _ => some id
  | _ => none

/-- The values consumed and produced. An invocation consumes its arguments and, if it goes through
a handle, the handle below them. A `pick` consumes nothing, however deep it looks. -/
def stackEffect : Instruction → StackEffect
  | nop | jump _ | call _ | ret | halt => ⟨0, 0⟩
  | push _ | pushBool _ | pushUnit | pick _ | alloc _ | cap _ => ⟨0, 1⟩
  | pop | branch _ _ => ⟨1, 0⟩
  | dup => ⟨1, 2⟩
  | swap => ⟨2, 2⟩
  | unary _ | load _ => ⟨1, 1⟩
  | binary _ | loadAt => ⟨2, 1⟩
  | store _ => ⟨2, 0⟩
  | storeAt => ⟨3, 0⟩
  | invoke _ argumentCount => ⟨argumentCount.toNat, 1⟩
  | invokeHandle argumentCount => ⟨argumentCount.toNat + 1, 1⟩

/-- The least number of values that have to be on the stack for the instruction to run. -/
def requiredDepth : Instruction → Nat
  | pick depth => depth.toNat + 1
  | other => other.stackEffect.pops

/-- Execution never continues at the next instruction. -/
def endsFlow : Instruction → Bool
  | jump _ | ret | halt => true
  | _ => false

instance : ToString Instruction where
  toString instruction :=
    match instruction with
    | push n => s!"{instruction.opcode} {n}"
    | pushBool b => s!"{instruction.opcode} {b}"
    | pick n | alloc n | load n | store n => s!"{instruction.opcode} {n}"
    | jump target | branch _ target | call target => s!"{instruction.opcode} @{target}"
    | cap id => s!"{instruction.opcode} {id.number}"
    | invoke id argumentCount => s!"{instruction.opcode} {id.number} {argumentCount}"
    | invokeHandle argumentCount => s!"{instruction.opcode} {argumentCount}"
    | _ => instruction.opcode.mnemonic

end Instruction

end CapabilityMachine
