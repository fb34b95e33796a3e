import CapabilityMachine.Instruction.Basic
import CapabilityMachine.Program.LoadError
import CapabilityMachine.Text.BigEndian
/-!
# Encoding of instructions

An instruction is written as its opcode byte followed by its operands. The operand slots of an
opcode have fixed widths, so the operands taken together are one big-endian number of the opcode's
operand width; `operandNumber` and `ofOperandNumber?` turn operands into that number and back.
A code section is a sequence of encoded instructions.

Main statements: `ofOperandNumber?_operandNumber` and `of_ofOperandNumber?`, by which the two
functions undo each other, except that targets beyond four bytes are cut to the largest number
that four bytes hold.
-/

namespace CapabilityMachine

/-- The largest target that can be written. No code section is long enough to have an instruction
there. -/
def maxTarget : Nat := 0xFFFFFFFF

namespace Instruction

/-- The operands of the instruction, read together as one number. -/
def operandNumber : Instruction → Nat
  | push n => n.toUInt64.toNat
  | pushBool b => b.toNat
  | pick n | alloc n | load n | store n => n.toNat
  | jump target | branch _ target | call target => min target maxTarget
  | cap id => id.number.toNat
  | invoke id argumentCount => 256 * id.number.toNat + argumentCount.toNat
  | invokeHandle argumentCount => argumentCount.toNat
  | _ => 0

/-- The instruction with the given opcode and operand number. There is none if the operand is a
flag and neither 0 nor 1. -/
def ofOperandNumber? (opcode : Opcode) (n : Nat) : Option Instruction :=
  match opcode with
  | .nop => some nop
  | .push => some (push (UInt64.ofNat n).toInt64)
  | .pushBool =>
    match n with
    | 0 => some (pushBool false)
    | 1 => some (pushBool true)
    | _ => none
  | .pushUnit => some pushUnit
  | .pop => some pop
  | .dup => some dup
  | .swap => some swap
  | .pick => some (pick (UInt16.ofNat n))
  | .binary op => some (binary op)
  | .unary op => some (unary op)
  | .jump => some (jump n)
  | .branch condition => some (branch condition n)
  | .call => some (call n)
  | .ret => some ret
  | .alloc => some (alloc (UInt16.ofNat n))
  | .load => some (load (UInt16.ofNat n))
  | .store => some (store (UInt16.ofNat n))
  | .loadAt => some loadAt
  | .storeAt => some storeAt
  | .cap => some (cap ⟨UInt16.ofNat n⟩)
  | .invoke => some (invoke ⟨UInt16.ofNat (n / 256)⟩ (UInt8.ofNat n))
  | .invokeHandle => some (invokeHandle (UInt8.ofNat n))
  | .halt => some halt

theorem ofOperandNumber?_operandNumber {instruction : Instruction}
    (fits : ∀ target ∈ instruction.target?, target ≤ maxTarget) :
    ofOperandNumber? instruction.opcode instruction.operandNumber = some instruction := by
  cases instruction <;>
    simp_all [ofOperandNumber?, opcode, operandNumber, target?]
  case pushBool b => cases b <;> rfl
  case invoke id argumentCount =>
    have := argumentCount.toNat_lt
    have quotient : (256 * id.number.toNat + argumentCount.toNat) / 256 = id.number.toNat := by
      omega
    rw [quotient, UInt16.ofNat_toNat]

theorem of_ofOperandNumber? {opcode : Opcode} {n : Nat} {instruction : Instruction}
    (fits : n < BigEndian.capacity opcode.operandWidth)
    (accepted : ofOperandNumber? opcode n = some instruction) :
    instruction.opcode = opcode ∧ instruction.operandNumber = n := by
  cases opcode <;>
    simp [ofOperandNumber?, Opcode.operandWidth, Opcode.operands, OperandKind.width,
      BigEndian.capacity] at accepted fits
  case pushBool =>
    split at accepted <;> simp at accepted <;> subst accepted <;>
      simp [Instruction.opcode, operandNumber]
  all_goals subst accepted; simp [Instruction.opcode, operandNumber, maxTarget]
  all_goals omega

/-- The bytes of the instruction: its opcode and its operand. -/
def encode (instruction : Instruction) : List UInt8 :=
  instruction.opcode.byte
    :: BigEndian.encode instruction.opcode.operandWidth instruction.operandNumber

@[simp]
theorem length_encode (instruction : Instruction) :
    instruction.encode.length = instruction.encodedLength := by
  simp [encode, encodedLength, Opcode.encodedLength, Nat.add_comm]

end Instruction

/-- An instruction with the offset of its first byte in the code. -/
structure PlacedInstruction where
  offset : Nat
  instruction : Instruction
deriving DecidableEq, Repr

namespace Code

/-- The bytes of the instructions, one after the other. -/
def encode (instructions : List Instruction) : List UInt8 :=
  instructions.flatMap Instruction.encode

@[simp]
theorem encode_nil : encode [] = [] := rfl

@[simp]
theorem encode_cons (instruction : Instruction) (rest : List Instruction) :
    encode (instruction :: rest) = instruction.encode ++ encode rest :=
  List.flatMap_cons

@[simp]
theorem encode_append (front back : List Instruction) :
    encode (front ++ back) = encode front ++ encode back :=
  List.flatMap_append

/-- The instructions that the bytes encode, where the first byte has the given offset. -/
def decodeFrom (offset : Nat) (bytes : List UInt8) : Except LoadError (List PlacedInstruction) :=
  match bytes with
  | [] => .ok []
  | byte :: rest =>
    match Opcode.ofByte? byte with
    | none => .error (.unknownOpcode offset byte)
    | some opcode =>
      let operands := rest.take opcode.operandWidth
      if operands.length < opcode.operandWidth then
        .error (.truncatedOperand offset opcode)
      else
        match Instruction.ofOperandNumber? opcode (BigEndian.decode operands) with
        | none => .error (.invalidFlag offset opcode)
        | some instruction => do
          let later ← decodeFrom (offset + opcode.encodedLength) (rest.drop opcode.operandWidth)
          return ⟨offset, instruction⟩ :: later
termination_by bytes.length
decreasing_by simp only [List.length_drop, List.length_cons]; omega

/-- The instructions of the code with their offsets. -/
def decode (code : List UInt8) : Except LoadError (List PlacedInstruction) :=
  decodeFrom 0 code

end Code

end CapabilityMachine
