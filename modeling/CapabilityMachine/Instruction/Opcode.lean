/-!
# Opcodes

The table of the instruction set: the byte, the mnemonic and the operand slots of every opcode.
Bytes outside the table are no opcodes. Operators on one or two values are grouped, since they
share their encoding and their effect on the stack.

Main statements: `Opcode.ofByte?_byte` and `Opcode.byte_of_ofByte?`, by which the byte column of
the table is read in both directions.
-/

namespace CapabilityMachine

/-- An operator that replaces the two topmost values by its result. -/
inductive BinaryOp where
  | add
  | sub
  | mul
  | div
  | rem
  | eq
  | ne
  | lt
  | le
  | gt
  | ge
  | and
  | or
deriving DecidableEq, Repr, Inhabited

/-- An operator that replaces the topmost value by its result. -/
inductive UnaryOp where
  | neg
  | not
deriving DecidableEq, Repr, Inhabited

/-- What an operand slot holds. -/
inductive OperandKind where
  | int
  | flag
  /-- A stack depth, counted from the top. -/
  | stackDepth
  /-- The byte offset of an instruction in the code section. -/
  | target
  | regionLength
  | cellOffset
  | capability
  | argumentCount
deriving DecidableEq, Repr

/-- The number of bytes that an operand of this kind takes. -/
def OperandKind.width : OperandKind → Nat
  | int => 8
  | target => 4
  | stackDepth | regionLength | cellOffset | capability => 2
  | flag | argumentCount => 1

/-- The operation an instruction performs, without its operands. -/
inductive Opcode where
  | nop
  | push
  | pushBool
  | pushUnit
  | pop
  | dup
  | swap
  | pick
  | binary (op : BinaryOp)
  | unary (op : UnaryOp)
  | jump
  /-- A jump that is taken when the popped truth value is `condition`. -/
  | branch (condition : Bool)
  | call
  | ret
  | alloc
  | load
  | store
  | loadAt
  | storeAt
  | cap
  | invoke
  | invokeHandle
  | halt
deriving DecidableEq, Repr, Inhabited

namespace Opcode

/-- Every opcode, in the order of their bytes. -/
def all : List Opcode :=
  [nop, push, pushBool, pushUnit, pop, dup, swap, pick,
    binary .add, binary .sub, binary .mul, binary .div, binary .rem, unary .neg,
    binary .eq, binary .ne, binary .lt, binary .le, binary .gt, binary .ge,
    unary .not, binary .and, binary .or,
    jump, branch true, branch false, call, ret,
    alloc, load, store, loadAt, storeAt,
    cap, invoke, invokeHandle,
    halt]

/-- The byte that stands for the opcode in code. -/
def byte : Opcode → UInt8
  | nop => 0x00
  | push => 0x01
  | pushBool => 0x02
  | pushUnit => 0x03
  | pop => 0x04
  | dup => 0x05
  | swap => 0x06
  | pick => 0x07
  | binary .add => 0x10
  | binary .sub => 0x11
  | binary .mul => 0x12
  | binary .div => 0x13
  | binary .rem => 0x14
  | unary .neg => 0x15
  | binary .eq => 0x20
  | binary .ne => 0x21
  | binary .lt => 0x22
  | binary .le => 0x23
  | binary .gt => 0x24
  | binary .ge => 0x25
  | unary .not => 0x28
  | binary .and => 0x29
  | binary .or => 0x2A
  | jump => 0x30
  | branch true => 0x31
  | branch false => 0x32
  | call => 0x33
  | ret => 0x34
  | alloc => 0x40
  | load => 0x41
  | store => 0x42
  | loadAt => 0x43
  | storeAt => 0x44
  | cap => 0x50
  | invoke => 0x51
  | invokeHandle => 0x52
  | halt => 0xFF

/-- The opcode that the byte stands for. -/
def ofByte? (byte : UInt8) : Option Opcode :=
  all.find? (·.byte = byte)

theorem ofByte?_byte (opcode : Opcode) : ofByte? opcode.byte = some opcode := by
  cases opcode with
  | binary op => cases op <;> decide
  | unary op => cases op <;> decide
  | branch condition => cases condition <;> decide
  | _ => decide

theorem byte_of_ofByte? {byte : UInt8} {opcode : Opcode} (known : ofByte? byte = some opcode) :
    opcode.byte = byte := by
  simpa using List.find?_some known

/-- The name of the opcode in listings. -/
def mnemonic : Opcode → String
  | nop => "NOP"
  | push => "PUSH"
  | pushBool => "PUSH_BOOL"
  | pushUnit => "PUSH_UNIT"
  | pop => "POP"
  | dup => "DUP"
  | swap => "SWAP"
  | pick => "PICK"
  | binary .add => "ADD"
  | binary .sub => "SUB"
  | binary .mul => "MUL"
  | binary .div => "DIV"
  | binary .rem => "REM"
  | unary .neg => "NEG"
  | binary .eq => "EQ"
  | binary .ne => "NE"
  | binary .lt => "LT"
  | binary .le => "LE"
  | binary .gt => "GT"
  | binary .ge => "GE"
  | unary .not => "NOT"
  | binary .and => "AND"
  | binary .or => "OR"
  | jump => "JUMP"
  | branch true => "JUMP_IF"
  | branch false => "JUMP_IF_NOT"
  | call => "CALL"
  | ret => "RETURN"
  | alloc => "ALLOC"
  | load => "LOAD"
  | store => "STORE"
  | loadAt => "LOAD_AT"
  | storeAt => "STORE_AT"
  | cap => "CAP"
  | invoke => "INVOKE"
  | invokeHandle => "INVOKE_HANDLE"
  | halt => "HALT"

instance : ToString Opcode := ⟨mnemonic⟩

/-- The opcode with the name. -/
def ofMnemonic? (mnemonic : String) : Option Opcode :=
  all.find? (·.mnemonic = mnemonic)

/-- The operand slots that follow the opcode byte. -/
def operands : Opcode → List OperandKind
  | push => [.int]
  | pushBool => [.flag]
  | pick => [.stackDepth]
  | jump | branch _ | call => [.target]
  | alloc => [.regionLength]
  | load | store => [.cellOffset]
  | cap => [.capability]
  | invoke => [.capability, .argumentCount]
  | invokeHandle => [.argumentCount]
  | _ => []

/-- The number of bytes that the operands take. -/
def operandWidth (opcode : Opcode) : Nat :=
  opcode.operands.foldr (fun kind width => kind.width + width) 0

/-- The number of bytes that an instruction with this opcode takes. -/
def encodedLength (opcode : Opcode) : Nat :=
  1 + opcode.operandWidth

/-- The opcode may continue elsewhere than at the next instruction. -/
def isControlTransfer : Opcode → Bool
  | jump | branch _ | call | ret => true
  | _ => false

end Opcode

end CapabilityMachine
