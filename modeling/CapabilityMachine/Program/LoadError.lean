import CapabilityMachine.Instruction.Opcode
import CapabilityMachine.Text.Numeral
import CapabilityMachine.Value
/-!
# Load errors

Why a byte string is not a program. A byte string that is refused runs no instruction.
-/

namespace CapabilityMachine

/-- Why a byte string was refused. Offsets are positions in the code section. -/
inductive LoadError where
  /-- The bytes end inside a header field of `needed` bytes. -/
  | truncatedHeader (needed available : Nat)
  | badMagic (found : List UInt8)
  | unsupportedVersion (major minor : UInt8)
  | reservedFlags (flags : Nat)
  | duplicateCapability (id : CapabilityId)
  /-- The code section is declared longer than the limit. -/
  | codeTooLarge (length limit : Nat)
  | truncatedCode (declared available : Nat)
  | trailingBytes (count : Nat)
  | unknownOpcode (offset : Nat) (byte : UInt8)
  | truncatedOperand (offset : Nat) (opcode : Opcode)
  | invalidFlag (offset : Nat) (opcode : Opcode)
  | undeclaredCapability (offset : Nat) (id : CapabilityId)
  | unknownCapability (id : CapabilityId)
  | arityMismatch (offset : Nat) (id : CapabilityId) (expected found : Nat)
  | invalidTarget (offset target : Nat)
  | invalidEntry (entry : Nat)
  /-- A `pick` may reach below the part of the stack that is sure to exist. -/
  | unprovableStackDepth (offset : Nat) (depth : UInt16) (proven : Nat)
deriving DecidableEq, Repr

namespace LoadError

/-- The error as a text for people. -/
def message : LoadError → String
  | truncatedHeader needed available =>
      s!"truncated header: needed {needed} byte(s), {available} available"
  | badMagic found =>
      let digits := ", ".intercalate (found.map fun byte => Numeral.upperHexadecimal 2 byte.toNat)
      s!"bad magic: [{digits}]"
  | unsupportedVersion major minor => s!"unsupported bytecode version {major}.{minor}"
  | reservedFlags flags => s!"reserved header flags set: 0x{Numeral.hexadecimal 4 flags}"
  | duplicateCapability id => s!"capability {id} declared twice"
  | codeTooLarge length limit => s!"code section of {length} bytes exceeds limit of {limit}"
  | truncatedCode declared available =>
      s!"truncated code section: declared {declared} byte(s), {available} available"
  | trailingBytes count => s!"{count} trailing byte(s) after code section"
  | unknownOpcode offset byte =>
      s!"unknown opcode 0x{Numeral.hexadecimal 2 byte.toNat} at offset {offset}"
  | truncatedOperand offset opcode => s!"truncated operand for {opcode} at offset {offset}"
  | invalidFlag offset opcode =>
      s!"invalid operand for {opcode} at offset {offset}: boolean immediate must be 0 or 1"
  | undeclaredCapability offset id => s!"capability {id} used at offset {offset} is not declared"
  | unknownCapability id => s!"capability {id} is not honored by this host"
  | arityMismatch offset id expected found =>
      s!"capability {id} at offset {offset} takes {expected} argument(s), invoked with {found}"
  | invalidTarget offset target =>
      s!"branch at offset {offset} targets {target}, which is not an instruction boundary"
  | invalidEntry entry => s!"entry offset {entry} is not an instruction boundary"
  | unprovableStackDepth offset depth proven =>
      s!"PICK {depth} at offset {offset} reaches below the provable stack height {proven}"

instance : ToString LoadError := ⟨message⟩

/-- The exit status by which a command line reports that a program was refused. -/
def exitCode : Nat := 1

end LoadError

end CapabilityMachine
