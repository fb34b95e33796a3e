import CapabilityMachine.Instruction.Basic
import CapabilityMachine.RuntimeError
/-!
# How runs end

A run ends by halting, by a fault, or because it asked for a capability that it may not use. The
latter two are faults at an instruction; they are kept apart because a refused capability says
nothing against the program.
-/

namespace CapabilityMachine

/-- Where a run stands. -/
inductive Status where
  | ready
  | running
  | halted
  | faulted
  /-- The run asked for a capability that is not granted. -/
  | denied
deriving DecidableEq, Repr

namespace Status

/-- The run is over. -/
def isTerminal : Status → Bool
  | halted | faulted | denied => true
  | ready | running => false

instance : ToString Status where
  toString
    | ready => "ready"
    | running => "running"
    | halted => "halted"
    | faulted => "faulted"
    | denied => "capability denied"

end Status

/-- An error and the instruction that raised it. -/
structure Fault where
  instruction : Nat
  /-- The offset of the instruction's first byte in the code section. -/
  offset : Nat
  opcode : Opcode
  error : RuntimeError
  /-- The return indices of the active calls, innermost first. -/
  frames : List Nat
deriving DecidableEq, Repr

namespace Fault

instance : ToString Fault where
  toString fault :=
    let place := s!"({fault.opcode} @ {Numeral.offset fault.offset})"
    s!"{fault.error} at instruction {fault.instruction} {place}"

/-- Where the fault came up. -/
def site (fault : Fault) : Site where
  instruction := some fault.instruction
  offset := some fault.offset
  mnemonic := some fault.opcode.mnemonic
  frames := fault.frames

end Fault

/-- How a run ended. -/
inductive Termination where
  /-- Normally, with the given values on the stack, from bottom to top. -/
  | halted (values : List Value)
  | faulted (fault : Fault)
  /-- With a request for a capability that is not granted. -/
  | denied (fault : Fault)
deriving DecidableEq, Repr

namespace Termination

/-- The end of a run with the fault, which is a denial if its error says so. -/
def ofFault (fault : Fault) : Termination :=
  if fault.error.isDenial then denied fault else faulted fault

/-- The status of a machine whose run ended like this. -/
def status : Termination → Status
  | halted _ => .halted
  | faulted _ => .faulted
  | denied _ => .denied

/-- The exit status by which a command line reports the end of a run. -/
def exitCode : Termination → Nat
  | halted _ => 0
  | faulted _ => 2
  | denied _ => 3

/-- The topmost value at the end, if the run halted with one. -/
def top? : Termination → Option Value
  | halted values => values.getLast?
  | _ => none

/-- The fault that ended the run, unless it halted. -/
def fault? : Termination → Option Fault
  | halted _ => none
  | faulted fault | denied fault => some fault

instance : ToString Termination where
  toString
    | halted values =>
      let values := ", ".intercalate (values.map toString)
      s!"halted [{values}]"
    | faulted fault => s!"faulted: {fault}"
    | denied fault => s!"denied: {fault}"

end Termination

end CapabilityMachine
