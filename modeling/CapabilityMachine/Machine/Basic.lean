import CapabilityMachine.Host.Registry
import CapabilityMachine.Machine.Memory
import CapabilityMachine.Machine.Settings
import CapabilityMachine.Machine.Stack
import CapabilityMachine.Machine.Termination
import CapabilityMachine.Machine.Trace
import CapabilityMachine.Program.Basic
/-!
# Machines

A machine is a program with all that its run has to do with: the operand stack, the memory and the
calls it has not returned from, the registry of its capabilities and the world of its host, and the
trace of its invocations.
-/

namespace CapabilityMachine

variable {α ω : Type}

/-- The part of a machine that instructions compute on. -/
structure Core where
  stack : Stack
  memory : Memory
  /-- The index to return to for each active call, innermost first. -/
  frames : List Nat := []
deriving DecidableEq, Repr

/-- A program in execution, with actions of type `α` in a world of type `ω`. -/
structure Machine (α ω : Type) where
  program : Program
  settings : Settings
  registry : Registry α
  world : ω
  core : Core
  /-- The index of the next instruction. -/
  position : Nat
  /-- The number of executed instructions, one that failed included. -/
  steps : Nat := 0
  status : Status := .ready
  /-- How the run ended, once it has. -/
  termination? : Option Termination := none
  trace : Trace

namespace Machine

/-- A machine at the entry point of its program. -/
def create (program : Program) (registry : Registry α) (world : ω) (settings : Settings) :
    Except RuntimeError (Machine α ω) := do
  settings.validate
  return {
    program, settings, registry, world
    core := { stack := { limit := settings.maxStackDepth }
              memory := { capacity := settings.memoryCells } }
    position := program.entry
    trace := { limit := settings.traceLimit }
  }

/-- The number of active calls. -/
def callDepth (machine : Machine α ω) : Nat :=
  machine.core.frames.length

end Machine

end CapabilityMachine
