import CapabilityMachine.Machine.Step
import CapabilityMachine.Program.Load
/-!
# Runs

Runs of whole programs, from bytes to termination. A machine has no step limit of its own, so a run
is asked for up to a number of steps, and has no result if it takes more.
-/

namespace CapabilityMachine

variable {α ω : Type}

/-- What a run comes to. -/
structure RunResult where
  termination : Termination
  /-- The number of executed instructions, one that failed included. -/
  steps : Nat
  /-- The recorded invocations, oldest first. -/
  trace : List InvocationRecord

namespace Machine

/-- The result of the run, once it is over. -/
def result? (machine : Machine α ω) : Option RunResult :=
  machine.termination?.map fun termination =>
    { termination, steps := machine.steps, trace := machine.trace.toList }

/-- The machine at the end of its run, if that comes within the given number of steps. -/
def run [HostAction α ω] (machine : Machine α ω) (fuel : Nat) : Option (Machine α ω) :=
  match machine.termination?, fuel with
  | some _, _ => some machine
  | none, 0 => none
  | none, fuel + 1 => machine.step.run fuel

end Machine

/-- Why a run did not begin. -/
inductive StartError where
  | load (error : LoadError)
  | settings (error : RuntimeError)
deriving DecidableEq, Repr

namespace StartError

/-- The error as a text for people. -/
def message : StartError → String
  | load error => error.message
  | settings error => error.message

/-- The exit status by which a command line reports the error. -/
def exitCode : StartError → Nat
  | load _ => LoadError.exitCode
  | settings _ => 64

end StartError

/-- The machine for a program in bytes, at the start of its run. -/
def start (options : LoadOptions) (bytes : List UInt8) (registry : Registry α) (world : ω)
    (settings : Settings) : Except StartError (Machine α ω) := do
  let program ← (load options bytes).mapError .load
  (Machine.create program registry world settings).mapError .settings

/-- How the loader treats capabilities that the host does not know. -/
inductive Honoring where
  /-- They are refused where a program uses them. -/
  | lenient
  /-- Programs that declare them, or that pass another number of arguments to a capability than it
  takes, are not loaded. -/
  | strict
deriving DecidableEq, Repr

/-- The options with which the loader treats capabilities in this way. -/
def Honoring.options (honoring : Honoring) (registry : Registry α) : LoadOptions :=
  match honoring with
  | lenient => {}
  | strict => { catalog := some registry.catalog }

/-- Runs the program that the bytes encode. The answer is the machine at the end of the run, if that
comes within the given number of steps. -/
def runBytes [HostAction α ω] (honoring : Honoring) (bytes : List UInt8) (registry : Registry α)
    (world : ω) (settings : Settings) (fuel : Nat) :
    Except StartError (Option (Machine α ω)) := do
  let machine ← start (honoring.options registry) bytes registry world settings
  return machine.run fuel

end CapabilityMachine
