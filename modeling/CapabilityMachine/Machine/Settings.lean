import CapabilityMachine.RuntimeError
/-!
# Settings of a machine

What the host fixes about a run before it starts: the limits on stack, memory and calls, and
whether invocations of capabilities are recorded. A program cannot change them.
-/

namespace CapabilityMachine

/-- The limits of a run, and what is recorded of it. -/
structure Settings where
  /-- The largest number of values on the operand stack, at least 1. -/
  maxStackDepth : Nat := 1024
  memoryCells : Nat := 65536
  maxCallDepth : Nat := 256
  /-- Every invocation of a capability is recorded. -/
  traceCapabilities : Bool := false
  /-- The largest number of records that are kept. -/
  traceLimit : Nat := 1024
deriving DecidableEq, Repr

namespace Settings

/-- Tight limits, for short embedded programs. -/
def small : Settings where
  maxStackDepth := 64
  memoryCells := 1024
  maxCallDepth := 16

/-- The usual limits, with invocations recorded. -/
def debug : Settings where
  traceCapabilities := true
  traceLimit := 4096

/-- Fails unless a machine can be built with the settings. -/
def validate (settings : Settings) : Except RuntimeError Unit :=
  if settings.maxStackDepth = 0 then
    .error (.config "max_stack_depth must be at least 1")
  else
    .ok ()

end Settings

end CapabilityMachine
