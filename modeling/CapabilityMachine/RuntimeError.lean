import CapabilityMachine.Text.Numeral
import CapabilityMachine.Value
/-!
# Runtime errors

Why a stack or memory operation, a host action or a machine step fails, with the wording of each
cause, and the place in a program at which a failure happened.
-/

namespace CapabilityMachine

/-- Why an operation failed. -/
inductive RuntimeError where
  | stackOverflow (limit : Nat)
  | stackUnderflow (needed depth : Nat)
  | outOfBounds (offset : Int64) (length : Nat)
  | outOfMemory (requested available : Nat)
  /-- The region behind the reference was released. -/
  | danglingReference (reference : Reference)
  | arithmeticOverflow (operation : String)
  | divisionByZero
  | typeMismatch (expected actual : Kind)
  | capabilityDenied (id : CapabilityId)
  /-- A granted capability was invoked with a bad call shape, or its action failed. -/
  | capabilityError (id : CapabilityId) (reason : String)
  /-- A host action could not perform its effect. -/
  | hostFailure (reason : String)
  /-- The handle was issued by another registry. -/
  | unresolvedCapability (id : CapabilityId)
  | callDepthExceeded (limit : Nat)
  | config (reason : String)
  /-- An inconsistency that no program can bring about. -/
  | internal (reason : String)
deriving DecidableEq, Repr

namespace RuntimeError

/-- The error as a text for people. -/
def message : RuntimeError → String
  | stackOverflow limit => s!"stack overflow: depth limit {limit}"
  | stackUnderflow needed depth => s!"stack underflow: needed {needed}, depth {depth}"
  | outOfBounds offset length => s!"out of bounds: offset {offset} (region length {length})"
  | outOfMemory requested available =>
      s!"out of memory: requested {requested} cell(s), {available} available"
  | danglingReference reference => s!"dangling reference: {reference.detail}"
  | arithmeticOverflow operation => s!"arithmetic overflow in {operation}"
  | divisionByZero => "division by zero"
  | typeMismatch expected actual => s!"type mismatch: expected {expected}, got {actual}"
  | capabilityDenied id => s!"capability denied: {id}"
  | capabilityError id reason => s!"capability error on {id}: {reason}"
  | hostFailure reason => s!"host action failed: {reason}"
  | unresolvedCapability id => s!"unresolved capability handle for {id}"
  | callDepthExceeded limit => s!"call depth limit {limit} exceeded"
  | config reason => s!"invalid configuration: {reason}"
  | internal reason => s!"internal error: {reason}"

instance : ToString RuntimeError := ⟨message⟩

/-- The error refuses a capability, as opposed to reporting something that went wrong. -/
def isDenial : RuntimeError → Bool
  | capabilityDenied _ => true
  | _ => false

end RuntimeError

/-- Where in a program something happened, as far as it is known. -/
structure Site where
  instruction : Option Nat := none
  /-- The offset of the instruction's first byte in the code section. -/
  offset : Option Nat := none
  mnemonic : Option String := none
  /-- The return indices of the active calls, innermost first. -/
  frames : List Nat := []
deriving DecidableEq, Repr

namespace Site

/-- The line about the instruction itself, which is empty if its index is unknown. -/
def headline (site : Site) : String :=
  match site.instruction with
  | none => ""
  | some index =>
    match site.mnemonic, site.offset with
    | some mnemonic, some offset =>
      s!"at instruction {index} ({mnemonic} @ {Numeral.offset offset})"
    | _, _ => s!"at instruction {index}"

/-- The text of the site: the instruction, and below it one line per active call, innermost first,
which names the calling instruction. -/
def text (site : Site) : String :=
  site.headline
    ++ String.join (site.frames.map fun frame => s!"\n  called from instruction {frame - 1}")

instance : ToString Site := ⟨text⟩

end Site

end CapabilityMachine
