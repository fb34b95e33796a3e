import CapabilityMachine.Host.Device
import CapabilityMachine.Proofs.Machine.Transition
import CapabilityMachine.Proofs.Program.Loading
import Mathlib
/-!
# Failing steps change nothing

An instruction that fails leaves the stack, the memory and the calls as they were, although it may
have come to change some of them already. Only what the host did on the way to the failure stays
done, and that takes an invocation which the registry permits.
-/

namespace CapabilityMachine

open Outcome

namespace Machine

variable {α ω : Type} [HostAction α ω] {initial machine after : Machine α ω}
  {instruction : Instruction} {error : RuntimeError}

/-- The record of an invocation that fails. -/
def failedInvocation (machine : Machine α ω) (handle : Handle) (arguments : List Value)
    (error : RuntimeError) : InvocationRecord where
  step := machine.steps
  instruction := machine.position
  id := handle.id
  arguments
  outcome := .error error

/-- The host stays as it is unless an action was performed. -/
theorem Failure.host_eq (failure : machine.Failure instruction error after) :
    (after.registry = machine.registry ∧ after.world = machine.world) ∨
      ∃ handle arguments, machine.Performs instruction handle arguments := by
  cases failure with
  | refused asked => exact Or.inl ⟨rfl, rfl⟩
  | @rejected handle arguments _ asked outcome_eq =>
    by_cases permits : machine.registry.Permits handle arguments
    · exact Or.inr ⟨handle, arguments, calls_of_asked asked, permits⟩
    · exact Or.inl (Registry.invoke_of_not_permits permits)

/-- The trace stays as it is, or gets the record of the invocation that failed. -/
theorem Failure.trace_eq (failure : machine.Failure instruction error after) :
    after.trace = machine.trace ∨
      machine.settings.traceCapabilities = true ∧
        ∃ handle arguments, machine.Calls instruction handle arguments ∧
          after.trace = machine.trace.push (machine.failedInvocation handle arguments error) := by
  cases failure with
  | refused asked => exact Or.inl rfl
  | @rejected handle arguments _ asked outcome_eq =>
    cases traced : machine.settings.traceCapabilities with
    | false => simp [count, fail, afterInvoking, answered, traced]
    | true =>
      right
      refine ⟨rfl, handle, arguments, calls_of_asked asked, ?_⟩
      simp [count, fail, afterInvoking, answered, traced, failedInvocation, outcome_eq]

/-- A step that ends in a fault or a denial commits nothing: stack, memory, calls and position are
as they were before, and the fault tells where it happened. The host may have changed only if the
instruction has an action performed, and the trace only by the record of its invocation. -/
theorem failed_step_commits_nothing {options : LoadOptions} {bytes : List UInt8} {program : Program}
    {registry : Registry α} {world : ω} {settings : Settings}
    (loaded : load options bytes = .ok program)
    (created : create program registry world settings = .ok initial)
    (reached : initial.Reaches machine) (active : machine.Active)
    (failed : machine.step.status = .faulted ∨ machine.step.status = .denied) :
    ∃ instruction fault, machine.Executes machine.position instruction ∧
      machine.step.Ended (.ofFault fault) ∧
      machine.step.core = machine.core ∧ machine.step.position = machine.position ∧
      machine.step.steps = machine.steps + 1 ∧
      fault.instruction = machine.position ∧
      program.offset? machine.position = some fault.offset ∧
      fault.opcode = instruction.opcode ∧ fault.frames = machine.core.frames ∧
      ((machine.step.registry = machine.registry ∧ machine.step.world = machine.world) ∨
        ∃ handle arguments, machine.Performs instruction handle arguments) ∧
      (machine.step.trace = machine.trace ∨
        machine.settings.traceCapabilities = true ∧
          ∃ handle arguments, machine.Calls instruction handle arguments ∧
            machine.step.trace =
              machine.trace.push (machine.failedInvocation handle arguments fault.error)) := by
  rcases (transition_step active).exists_failure failed with ⟨instruction, error, fetched, failure⟩
  have same : machine.program = program := by
    rw [reached.program_eq, (create_eq_ok.1 created).2]
  subst same
  have inside : machine.position < machine.program.size :=
    (Array.getElem?_eq_some_iff.1 fetched).1
  rcases Load.exists_offset loaded inside with ⟨offset, isOffset⟩
  refine ⟨instruction, machine.faultOf instruction error, ⟨active, rfl, fetched⟩, failure.ended,
    failure.core_eq, failure.position_eq, failure.steps_eq, rfl, ?_, rfl, rfl, failure.host_eq,
    failure.trace_eq⟩
  rw [faultOf, isOffset]
  rfl

/-- A run that stores behind the end of a region, in the step that fails. -/
theorem failed_step_commits_nothing_store :
    ∃ (program : Program) (initial : Machine Device World),
      load {} ([0x43, 0x50, 0x53, 0x54, 1, 0, 0, 0, 0, 0, 0, 0, 0, 0, 0, 0, 0, 7] ++
        Code.encode [.alloc 1, .pushUnit, .store 1]) = .ok program ∧
      create program ⟨⟨0⟩, {}⟩ {} {} = .ok initial ∧
      initial.step.step.step.status = .faulted ∧
      initial.step.step.step.core = initial.step.step.core := by
  let program : Program := {
    instructions := #[.alloc 1, .pushUnit, .store 1]
    offsets := #[0, 3, 4]
    entry := 0
    capabilities := []
    version := ⟨1, 0⟩ }
  have loaded : load {} ([0x43, 0x50, 0x53, 0x54, 1, 0, 0, 0, 0, 0, 0, 0, 0, 0, 0, 0, 0, 7] ++
      Code.encode [.alloc 1, .pushUnit, .store 1]) = .ok program := by cbv
  rcases (⟨_, rfl⟩ : ∃ initial : Machine Device World,
    create program ⟨⟨0⟩, {}⟩ {} {} = .ok initial) with ⟨initial, created⟩
  have active : initial.step.step.Active := by
    cases created
    rfl
  have failed : initial.step.step.step.status = .faulted := by
    cases created
    rfl
  rcases failed_step_commits_nothing loaded created (Reaches.refl initial).step.step active
    (Or.inl failed) with ⟨_, _, _, _, unchanged, _⟩
  exact ⟨program, initial, loaded, created, failed, unchanged⟩

end Machine

end CapabilityMachine
