import CapabilityMachine.Host.Script
import CapabilityMachine.Proofs.Machine.AuditLog
/-!
# What a failed invocation is blamed on

The error of a failed invocation names a capability. It is the invoked one, whether the arguments,
the action or its result are at fault, with one exception: an action that fails with a capability
error of its own is not asked which capability it means. Its error reaches the program, the fault
and the trace as it is, also if it names another capability than the invoked one.
-/

namespace CapabilityMachine

open Outcome

variable {α ω : Type} [HostAction α ω]

namespace Registry

variable {registry : Registry α} {id blamed : CapabilityId} {handle : Handle}
  {arguments : List Value} {world : ω} {error : RuntimeError} {reason : String}

/-- The invocation has an action performed, which fails with the capability error. -/
def Reports (registry : Registry α) (handle : Handle) (arguments : List Value) (world : ω)
    (blamed : CapabilityId) (reason : String) : Prop :=
  ∃ action, registry.resolve handle = .ok action ∧
    (HostAction.signature action).checkArguments handle.id arguments = .ok () ∧
    (HostAction.perform action arguments world).outcome = .error (.capabilityError blamed reason)

/-- The error of an action is blamed on the capability, unless it is a capability error already. -/
theorem actionError_cases (id : CapabilityId) (error : RuntimeError) :
    actionError id error = .capabilityError id error.message ∨
      ∃ blamed reason, error = .capabilityError blamed reason ∧ actionError id error = error := by
  cases error <;> simp [actionError]

theorem actionError_eq_capabilityError
    (failed : actionError id error = .capabilityError blamed reason) :
    blamed = id ∨ error = .capabilityError blamed reason := by
  rcases actionError_cases id error with wrapped | ⟨_, _, _, same⟩
  · left
    rw [wrapped] at failed
    cases failed
    rfl
  · right
    exact same.symm.trans failed

theorem checkOutcome_eq_capabilityError {signature : Signature}
    {outcome : Except RuntimeError Value}
    (failed : checkOutcome signature id outcome = .error (.capabilityError blamed reason)) :
    blamed = id ∨ outcome = .error (.capabilityError blamed reason) := by
  cases outcome with
  | error cause =>
    rcases actionError_eq_capabilityError (Except.error.inj failed) with same | rfl
    · exact .inl same
    · exact .inr rfl
  | ok result =>
    simp only [checkOutcome, bind_eq_error, pure_ne_error, and_false, exists_false,
      or_false] at failed
    rcases Signature.checkResult_error failed with ⟨_, isError⟩
    cases isError
    exact .inl rfl

/-- A failed invocation is blamed on the capability of the handle or on what the action reports. -/
theorem blamed_of_invoke
    (failed : (registry.invoke handle arguments world).outcome =
      .error (.capabilityError blamed reason)) :
    blamed = handle.id ∨ registry.Reports handle arguments world blamed reason := by
  rw [invoke] at failed
  cases resolved : registry.resolve handle with
  | error error =>
    rw [resolved] at failed
    cases failed
    rcases resolve_error resolved with ⟨_, isUnresolved⟩ | ⟨_, withholds⟩
    · cases isUnresolved
    · cases withholds
  | ok action =>
    rw [resolved] at failed
    dsimp only at failed
    cases checked : (HostAction.signature action).checkArguments handle.id arguments with
    | error error =>
      rw [checked] at failed
      cases failed
      rcases Signature.checkArguments_error checked with ⟨_, isError⟩
      cases isError
      exact .inl rfl
    | ok done =>
      rw [checked] at failed
      rcases checkOutcome_eq_capabilityError failed with same | reported
      · exact .inl same
      · exact .inr ⟨action, resolved, checked, reported⟩

/-- What an action reports is passed on as it is. -/
theorem Reports.outcome_invoke (reports : registry.Reports handle arguments world blamed reason) :
    (registry.invoke handle arguments world).outcome =
      .error (.capabilityError blamed reason) := by
  rcases reports with ⟨action, resolved, checked, reported⟩
  simp only [invoke, resolved, checked, reported]
  rfl

end Registry

namespace Machine

variable {initial machine after : Machine α ω} {index count : Nat} {instruction : Instruction}
  {handle : Handle} {arguments : List Value} {blamed : CapabilityId} {reason : String}

/-- The machine's next step executes the instruction at the index, which invokes the handle with the
arguments. The capability that is blamed is that of the handle, or the one that the action reports.
-/
structure Blames (machine : Machine α ω) (index : Nat) (handle : Handle) (arguments : List Value)
    (blamed : CapabilityId) (reason : String) : Prop where
  called : ∃ instruction, machine.Executes index instruction ∧
    machine.Calls instruction handle arguments ∧
    (instruction.capability? = some handle.id ∨ ∃ argumentCount,
      instruction = .invokeHandle argumentCount ∧
        machine.core.stack.peek argumentCount.toNat = .ok (.cap handle))
  blamed : blamed = handle.id ∨
    machine.registry.Reports handle arguments machine.world blamed reason

omit [HostAction α ω] in
/-- The handle of an invocation is that of the capability which the instruction names, or is found
below the arguments. -/
theorem Calls.handle_cases (calls : machine.Calls instruction handle arguments) :
    instruction.capability? = some handle.id ∨ ∃ argumentCount,
      instruction = .invokeHandle argumentCount ∧
        machine.core.stack.peek argumentCount.toNat = .ok (.cap handle) := by
  cases calls with
  | byId room issued taken =>
    rcases Registry.issue_eq_ok.1 issued with ⟨_, rfl⟩
    exact .inl rfl
  | @byHandle argumentCount _ _ held taken => exact .inr ⟨argumentCount, rfl, held⟩

theorem blames_of_calls (executes : machine.Executes index instruction)
    (calls : machine.Calls instruction handle arguments)
    (failed : (machine.registry.invoke handle arguments machine.world).outcome =
      .error (.capabilityError blamed reason)) :
    machine.Blames index handle arguments blamed reason :=
  ⟨⟨instruction, executes, calls, calls.handle_cases⟩, Registry.blamed_of_invoke failed⟩

/-- No instruction fails with a capability error unless it invokes a capability. -/
theorem Failure.exists_calls
    (failure : machine.Failure instruction (.capabilityError blamed reason) after) :
    ∃ handle arguments, machine.Calls instruction handle arguments ∧
      (machine.registry.invoke handle arguments machine.world).outcome =
        .error (.capabilityError blamed reason) := by
  cases failure with
  | refused asked =>
    rcases (Core.refuses_of_request_eq_error asked).isLocal_or_denied with
      isLocal | ⟨id, _, _, isDenial⟩
    · cases isLocal
    · cases isDenial
  | @rejected handle arguments replaced asked outcome_eq =>
    exact ⟨handle, arguments, calls_of_asked asked, outcome_eq⟩

theorem exists_blames_of_fault {program : Program} {registry : Registry α} {world : ω}
    {settings : Settings} (created : create program registry world settings = .ok initial)
    {termination : Termination} {fault : Fault}
    (terminated : (initial.stepTimes count).termination? = some termination)
    (isFault : termination.fault? = some fault)
    (error_eq : fault.error = .capabilityError blamed reason) :
    ∃ earlier < count, ∃ handle arguments,
      (initial.stepTimes earlier).Blames fault.instruction handle arguments blamed reason := by
  rcases exists_last_step created terminated with ⟨earlier, before, active, ended⟩
  rcases (transition_step active).failure ended isFault with
    ⟨instruction, fetched, fault_eq, failure⟩
  rw [error_eq] at failure
  rcases failure.exists_calls with ⟨handle, arguments, calls, failed⟩
  have executes : (initial.stepTimes earlier).Executes fault.instruction instruction := by
    rw [fault_eq]
    exact ⟨active, rfl, fetched⟩
  exact ⟨earlier, before, handle, arguments, blames_of_calls executes calls failed⟩

/-- What the trace shows was invoked. -/
theorem mem_invocations_of_mem_trace {program : Program} {registry : Registry α} {world : ω}
    {settings : Settings} (created : create program registry world settings = .ok initial)
    {record : InvocationRecord} (member : record ∈ (initial.stepTimes count).trace.toList) :
    record ∈ initial.invocations count := by
  have initial_eq := (create_eq_ok.1 created).2
  have empty : initial.trace.newest = [] := by rw [initial_eq]
  have nothing : initial.trace.Shows [] := by
    rw [initial_eq]
    exact ⟨List.take_nil.symm, rfl⟩
  cases traced : initial.settings.traceCapabilities with
  | true =>
    rw [(shows_invocations traced nothing count).1.toList_eq] at member
    exact List.mem_of_mem_drop member
  | false =>
    rw [trace_of_untraced traced, Trace.toList, empty] at member
    cases member

/-- A capability error names the invoked capability, or what the performed action reports itself,
which is passed on unchanged. So do the fault and the trace of every run. -/
theorem capability_errors_blame {program : Program} {host : Registry α} {start : ω}
    {settings : Settings} (created : create program host start settings = .ok initial)
    (count : Nat) :
    (∀ (registry : Registry α) handle arguments world blamed reason,
      ((registry.invoke handle arguments world).outcome = .error (.capabilityError blamed reason) →
        blamed = handle.id ∨ registry.Reports handle arguments world blamed reason) ∧
      (registry.Reports handle arguments world blamed reason →
        (registry.invoke handle arguments world).outcome =
          .error (.capabilityError blamed reason))) ∧
    (∀ (registry : Registry α) id arguments world blamed reason,
      (registry.invokeId id arguments world).outcome = .error (.capabilityError blamed reason) →
        blamed = id ∨ registry.Reports ⟨id, registry.token⟩ arguments world blamed reason) ∧
    (∀ termination fault blamed reason, (initial.stepTimes count).termination? = some termination →
      termination.fault? = some fault → fault.error = .capabilityError blamed reason →
        ∃ earlier < count, ∃ handle arguments,
          (initial.stepTimes earlier).Blames fault.instruction handle arguments blamed reason) ∧
    ∀ record ∈ (initial.stepTimes count).trace.toList, ∀ blamed reason,
      record.outcome = .error (.capabilityError blamed reason) →
        ∃ earlier < count, ∃ handle, record.id = handle.id ∧
          (initial.stepTimes earlier).Blames record.instruction handle record.arguments blamed
            reason := by
  refine ⟨?_, ?_, ?_, ?_⟩
  · intro registry handle arguments world blamed reason
    exact ⟨Registry.blamed_of_invoke, fun reports => reports.outcome_invoke⟩
  · intro registry id arguments world blamed reason failed
    rw [Registry.invokeId_eq] at failed
    exact Registry.blamed_of_invoke failed
  · intro termination fault blamed reason terminated isFault error_eq
    exact exists_blames_of_fault created terminated isFault error_eq
  · intro record member blamed reason failed
    rcases mem_invocations.1 (mem_invocations_of_mem_trace created member) with
      ⟨earlier, before, instruction, handle, executes, calls, _, id_eq, outcome_eq⟩
    exact ⟨earlier, before, handle, id_eq,
      blames_of_calls executes calls (outcome_eq.symm.trans failed)⟩

/-- A registry whose only capability always fails with the error. -/
def failing (error : RuntimeError) : Registry ScriptedAction :=
  let registration : Registration ScriptedAction := {
    action := ⟨{ name := "test.fail" }, .fail error, 0⟩
    signature := { name := "test.fail" } }
  ⟨⟨0⟩, {
    registrations := (∅ : IdTable _).insert ⟨3⟩ registration
    grants := (∅ : IdSet).insert ⟨3⟩ () }⟩

/-- A program that invokes the only capability of such a registry. -/
def invoking : Program where
  instructions := #[.invoke ⟨3⟩ 0]
  offsets := #[0]
  entry := 0
  capabilities := [⟨3⟩]
  version := ⟨1, 0⟩

/-- A failure of the host is blamed on the invoked capability. -/
theorem capability_errors_blame_host_failure :
    ∃ (initial : Machine ScriptedAction World) (fault : Fault) (handle : Handle)
      (arguments : List Value),
      create invoking (failing (.hostFailure "off")) {} {} = .ok initial ∧
      (initial.stepTimes 1).termination? = some (.faulted fault) ∧
      fault.error = .capabilityError ⟨3⟩ "host action failed: off" ∧
      initial.Blames 0 handle arguments ⟨3⟩ "host action failed: off" := by
  rcases (⟨_, rfl⟩ : ∃ initial : Machine ScriptedAction World,
    create invoking (failing (.hostFailure "off")) {} {} = .ok initial) with ⟨initial, created⟩
  let fault : Fault := {
    instruction := 0
    offset := 0
    opcode := .invoke
    error := .capabilityError ⟨3⟩ "host action failed: off"
    frames := [] }
  have ended : (initial.stepTimes 1).termination? = some (.faulted fault) := by
    cases created
    decide +kernel
  rcases (capability_errors_blame created 1).2.2.1 _ fault _ _ ended rfl rfl with
    ⟨earlier, before, handle, arguments, blames⟩
  rcases Nat.lt_one_iff.1 before with rfl
  exact ⟨initial, fault, handle, arguments, created, ended, rfl, blames⟩

/-- An action that fails on behalf of another capability is believed: the fault and the trace name
the other one. -/
theorem capability_error_blames_another :
    ∃ (initial : Machine ScriptedAction World) (fault : Fault) (record : InvocationRecord),
      create invoking (failing (.capabilityError ⟨9⟩ "nested call failed")) {}
        { traceCapabilities := true } = .ok initial ∧
      initial.Executes 0 (.invoke ⟨3⟩ 0) ∧ initial.step.Ended (.faulted fault) ∧
      fault.instruction = 0 ∧ fault.error = .capabilityError ⟨9⟩ "nested call failed" ∧
      initial.step.trace.toList = [record] ∧ record.id = ⟨3⟩ ∧
      record.outcome = .error (.capabilityError ⟨9⟩ "nested call failed") := by
  rcases (⟨_, rfl⟩ : ∃ initial : Machine ScriptedAction World,
    create invoking (failing (.capabilityError ⟨9⟩ "nested call failed")) {}
      { traceCapabilities := true } = .ok initial) with ⟨initial, created⟩
  cases created
  exact ⟨_, _, _, rfl, ⟨rfl, rfl, rfl⟩, ⟨rfl, rfl⟩, rfl, rfl, rfl, rfl, rfl⟩

end Machine

end CapabilityMachine
