import CapabilityMachine.Proofs.Machine.Transition
/-!
# Machines in step

A step changes the host and the trace of a machine by the invocation that it comes to, if it comes
to one, and everything else depends on the host only through the handles that it issues and the
outcomes of its invocations. So machines with different hosts and other settings of the trace go
through the same run, as long as their hosts issue the same handles and their invocations have the
same outcomes.
-/

namespace CapabilityMachine

open Outcome

variable {α β ω υ : Type}

theorem Core.request_congr {registry : Registry α} {other : Registry β}
    (issues : ∀ id, other.issue id = registry.issue id) (core : Core) (maxCallDepth index : Nat)
    (instruction : Instruction) :
    core.request other maxCallDepth index instruction =
      core.request registry maxCallDepth index instruction := by
  cases instruction with
  | cap id => simp only [Core.request, issues]
  | invoke id argumentCount => simp only [Core.request, issues]
  | nop | push | pushBool | pushUnit | pop | dup | swap | pick | binary | unary | jump | branch |
    call | ret | alloc | load | store | loadAt | storeAt | invokeHandle | halt => rfl

/-- The handle and the arguments of the invocation that is asked for. -/
def Request.invocation? : Request → Option (Handle × List Value)
  | proceed _ _ => none
  | invoke handle arguments _ => some (handle, arguments)

namespace Machine

/-! ### What a step does to the host -/

section Invocation

variable {machine : Machine α ω} {handle : Handle} {arguments : List Value}

/-- The handle and the arguments of the invocation that the machine's next step comes to. -/
def invocation? (machine : Machine α ω) : Option (Handle × List Value) :=
  if machine.status.isTerminal then none
  else do
    let instruction ← machine.program.get? machine.position
    let request ← (machine.request instruction).toOption
    request.invocation?

theorem invocation?_of_not_active (inactive : ¬machine.Active) : machine.invocation? = none :=
  if_pos (not_active_iff.1 inactive)

theorem invocation?_of_outside (outside : machine.program.get? machine.position = none) :
    machine.invocation? = none := by
  simp [invocation?, outside]

theorem invocation?_of_error {instruction : Instruction} {error : RuntimeError}
    (fetched : machine.program.get? machine.position = some instruction)
    (refused : machine.request instruction = .error error) : machine.invocation? = none := by
  simp [invocation?, fetched, refused, Except.toOption]

theorem invocation?_of_proceeding {instruction : Instruction} {core : Core} {flow : Flow}
    (fetched : machine.program.get? machine.position = some instruction)
    (asked : machine.request instruction = .ok (.proceed core flow)) :
    machine.invocation? = none := by
  simp [invocation?, fetched, asked, Except.toOption, Request.invocation?]

theorem invocation?_of_asked {instruction : Instruction} {replaced : Nat} (active : machine.Active)
    (fetched : machine.program.get? machine.position = some instruction)
    (asked : machine.request instruction = .ok (.invoke handle arguments replaced)) :
    machine.invocation? = some (handle, arguments) := by
  have goesOn : ¬machine.status.isTerminal = true := Bool.eq_false_iff.1 active
  simp [invocation?, goesOn, fetched, asked, Except.toOption, Request.invocation?]

theorem invocation?_eq_some :
    machine.invocation? = some (handle, arguments) ↔
      ∃ instruction, machine.Executes machine.position instruction ∧
        machine.Calls instruction handle arguments := by
  constructor
  · intro isInvocation
    by_cases active : machine.Active
    · cases fetched : machine.program.get? machine.position with
      | none => cases (invocation?_of_outside fetched).symm.trans isInvocation
      | some instruction =>
        cases asked : machine.request instruction with
        | error error => cases (invocation?_of_error fetched asked).symm.trans isInvocation
        | ok request =>
          cases request with
          | proceed core flow =>
            cases (invocation?_of_proceeding fetched asked).symm.trans isInvocation
          | invoke handle arguments replaced =>
            cases (invocation?_of_asked active fetched asked).symm.trans isInvocation
            exact ⟨instruction, ⟨active, rfl, fetched⟩, calls_of_asked asked⟩
    · cases (invocation?_of_not_active active).symm.trans isInvocation
  · rintro ⟨instruction, ⟨active, _, fetched⟩, calls⟩
    rcases exists_asked_of_calls calls with ⟨replaced, asked⟩
    exact invocation?_of_asked active fetched asked

/-- To continue elsewhere changes neither the host nor the trace. -/
theorem follow_surroundings (machine : Machine α ω) (flow : Flow) :
    (machine.follow flow).registry = machine.registry ∧
      (machine.follow flow).world = machine.world ∧
      (machine.follow flow).trace = machine.trace ∧
      (machine.follow flow).steps = machine.steps := by
  rcases machine.follow_eq flow with ⟨position, status, termination?, same⟩
  rw [same]
  exact ⟨rfl, rfl, rfl, rfl⟩

variable [HostAction α ω]

/-- The machine after the invocation that its next step comes to, if it comes to one. -/
def invoked (machine : Machine α ω) : Machine α ω :=
  match machine.invocation? with
  | none => machine
  | some (handle, arguments) => machine.afterInvoking handle arguments

theorem invoked_of_none (quiet : machine.invocation? = none) : machine.invoked = machine := by
  rw [invoked, quiet]

theorem invoked_of_some (isInvocation : machine.invocation? = some (handle, arguments)) :
    machine.invoked = machine.afterInvoking handle arguments := by
  rw [invoked, isInvocation]

/-- A step changes the host and the trace by its invocation and in no other way. -/
theorem step_surroundings (machine : Machine α ω) :
    machine.step.registry = machine.invoked.registry ∧
      machine.step.world = machine.invoked.world ∧ machine.step.trace = machine.invoked.trace := by
  by_cases active : machine.Active
  · have transition := transition_step active
    generalize machine.step = after at transition ⊢
    cases transition with
    | leave outside =>
      rw [invoked_of_none (invocation?_of_outside outside)]
      exact ⟨rfl, rfl, rfl⟩
    | refuse fetched refused =>
      rw [invoked_of_none (invocation?_of_error fetched refused)]
      exact ⟨rfl, rfl, rfl⟩
    | @proceed instruction core flow fetched asked =>
      rw [invoked_of_none (invocation?_of_proceeding fetched asked)]
      have unchanged := follow_surroundings (count { machine with core }) flow
      exact ⟨unchanged.1, unchanged.2.1, unchanged.2.2.1⟩
    | reject fetched asked rejected =>
      rw [invoked_of_some (invocation?_of_asked active fetched asked)]
      exact ⟨rfl, rfl, rfl⟩
    | @answer instruction handle arguments replaced result fetched asked answered =>
      rw [invoked_of_some (invocation?_of_asked active fetched asked)]
      have unchanged := follow_surroundings (count { machine.afterInvoking handle arguments with
        core := machine.core.withValues (result :: machine.core.stack.values.drop replaced) }) .next
      exact ⟨unchanged.1, unchanged.2.1, unchanged.2.2.1⟩
  · rw [step_of_not_active active, invoked_of_none (invocation?_of_not_active active)]
    exact ⟨rfl, rfl, rfl⟩

theorem steps_le_steps_step (machine : Machine α ω) : machine.steps ≤ machine.step.steps := by
  by_cases active : machine.Active
  · have transition := transition_step active
    generalize machine.step = after at transition ⊢
    cases transition with
    | leave outside => exact Nat.le_refl _
    | refuse fetched refused => exact Nat.le_succ _
    | proceed fetched asked =>
      rw [(follow_surroundings _ _).2.2.2]
      exact Nat.le_succ _
    | reject fetched asked rejected => exact Nat.le_succ _
    | answer fetched asked answered =>
      rw [(follow_surroundings _ _).2.2.2]
      exact Nat.le_succ _
  · exact Nat.le_of_eq (congrArg steps (step_of_not_active active)).symm

/-- An invocation takes a step. -/
theorem steps_step_of_invocation? (isInvocation : machine.invocation? = some (handle, arguments)) :
    machine.step.steps = machine.steps + 1 := by
  rcases invocation?_eq_some.1 isInvocation with ⟨instruction, ⟨active, _, fetched⟩, calls⟩
  rcases exists_asked_of_calls calls with ⟨replaced, asked⟩
  cases outcome : (machine.response handle arguments).outcome with
  | error error =>
    rw [step_of_rejected active fetched asked outcome]
    rfl
  | ok result =>
    rw [step_of_answered active fetched asked outcome, (follow_surroundings _ _).2.2.2]
    rfl

end Invocation

/-! ### Runs side by side -/

/-- The machines are at the same point of the same run. Their hosts, their traces and what is set
about the traces may differ. -/
structure InStep (first : Machine α ω) (second : Machine β υ) : Prop where
  program_eq : second.program = first.program
  maxCallDepth_eq : second.settings.maxCallDepth = first.settings.maxCallDepth
  core_eq : second.core = first.core
  position_eq : second.position = first.position
  steps_eq : second.steps = first.steps
  status_eq : second.status = first.status
  termination_eq : second.termination? = first.termination?

namespace InStep

variable {first : Machine α ω} {second : Machine β υ}

theorem active_iff (inStep : first.InStep second) : second.Active ↔ first.Active := by
  rw [Active, Active, inStep.status_eq]

theorem get?_eq (inStep : first.InStep second) :
    second.program.get? second.position = first.program.get? first.position := by
  rw [inStep.program_eq, inStep.position_eq]

theorem request_eq (inStep : first.InStep second)
    (issues : ∀ id, second.registry.issue id = first.registry.issue id)
    (instruction : Instruction) : second.request instruction = first.request instruction := by
  rw [request, request, inStep.core_eq, inStep.maxCallDepth_eq, inStep.position_eq]
  exact Core.request_congr issues _ _ _ _

theorem invocation?_eq (inStep : first.InStep second)
    (issues : ∀ id, second.registry.issue id = first.registry.issue id) :
    second.invocation? = first.invocation? := by
  rw [invocation?, invocation?, inStep.status_eq]
  simp only [inStep.get?_eq, inStep.request_eq issues]

theorem withCore (inStep : first.InStep second) (core : Core) :
    InStep { first with core } { second with core } :=
  { inStep with core_eq := rfl }

theorem count (inStep : first.InStep second) : first.count.InStep second.count :=
  { inStep with steps_eq := congrArg (· + 1) inStep.steps_eq }

theorem halt (inStep : first.InStep second) : first.halt.InStep second.halt :=
  { inStep with
    status_eq := rfl
    termination_eq := by simp only [Machine.halt, inStep.core_eq] }

theorem fail (inStep : first.InStep second) (instruction : Instruction) (error : RuntimeError) :
    (first.fail instruction error).InStep (second.fail instruction error) :=
  { inStep with
    status_eq := rfl
    termination_eq := by
      simp only [Machine.fail, inStep.position_eq, inStep.program_eq, inStep.core_eq] }

theorem advance (inStep : first.InStep second) (flow : Flow) :
    (first.advance flow).InStep (second.advance flow) := by
  cases flow with
  | next => exact { inStep with position_eq := congrArg (· + 1) inStep.position_eq }
  | jump target => exact { inStep with position_eq := rfl }
  | halt => exact inStep.halt

theorem haltAtEnd (inStep : first.InStep second) : first.haltAtEnd.InStep second.haltAtEnd := by
  rw [Machine.haltAtEnd, Machine.haltAtEnd, inStep.status_eq, inStep.program_eq,
    inStep.position_eq]
  split
  · exact inStep.halt
  · exact inStep

theorem follow (inStep : first.InStep second) (flow : Flow) :
    (first.follow flow).InStep (second.follow flow) := by
  have resumed : InStep { first with status := .running } { second with status := .running } :=
    { inStep with status_eq := rfl }
  exact (resumed.advance flow).haltAtEnd

variable [HostAction α ω] [HostAction β υ]

/-- Whatever the hosts do, an invocation leaves everything but the hosts and the traces alone. -/
theorem afterInvoking (inStep : first.InStep second) (handle : Handle) (arguments : List Value) :
    (first.afterInvoking handle arguments).InStep (second.afterInvoking handle arguments) :=
  { inStep with }

/-- The machines stay in step as long as their hosts issue the same handles and their invocations
have the same outcomes. -/
theorem step (inStep : first.InStep second)
    (issues : ∀ id, second.registry.issue id = first.registry.issue id)
    (answers : ∀ handle arguments,
      (second.response handle arguments).outcome = (first.response handle arguments).outcome) :
    first.step.InStep second.step := by
  by_cases active : first.Active
  · have otherActive := inStep.active_iff.2 active
    have get?_eq := inStep.get?_eq
    cases fetched : first.program.get? first.position with
    | none =>
      have otherFetched := get?_eq.trans fetched
      rw [step_of_outside active fetched, step_of_outside otherActive otherFetched]
      exact inStep.halt
    | some instruction =>
      have otherFetched := get?_eq.trans fetched
      have request_eq := inStep.request_eq issues instruction
      cases asked : first.request instruction with
      | error error =>
        have otherAsked := request_eq.trans asked
        rw [step_of_refused active fetched asked,
          step_of_refused otherActive otherFetched otherAsked]
        exact inStep.count.fail instruction error
      | ok request =>
        have otherAsked := request_eq.trans asked
        cases request with
        | proceed core flow =>
          rw [step_of_proceeding active fetched asked,
            step_of_proceeding otherActive otherFetched otherAsked]
          exact (inStep.withCore core).count.follow flow
        | invoke handle arguments replaced =>
          have invoked := inStep.afterInvoking handle arguments
          cases outcome : (first.response handle arguments).outcome with
          | error error =>
            have otherOutcome := (answers handle arguments).trans outcome
            rw [step_of_rejected active fetched asked outcome,
              step_of_rejected otherActive otherFetched otherAsked otherOutcome]
            exact invoked.count.fail instruction error
          | ok result =>
            have otherOutcome := (answers handle arguments).trans outcome
            rw [step_of_answered active fetched asked outcome,
              step_of_answered otherActive otherFetched otherAsked otherOutcome, inStep.core_eq]
            exact (invoked.withCore _).count.follow .next
  · have otherInactive := mt inStep.active_iff.1 active
    rw [step_of_not_active active, step_of_not_active otherInactive]
    exact inStep

/-- The host of either machine is left alone by the step, or it is what the same invocation makes of
it in either. -/
theorem host_cases (inStep : first.InStep second)
    (issues : ∀ id, second.registry.issue id = first.registry.issue id) :
    first.invocation? = none ∧
        (first.step.registry = first.registry ∧ first.step.world = first.world) ∧
        second.step.registry = second.registry ∧ second.step.world = second.world ∨
      ∃ handle arguments, first.invocation? = some (handle, arguments) ∧
        (first.step.registry = (first.response handle arguments).next ∧
          first.step.world = (first.response handle arguments).world) ∧
        second.step.registry = (second.response handle arguments).next ∧
        second.step.world = (second.response handle arguments).world := by
  have same := inStep.invocation?_eq issues
  rcases step_surroundings first with ⟨registry_eq, world_eq, _⟩
  rcases step_surroundings second with ⟨other_registry_eq, other_world_eq, _⟩
  cases isInvocation : first.invocation? with
  | none =>
    rw [isInvocation] at same
    rw [invoked_of_none isInvocation] at registry_eq world_eq
    rw [invoked_of_none same] at other_registry_eq other_world_eq
    exact Or.inl ⟨rfl, ⟨registry_eq, world_eq⟩, other_registry_eq, other_world_eq⟩
  | some call =>
    rw [isInvocation] at same
    rw [invoked_of_some isInvocation] at registry_eq world_eq
    rw [invoked_of_some same] at other_registry_eq other_world_eq
    exact Or.inr ⟨call.1, call.2, rfl, ⟨registry_eq, world_eq⟩, other_registry_eq, other_world_eq⟩

end InStep

end Machine

end CapabilityMachine
