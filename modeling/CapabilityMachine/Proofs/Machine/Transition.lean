import CapabilityMachine.Machine.Run
import CapabilityMachine.Proofs.Host.Registry
import CapabilityMachine.Proofs.Machine.Rule
/-!
# Transitions

What one step makes of a machine whose run goes on, in five cases, and how a property that holds at
the start of a run and is kept by every step holds all along the run. The first such property ties
together two fields that say how far the run has come: as long as the status says that it goes on
there is no termination, and from then on there is one, which fits the status.
-/

namespace CapabilityMachine.Machine

open Outcome

variable {α ω : Type} {machine initial : Machine α ω}

/-- The run of the machine goes on. -/
def Active (machine : Machine α ω) : Prop :=
  machine.status.isTerminal = false

/-- The run of the machine is over, and both fields that say so tell how it ended. -/
structure Ended (machine : Machine α ω) (termination : Termination) : Prop where
  status_eq : machine.status = termination.status
  termination_eq : machine.termination? = some termination

/-- The run goes on and has no termination, or it has ended in one. -/
def Coherent (machine : Machine α ω) : Prop :=
  machine.Active ∧ machine.termination? = none ∨ ∃ termination, machine.Ended termination

/-- The machine's next step executes the instruction, which stands at the index. -/
structure Executes (machine : Machine α ω) (index : Nat) (instruction : Instruction) : Prop where
  active : machine.Active
  position_eq : machine.position = index
  fetched : machine.program.get? index = some instruction

/-- What the instruction asks for at the machine's current position. -/
def request (machine : Machine α ω) (instruction : Instruction) : Except RuntimeError Request :=
  machine.core.request machine.registry machine.settings.maxCallDepth machine.position instruction

/-- The instruction comes to an invocation of the handle with the arguments, either by the id of the
capability or through the handle itself. -/
inductive Calls (machine : Machine α ω) : Instruction → Handle → List Value → Prop
  | byId {id : CapabilityId} {argumentCount : UInt8} {handle : Handle} {arguments : List Value}
      (room : argumentCount.toNat = 0 → machine.core.stack.ensureRoom 1 = .ok ())
      (issued : machine.registry.issue id = .ok handle)
      (taken : machine.core.stack.top argumentCount.toNat = .ok arguments) :
      Calls machine (.invoke id argumentCount) handle arguments
  | byHandle {argumentCount : UInt8} {handle : Handle} {arguments : List Value}
      (held : machine.core.stack.peek argumentCount.toNat = .ok (.cap handle))
      (taken : machine.core.stack.top argumentCount.toNat = .ok arguments) :
      Calls machine (.invokeHandle argumentCount) handle arguments

/-- The instruction has an action performed: it comes to an invocation that the registry permits. -/
def Performs [HostAction α ω] (machine : Machine α ω) (instruction : Instruction) (handle : Handle)
    (arguments : List Value) : Prop :=
  machine.Calls instruction handle arguments ∧ machine.registry.Permits handle arguments

theorem calls_of_asked {instruction : Instruction} {handle : Handle} {arguments : List Value}
    {replaced : Nat}
    (asked : machine.request instruction = .ok (.invoke handle arguments replaced)) :
    machine.Calls instruction handle arguments := by
  cases Core.allows_of_request_eq_ok asked with
  | invoke deep room issued =>
    refine .byId ?_ issued (Stack.top_eq_ok.2 ⟨deep, rfl⟩)
    intro noArguments
    have := room noArguments
    exact Stack.ensureRoom_eq_ok.2 (by omega)
  | @invokeHandle argumentCount _ found =>
    have deep : argumentCount.toNat < machine.core.stack.size :=
      (List.getElem?_eq_some_iff.1 found).1
    exact .byHandle (Stack.peek_eq_ok.2 found) (Stack.top_eq_ok.2 ⟨by omega, rfl⟩)

theorem exists_asked_of_calls {instruction : Instruction} {handle : Handle} {arguments : List Value}
    (calls : machine.Calls instruction handle arguments) :
    ∃ replaced, machine.request instruction = .ok (.invoke handle arguments replaced) := by
  cases calls with
  | @byId id argumentCount _ _ room issued taken =>
    have deep : machine.core.stack.ensureDepth argumentCount.toNat = .ok () :=
      Stack.ensureDepth_eq_ok.2 (Stack.top_eq_ok.1 taken).1
    refine ⟨argumentCount.toNat, ?_⟩
    by_cases noArguments : argumentCount.toNat = 0
    · have taken_none := taken
      rw [noArguments] at deep taken_none
      simp [request, Core.request, noArguments, deep, room noArguments, issued, taken_none,
        ok_bind, pure, Except.pure]
    · simp [request, Core.request, noArguments, deep, issued, taken, ok_bind, pure, Except.pure]
  | @byHandle argumentCount _ _ held taken =>
    have found := Stack.peek_eq_ok.1 held
    have deep : machine.core.stack.ensureDepth (argumentCount.toNat + 1) = .ok () :=
      Stack.ensureDepth_eq_ok.2 (List.getElem?_eq_some_iff.1 found).1
    refine ⟨argumentCount.toNat + 1, ?_⟩
    simp [request, Core.request, deep, held, taken, Value.expectCap, ok_bind, pure, Except.pure]

theorem replaceTop_of_asked {instruction : Instruction} {handle : Handle} {arguments : List Value}
    {replaced : Nat} (result : Value)
    (asked : machine.request instruction = .ok (.invoke handle arguments replaced)) :
    machine.core.stack.replaceTop replaced result =
      .ok { machine.core.stack with
        values := result :: machine.core.stack.values.drop replaced } := by
  rw [Stack.replaceTop_eq_ok]
  cases Core.allows_of_request_eq_ok asked with
  | invoke deep room issued => exact ⟨deep, room, rfl⟩
  | @invokeHandle argumentCount _ found =>
    have deep : argumentCount.toNat < machine.core.stack.values.length :=
      (List.getElem?_eq_some_iff.1 found).1
    refine ⟨deep, ?_, rfl⟩
    intro noValues
    cases noValues

theorem not_active_iff : ¬machine.Active ↔ machine.status.isTerminal = true := by
  rw [Active, Bool.not_eq_false]

theorem Ended.not_active {termination : Termination} (ended : machine.Ended termination) :
    ¬machine.Active := by
  rw [not_active_iff, ended.status_eq]
  cases termination <;> rfl

theorem Coherent.ended {termination : Termination} (coherent : machine.Coherent)
    (terminated : machine.termination? = some termination) : machine.Ended termination := by
  rcases coherent with ⟨_, unterminated⟩ | ⟨found, ended⟩
  · cases unterminated.symm.trans terminated
  · cases ended.termination_eq.symm.trans terminated
    exact ended

theorem Coherent.exists_ended (coherent : machine.Coherent) (inactive : ¬machine.Active) :
    ∃ termination, machine.Ended termination :=
  coherent.resolve_left fun goesOn => inactive goesOn.1

theorem Coherent.termination?_eq_none (coherent : machine.Coherent) (active : machine.Active) :
    machine.termination? = none := by
  rcases coherent with ⟨_, unterminated⟩ | ⟨_, ended⟩
  · exact unterminated
  · exact absurd active ended.not_active

/-- The fault of an instruction at the machine's current position. -/
def faultOf (machine : Machine α ω) (instruction : Instruction) (error : RuntimeError) : Fault where
  instruction := machine.position
  offset := (machine.program.offset? machine.position).getD 0
  opcode := instruction.opcode
  error
  frames := machine.core.frames

theorem status_ofFault (fault : Fault) :
    (Termination.ofFault fault).status = if fault.error.isDenial then .denied else .faulted := by
  rw [Termination.ofFault]
  split <;> rfl

theorem fault?_ofFault (fault : Fault) : (Termination.ofFault fault).fault? = some fault := by
  rw [Termination.ofFault]
  split <;> rfl

theorem ended_halt (machine : Machine α ω) :
    machine.halt.Ended (.halted machine.core.stack.toList) :=
  ⟨rfl, rfl⟩

theorem ended_fail (machine : Machine α ω) (instruction : Instruction) (error : RuntimeError) :
    (machine.fail instruction error).Ended (.ofFault (machine.faultOf instruction error)) :=
  ⟨(status_ofFault (machine.faultOf instruction error)).symm, rfl⟩

theorem haltAtEnd_fail (machine : Machine α ω) (instruction : Instruction) (error : RuntimeError) :
    (machine.fail instruction error).haltAtEnd = machine.fail instruction error := by
  have terminal := not_active_iff.1 (machine.ended_fail instruction error).not_active
  simp [haltAtEnd, terminal]

theorem create_eq_ok {program : Program} {registry : Registry α} {world : ω}
    {settings : Settings} :
    create program registry world settings = .ok initial ↔
      settings.validate = .ok () ∧ initial = {
        program, settings, registry, world
        core := { stack := { limit := settings.maxStackDepth }
                  memory := { capacity := settings.memoryCells } }
        position := program.entry
        trace := { limit := settings.traceLimit } } := by
  rw [create, check_bind_eq_ok, pure_eq_ok]

theorem coherent_of_create {program : Program} {registry : Registry α} {world : ω}
    {settings : Settings} (created : create program registry world settings = .ok initial) :
    initial.Coherent := by
  rw [(create_eq_ok.1 created).2]
  exact Or.inl ⟨rfl, rfl⟩

theorem active_of_create {program : Program} {registry : Registry α} {world : ω}
    {settings : Settings} (created : create program registry world settings = .ok initial) :
    initial.Active := by
  rw [(create_eq_ok.1 created).2]
  rfl

/-- Goes on where an instruction of the run leads. -/
def follow (machine : Machine α ω) (flow : Flow) : Machine α ω :=
  ({ machine with status := .running }.advance flow).haltAtEnd

section Fields

variable (machine) (flow : Flow)

theorem haltAtEnd_eq :
    ∃ status termination?, machine.haltAtEnd = { machine with status, termination? } := by
  rw [haltAtEnd]
  split
  · exact ⟨_, _, rfl⟩
  · exact ⟨_, _, rfl⟩

/-- To continue elsewhere changes nothing but the position and what tells how far the run is. -/
theorem follow_eq :
    ∃ position status termination?,
      machine.follow flow = { machine with position, status, termination? } := by
  rcases haltAtEnd_eq ({ machine with status := .running }.advance flow) with
    ⟨status, termination?, same⟩
  rw [follow, same]
  cases flow <;> exact ⟨_, _, _, rfl⟩

@[simp]
theorem follow_program : (machine.follow flow).program = machine.program := by
  rcases machine.follow_eq flow with ⟨position, status, termination?, same⟩
  rw [same]

@[simp]
theorem follow_core : (machine.follow flow).core = machine.core := by
  rcases machine.follow_eq flow with ⟨position, status, termination?, same⟩
  rw [same]

@[simp]
theorem follow_registry : (machine.follow flow).registry = machine.registry := by
  rcases machine.follow_eq flow with ⟨position, status, termination?, same⟩
  rw [same]

@[simp]
theorem follow_settings : (machine.follow flow).settings = machine.settings := by
  rcases machine.follow_eq flow with ⟨position, status, termination?, same⟩
  rw [same]

theorem haltAtEnd_position : machine.haltAtEnd.position = machine.position := by
  rw [haltAtEnd]
  split <;> rfl

/-- A jump to behind the end of the code halts. -/
theorem follow_jump_status (target : Nat) :
    (machine.follow (.jump target)).status =
      if machine.program.size ≤ target then .halted else .running := by
  rw [follow, advance, haltAtEnd]
  by_cases outside : machine.program.size ≤ target
  · simp [Status.isTerminal, outside, halt]
  · simp [Status.isTerminal, outside]

/-- A run that goes on is left going on, or halts. -/
theorem haltAtEnd_status (running : machine.status = .running) :
    machine.haltAtEnd.status = .running ∧ machine.haltAtEnd.termination? = machine.termination? ∨
      machine.haltAtEnd.Ended (.halted machine.core.stack.toList) := by
  rw [haltAtEnd]
  split
  · exact Or.inr (ended_halt _)
  · exact Or.inl ⟨running, rfl⟩

theorem follow_status :
    (machine.follow flow).status = .running ∧
        (machine.follow flow).termination? = machine.termination? ∨
      (machine.follow flow).Ended (.halted machine.core.stack.toList) := by
  cases flow with
  | next =>
    exact haltAtEnd_status { machine with position := machine.position + 1, status := .running } rfl
  | jump target =>
    exact haltAtEnd_status { machine with position := target, status := .running } rfl
  | halt => exact Or.inr (ended_halt _)

end Fields

variable [HostAction α ω]

/-- What one step may make of a machine. -/
inductive Transition (machine : Machine α ω) : Machine α ω → Prop
  | leave (outside : machine.program.get? machine.position = none) : Transition machine machine.halt
  | refuse {instruction : Instruction} {error : RuntimeError}
      (fetched : machine.program.get? machine.position = some instruction)
      (refused : machine.request instruction = .error error) :
      Transition machine (machine.count.fail instruction error)
  | proceed {instruction : Instruction} {core : Core} {flow : Flow}
      (fetched : machine.program.get? machine.position = some instruction)
      (asked : machine.request instruction = .ok (.proceed core flow)) :
      Transition machine ({ machine with core }.count.follow flow)
  | reject {instruction : Instruction} {handle : Handle} {arguments : List Value} {replaced : Nat}
      {error : RuntimeError} (fetched : machine.program.get? machine.position = some instruction)
      (asked : machine.request instruction = .ok (.invoke handle arguments replaced))
      (rejected : (machine.response handle arguments).outcome = .error error) :
      Transition machine ((machine.afterInvoking handle arguments).count.fail instruction error)
  | answer {instruction : Instruction} {handle : Handle} {arguments : List Value} {replaced : Nat}
      {result : Value} (fetched : machine.program.get? machine.position = some instruction)
      (asked : machine.request instruction = .ok (.invoke handle arguments replaced))
      (answered : (machine.response handle arguments).outcome = .ok result) :
      Transition machine
        ({ machine.afterInvoking handle arguments with
          core := machine.core.withValues
            (result :: machine.core.stack.values.drop replaced) }.count.follow .next)

/-- What the outcome of an instruction makes of a machine. -/
def conclude (instruction : Instruction) :
    EStateM.Result RuntimeError (Machine α ω) Flow → Machine α ω
  | .ok flow machine => machine.count.follow flow
  | .error error machine => machine.count.fail instruction error

/-- A step carries out what the instruction asks for. That it sets the status first makes no
difference to the instruction. -/
theorem step_of_fetched {instruction : Instruction} (active : machine.Active)
    (fetched : machine.program.get? machine.position = some instruction) :
    machine.step = conclude instruction (machine.carryOut (machine.request instruction)) := by
  rw [step, active, if_neg Bool.false_ne_true]
  dsimp only
  rw [fetched]
  dsimp only
  rw [execute_eq]
  change (match Machine.carryOut { machine with status := .running } (machine.request instruction)
    with
    | .ok flow machine => (machine.count.advance flow).haltAtEnd
    | .error error machine => (machine.count.fail instruction error).haltAtEnd) = _
  simp only [haltAtEnd_fail]
  cases machine.request instruction with
  | error error => rfl
  | ok request =>
    cases request with
    | proceed core flow => rfl
    | invoke handle arguments replaced =>
      have response_eq : Machine.response { machine with status := .running } handle arguments =
          machine.response handle arguments := rfl
      simp only [carryOut, response_eq]
      cases (machine.response handle arguments).outcome >>=
          machine.core.stack.replaceTop replaced with
      | error error => rfl
      | ok stack => rfl

section Step

variable {instruction : Instruction} {handle : Handle} {arguments : List Value} {replaced : Nat}

theorem step_of_outside (active : machine.Active)
    (outside : machine.program.get? machine.position = none) : machine.step = machine.halt := by
  rw [step, active, if_neg Bool.false_ne_true]
  dsimp only
  rw [outside]
  rfl

theorem step_of_refused (active : machine.Active)
    (fetched : machine.program.get? machine.position = some instruction) {error : RuntimeError}
    (refused : machine.request instruction = .error error) :
    machine.step = machine.count.fail instruction error := by
  simp only [step_of_fetched active fetched, refused, carryOut, conclude]

theorem step_of_proceeding (active : machine.Active)
    (fetched : machine.program.get? machine.position = some instruction) {core : Core} {flow : Flow}
    (asked : machine.request instruction = .ok (.proceed core flow)) :
    machine.step = { machine with core }.count.follow flow := by
  simp only [step_of_fetched active fetched, asked, carryOut, conclude]

theorem step_of_rejected (active : machine.Active)
    (fetched : machine.program.get? machine.position = some instruction) {error : RuntimeError}
    (asked : machine.request instruction = .ok (.invoke handle arguments replaced))
    (rejected : (machine.response handle arguments).outcome = .error error) :
    machine.step = (machine.afterInvoking handle arguments).count.fail instruction error := by
  simp only [step_of_fetched active fetched, asked, carryOut, rejected, error_bind, conclude]

theorem step_of_answered (active : machine.Active)
    (fetched : machine.program.get? machine.position = some instruction) {result : Value}
    (asked : machine.request instruction = .ok (.invoke handle arguments replaced))
    (answered : (machine.response handle arguments).outcome = .ok result) :
    machine.step = { machine.afterInvoking handle arguments with
      core := machine.core.withValues
        (result :: machine.core.stack.values.drop replaced) }.count.follow .next := by
  simp only [step_of_fetched active fetched, asked, carryOut, answered, ok_bind,
    replaceTop_of_asked result asked, Core.withValues, conclude]

end Step

theorem transition_step (active : machine.Active) : machine.Transition machine.step := by
  cases fetched : machine.program.get? machine.position with
  | none =>
    rw [step_of_outside active fetched]
    exact .leave fetched
  | some instruction =>
    cases asked : machine.request instruction with
    | error error =>
      rw [step_of_refused active fetched asked]
      exact .refuse fetched asked
    | ok request =>
      cases request with
      | proceed core flow =>
        rw [step_of_proceeding active fetched asked]
        exact .proceed fetched asked
      | invoke handle arguments replaced =>
        cases outcome : (machine.response handle arguments).outcome with
        | error error =>
          rw [step_of_rejected active fetched asked outcome]
          exact .reject fetched asked outcome
        | ok result =>
          rw [step_of_answered active fetched asked outcome]
          exact .answer fetched asked outcome

/-- What a failing instruction makes of a machine. It is refused for want of something it needs, or
what it invokes fails. -/
inductive Failure (machine : Machine α ω) (instruction : Instruction) (error : RuntimeError) :
    Machine α ω → Prop
  | refused (asked : machine.request instruction = .error error) :
      Failure machine instruction error (machine.count.fail instruction error)
  | rejected {handle : Handle} {arguments : List Value} {replaced : Nat}
      (asked : machine.request instruction = .ok (.invoke handle arguments replaced))
      (outcome_eq : (machine.response handle arguments).outcome = .error error) :
      Failure machine instruction error
        ((machine.afterInvoking handle arguments).count.fail instruction error)

section Failure

variable {after : Machine α ω} {instruction : Instruction} {error : RuntimeError}

theorem Failure.core_eq (failure : machine.Failure instruction error after) :
    after.core = machine.core := by
  cases failure <;> rfl

theorem Failure.position_eq (failure : machine.Failure instruction error after) :
    after.position = machine.position := by
  cases failure <;> rfl

theorem Failure.steps_eq (failure : machine.Failure instruction error after) :
    after.steps = machine.steps + 1 := by
  cases failure <;> rfl

theorem Failure.ended (failure : machine.Failure instruction error after) :
    after.Ended (.ofFault (machine.faultOf instruction error)) := by
  cases failure with
  | refused asked => exact ended_fail _ _ _
  | rejected asked outcome_eq => exact ended_fail _ _ _

theorem Failure.status (failure : machine.Failure instruction error after) :
    after.status = .faulted ∨ after.status = .denied := by
  rw [failure.ended.status_eq, status_ofFault]
  split
  · exact Or.inr rfl
  · exact Or.inl rfl

end Failure

/-- A step fails, or it goes on or halts. -/
theorem Transition.cases_failure {after : Machine α ω} (transition : machine.Transition after) :
    (∃ instruction error, machine.program.get? machine.position = some instruction ∧
      machine.Failure instruction error after) ∨
    after.status = .running ∧ after.termination? = machine.termination? ∨
    after.Ended (.halted after.core.stack.toList) := by
  cases transition with
  | leave outside => exact Or.inr (Or.inr (ended_halt _))
  | refuse fetched asked => exact Or.inl ⟨_, _, fetched, .refused asked⟩
  | reject fetched asked outcome_eq => exact Or.inl ⟨_, _, fetched, .rejected asked outcome_eq⟩
  | proceed fetched asked =>
    rw [follow_core]
    exact Or.inr (follow_status _ _)
  | answer fetched asked answered =>
    rw [follow_core]
    exact Or.inr (follow_status _ _)

/-- A step that leaves a machine with the status of a failure failed. -/
theorem Transition.exists_failure {after : Machine α ω} (transition : machine.Transition after)
    (failed : after.status = .faulted ∨ after.status = .denied) :
    ∃ instruction error, machine.program.get? machine.position = some instruction ∧
      machine.Failure instruction error after := by
  rcases transition.cases_failure with failure | ⟨running, _⟩ | halted
  · exact failure
  · simp [running] at failed
  · simp [halted.status_eq, Termination.status] at failed

theorem Transition.failure {after : Machine α ω} {termination : Termination} {fault : Fault}
    (transition : machine.Transition after) (ended : after.Ended termination)
    (isFault : termination.fault? = some fault) :
    ∃ instruction, machine.program.get? machine.position = some instruction ∧
      fault = machine.faultOf instruction fault.error ∧
      machine.Failure instruction fault.error after := by
  have failed : after.status = .faulted ∨ after.status = .denied := by
    rw [ended.status_eq]
    cases termination with
    | halted values => cases isFault
    | faulted fault => exact Or.inl rfl
    | denied fault => exact Or.inr rfl
  rcases transition.exists_failure failed with ⟨instruction, error, fetched, failure⟩
  cases ended.termination_eq.symm.trans failure.ended.termination_eq
  cases (fault?_ofFault _).symm.trans isFault
  exact ⟨instruction, fetched, rfl, failure⟩

/-- If the instruction that a step executes ends the run with a fault, it is this instruction that
failed. -/
theorem Executes.failure {index : Nat} {instruction : Instruction} {termination : Termination}
    {fault : Fault} (executes : machine.Executes index instruction)
    (ended : machine.step.Ended termination) (isFault : termination.fault? = some fault) :
    machine.Failure instruction fault.error machine.step := by
  rcases executes with ⟨active, rfl, fetched⟩
  rcases (transition_step active).failure ended isFault with ⟨_, otherFetched, _, failure⟩
  cases fetched.symm.trans otherFetched
  exact failure

theorem step_of_not_active (inactive : ¬machine.Active) : machine.step = machine :=
  step_of_terminal (not_active_iff.1 inactive)

theorem stepTimes_succ_eq_step (initial : Machine α ω) (count : Nat) :
    initial.stepTimes (count + 1) = (initial.stepTimes count).step := by
  induction count generalizing initial with
  | zero => rw [stepTimes_succ, stepTimes_zero, stepTimes_zero]
  | succ count ih => rw [stepTimes_succ, ih, stepTimes_succ]

theorem Transition.program_eq {after : Machine α ω} (transition : machine.Transition after) :
    after.program = machine.program := by
  cases transition with
  | leave outside => rfl
  | refuse fetched refused => rfl
  | proceed fetched asked => exact follow_program _ _
  | reject fetched asked rejected => rfl
  | answer fetched asked answered => exact follow_program _ _

theorem Transition.settings_eq {after : Machine α ω} (transition : machine.Transition after) :
    after.settings = machine.settings := by
  cases transition with
  | leave outside => rfl
  | refuse fetched refused => rfl
  | proceed fetched asked => exact follow_settings _ _
  | reject fetched asked rejected => rfl
  | answer fetched asked answered => exact follow_settings _ _

theorem step_program (machine : Machine α ω) : machine.step.program = machine.program := by
  by_cases active : machine.Active
  · exact (transition_step active).program_eq
  · rw [step_of_not_active active]

theorem step_settings (machine : Machine α ω) : machine.step.settings = machine.settings := by
  by_cases active : machine.Active
  · exact (transition_step active).settings_eq
  · rw [step_of_not_active active]

/-- The second machine comes up in the run that starts with the first one. -/
def Reaches (initial machine : Machine α ω) : Prop :=
  ∃ count, initial.stepTimes count = machine

theorem Reaches.refl (machine : Machine α ω) : machine.Reaches machine :=
  ⟨0, rfl⟩

theorem Reaches.step (reached : initial.Reaches machine) : initial.Reaches machine.step := by
  rcases reached with ⟨count, rfl⟩
  exact ⟨count + 1, stepTimes_succ_eq_step initial count⟩

/-- What holds at the start of a run and is kept by every step holds all along the run. -/
theorem Reaches.induction {motive : Machine α ω → Prop} (reached : initial.Reaches machine)
    (base : motive initial)
    (keep : ∀ machine : Machine α ω, initial.Reaches machine → motive machine → machine.Active →
      motive machine.step) :
    motive machine := by
  rcases reached with ⟨count, rfl⟩
  induction count with
  | zero => exact base
  | succ count ih =>
    rw [stepTimes_succ_eq_step]
    by_cases active : (initial.stepTimes count).Active
    · exact keep _ ⟨count, rfl⟩ ih active
    · rw [step_of_not_active active]
      exact ih

/-- Status and termination are set together wherever a step ends a run, and nowhere else. -/
theorem Coherent.step (coherent : machine.Coherent) : machine.step.Coherent := by
  by_cases active : machine.Active
  · rcases (transition_step active).cases_failure with
      ⟨_, _, _, failure⟩ | ⟨running, unchanged⟩ | halted
    · exact Or.inr ⟨_, failure.ended⟩
    · exact Or.inl ⟨by rw [Active, running]; rfl,
        unchanged.trans (coherent.termination?_eq_none active)⟩
    · exact Or.inr ⟨_, halted⟩
  · rwa [step_of_not_active active]

theorem Reaches.coherent (reached : initial.Reaches machine) (start : initial.Coherent) :
    machine.Coherent :=
  reached.induction start fun _ _ coherent _ => coherent.step

/-- A run that is over was ended by one of its steps. -/
theorem exists_last_step {program : Program} {registry : Registry α} {world : ω}
    {settings : Settings} (created : create program registry world settings = .ok initial)
    {count : Nat} {termination : Termination}
    (terminated : (initial.stepTimes count).termination? = some termination) :
    ∃ earlier < count, (initial.stepTimes earlier).Active ∧
      (initial.stepTimes earlier).step.Ended termination := by
  have reached : initial.Reaches (initial.stepTimes count) := ⟨count, rfl⟩
  have ended := (reached.coherent (coherent_of_create created)).ended terminated
  clear terminated reached
  induction count with
  | zero => exact absurd (active_of_create created) ended.not_active
  | succ count ih =>
    rw [stepTimes_succ_eq_step] at ended
    by_cases active : (initial.stepTimes count).Active
    · exact ⟨count, Nat.lt_succ_self count, active, ended⟩
    · rw [step_of_not_active active] at ended
      rcases ih ended with ⟨earlier, before, last⟩
      exact ⟨earlier, Nat.lt_succ_of_lt before, last⟩

theorem Reaches.program_eq (reached : initial.Reaches machine) :
    machine.program = initial.program := by
  apply reached.induction
  · rfl
  · intro machine _ same _
    rw [step_program, same]

theorem Reaches.settings_eq (reached : initial.Reaches machine) :
    machine.settings = initial.settings := by
  apply reached.induction
  · rfl
  · intro machine _ same _
    rw [step_settings, same]

end CapabilityMachine.Machine
