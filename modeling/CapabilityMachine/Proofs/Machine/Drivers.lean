import CapabilityMachine.Host.Device
import CapabilityMachine.Proofs.Machine.InStep
import Mathlib
/-!
# Ways to drive a machine

A host may take single steps, take a number of steps at once, or run the machine to the end of its
run, and it may mix all of these. However it does so, the machine is always somewhere in the one run
that begins with it, as a number of single steps from its start. What the machine shows about that
run (its status, its count of executed instructions, its result) depends on that place and not on
the calls that led to it.
-/

namespace CapabilityMachine.Machine

variable {α ω : Type} {initial machine last : Machine α ω}

/-- Where the run is as far as both fields say, the status is terminal exactly if there is a
termination. -/
theorem Coherent.isTerminal_iff (coherent : machine.Coherent) :
    machine.status.isTerminal = true ↔ ∃ termination, machine.termination? = some termination := by
  rw [← not_active_iff]
  constructor
  · intro inactive
    rcases coherent.exists_ended inactive with ⟨termination, ended⟩
    exact ⟨termination, ended.termination_eq⟩
  · rintro ⟨termination, terminated⟩
    exact (coherent.ended terminated).not_active

/-- The instruction that the machine's next step executes. -/
def executing? (machine : Machine α ω) : Option Instruction :=
  if machine.status.isTerminal then none else machine.program.get? machine.position

theorem executing?_of_active (active : machine.Active) :
    machine.executing? = machine.program.get? machine.position := by
  rw [executing?, active]
  rfl

theorem executing?_of_not_active (inactive : ¬machine.Active) : machine.executing? = none :=
  if_pos (not_active_iff.1 inactive)

/-- If the run has halted, then with the values that are on the stack. -/
def HaltsWithStack (machine : Machine α ω) : Prop :=
  ∀ values, machine.termination? = some (.halted values) → machine.core.stack.toList = values

variable [HostAction α ω]

/-! ### Single steps -/

theorem active_of_active_step (active : machine.step.Active) : machine.Active := by
  by_cases wasActive : machine.Active
  · exact wasActive
  · rwa [step_of_not_active wasActive] at active

/-- A step counts if it executes an instruction. -/
theorem steps_step (machine : Machine α ω) :
    machine.step.steps = machine.steps + machine.executing?.toList.length := by
  by_cases active : machine.Active
  · rw [executing?_of_active active]
    have transition := transition_step active
    generalize machine.step = after at transition ⊢
    cases transition with
    | leave outside =>
      rw [outside]
      rfl
    | refuse fetched refused =>
      rw [fetched]
      rfl
    | proceed fetched asked =>
      rw [fetched, (follow_surroundings _ _).2.2.2]
      rfl
    | reject fetched asked rejected =>
      rw [fetched]
      rfl
    | answer fetched asked answered =>
      rw [fetched, (follow_surroundings _ _).2.2.2]
      rfl
  · rw [step_of_not_active active, executing?_of_not_active active]
    rfl

/-- After a step, the run has begun. -/
theorem status_step_ne_ready (machine : Machine α ω) : machine.step.status ≠ .ready := by
  intro ready
  by_cases active : machine.Active
  · rcases (transition_step active).cases_failure with
      ⟨_, _, _, failure⟩ | ⟨running, _⟩ | halted
    · rcases failure.status with faulted | denied
      · cases ready.symm.trans faulted
      · cases ready.symm.trans denied
    · cases ready.symm.trans running
    · cases ready.symm.trans halted.status_eq
  · rw [step_of_not_active active] at ready
    rw [not_active_iff, ready] at active
    cases active

theorem haltsWithStack_step (active : machine.Active) (unterminated : machine.termination? = none) :
    machine.step.HaltsWithStack := by
  intro values halted
  rcases (transition_step active).cases_failure with
    ⟨instruction, error, _, failure⟩ | ⟨_, unchanged⟩ | ended
  · have isFault := fault?_ofFault (machine.faultOf instruction error)
    rw [← Option.some.inj (halted.symm.trans failure.ended.termination_eq)] at isFault
    cases isFault
  · cases halted.symm.trans (unchanged.trans unterminated)
  · cases halted.symm.trans ended.termination_eq
    rfl

theorem Reaches.haltsWithStack (coherent : initial.Coherent) (start : initial.HaltsWithStack)
    (reached : initial.Reaches machine) : machine.HaltsWithStack :=
  reached.induction start fun _ reached _ active =>
    haltsWithStack_step active ((reached.coherent coherent).termination?_eq_none active)

/-! ### Several steps -/

theorem stepTimes_of_not_active (inactive : ¬machine.Active) (count : Nat) :
    machine.stepTimes count = machine :=
  stepTimes_of_terminal (not_active_iff.1 inactive) count

theorem stepTimes_add (machine : Machine α ω) (first second : Nat) :
    machine.stepTimes (first + second) = (machine.stepTimes first).stepTimes second := by
  induction second with
  | zero => rfl
  | succ second ih => rw [← Nat.add_assoc, stepTimes_succ_eq_step, stepTimes_succ_eq_step, ih]

theorem Reaches.trans (reached : initial.Reaches machine) (goesOn : machine.Reaches last) :
    initial.Reaches last := by
  rcases reached with ⟨first, rfl⟩
  rcases goesOn with ⟨second, rfl⟩
  exact ⟨first + second, stepTimes_add _ _ _⟩

/-- The instructions that the first steps of the run execute, in their order. -/
def executed (initial : Machine α ω) (count : Nat) : List Instruction :=
  (List.range count).filterMap fun earlier => (initial.stepTimes earlier).executing?

theorem executed_succ (initial : Machine α ω) (count : Nat) :
    initial.executed (count + 1) =
      initial.executed count ++ (initial.stepTimes count).executing?.toList := by
  rw [executed, List.range_succ, List.filterMap_append]
  cases executing : (initial.stepTimes count).executing? <;> simp [executing, executed]

theorem steps_stepTimes (initial : Machine α ω) (count : Nat) :
    (initial.stepTimes count).steps = initial.steps + (initial.executed count).length := by
  induction count with
  | zero => rfl
  | succ count ih =>
    rw [stepTimes_succ_eq_step, steps_step, ih, executed_succ, List.length_append, Nat.add_assoc]

/-! ### Runs to the end -/

theorem run_of_terminated {termination : Termination}
    (terminated : machine.termination? = some termination) (fuel : Nat) :
    machine.run fuel = some machine := by
  cases fuel <;> simp [run, terminated]

theorem run_zero (unterminated : machine.termination? = none) : machine.run 0 = none := by
  simp [run, unterminated]

theorem run_succ (unterminated : machine.termination? = none) (fuel : Nat) :
    machine.run (fuel + 1) = machine.step.run fuel := by
  simp [run, unterminated]

/-- A run to the end takes some number of steps. -/
theorem reaches_of_run {fuel : Nat} (ran : machine.run fuel = some last) :
    machine.Reaches last := by
  induction fuel generalizing machine with
  | zero =>
    cases terminated : machine.termination? with
    | none => cases (run_zero terminated).symm.trans ran
    | some termination =>
      cases (run_of_terminated terminated 0).symm.trans ran
      exact Reaches.refl last
  | succ fuel ih =>
    cases terminated : machine.termination? with
    | none =>
      rw [run_succ terminated] at ran
      rcases ih ran with ⟨count, rfl⟩
      exact ⟨count + 1, stepTimes_succ machine count⟩
    | some termination =>
      cases (run_of_terminated terminated (fuel + 1)).symm.trans ran
      exact Reaches.refl last

/-- To run a machine until there is a termination is to step it until the status is terminal. -/
theorem Coherent.run_eq_some_iff (coherent : machine.Coherent) {fuel : Nat} :
    machine.run fuel = some last ↔ ¬last.Active ∧ machine.stepTimes fuel = last := by
  induction fuel generalizing machine with
  | zero =>
    by_cases active : machine.Active
    · rw [run_zero (coherent.termination?_eq_none active), stepTimes_zero]
      refine ⟨nofun, ?_⟩
      rintro ⟨inactive, rfl⟩
      exact absurd active inactive
    · rcases coherent.exists_ended active with ⟨termination, ended⟩
      rw [run_of_terminated ended.termination_eq, stepTimes_zero, Option.some.injEq]
      refine ⟨?_, And.right⟩
      rintro rfl
      exact ⟨active, rfl⟩
  | succ fuel ih =>
    by_cases active : machine.Active
    · rw [run_succ (coherent.termination?_eq_none active), ih coherent.step, stepTimes_succ]
    · rcases coherent.exists_ended active with ⟨termination, ended⟩
      rw [run_of_terminated ended.termination_eq, stepTimes_of_not_active active,
        Option.some.injEq]
      refine ⟨?_, And.right⟩
      rintro rfl
      exact ⟨active, rfl⟩

/-- To run the machine to the end returns the result. -/
def Results (machine : Machine α ω) (result : RunResult) : Prop :=
  ∃ fuel last, machine.run fuel = some last ∧ last.result? = some result

/-- A machine comes to the same result from anywhere in its run. -/
theorem Reaches.results_iff (coherent : initial.Coherent) (reached : initial.Reaches machine)
    {result : RunResult} : machine.Results result ↔ initial.Results result := by
  have reached_coherent := reached.coherent coherent
  rcases reached with ⟨count, rfl⟩
  constructor
  · rintro ⟨fuel, last, ran, result_eq⟩
    refine ⟨count + fuel, last, ?_, result_eq⟩
    rw [reached_coherent.run_eq_some_iff] at ran
    rwa [coherent.run_eq_some_iff, stepTimes_add]
  · rintro ⟨fuel, last, ran, result_eq⟩
    refine ⟨fuel, last, ?_, result_eq⟩
    rw [coherent.run_eq_some_iff] at ran
    rcases ran with ⟨inactive, rfl⟩
    rw [reached_coherent.run_eq_some_iff]
    refine ⟨inactive, ?_⟩
    rw [← stepTimes_add, Nat.add_comm, stepTimes_add, stepTimes_of_not_active inactive]

/-- A machine behind the end of its code halts without executing anything. -/
theorem Coherent.results_of_outside (coherent : machine.Coherent) (active : machine.Active)
    (outside : machine.program.get? machine.position = none) :
    machine.Results ⟨.halted machine.core.stack.toList, machine.steps, machine.trace.toList⟩ := by
  refine ⟨1, machine.halt, ?_, rfl⟩
  rw [run_succ (coherent.termination?_eq_none active), step_of_outside active outside]
  exact run_of_terminated machine.ended_halt.termination_eq 0

/-! ### Calls by a host -/

/-- A call by which a host drives a machine. -/
inductive Drive where
  | step
  | runSteps (budget : Nat)
  | run

/-- The call returns, and leaves the second machine behind. A run to the end returns only if there
is an end. -/
inductive Returns (machine : Machine α ω) : Drive → Machine α ω → Prop
  | step : Returns machine .step machine.step
  | runSteps (budget : Nat) : Returns machine (.runSteps budget) (machine.stepTimes budget)
  | run {fuel : Nat} {last : Machine α ω} (ran : machine.run fuel = some last) :
      Returns machine .run last

/-- The calls return one after the other, and the last one leaves the second machine behind. -/
inductive Driven : Machine α ω → List Drive → Machine α ω → Prop
  | nil (machine : Machine α ω) : Driven machine [] machine
  | cons {machine next last : Machine α ω} {drive : Drive} {drives : List Drive}
      (returns : machine.Returns drive next) (rest : next.Driven drives last) :
      Driven machine (drive :: drives) last

variable {drive : Drive} {drives : List Drive}

theorem Returns.reaches (returns : initial.Returns drive machine) : initial.Reaches machine := by
  cases returns with
  | step => exact (Reaches.refl initial).step
  | runSteps budget => exact ⟨budget, rfl⟩
  | run ran => exact reaches_of_run ran

theorem Driven.reaches (driven : initial.Driven drives machine) : initial.Reaches machine := by
  induction driven with
  | nil machine => exact Reaches.refl machine
  | cons returns rest ih => exact returns.reaches.trans ih

/-- The run has begun with the first call that takes a step. -/
theorem Returns.ready_iff (coherent : initial.Coherent) (returns : initial.Returns drive machine) :
    machine.status = .ready ↔ initial.status = .ready ∧ drive = .runSteps 0 := by
  have begun (count : Nat) : (initial.stepTimes (count + 1)).status ≠ .ready := by
    rw [stepTimes_succ_eq_step]
    exact status_step_ne_ready _
  cases returns with
  | step => simp [status_step_ne_ready]
  | runSteps budget =>
    cases budget with
    | zero => simp
    | succ budget => simp [begun]
  | run ran =>
    have ended := not_active_iff.1 (coherent.run_eq_some_iff.1 ran).1
    simp only [reduceCtorEq, and_false, iff_false]
    intro ready
    rw [ready] at ended
    cases ended

theorem Driven.ready_iff (coherent : initial.Coherent) (driven : initial.Driven drives machine) :
    machine.status = .ready ↔
      initial.status = .ready ∧ ∀ drive ∈ drives, drive = .runSteps 0 := by
  induction driven with
  | nil machine => simp
  | cons returns rest ih =>
    rw [ih (returns.reaches.coherent coherent), returns.ready_iff coherent, List.forall_mem_cons,
      and_assoc]

/-- When its run is over, a machine returns from every call as it is. -/
theorem Ended.driven_iff {termination : Termination} (ended : machine.Ended termination) :
    machine.Driven drives last ↔ last = machine := by
  have inactive := ended.not_active
  constructor
  · intro driven
    rcases driven.reaches with ⟨count, rfl⟩
    exact stepTimes_of_not_active inactive count
  · rintro rfl
    induction drives with
    | nil => exact .nil last
    | cons drive drives ih =>
      refine .cons ?_ ih
      cases drive with
      | step =>
        have returns : last.Returns .step last.step := .step
        rwa [step_of_not_active inactive] at returns
      | runSteps budget =>
        have returns : last.Returns (.runSteps budget) (last.stepTimes budget) := .runSteps budget
        rwa [stepTimes_of_not_active inactive] at returns
      | run => exact .run (run_of_terminated ended.termination_eq 0)

/-- All ways to drive a machine agree. However a host drives it, by single steps, a number of steps
at once and runs to the end in any order:

* the run has ended exactly if there is a termination, which then fits the status, and from there on
  no call changes anything;
* the run has not begun exactly if no call has taken a step;
* the machine has come as far as some number of single steps leads, and has counted the
  instructions that these executed;
* two numbers of steps, one after the other, come to the same as their sum;
* a run to the end returns from anywhere what it returns from the start, and if it halts, then with
  the values that are on the stack. -/
theorem drivers_agree {program : Program} {registry : Registry α} {world : ω} {settings : Settings}
    (created : create program registry world settings = .ok initial)
    (driven : initial.Driven drives machine) :
    (machine.status.isTerminal = true ↔
      ∃ termination, machine.termination? = some termination) ∧
    (∀ termination, machine.termination? = some termination →
      machine.status = termination.status ∧
        ∀ further last, machine.Driven further last ↔ last = machine) ∧
    (machine.status = .ready ↔ ∀ drive ∈ drives, drive = .runSteps 0) ∧
    (∃ count, machine = initial.stepTimes count ∧
      machine.steps = (initial.executed count).length) ∧
    (∀ first second,
      (machine.stepTimes first).stepTimes second = machine.stepTimes (first + second)) ∧
    (∀ result, machine.Results result ↔ initial.Results result) ∧
    (∀ fuel last values, machine.run fuel = some last →
      last.termination? = some (.halted values) → last.core.stack.toList = values) ∧
    (program.size ≤ program.entry → machine.Results ⟨.halted [], 0, []⟩) := by
  rcases create_eq_ok.1 created with ⟨_, initial_eq⟩
  have ready : initial.status = .ready := by rw [initial_eq]
  have start := coherent_of_create created
  have coherent := driven.reaches.coherent start
  have same_results (result : RunResult) : machine.Results result ↔ initial.Results result :=
    driven.reaches.results_iff start
  refine ⟨coherent.isTerminal_iff, ?_, ?_, ?_, fun first second => (stepTimes_add _ _ _).symm,
    same_results, ?_, ?_⟩
  · intro termination terminated
    have ended := coherent.ended terminated
    exact ⟨ended.status_eq, fun further last => ended.driven_iff⟩
  · rw [driven.ready_iff start, and_iff_right ready]
  · rcases driven.reaches with ⟨count, rfl⟩
    refine ⟨count, rfl, ?_⟩
    rw [steps_stepTimes, initial_eq, Nat.zero_add]
  · intro fuel last values ran halted
    have haltsWithStack : initial.HaltsWithStack := by
      rw [initial_eq]
      exact nofun
    have reached := driven.reaches.trans (reaches_of_run ran)
    exact reached.haltsWithStack start haltsWithStack values halted
  · intro atEnd
    have outside : initial.program.get? initial.position = none := by
      rw [initial_eq]
      exact Array.getElem?_eq_none_iff.2 atEnd
    have results := start.results_of_outside (active_of_create created) outside
    rw [same_results]
    rwa [initial_eq] at results ⊢

/-- An interrupted run, which is asked for more steps when it is over. Its result is that of a run
without interruption. Where there is no code, the run halts with nothing executed. -/
theorem drivers_agree_interrupted :
    (∃ (program : Program) (initial machine : Machine Device World),
      create program ⟨⟨0⟩, {}⟩ {} {} = .ok initial ∧
      initial.Driven [.runSteps 1, .step, .run, .runSteps 7] machine ∧
      machine.status = .halted ∧ machine.steps = 3 ∧
      initial.Results ⟨.halted [.int 3], 3, []⟩) ∧
    ∃ (program : Program) (initial : Machine Device World),
      create program ⟨⟨0⟩, {}⟩ {} {} = .ok initial ∧ program.size ≤ program.entry ∧
      initial.Results ⟨.halted [], 0, []⟩ := by
  let code (instructions : Array Instruction) (offsets : Array Nat) : Program :=
    ⟨instructions, offsets, 0, [], ⟨1, 0⟩⟩
  constructor
  · let program := code #[.push 1, .push 2, .binary .add] #[0, 9, 18]
    rcases (⟨_, rfl⟩ : ∃ initial : Machine Device World,
      create program ⟨⟨0⟩, {}⟩ {} {} = .ok initial) with ⟨initial, created⟩
    have result_eq : (initial.stepTimes 3).result? = some ⟨.halted [.int 3], 3, []⟩ := by
      cases created
      cbv
    have coherent {machine : Machine Device World} (reached : initial.Reaches machine) :
        machine.Coherent :=
      reached.coherent (coherent_of_create created)
    rcases Option.map_eq_some_iff.1 result_eq with ⟨termination, terminated, same⟩
    rcases RunResult.mk.inj same with ⟨rfl, steps_eq, _⟩
    have ended := (coherent ⟨3, rfl⟩).ended terminated
    have ran : (initial.stepTimes 1).step.run 1 = some (initial.stepTimes 3) := by
      rw [(coherent (Reaches.step ⟨1, rfl⟩)).run_eq_some_iff, ← stepTimes_succ_eq_step]
      exact ⟨ended.not_active, (stepTimes_add initial 2 1).symm⟩
    have driven : initial.Driven [.runSteps 1, .step, .run, .runSteps 7] (initial.stepTimes 3) := by
      have stays : (initial.stepTimes 3).Returns (.runSteps 7) (initial.stepTimes 3) := by
        have returns : (initial.stepTimes 3).Returns (.runSteps 7) _ := .runSteps 7
        rwa [stepTimes_of_not_active ended.not_active] at returns
      exact .cons (.runSteps 1) (.cons .step (.cons (.run ran) (.cons stays (.nil _))))
    rcases drivers_agree created driven with ⟨_, _, _, _, _, same_results, _⟩
    refine ⟨program, initial, _, created, driven, ended.status_eq, steps_eq,
      (same_results _).1 ?_⟩
    exact ⟨0, _, run_of_terminated terminated 0, result_eq⟩
  · let program := code #[] #[]
    rcases (⟨_, rfl⟩ : ∃ initial : Machine Device World,
      create program ⟨⟨0⟩, {}⟩ {} {} = .ok initial) with ⟨initial, created⟩
    rcases drivers_agree created (.nil initial) with ⟨_, _, _, _, _, _, _, atEnd⟩
    exact ⟨program, initial, created, Nat.le_refl 0, atEnd (Nat.le_refl 0)⟩

end CapabilityMachine.Machine
