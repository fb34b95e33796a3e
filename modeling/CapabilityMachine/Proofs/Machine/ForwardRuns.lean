import CapabilityMachine.Proofs.Machine.Drivers
import CapabilityMachine.Proofs.StackHeight.Soundness
/-!
# Runs of programs that only branch forward

A return goes back in the code, so the position alone does not tell how long a run may still go on,
even if no instruction names a target before itself. Instead every index gets a budget, and at any
time of a run there is a budget for the current position and one for each index that an active call
goes back to. An instruction is paid from their sum: a step forward costs something, a call divides
the budget of its index between the callee and the code behind the call, and a return gives up what
is left of the callee's. So a run executes no more instructions than the entry point has a budget
for, whatever the stack holds and whatever the host answers.
-/

namespace CapabilityMachine

namespace Program

variable {program : Program}

/-- Every target lies behind the instruction that names it. -/
def IsForward (program : Program) : Prop :=
  ∀ index instruction, program.get? index = some instruction →
    ∀ target ∈ instruction.target?, index < target

/-- No instruction of the program is a call. -/
def HasNoCall (program : Program) : Prop :=
  ∀ index target, program.get? index ≠ some (.call target)

/-- The budget of an index pays for the instruction there and for all that it leads to. A call pays
for the callee and for the code behind the call. -/
structure Budgets (program : Program) (budget : Nat → Nat) : Prop where
  next : ∀ index < program.size, budget (index + 1) < budget index
  target : ∀ index instruction, program.get? index = some instruction →
    ∀ target ∈ instruction.target?, budget target < budget index
  call : ∀ index target, program.get? index = some (.call target) →
    budget target + budget (index + 1) < budget index

theorem lt_size_of_get? {index : Nat} {instruction : Instruction}
    (fetched : program.get? index = some instruction) : index < program.size :=
  (Array.getElem?_eq_some_iff.1 fetched).1

/-- Two budgets of later indices are less than the budget of an earlier one, if the budget doubles
with every instruction that is left. -/
theorem pow_add_pow_lt {size index first second : Nat} (inside : index < size)
    (firstLater : index < first) (secondLater : index < second) :
    (2 ^ (size - first) - 1) + (2 ^ (size - second) - 1) < 2 ^ (size - index) - 1 := by
  have left : size - index = size - (index + 1) + 1 := by omega
  have first_le : 2 ^ (size - first) ≤ 2 ^ (size - (index + 1)) :=
    Nat.pow_le_pow_right Nat.two_pos (by omega)
  have second_le : 2 ^ (size - second) ≤ 2 ^ (size - (index + 1)) :=
    Nat.pow_le_pow_right Nat.two_pos (by omega)
  have firstPositive : 0 < 2 ^ (size - first) := Nat.two_pow_pos _
  have secondPositive : 0 < 2 ^ (size - second) := Nat.two_pow_pos _
  rw [left, Nat.pow_succ]
  omega

theorem IsForward.budgets (forward : program.IsForward) :
    program.Budgets fun index => 2 ^ (program.size - index) - 1 := by
  refine ⟨?_, ?_, ?_⟩
  · intro index inside
    have := pow_add_pow_lt inside (Nat.lt_add_one index) (Nat.lt_add_one index)
    omega
  · intro index instruction fetched target isTarget
    have later := forward index instruction fetched target isTarget
    have := pow_add_pow_lt (lt_size_of_get? fetched) later later
    omega
  · intro index target fetched
    have later := forward index _ fetched target rfl
    exact pow_add_pow_lt (lt_size_of_get? fetched) later (Nat.lt_add_one index)

theorem IsForward.budgets_of_hasNoCall (forward : program.IsForward) (noCall : program.HasNoCall) :
    program.Budgets fun index => program.size - index := by
  refine ⟨?_, ?_, ?_⟩
  · intro index inside
    omega
  · intro index instruction fetched target isTarget
    have later := forward index instruction fetched target isTarget
    have inside := lt_size_of_get? fetched
    omega
  · intro index target fetched
    exact absurd fetched (noCall index target)

end Program

namespace Core

variable {α : Type} {program : Program} {core after : Core} {registry : Registry α}
  {maxCallDepth index target : Nat} {instruction : Instruction} {flow : Flow} {budget : Nat → Nat}

/-- An instruction is paid from the budgets of its own index and of those to return to. -/
theorem Allows.budget_lt
    (allowed : core.Allows registry maxCallDepth index instruction (.proceed after flow))
    (budgets : program.Budgets budget) (fetched : program.get? index = some instruction)
    (continues : flow.target? index = some target) :
    budget target + (after.frames.map budget).sum <
      budget index + (core.frames.map budget).sum := by
  have next := budgets.next index (Program.lt_size_of_get? fetched)
  have targets := budgets.target index instruction fetched
  cases allowed
  case jump =>
    cases continues
    exact Nat.add_lt_add_right (targets target rfl) _
  case branch condition found aim rest shape =>
    split at continues
    · cases continues
      exact Nat.add_lt_add_right (targets target rfl) _
    · cases continues
      exact Nat.add_lt_add_right next _
  case call shallow =>
    cases continues
    have divided := budgets.call index target fetched
    simp only [List.map_cons, List.sum_cons]
    omega
  case ret origin frames memory called left =>
    cases continues
    simp only [called, List.map_cons, List.sum_cons]
    omega
  case finish | halt => cases continues
  all_goals
    cases continues
    exact Nat.add_lt_add_right next _

end Core

namespace Machine

variable {α ω : Type} {initial machine : Machine α ω} {budget : Nat → Nat}

/-- The budgets of the current position and of the indices to return to, as long as the run goes
on. -/
def outstanding (budget : Nat → Nat) (machine : Machine α ω) : Nat :=
  if machine.status.isTerminal then 0
  else budget machine.position + (machine.core.frames.map budget).sum

theorem outstanding_of_active (active : machine.Active) :
    machine.outstanding budget =
      budget machine.position + (machine.core.frames.map budget).sum := by
  rw [outstanding, active]
  rfl

theorem outstanding_of_not_active (inactive : ¬machine.Active) :
    machine.outstanding budget = 0 :=
  if_pos (not_active_iff.1 inactive)

theorem outstanding_follow_lt {flow : Flow} {amount : Nat} (positive : 0 < amount)
    (paid : ∀ target, flow.target? machine.position = some target →
      budget target + (machine.core.frames.map budget).sum < amount) :
    (machine.follow flow).outstanding budget < amount := by
  by_cases active : (machine.follow flow).Active
  · rw [outstanding_of_active active, follow_core]
    exact paid _ (position_of_active_follow active)
  · rw [outstanding_of_not_active active]
    exact positive

variable [HostAction α ω]

/-- Every instruction is paid for, also one that fails or ends the run. -/
theorem outstanding_step_lt (budgets : machine.program.Budgets budget) (active : machine.Active)
    {instruction : Instruction}
    (fetched : machine.program.get? machine.position = some instruction) :
    machine.step.steps = machine.steps + 1 ∧
      machine.step.outstanding budget < machine.outstanding budget := by
  have next := budgets.next machine.position (Program.lt_size_of_get? fetched)
  have positive : 0 < machine.outstanding budget := by
    rw [outstanding_of_active active]
    omega
  have transition := transition_step active
  generalize machine.step = after at transition ⊢
  cases transition with
  | leave outside => cases fetched.symm.trans outside
  | refuse _ _ | reject _ _ _ =>
    refine ⟨rfl, ?_⟩
    rw [outstanding_of_not_active ((ended_fail _ _ _).not_active)]
    exact positive
  | @proceed other core flow otherFetched asked =>
    refine ⟨(follow_surroundings _ _).2.2.2, outstanding_follow_lt positive ?_⟩
    intro target continues
    rw [outstanding_of_active active]
    exact (Core.allows_of_request_eq_ok asked).budget_lt budgets otherFetched continues
  | answer _ _ _ =>
    refine ⟨(follow_surroundings _ _).2.2.2, outstanding_follow_lt positive ?_⟩
    intro target continues
    cases continues
    rw [outstanding_of_active active]
    exact Nat.add_lt_add_right next _

/-- Behind the end of the code there is nothing to pay for. -/
theorem not_active_step_of_outside
    (outside : machine.program.get? machine.position = none) :
    ¬machine.step.Active ∧ machine.step.steps = machine.steps := by
  by_cases active : machine.Active
  · rw [step_of_outside active outside]
    exact ⟨(ended_halt _).not_active, rfl⟩
  · rw [step_of_not_active active]
    exact ⟨active, rfl⟩

theorem steps_add_outstanding_step_le (budgets : machine.program.Budgets budget) :
    machine.step.steps + machine.step.outstanding budget ≤
      machine.steps + machine.outstanding budget := by
  by_cases active : machine.Active
  · cases fetched : machine.program.get? machine.position with
    | none =>
      rcases not_active_step_of_outside fetched with ⟨ended, steps_eq⟩
      rw [outstanding_of_not_active ended, steps_eq]
      exact Nat.le_add_right _ _
    | some instruction =>
      have paid := outstanding_step_lt budgets active fetched
      omega
  · rw [step_of_not_active active]

/-- All along a run, the executed instructions and the outstanding budgets stay within the budget
that the run started with. -/
theorem steps_add_outstanding_le (budgets : initial.program.Budgets budget) (count : Nat) :
    (initial.stepTimes count).steps + (initial.stepTimes count).outstanding budget ≤
      initial.steps + initial.outstanding budget := by
  induction count with
  | zero => exact Nat.le_refl _
  | succ count ih =>
    have same : (initial.stepTimes count).program = initial.program :=
      Reaches.program_eq ⟨count, rfl⟩
    rw [← same] at budgets
    rw [stepTimes_succ_eq_step]
    exact Nat.le_trans (steps_add_outstanding_step_le budgets) ih

/-- A run ends before it has taken more steps than its budget allows. -/
theorem not_active_stepTimes (budgets : machine.program.Budgets budget) {count : Nat}
    (enough : machine.outstanding budget < count) : ¬(machine.stepTimes count).Active := by
  induction count generalizing machine with
  | zero => exact absurd enough (Nat.not_lt_zero _)
  | succ count ih =>
    rw [stepTimes_succ]
    by_cases active : machine.step.Active
    · have wasActive := active_of_active_step active
      cases fetched : machine.program.get? machine.position with
      | none => exact absurd active (not_active_step_of_outside fetched).1
      | some instruction =>
        have paid := outstanding_step_lt budgets wasActive fetched
        rw [← machine.step_program] at budgets
        exact ih budgets (by omega)
    · rwa [stepTimes_of_not_active active]

/-- A run of a program that only branches forward comes to an end, however deep calls may be nested
and whatever the host answers. With `n` instructions from the entry point on, it executes fewer than
`2 ^ n` of them, and no more than `n` if the program has no call. -/
theorem forward_run_ends {program : Program} {registry : Registry α} {world : ω}
    {settings : Settings} (forward : program.IsForward)
    (created : create program registry world settings = .ok initial) :
    ∃ last, initial.run (2 ^ (program.size - program.entry)) = some last ∧
      initial.Reaches last ∧ last.status.isTerminal = true ∧
      last.steps ≤ 2 ^ (program.size - program.entry) - 1 ∧
      (program.HasNoCall → last.steps ≤ program.size - program.entry) := by
  rcases create_eq_ok.1 created with ⟨_, initial_eq⟩
  have program_eq : initial.program = program := by rw [initial_eq]
  have steps_eq : initial.steps = 0 := by rw [initial_eq]
  have outstanding_initial (budget : Nat → Nat) :
      initial.outstanding budget = budget program.entry := by
    have active : initial.Active := by rw [initial_eq]; rfl
    rw [outstanding_of_active active, initial_eq]
    rfl
  have spent {budget : Nat → Nat} (budgets : program.Budgets budget) (count : Nat) :
      (initial.stepTimes count).steps ≤ budget program.entry := by
    rw [← program_eq] at budgets
    have within := steps_add_outstanding_le budgets count
    rw [steps_eq, outstanding_initial] at within
    omega
  have ended : ¬(initial.stepTimes (2 ^ (program.size - program.entry))).Active := by
    have budgets := forward.budgets
    rw [← program_eq] at budgets
    apply not_active_stepTimes budgets
    · rw [outstanding_initial, program_eq]
      exact Nat.sub_lt (Nat.two_pow_pos _) Nat.one_pos
  refine ⟨_, (coherent_of_create created).run_eq_some_iff.2 ⟨ended, rfl⟩, ⟨_, rfl⟩,
    not_active_iff.1 ended,
    spent forward.budgets _, ?_⟩
  intro noCall
  exact spent (forward.budgets_of_hasNoCall noCall) _

/-- A run of nested calls, each of which runs the rest of the code twice. No run of three
instructions that only branches forward is longer. -/
theorem forward_run_ends_nested_calls :
    ∃ (program : Program) (initial last : Machine Device World),
      program.IsForward ∧ program.size = 3 ∧
      create program ⟨⟨0⟩, {}⟩ {} {} = .ok initial ∧
      initial.run (2 ^ 3) = some last ∧ last.status.isTerminal = true ∧
      last.steps ≤ 2 ^ 3 - 1 ∧ last.steps = 2 ^ 3 - 1 := by
  let program : Program := {
    instructions := #[.call 1, .call 2, .ret]
    offsets := #[0, 5, 10]
    entry := 0
    capabilities := []
    version := ⟨1, 0⟩ }
  have forward : program.IsForward := by
    rintro (_ | _ | _ | index) instruction fetched target isTarget <;> cases fetched <;>
      cases isTarget <;> decide
  rcases (⟨_, rfl⟩ : ∃ initial : Machine Device World,
    create program ⟨⟨0⟩, {}⟩ {} {} = .ok initial) with ⟨initial, created⟩
  rcases forward_run_ends forward created with ⟨last, ran, _, isTerminal, bound, _⟩
  have executed : (initial.run (2 ^ 3)).map steps = some (2 ^ 3 - 1) := by
    cases created
    decide +kernel
  have last_steps : last.steps = 2 ^ 3 - 1 := by
    rw [show initial.run (2 ^ 3) = some last from ran] at executed
    exact Option.some.inj executed
  exact ⟨program, initial, last, forward, rfl, created, ran, isTerminal, bound, last_steps⟩

end Machine

end CapabilityMachine
