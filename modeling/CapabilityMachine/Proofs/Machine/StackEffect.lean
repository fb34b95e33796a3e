import CapabilityMachine.Proofs.Machine.Provenance
/-!
# Stack effects

`Instruction.stackEffect` and `Instruction.requiredDepth` say what an instruction does to the height
of the stack, without running it. Execution agrees with both, whatever the operands are and whatever
the host answers: an instruction lacks values or room exactly if it does by its stack effect, and
leaves all values alone that are deeper than the ones it consumes.
-/

namespace CapabilityMachine

open Outcome

/-- The second stack is what the effect makes of the first one. -/
def StackEffect.Changes (effect : StackEffect) (before after : Stack) : Prop :=
  ∃ pushed : List Value, pushed.length = effect.pushes ∧
    after = { before with values := pushed ++ before.values.drop effect.pops }

namespace StackEffect.Changes

variable {effect : StackEffect} {before after : Stack}

theorem size_eq (changes : effect.Changes before after) :
    after.size = before.size - effect.pops + effect.pushes := by
  rcases changes with ⟨pushed, length_eq, rfl⟩
  simp only [Stack.size, List.length_append, List.length_drop, length_eq]
  omega

theorem limit_eq (changes : effect.Changes before after) : after.limit = before.limit := by
  rcases changes with ⟨pushed, _, rfl⟩
  rfl

theorem take_toList (changes : effect.Changes before after) :
    after.toList.take (before.size - effect.pops) =
      before.toList.take (before.size - effect.pops) := by
  rcases changes with ⟨pushed, _, rfl⟩
  have below : (before.values.drop effect.pops).reverse.length = before.size - effect.pops := by
    simp [Stack.size]
  have split_eq : before.values.reverse =
      (before.values.drop effect.pops).reverse ++ (before.values.take effect.pops).reverse := by
    rw [← List.reverse_append, List.take_append_drop]
  simp only [Stack.toList, List.reverse_append, split_eq]
  rw [List.take_left' below, List.take_left' below]

end StackEffect.Changes

namespace Core

variable {α : Type} {core after : Core} {registry : Registry α} {maxCallDepth index : Nat}
  {instruction : Instruction} {request : Request} {flow : Flow}

/-- Execution changes the stack by the instruction's stack effect. -/
theorem Allows.changes
    (allowed : core.Allows registry maxCallDepth index instruction (.proceed after flow)) :
    instruction.stackEffect.Changes core.stack after.stack := by
  cases allowed
  case nop | jump | call | finish | ret | halt => exact ⟨[], rfl, rfl⟩
  case push | pushBool | pushUnit | pick | alloc | cap => exact ⟨[_], rfl, rfl⟩
  case pop value rest shape | branch condition found target rest shape =>
    refine ⟨[], rfl, ?_⟩
    simp [Core.withValues, Instruction.stackEffect, shape]
  case dup value found room =>
    rcases eq_cons_of_getElem? found with ⟨rest, shape⟩
    refine ⟨[value, value], rfl, ?_⟩
    simp [Core.withValues, Instruction.stackEffect, shape]
  case swap first second rest shape =>
    refine ⟨[second, first], rfl, ?_⟩
    simp [Core.withValues, Instruction.stackEffect, shape]
  case binary op first second result rest shape computed =>
    refine ⟨[result], rfl, ?_⟩
    simp [Core.withValues, Instruction.stackEffect, shape]
  case unary op operand result rest shape computed =>
    refine ⟨[result], rfl, ?_⟩
    simp [Core.withValues, Instruction.stackEffect, shape]
  case load offset reference value rest shape found =>
    refine ⟨[value], rfl, ?_⟩
    simp [Core.withValues, Instruction.stackEffect, shape]
  case loadAt offset reference value rest shape found =>
    refine ⟨[value], rfl, ?_⟩
    simp [Core.withValues, Instruction.stackEffect, shape]
  case store offset reference value rest memory shape written =>
    refine ⟨[], rfl, ?_⟩
    simp [Core.withValues, Instruction.stackEffect, shape]
  case storeAt offset reference value rest memory shape written =>
    refine ⟨[], rfl, ?_⟩
    simp [Core.withValues, Instruction.stackEffect, shape]

/-- The result of an invocation takes the place of what the instruction consumes. -/
theorem Allows.changes_of_invoke {handle : Handle} {arguments : List Value} {replaced : Nat}
    (allowed : core.Allows registry maxCallDepth index instruction
      (.invoke handle arguments replaced))
    (result : Value) :
    instruction.stackEffect.Changes core.stack
      (core.withValues (result :: core.stack.values.drop replaced)).stack := by
  cases allowed with
  | invoke deep room issued => exact ⟨[result], rfl, rfl⟩
  | invokeHandle found => exact ⟨[result], rfl, rfl⟩

/-- An instruction that is not refused has the values and the room it needs. Those that take values
find them on the stack, and most of them do not leave more than they take. -/
theorem Allows.accommodates
    (allowed : core.Allows registry maxCallDepth index instruction request) :
    core.Accommodates instruction := by
  have room_of_lt (room : core.stack.size < core.stack.limit) :
      core.stack.size - 0 + 1 ≤ max core.stack.limit core.stack.size := by omega
  cases allowed
  case nop | jump | call | finish | ret | halt =>
    exact accommodates_of_pushes_le (Nat.zero_le _) (Nat.zero_le _) (Nat.zero_le _)
  case push room | pushBool room | pushUnit room => exact ⟨Nat.zero_le _, room_of_lt room⟩
  case alloc reference memory room allocated => exact ⟨Nat.zero_le _, room_of_lt room⟩
  case cap handle room issued => exact ⟨Nat.zero_le _, room_of_lt room⟩
  case pick depth value found room =>
    have deep : depth.toNat < core.stack.size := (List.getElem?_eq_some_iff.1 found).1
    exact ⟨deep, room_of_lt room⟩
  case dup value found room =>
    have deep : 0 < core.stack.size := (List.getElem?_eq_some_iff.1 found).1
    refine ⟨deep, ?_⟩
    simp only [Instruction.stackEffect]
    omega
  case invoke id argumentCount handle deep room issued =>
    refine ⟨deep, ?_⟩
    simp only [Instruction.stackEffect]
    omega
  case invokeHandle argumentCount handle found =>
    have deep : argumentCount.toNat < core.stack.size := (List.getElem?_eq_some_iff.1 found).1
    exact accommodates_of_pushes_le deep deep (Nat.succ_le_succ (Nat.zero_le _))
  all_goals
    have height := congrArg List.length ‹core.stack.values = _›
    simp only [List.length_cons] at height
    constructor
    · simp only [Instruction.requiredDepth, Instruction.stackEffect, Stack.size]
      omega
    · simp only [Instruction.stackEffect, Stack.size]
      omega

section Errors

variable {needed depth limit : Nat}

/-- An instruction lacks values exactly if the stack is not as deep as it requires. -/
theorem request_eq_stackUnderflow_iff :
    core.request registry maxCallDepth index instruction = .error (.stackUnderflow needed depth) ↔
      core.stack.size < instruction.requiredDepth ∧ needed = instruction.requiredDepth ∧
        depth = core.stack.size := by
  constructor
  · intro refused
    cases refuses_of_request_eq_error refused with
    | short short => exact ⟨short, rfl, rfl⟩
    | operational accommodates isOperational => exact False.elim isOperational
  · rintro ⟨short, rfl, rfl⟩
    cases asked : core.request registry maxCallDepth index instruction with
    | ok request =>
      have accommodates := (allows_of_request_eq_ok asked).accommodates
      exact absurd accommodates.deep (Nat.not_le_of_lt short)
    | error error =>
      cases refuses_of_request_eq_error asked with
      | short short => rfl
      | full deep full => exact absurd deep (Nat.not_le_of_lt short)
      | operational accommodates isOperational =>
        exact absurd accommodates.deep (Nat.not_le_of_lt short)
      | nested nested => exact absurd short (Nat.not_lt_zero _)
      | unframed called unframed => exact absurd short (Nat.not_lt_zero _)
      | ungranted accommodates names ungranted =>
        exact absurd accommodates.deep (Nat.not_le_of_lt short)

/-- An instruction lacks room exactly if it has its values and would leave the stack beyond its
limit. -/
theorem request_eq_stackOverflow_iff (within : core.stack.size ≤ core.stack.limit) :
    core.request registry maxCallDepth index instruction = .error (.stackOverflow limit) ↔
      instruction.requiredDepth ≤ core.stack.size ∧
        core.stack.limit <
          core.stack.size - instruction.stackEffect.pops + instruction.stackEffect.pushes ∧
        limit = core.stack.limit := by
  have excludes (full : core.stack.limit <
      core.stack.size - instruction.stackEffect.pops + instruction.stackEffect.pushes) :
      ¬core.Accommodates instruction := by
    intro accommodates
    have room := accommodates.room
    omega
  constructor
  · intro refused
    cases refuses_of_request_eq_error refused with
    | full deep full => exact ⟨deep, full, rfl⟩
    | operational accommodates isOperational => exact False.elim isOperational
  · rintro ⟨deep, full, rfl⟩
    cases asked : core.request registry maxCallDepth index instruction with
    | ok request => exact absurd (allows_of_request_eq_ok asked).accommodates (excludes full)
    | error error =>
      cases refuses_of_request_eq_error asked with
      | short short => exact absurd deep (Nat.not_le_of_lt short)
      | full deep full => rfl
      | operational accommodates isOperational => exact absurd accommodates (excludes full)
      | nested nested => exact absurd within (Nat.not_le_of_lt full)
      | unframed called unframed => exact absurd within (Nat.not_le_of_lt full)
      | ungranted accommodates names ungranted => exact absurd accommodates (excludes full)

end Errors

end Core

namespace Machine

variable {α ω : Type} {initial machine : Machine α ω}

/-- The run has ended in a fault with the error. -/
def FaultedWith (machine : Machine α ω) (error : RuntimeError) : Prop :=
  ∃ fault, machine.Ended (.faulted fault) ∧ fault.error = error

theorem faultedWith_fail (machine : Machine α ω) (instruction : Instruction) {error : RuntimeError}
    (notDenial : error.isDenial = false) : (machine.fail instruction error).FaultedWith error := by
  have ended := machine.ended_fail instruction error
  refine ⟨machine.faultOf instruction error, ?_, rfl⟩
  rwa [Termination.ofFault, faultOf, if_neg (by rw [notDenial]; exact Bool.false_ne_true)] at ended

/-- The stack has the limit of the settings, and keeps to it. -/
structure WithinStack (machine : Machine α ω) : Prop where
  limit_eq : machine.core.stack.limit = machine.settings.maxStackDepth
  size_le : machine.core.stack.size ≤ machine.settings.maxStackDepth

theorem withinStack_of_create {program : Program} {registry : Registry α} {world : ω}
    {settings : Settings} (created : create program registry world settings = .ok initial) :
    initial.WithinStack := by
  rcases create_eq_ok.1 created with ⟨_, rfl⟩
  exact ⟨rfl, Nat.zero_le _⟩

variable [HostAction α ω] {after : Machine α ω} {index : Nat} {instruction : Instruction}
  {error : RuntimeError}

/-- An instruction fails, or it has what it needs of the stack and changes it by its effect. -/
theorem Transition.changes (transition : machine.Transition after)
    (fetched : machine.program.get? machine.position = some instruction) :
    (∃ error, machine.Failure instruction error after) ∨
      machine.core.Accommodates instruction ∧
        instruction.stackEffect.Changes machine.core.stack after.core.stack := by
  cases transition with
  | leave outside => cases fetched.symm.trans outside
  | refuse otherFetched refused =>
    cases fetched.symm.trans otherFetched
    exact Or.inl ⟨_, .refused refused⟩
  | proceed otherFetched asked =>
    cases fetched.symm.trans otherFetched
    have allowed := Core.allows_of_request_eq_ok asked
    rw [follow_core]
    exact Or.inr ⟨allowed.accommodates, allowed.changes⟩
  | reject otherFetched asked rejected =>
    cases fetched.symm.trans otherFetched
    exact Or.inl ⟨_, .rejected asked rejected⟩
  | answer otherFetched asked answered =>
    cases fetched.symm.trans otherFetched
    have allowed := Core.allows_of_request_eq_ok asked
    rw [follow_core]
    exact Or.inr ⟨allowed.accommodates, allowed.changes_of_invoke _⟩

theorem WithinStack.step (within : machine.WithinStack) (active : machine.Active) :
    machine.step.WithinStack := by
  have transition := transition_step active
  have same := transition.settings_eq
  cases fetched : machine.program.get? machine.position with
  | none =>
    rw [step_of_outside active fetched]
    exact ⟨within.limit_eq, within.size_le⟩
  | some instruction =>
    rcases transition.changes fetched with ⟨error, failure⟩ | ⟨accommodates, changes⟩
    · refine ⟨?_, ?_⟩
      · rw [failure.core_eq, same]
        exact within.limit_eq
      · rw [failure.core_eq, same]
        exact within.size_le
    · have limit_eq := within.limit_eq
      have size_le := within.size_le
      have room := accommodates.room
      refine ⟨?_, ?_⟩
      · rw [changes.limit_eq, same]
        exact limit_eq
      · rw [changes.size_eq, same]
        omega

theorem Reaches.withinStack {program : Program} {registry : Registry α} {world : ω}
    {settings : Settings} (created : create program registry world settings = .ok initial)
    (reached : initial.Reaches machine) : machine.WithinStack := by
  apply reached.induction
  · exact withinStack_of_create created
  · intro machine _ within active
    exact within.step active

/-- An error that is the instruction's own tells what the instruction is refused with, unless it may
be that of a granted capability without an action. -/
theorem Authentic.faultedWith_iff (authentic : initial.Authentic machine)
    (executes : machine.Executes index instruction) (isLocal : error.IsLocal)
    (notInternal : ∀ reason, error ≠ .internal reason) :
    machine.step.FaultedWith error ↔ machine.request instruction = .error error := by
  constructor
  · rintro ⟨fault, ended, rfl⟩
    have failure := executes.failure ended rfl
    generalize machine.step = after at failure
    cases failure with
    | refused asked => exact asked
    | rejected asked outcome_eq =>
      have fails := Registry.invoke_error_of_honors (authentic.honors_of_asked asked) outcome_eq
      generalize fault.error = error at *
      cases fails with
      | capability blamed reason => exact False.elim isLocal
      | unsupplied absent => exact absurd rfl (notInternal _)
  · intro refused
    have notDenial : error.isDenial = false := by
      cases error <;> first | rfl | exact False.elim isLocal
    rcases executes with ⟨active, rfl, fetched⟩
    rw [step_of_refused active fetched refused]
    exact faultedWith_fail _ _ notDenial

/-- The static tables of instructions agree with execution: in every state of a run, an instruction
faults for want of values exactly if the stack is not as deep as it requires, and for want of room
exactly if its stack effect would leave the stack beyond its limit. If it does not fail, the height
changes by the stack effect and the values below those it consumes stay as they are. -/
theorem step_agrees_with_stackEffect {program : Program} {registry : Registry α} {world : ω}
    {settings : Settings} (created : create program registry world settings = .ok initial)
    (reached : initial.Reaches machine) (executes : machine.Executes index instruction) :
    machine.core.stack.size ≤ settings.maxStackDepth ∧
    (∀ needed depth, machine.step.FaultedWith (.stackUnderflow needed depth) ↔
      machine.core.stack.size < instruction.requiredDepth ∧
        needed = instruction.requiredDepth ∧ depth = machine.core.stack.size) ∧
    (∀ limit, machine.step.FaultedWith (.stackOverflow limit) ↔
      instruction.requiredDepth ≤ machine.core.stack.size ∧
        settings.maxStackDepth < machine.core.stack.size - instruction.stackEffect.pops +
          instruction.stackEffect.pushes ∧
        limit = settings.maxStackDepth) ∧
    (machine.step.status ≠ .faulted → machine.step.status ≠ .denied →
      machine.step.core.stack.size = machine.core.stack.size - instruction.stackEffect.pops +
          instruction.stackEffect.pushes ∧
        machine.step.core.stack.toList.take
            (machine.core.stack.size - instruction.stackEffect.pops) =
          machine.core.stack.toList.take
            (machine.core.stack.size - instruction.stackEffect.pops)) := by
  have authentic := reached.authentic (authentic_of_create created)
  have settings_eq : machine.settings = settings := by
    rw [reached.settings_eq, (create_eq_ok.1 created).2]
  have within := reached.withinStack created
  have limit_eq : machine.core.stack.limit = settings.maxStackDepth := by
    rw [within.limit_eq, settings_eq]
  have size_le : machine.core.stack.size ≤ settings.maxStackDepth := by
    rw [← settings_eq]
    exact within.size_le
  refine ⟨size_le, ?_, ?_, ?_⟩
  · intro needed depth
    have isLocal : (RuntimeError.stackUnderflow needed depth).IsLocal := trivial
    rw [authentic.faultedWith_iff executes isLocal nofun]
    exact Core.request_eq_stackUnderflow_iff
  · intro limit
    have isLocal : (RuntimeError.stackOverflow limit).IsLocal := trivial
    rw [authentic.faultedWith_iff executes isLocal nofun, ← limit_eq]
    rw [← limit_eq] at size_le
    exact Core.request_eq_stackOverflow_iff size_le
  · intro notFaulted notDenied
    rcases executes with ⟨active, rfl, fetched⟩
    rcases (transition_step active).changes fetched with ⟨error, failure⟩ | ⟨_, changes⟩
    · rcases failure.status with faulted | denied
      · exact absurd faulted notFaulted
      · exact absurd denied notDenied
    · exact ⟨changes.size_eq, changes.take_toList⟩

/-- A run on a stack of one place that fills it and then asks for another one. -/
theorem step_agrees_with_stackEffect_dup :
    ∃ (program : Program) (initial : Machine Device World),
      create program ⟨⟨0⟩, {}⟩ {} { maxStackDepth := 1 } = .ok initial ∧
      initial.Executes 0 .pushUnit ∧ initial.step.status = .running ∧
      initial.step.core.stack.size = 1 ∧
      initial.step.Executes 1 .dup ∧ initial.step.step.FaultedWith (.stackOverflow 1) := by
  let program : Program := {
    instructions := #[.pushUnit, .dup]
    offsets := #[0, 1]
    entry := 0
    capabilities := []
    version := ⟨1, 0⟩ }
  rcases (⟨_, rfl⟩ : ∃ initial : Machine Device World,
    create program ⟨⟨0⟩, {}⟩ {} { maxStackDepth := 1 } = .ok initial) with ⟨initial, created⟩
  have first : initial.Executes 0 .pushUnit := by
    cases created
    exact ⟨rfl, rfl, rfl⟩
  have second : initial.step.Executes 1 .dup := by
    cases created
    exact ⟨rfl, rfl, rfl⟩
  have running : initial.step.status = .running := by
    cases created
    rfl
  have empty : initial.core.stack.size = 0 := by
    cases created
    rfl
  rcases step_agrees_with_stackEffect created (Reaches.refl initial) first with ⟨_, _, _, keeps⟩
  have height : initial.step.core.stack.size = 1 := by
    have size_eq := (keeps (by simp [running]) (by simp [running])).1
    rw [empty] at size_eq
    exact size_eq
  rcases step_agrees_with_stackEffect created (Reaches.refl initial).step second with
    ⟨_, _, overflows, _⟩
  have faulted : initial.step.step.FaultedWith (.stackOverflow 1) := by
    apply (overflows 1).2
    rw [height]
    decide
  exact ⟨program, initial, created, first, running, height, second, faulted⟩

end Machine

end CapabilityMachine
