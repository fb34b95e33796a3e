import CapabilityMachine.Proofs.Machine.StackEffect
import Mathlib
/-!
# Uses of capabilities that are not granted

An instruction that names a capability which is not granted ends the run, and the host is not asked
for anything. Yet the stack is checked before the grant: where the operands or the room for the
result are missing, the run ends with a fault about the stack, and only otherwise with a denial.
-/

namespace CapabilityMachine

open Outcome

theorem Registry.issue_of_ungranted {α : Type} {registry : Registry α} {id : CapabilityId}
    (ungranted : registry.isGranted id = false) :
    registry.issue id = .error (.capabilityDenied id) := by
  cases issued : registry.issue id with
  | ok handle =>
    have granted := (issue_eq_ok.1 issued).1
    rw [ungranted] at granted
    cases granted
  | error error => rw [(issue_error issued).2]

namespace Core

variable {α : Type} {core : Core} {registry : Registry α} {maxCallDepth index : Nat}
  {instruction : Instruction} {id : CapabilityId}

/-- With its operands and room for its result on the stack, an instruction is refused for want of
the grant. -/
theorem request_of_ungranted (names : instruction.capability? = some id)
    (ungranted : registry.isGranted id = false)
    (deep : instruction.requiredDepth ≤ core.stack.size)
    (room : core.stack.size - instruction.stackEffect.pops + instruction.stackEffect.pushes ≤
      core.stack.limit) :
    core.request registry maxCallDepth index instruction = .error (.capabilityDenied id) := by
  have refused := Registry.issue_of_ungranted ungranted
  rcases Instruction.capability?_eq_some.1 names with rfl | ⟨argumentCount, rfl⟩
  · have hasRoom : core.stack.ensureRoom 1 = .ok () := Stack.ensureRoom_one_eq_ok.2 room
    simp [request, hasRoom, refused]
  · have hasOperands : core.stack.ensureDepth argumentCount.toNat = .ok () :=
      Stack.ensureDepth_eq_ok.2 deep
    by_cases noArguments : argumentCount.toNat = 0
    · have hasRoom : core.stack.ensureRoom 1 = .ok () := by
        apply Stack.ensureRoom_one_eq_ok.2
        apply Nat.lt_of_succ_le
        simpa [Instruction.stackEffect, noArguments] using room
      rw [noArguments] at hasOperands
      simp [request, noArguments, hasOperands, hasRoom, refused]
    · simp [request, hasOperands, noArguments, refused]

theorem exists_error_of_ungranted (names : instruction.capability? = some id)
    (ungranted : registry.isGranted id = false) :
    ∃ error, core.request registry maxCallDepth index instruction = .error error := by
  have refused := Registry.issue_of_ungranted ungranted
  cases asked : core.request registry maxCallDepth index instruction with
  | error error => exact ⟨error, rfl⟩
  | ok request =>
    have allowed := allows_of_request_eq_ok asked
    rcases Instruction.capability?_eq_some.1 names with rfl | ⟨argumentCount, rfl⟩
    · cases allowed with
      | cap room issued => cases refused.symm.trans issued
    · cases allowed with
      | invoke deep room issued => cases refused.symm.trans issued

end Core

namespace Machine

variable {α ω : Type} [HostAction α ω] {initial machine : Machine α ω} {index : Nat}
  {instruction : Instruction} {id : CapabilityId}

/-- An instruction that names an ungranted capability ends the run without asking the host for
anything. It is denied if the stack has its operands and room for its result, and otherwise faults
for what the stack lacks. -/
theorem ungranted_use_ends_run {program : Program} {registry : Registry α} {world : ω}
    {settings : Settings} (created : create program registry world settings = .ok initial)
    (reached : initial.Reaches machine) (executes : machine.Executes index instruction)
    (names : instruction.capability? = some id) (ungranted : registry.isGranted id = false) :
    (∀ handle arguments, ¬machine.Calls instruction handle arguments) ∧
    machine.step.registry = machine.registry ∧ machine.step.world = machine.world ∧
    machine.step.trace = machine.trace ∧
    (instruction.requiredDepth ≤ machine.core.stack.size →
      machine.core.stack.size - instruction.stackEffect.pops + instruction.stackEffect.pushes ≤
          settings.maxStackDepth →
        machine.step.Ended (.denied (machine.faultOf instruction (.capabilityDenied id)))) ∧
    (machine.core.stack.size < instruction.requiredDepth →
      machine.step.Ended (.faulted (machine.faultOf instruction
        (.stackUnderflow instruction.requiredDepth machine.core.stack.size)))) ∧
    (instruction.requiredDepth ≤ machine.core.stack.size →
      settings.maxStackDepth <
          machine.core.stack.size - instruction.stackEffect.pops + instruction.stackEffect.pushes →
        machine.step.Ended (.faulted (machine.faultOf instruction
          (.stackOverflow settings.maxStackDepth)))) := by
  have initial_eq := (create_eq_ok.1 created).2
  have stillUngranted : machine.registry.isGranted id = false := by
    rw [(reached.authentic (authentic_of_create created)).isGranted_eq, initial_eq]
    exact ungranted
  have within := reached.withinStack created
  have limit_eq : machine.core.stack.limit = settings.maxStackDepth := by
    rw [within.limit_eq, reached.settings_eq, initial_eq]
  have size_le : machine.core.stack.size ≤ machine.core.stack.limit := by
    rw [within.limit_eq]
    exact within.size_le
  rw [← limit_eq]
  rcases executes with ⟨active, rfl, fetched⟩
  have ended {error : RuntimeError} (refused : machine.request instruction = .error error) :
      machine.step.Ended (.ofFault (machine.faultOf instruction error)) := by
    rw [step_of_refused active fetched refused]
    exact machine.count.ended_fail instruction error
  rcases Core.exists_error_of_ungranted names stillUngranted with ⟨error, refused⟩
  have step_eq := step_of_refused active fetched refused
  refine ⟨?_, ?_, ?_, ?_, ?_, ?_, ?_⟩
  · intro handle arguments calls
    rcases exists_asked_of_calls calls with ⟨replaced, asked⟩
    cases asked.symm.trans refused
  · rw [step_eq]
    rfl
  · rw [step_eq]
    rfl
  · rw [step_eq]
    rfl
  · intro deep room
    exact ended (Core.request_of_ungranted names stillUngranted deep room)
  · intro isShort
    exact ended (Core.request_eq_stackUnderflow_iff.2 ⟨isShort, rfl, rfl⟩)
  · intro deep isFull
    exact ended ((Core.request_eq_stackOverflow_iff size_le).2 ⟨deep, isFull, rfl⟩)

/-- A denied use of a capability, on a stack that has room for the result. -/
theorem ungranted_use_ends_run_invoke :
    ∃ (program : Program) (initial : Machine Device World),
      create program ⟨⟨0⟩, {}⟩ {} { maxStackDepth := 1 } = .ok initial ∧
      initial.Executes 0 (.invoke ⟨7⟩ 0) ∧
      initial.step.Ended
        (.denied (initial.faultOf (.invoke ⟨7⟩ 0) (.capabilityDenied ⟨7⟩))) := by
  let program : Program := {
    instructions := #[.invoke ⟨7⟩ 0, .halt]
    offsets := #[0, 4]
    entry := 0
    capabilities := [⟨7⟩]
    version := ⟨1, 0⟩ }
  rcases (⟨_, rfl⟩ : ∃ initial : Machine Device World,
    create program ⟨⟨0⟩, {}⟩ {} { maxStackDepth := 1 } = .ok initial) with ⟨initial, created⟩
  have executes : initial.Executes 0 (.invoke ⟨7⟩ 0) := by
    cases created
    exact ⟨rfl, rfl, rfl⟩
  have empty : initial.core.stack.size = 0 := by
    cases created
    rfl
  rcases ungranted_use_ends_run created (Reaches.refl initial) executes rfl rfl with
    ⟨_, _, _, _, denied, _, _⟩
  refine ⟨program, initial, created, executes, denied ?_ ?_⟩
  · rw [empty]
    exact Nat.le_refl 0
  · rw [empty]
    exact Nat.le_refl 1

/-- On a full stack, the use of an ungranted capability is not denied, but faults for want of
room. -/
theorem ungranted_use_not_denied :
    ∃ (program : Program) (initial machine : Machine Device World),
      load {} ([0x43, 0x50, 0x53, 0x54, 1, 0, 0, 0, 0, 0, 0, 0, 0, 1, 0, 7, 0, 0, 0, 14] ++
        Code.encode [.push 0, .invoke ⟨7⟩ 0, .halt]) = .ok program ∧
      create program ⟨⟨0⟩, {}⟩ {} { maxStackDepth := 1 } = .ok initial ∧
      initial.Reaches machine ∧ machine.Executes 1 (.invoke ⟨7⟩ 0) ∧
      machine.registry.isGranted ⟨7⟩ = false ∧
      machine.step.FaultedWith (.stackOverflow 1) ∧ machine.step.status ≠ .denied := by
  let program : Program := {
    instructions := #[.push 0, .invoke ⟨7⟩ 0, .halt]
    offsets := #[0, 9, 13]
    entry := 0
    capabilities := [⟨7⟩]
    version := ⟨1, 0⟩ }
  have loaded : load {} ([0x43, 0x50, 0x53, 0x54, 1, 0, 0, 0, 0, 0, 0, 0, 0, 1, 0, 7, 0, 0, 0, 14] ++
      Code.encode [.push 0, .invoke ⟨7⟩ 0, .halt]) = .ok program := by cbv
  rcases (⟨_, rfl⟩ : ∃ initial : Machine Device World,
    create program ⟨⟨0⟩, {}⟩ {} { maxStackDepth := 1 } = .ok initial) with ⟨initial, created⟩
  refine ⟨program, initial, initial.step, loaded, created, (Reaches.refl initial).step, ?_⟩
  cases created
  exact ⟨⟨rfl, rfl, rfl⟩, rfl, ⟨_, ⟨rfl, rfl⟩, rfl⟩, by decide⟩

end Machine

end CapabilityMachine
