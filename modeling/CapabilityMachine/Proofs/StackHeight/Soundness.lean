import CapabilityMachine.Host.Device
import CapabilityMachine.Proofs.Machine.Transition
import CapabilityMachine.Proofs.Program.Loading
import CapabilityMachine.Proofs.StackHeight.Worklist
import Mathlib
/-!
# Soundness of the bounds

Along every run of a loaded program the stack is at least as high as the bound of the current
instruction. The invariant says in addition that nothing is supposed of the stack at the indices
that calls return to, so that a callee may leave any stack behind.
-/

namespace CapabilityMachine

open StackHeight Outcome

/-- The index at which execution continues after the instruction at the given one. -/
def Flow.target? (index : Nat) : Flow → Option Nat
  | next => some (index + 1)
  | jump target => some target
  | halt => none

namespace Core

variable {α : Type} {core after : Core} {registry : Registry α} {maxCallDepth index height : Nat}
  {instruction : Instruction} {flow : Flow}

/-- An instruction that runs at the height or above continues along an edge of the flow graph, and
leaves the stack at least as high as the edge says. Only a return follows no edge. -/
theorem Allows.exists_edge
    (allowed : core.Allows registry maxCallDepth index instruction (.proceed after flow))
    (within : height ≤ core.stack.size) {target : Nat}
    (continues : flow.target? index = some target) :
    instruction = .ret ∨
      ∃ edge ∈ successors instruction index height,
        edge.1 = target ∧ edge.2 ≤ after.stack.size := by
  cases allowed
  case ret called left => exact Or.inl rfl
  case finish topLevel => cases continues
  case halt => cases continues
  case jump =>
    cases continues
    right
    simpa [successors, StackHeight.after, Instruction.stackEffect] using within
  case call shallow =>
    cases continues
    right
    exact ⟨(target, height), List.mem_cons_self, rfl, within⟩
  case branch shape =>
    right
    simp only [Stack.size, shape, List.length_cons] at within
    split at continues <;> cases continues <;>
      simp [successors, StackHeight.after, Instruction.stackEffect, Stack.size] <;> omega
  case dup found room =>
    cases continues
    right
    have nonempty : 0 < core.stack.values.length := (List.getElem?_eq_some_iff.1 found).1
    simp [successors, StackHeight.after, Instruction.stackEffect, Stack.size] at within ⊢
    omega
  all_goals
    cases continues
    right
    simp [successors, StackHeight.after, Instruction.stackEffect, Stack.size, *] at within ⊢
    try omega

theorem Allows.mem_frames
    (allowed : core.Allows registry maxCallDepth index instruction (.proceed after flow))
    {origin : Nat} (member : origin ∈ after.frames) :
    origin ∈ core.frames ∨ ∃ target, instruction = .call target ∧ origin = index + 1 := by
  cases allowed
  case call target shallow =>
    rcases List.mem_cons.1 member with rfl | older
    · exact Or.inr ⟨target, rfl, rfl⟩
    · exact Or.inl older
  case ret called left =>
    rw [called]
    exact Or.inl (List.mem_cons_of_mem _ member)
  all_goals exact Or.inl member

theorem Allows.mem_of_ret
    (allowed : core.Allows registry maxCallDepth index .ret (.proceed after flow)) {target : Nat}
    (continues : flow.target? index = some target) : target ∈ core.frames := by
  cases allowed with
  | finish topLevel => cases continues
  | ret called left =>
    cases continues
    rw [called]
    exact List.mem_cons_self

theorem Allows.exists_edge_of_invoke {handle : Handle} {arguments : List Value} {replaced : Nat}
    (allowed : core.Allows registry maxCallDepth index instruction
      (.invoke handle arguments replaced))
    (within : height ≤ core.stack.size) :
    ∃ edge ∈ successors instruction index height,
      edge.1 = index + 1 ∧ edge.2 ≤ (core.stack.values.drop replaced).length + 1 := by
  cases allowed with
  | @invoke id argumentCount _ deep room issued =>
    simp [successors, StackHeight.after, Instruction.stackEffect, Stack.size] at within deep ⊢
    omega
  | @invokeHandle argumentCount _ found =>
    have deep : argumentCount.toNat < core.stack.values.length :=
      (List.getElem?_eq_some_iff.1 found).1
    simp [successors, StackHeight.after, Instruction.stackEffect, Stack.size] at within ⊢
    omega

end Core

namespace Machine

variable {α ω : Type} {machine initial : Machine α ω} {program : Program}

/-- The stack is at least as high as the bound of the current instruction, and nothing is supposed
of the stack at the indices to return to. -/
structure Bounded (machine : Machine α ω) : Prop where
  height : machine.Active → Covers machine.program.bounds machine.position machine.core.stack.size
  frames : ∀ origin ∈ machine.core.frames, Covers machine.program.bounds origin 0

theorem Bounded.exists_bound (bounded : machine.Bounded) (active : machine.Active)
    (inside : machine.position < machine.program.size) :
    ∃ height ≤ machine.core.stack.size,
      machine.program.bounds[machine.position]? = some (some height) := by
  have present : machine.position < machine.program.bounds.size := by
    rw [Program.bounds, size_bounds]
    exact inside
  rcases bounded.height active _ (Array.getElem?_eq_getElem present) with ⟨height, within, isBound⟩
  exact ⟨height, within, by rw [Array.getElem?_eq_getElem present, isBound]⟩

theorem position_of_active_follow {flow : Flow} (active : (machine.follow flow).Active) :
    flow.target? machine.position = some (machine.follow flow).position := by
  cases flow with
  | next | jump target =>
    rw [follow, haltAtEnd_position]
    rfl
  | halt => exact absurd active (ended_halt _).not_active

theorem bounded_follow {flow : Flow}
    (heights : ∀ target, flow.target? machine.position = some target →
      Covers machine.program.bounds target machine.core.stack.size)
    (frames : ∀ origin ∈ machine.core.frames, Covers machine.program.bounds origin 0) :
    (machine.follow flow).Bounded := by
  constructor
  · intro active
    rw [follow_program, follow_core]
    exact heights _ (position_of_active_follow active)
  · rw [follow_program, follow_core]
    exact frames

theorem bounded_of_create {registry : Registry α} {world : ω} {settings : Settings}
    (created : create program registry world settings = .ok initial) : initial.Bounded := by
  rcases create_eq_ok.1 created with ⟨_, rfl⟩
  constructor
  · intro _
    exact covers_bounds_entry program.instructions program.entry
  · intro origin member
    cases member

variable [HostAction α ω]

/-- Instructions continue along the edges of the control flow graph, where the bounds are kept. A
return follows no edge, but nothing is supposed of the stack where it goes back to. -/
theorem Bounded.of_transition {after : Machine α ω} (bounded : machine.Bounded)
    (active : machine.Active) (transition : machine.Transition after) : after.Bounded := by
  have edges {instruction : Instruction}
      (fetched : machine.program.get? machine.position = some instruction) :
      ∃ height ≤ machine.core.stack.size,
        ∀ edge ∈ successors instruction machine.position height,
          Covers machine.program.bounds edge.1 edge.2 := by
    have inside : machine.position < machine.program.size :=
      (Array.getElem?_eq_some_iff.1 fetched).1
    rcases bounded.exists_bound active inside with ⟨height, within, isBound⟩
    exact ⟨height, within, stableAt_bounds _ _ _ instruction height fetched isBound⟩
  cases transition with
  | leave outside => exact ⟨fun again => absurd again (ended_halt _).not_active, bounded.frames⟩
  | refuse fetched refused =>
    exact ⟨fun again => absurd again (ended_fail _ _ _).not_active, bounded.frames⟩
  | @proceed instruction core flow fetched asked =>
    have allowed := Core.allows_of_request_eq_ok asked
    rcases edges fetched with ⟨height, within, covered⟩
    apply bounded_follow
    · intro target continues
      rcases allowed.exists_edge within continues with rfl | ⟨edge, member, rfl, least⟩
      · have returned := bounded.frames target (allowed.mem_of_ret continues)
        exact returned.mono (Nat.zero_le _)
      · exact (covered edge member).mono least
    · intro origin member
      rcases allowed.mem_frames member with older | ⟨target, rfl, rfl⟩
      · exact bounded.frames origin older
      · exact covered (machine.position + 1, 0) (by simp [successors])
  | reject fetched asked rejected =>
    exact ⟨fun again => absurd again (ended_fail _ _ _).not_active, bounded.frames⟩
  | @answer instruction handle arguments replaced result fetched asked answered =>
    have allowed := Core.allows_of_request_eq_ok asked
    rcases edges fetched with ⟨height, within, covered⟩
    apply bounded_follow
    · intro target continues
      cases continues
      rcases allowed.exists_edge_of_invoke within with ⟨edge, member, isNext, least⟩
      have next := (covered edge member).mono least
      rw [isNext] at next
      exact next
    · exact bounded.frames

theorem Bounded.step (bounded : machine.Bounded) (active : machine.Active) :
    machine.step.Bounded :=
  bounded.of_transition active (transition_step active)

theorem Reaches.bounded {registry : Registry α} {world : ω} {settings : Settings}
    (created : create program registry world settings = .ok initial)
    (reached : initial.Reaches machine) : machine.Bounded := by
  apply reached.induction
  · exact bounded_of_create created
  · intro machine _ bounded active
    exact bounded.step active

/-- A pick of a loaded program finds its value, so it can fail for want of room only. -/
theorem Bounded.pick_error (bounded : machine.Bounded) (proven : Load.Proven machine.program)
    {index : Nat} {depth : UInt16} (executes : machine.Executes index (.pick depth))
    {termination : Termination} {fault : Fault}
    (ended : machine.step.Ended termination) (isFault : termination.fault? = some fault) :
    fault.error = .stackOverflow machine.core.stack.limit := by
  have failure := executes.failure ended isFault
  rcases executes with ⟨active, rfl, fetched⟩
  have inside : machine.position < machine.program.size :=
    (Array.getElem?_eq_some_iff.1 fetched).1
  rcases bounded.exists_bound active inside with ⟨height, within, isBound⟩
  have deep : depth.toNat < height := by
    have := proven machine.position depth fetched
    rwa [isBound] at this
  generalize machine.step = after at failure
  cases failure with
  | refused asked =>
    simp only [request, Core.request, bind_eq_error, Stack.pick_eq_error, pure_ne_error, and_false,
      exists_false, or_false] at asked
    rcases asked with ⟨short, _⟩ | ⟨_, _, overflow⟩
    · omega
    · exact overflow
  | rejected asked outcome_eq => cases Core.allows_of_request_eq_ok asked

/-- The bounds of a loaded program are sound: whatever a run does and whatever the host answers, the
stack is at least as high as the bound of the current instruction, so no pick reaches below the
stack and nothing without a bound is executed. -/
theorem bounds_sound {options : LoadOptions} {bytes : List UInt8} {registry : Registry α}
    {world : ω} {settings : Settings} (loaded : load options bytes = .ok program)
    (created : create program registry world settings = .ok initial)
    (reached : initial.Reaches machine) :
    (machine.Active → machine.position < program.size →
      ∃ height ≤ machine.core.stack.size,
        program.bounds[machine.position]? = some (some height)) ∧
    (∀ origin ∈ machine.core.frames, origin < program.size →
      program.bounds[origin]? = some (some 0)) ∧
    (∀ index depth termination fault, machine.Executes index (.pick depth) →
      machine.step.termination? = some termination → termination.fault? = some fault →
      ∀ needed available, fault.error ≠ .stackUnderflow needed available) ∧
    ∀ index instruction, machine.Executes index instruction →
      ∃ height, program.bounds[index]? = some (some height) := by
  have bounded := reached.bounded created
  have same : machine.program = program := by
    rw [reached.program_eq, (create_eq_ok.1 created).2]
  subst same
  refine ⟨bounded.exists_bound, ?_, ?_, ?_⟩
  · intro origin member inside
    have present : origin < machine.program.bounds.size := by
      rw [Program.bounds, size_bounds]
      exact inside
    rcases bounded.frames origin member _ (Array.getElem?_eq_getElem present) with
      ⟨height, least, isBound⟩
    rcases Nat.le_zero.1 least with rfl
    rw [Array.getElem?_eq_getElem present, isBound]
  · intro index depth termination fault executes terminated isFault needed available
    have ended := (reached.step.coherent (coherent_of_create created)).ended terminated
    rcases Load.load_eq_ok.1 loaded with ⟨_, _, _, _, _, _, _, proven⟩
    rw [bounded.pick_error proven executes ended isFault]
    exact RuntimeError.noConfusion
  · rintro _ instruction ⟨active, rfl, fetched⟩
    have inside : machine.position < machine.program.size :=
      (Array.getElem?_eq_some_iff.1 fetched).1
    rcases bounded.exists_bound active inside with ⟨height, _, isBound⟩
    exact ⟨height, isBound⟩

/-- A run that pushes a value and is about to pick it. -/
theorem bounds_sound_push_pick :
    ∃ (program : Program) (initial : Machine Device World),
      load {} ([0x43, 0x50, 0x53, 0x54, 1, 0, 0, 0, 0, 0, 0, 0, 0, 0, 0, 0, 0, 6] ++
        Code.encode [.pushBool true, .pick 0, .halt]) = .ok program ∧
      create program ⟨⟨0⟩, {}⟩ {} {} = .ok initial ∧
      initial.step.Executes 1 (.pick 0) ∧
      ∃ height ≤ initial.step.core.stack.size, program.bounds[1]? = some (some height) := by
  let program : Program := {
    instructions := #[.pushBool true, .pick 0, .halt]
    offsets := #[0, 2, 5]
    entry := 0
    capabilities := []
    version := ⟨1, 0⟩ }
  have loaded : load {} ([0x43, 0x50, 0x53, 0x54, 1, 0, 0, 0, 0, 0, 0, 0, 0, 0, 0, 0, 0, 6] ++
      Code.encode [.pushBool true, .pick 0, .halt]) = .ok program := by cbv
  rcases (⟨_, rfl⟩ : ∃ initial : Machine Device World,
    create program ⟨⟨0⟩, {}⟩ {} {} = .ok initial) with ⟨initial, created⟩
  have executes : initial.step.Executes 1 (.pick 0) := by
    cases created
    exact ⟨rfl, rfl, rfl⟩
  have inside : initial.step.position < program.size := by
    rw [executes.position_eq]
    decide
  have bounded := (bounds_sound loaded created (Reaches.refl initial).step).1 executes.active inside
  rw [executes.position_eq] at bounded
  exact ⟨program, initial, loaded, created, executes, bounded⟩

end Machine

end CapabilityMachine
