import CapabilityMachine.Proofs.Host.Gate
import CapabilityMachine.Proofs.Machine.Memory
import CapabilityMachine.Proofs.Machine.StackEffect
import CapabilityMachine.Proofs.Program.Loading
import Mathlib
/-!
# The invariant of a run

Whatever a loaded program does and whatever its host answers, the machine stays within its limits,
its memory keeps its layout, its calls match its memory frames and the instructions that made them,
and the ids that are granted keep their actions. So a step never looks anything up where nothing is,
and the errors that only a broken machine or a wrong configuration could explain do not come up.
-/

namespace CapabilityMachine

open Outcome

/-- The index is that behind a call. -/
def Program.IsReturnIndex (program : Program) (origin : Nat) : Prop :=
  ∃ index target, program.get? index = some (.call target) ∧ origin = index + 1

theorem Program.IsReturnIndex.le {program : Program} {origin : Nat}
    (isReturn : program.IsReturnIndex origin) : origin ≤ program.size := by
  rcases isReturn with ⟨index, target, fetched, rfl⟩
  exact (Array.getElem?_eq_some_iff.1 fetched).1

namespace Core

/-- The memory has its layout and the capacity of the settings, and the active calls are as many as
the memory frames, not too many, and each go back to behind a call. -/
structure Orderly (program : Program) (settings : Settings) (core : Core) : Prop where
  memory : core.memory.WellFormed
  capacity_eq : core.memory.capacity = settings.memoryCells
  depth_eq : core.frames.length = core.memory.frameDepth
  depth_le : core.frames.length ≤ settings.maxCallDepth
  origins : ∀ origin ∈ core.frames, program.IsReturnIndex origin

variable {α : Type} {program : Program} {settings : Settings} {core after : Core}
  {registry : Registry α} {index : Nat} {instruction : Instruction} {flow : Flow}

/-- The stack has no part in the order of memory and calls. -/
theorem Orderly.withValues (orderly : core.Orderly program settings) (values : List Value) :
    (core.withValues values).Orderly program settings :=
  ⟨orderly.memory, orderly.capacity_eq, orderly.depth_eq, orderly.depth_le, orderly.origins⟩

theorem Orderly.withMemory (orderly : core.Orderly program settings) {memory : Memory}
    (wellFormed : memory.WellFormed) (capacity_eq : memory.capacity = core.memory.capacity)
    (marks_eq : memory.marks = core.memory.marks) :
    ({ core with memory } : Core).Orderly program settings := by
  refine ⟨wellFormed, capacity_eq.trans orderly.capacity_eq, ?_, orderly.depth_le, orderly.origins⟩
  simp only [Memory.frameDepth, marks_eq]
  exact orderly.depth_eq

theorem Orderly.write (orderly : core.Orderly program settings) {memory : Memory}
    {reference : Reference} {offset : Int64} {value : Value} {values : List Value}
    (written : core.memory.write reference offset value = .ok memory) :
    ({ core.withValues values with memory } : Core).Orderly program settings := by
  have wellFormed := orderly.memory.write written
  simp only [Memory.write, bind_eq_ok, pure_eq_ok] at written
  rcases written with ⟨index, _, rfl⟩
  exact (orderly.withValues values).withMemory wellFormed rfl rfl

/-- Every instruction keeps memory and calls in order. -/
theorem Allows.orderly
    (allowed : core.Allows registry settings.maxCallDepth index instruction (.proceed after flow))
    (fetched : program.get? index = some instruction) (orderly : core.Orderly program settings) :
    after.Orderly program settings := by
  cases allowed
  case call target shallow =>
    refine ⟨orderly.memory.enterFrame, orderly.capacity_eq, ?_, shallow, ?_⟩
    · simp only [List.length_cons, orderly.depth_eq, Memory.frameDepth, Memory.enterFrame]
    · intro origin member
      rcases List.mem_cons.1 member with rfl | older
      · exact ⟨index, target, fetched, rfl⟩
      · exact orderly.origins origin older
  case ret origin frames memory called left =>
    have depth_eq := orderly.depth_eq
    have depth_le := orderly.depth_le
    have origins := orderly.origins
    rw [called] at depth_eq depth_le origins
    have wellFormed := orderly.memory.leaveFrame left
    have frame : core.memory.frameDepth = memory.frameDepth + 1 ∧
        memory.capacity = core.memory.capacity := by
      rcases orderly.memory.leaveFrame_cases left with
        ⟨mark, marks, marks_eq, ⟨_, slot, _, rfl⟩ | ⟨_, rfl⟩⟩
      · simp [Memory.frameDepth, marks_eq]
      · simp [Memory.frameDepth, marks_eq]
    refine ⟨wellFormed, frame.2.trans orderly.capacity_eq, ?_, ?_, ?_⟩
    · simp only [List.length_cons, frame.1] at depth_eq
      exact Nat.succ.inj depth_eq
    · exact Nat.le_of_succ_le depth_le
    · intro other member
      exact origins other (List.mem_cons_of_mem _ member)
  case alloc length reference memory room allocated =>
    have wellFormed := orderly.memory.alloc allocated
    rcases Memory.alloc_eq_ok.1 allocated with ⟨_, _, _, rfl⟩
    exact (orderly.withValues _).withMemory wellFormed rfl rfl
  case store written => exact orderly.write written
  case storeAt written => exact orderly.write written
  case nop | jump | finish | halt => exact orderly
  all_goals exact orderly.withValues _

/-- A jump does not lead out of the code, be it to a target or back from a call. -/
theorem Allows.jump_le {maxCallDepth target : Nat}
    (allowed : core.Allows registry maxCallDepth index instruction (.proceed after flow))
    (closed : program.Closed) (fetched : program.get? index = some instruction)
    (origins : ∀ origin ∈ core.frames, program.IsReturnIndex origin)
    (jumps : flow = .jump target) : target ≤ program.size := by
  have member := Array.mem_toList_iff.2 (Array.mem_of_getElem? fetched)
  have targets := closed.target_le instruction member
  cases allowed
  case jump | call =>
    cases jumps
    exact targets target rfl
  case branch condition found aim rest shape =>
    split at jumps
    · cases jumps
      exact targets target rfl
    · cases jumps
  case ret origin frames memory called left =>
    cases jumps
    have member : target ∈ core.frames := by
      rw [called]
      exact List.mem_cons_self
    exact (origins target member).le
  all_goals cases jumps

end Core

/-- The error says something about the program, its limits or the capabilities it uses, as opposed
to the machine itself and how it was set up. -/
def RuntimeError.IsOrdinary : RuntimeError → Prop
  | internal _ | config _ | hostFailure _ => False
  | _ => True

/-- Execution of the instruction needs nothing that could be missing. -/
def Instruction.IsSafe : Instruction → Prop
  | nop | jump _ | ret | halt => True
  | _ => False

namespace Trace

theorem size_push_le (trace : Trace) (record : InvocationRecord) :
    (trace.push record).size ≤ trace.limit := by
  simp only [size, push, List.length_take]
  omega

end Trace

namespace Machine

variable {α ω : Type} {initial machine after : Machine α ω}

/-- What holds of the machine in every state of the run of a loaded program. -/
structure Orderly (machine : Machine α ω) : Prop where
  core : machine.core.Orderly machine.program machine.settings
  position_le : machine.position ≤ machine.program.size
  position_lt : machine.status = .running → machine.position < machine.program.size
  traceLimit_eq : machine.trace.limit = machine.settings.traceLimit
  traceSize_le : machine.trace.size ≤ machine.settings.traceLimit

theorem orderly_of_create {program : Program} {registry : Registry α} {world : ω}
    {settings : Settings} (closed : program.Closed)
    (created : create program registry world settings = .ok initial) : initial.Orderly := by
  rcases create_eq_ok.1 created with ⟨_, rfl⟩
  refine ⟨?_, closed.entry_le, nofun, rfl, Nat.zero_le _⟩
  refine ⟨Memory.wellFormed_empty _, rfl, rfl, Nat.zero_le _, ?_⟩
  intro origin member
  cases member

theorem haltAtEnd_running (machine : Machine α ω) (running : machine.haltAtEnd.status = .running) :
    machine.position < machine.program.size := by
  rw [haltAtEnd] at running
  split at running
  · cases running
  · rename_i goesOn
    apply Nat.lt_of_not_le
    intro outside
    exact goesOn (by simp [running, Status.isTerminal, outside])

/-- To continue at a place in the code, or at its end, keeps the machine in order. -/
theorem Orderly.follow (orderly : machine.Orderly) {flow : Flow}
    (inside : machine.position < machine.program.size)
    (jump_le : ∀ target, flow = .jump target → target ≤ machine.program.size) :
    (machine.follow flow).Orderly := by
  have goesOn (position : Nat) (position_le : position ≤ machine.program.size) :
      { machine with position, status := .running }.haltAtEnd.Orderly := by
    have position_lt := haltAtEnd_running { machine with position, status := .running }
    rcases haltAtEnd_eq { machine with position, status := .running } with
      ⟨status, termination?, same⟩
    rw [same] at position_lt ⊢
    exact ⟨orderly.core, position_le, position_lt, orderly.traceLimit_eq, orderly.traceSize_le⟩
  cases flow with
  | next => exact goesOn _ inside
  | jump target => exact goesOn target (jump_le target rfl)
  | halt => exact ⟨orderly.core, orderly.position_le, nofun, orderly.traceLimit_eq,
      orderly.traceSize_le⟩

/-- Memory always has a frame to leave for a call to go back from. -/
theorem Orderly.request_ret_ne_error (orderly : machine.Orderly) (error : RuntimeError) :
    machine.request .ret ≠ .error error := by
  intro refused
  rw [request, Core.request] at refused
  split at refused
  · cases refused
  · rename_i origin frames called
    have depth_eq := orderly.core.depth_eq
    simp only [bind_eq_error, Memory.leaveFrame_eq_error, pure_ne_error, and_false, exists_false,
      or_false] at refused
    simp [called, Memory.frameDepth, refused.1] at depth_eq

variable [HostAction α ω] {index : Nat} {instruction : Instruction} {error : RuntimeError}

theorem Orderly.afterInvoking (orderly : machine.Orderly) (handle : Handle)
    (arguments : List Value) : (machine.afterInvoking handle arguments).Orderly := by
  refine ⟨orderly.core, orderly.position_le, orderly.position_lt, ?_, ?_⟩
  · simp only [Machine.afterInvoking, answered]
    split <;> exact orderly.traceLimit_eq
  · simp only [Machine.afterInvoking, answered]
    split
    · rw [← orderly.traceLimit_eq]
      exact machine.trace.size_push_le _
    · exact orderly.traceSize_le

theorem Orderly.of_transition (orderly : machine.Orderly) (closed : machine.program.Closed)
    (transition : machine.Transition after) : after.Orderly := by
  have failed (machine : Machine α ω) (orderly : machine.Orderly) (instruction : Instruction)
      (error : RuntimeError) : (machine.count.fail instruction error).Orderly := by
    refine ⟨orderly.core, orderly.position_le, ?_, orderly.traceLimit_eq, orderly.traceSize_le⟩
    intro running
    have inactive := (machine.count.ended_fail instruction error).not_active
    rw [not_active_iff, running] at inactive
    cases inactive
  cases transition with
  | leave outside =>
    exact ⟨orderly.core, orderly.position_le, nofun, orderly.traceLimit_eq, orderly.traceSize_le⟩
  | refuse fetched refused => exact failed _ orderly _ _
  | @proceed instruction core flow fetched asked =>
    have allowed := Core.allows_of_request_eq_ok asked
    have inside : machine.position < machine.program.size :=
      (Array.getElem?_eq_some_iff.1 fetched).1
    have moved : ({ machine with core }.count).Orderly :=
      ⟨allowed.orderly fetched orderly.core, orderly.position_le, orderly.position_lt,
        orderly.traceLimit_eq, orderly.traceSize_le⟩
    apply moved.follow inside
    intro target jumps
    exact allowed.jump_le closed fetched orderly.core.origins jumps
  | reject fetched asked rejected => exact failed _ (orderly.afterInvoking _ _) _ _
  | @answer instruction handle arguments replaced result fetched asked answered =>
    have inside : machine.position < machine.program.size :=
      (Array.getElem?_eq_some_iff.1 fetched).1
    have invoked := orderly.afterInvoking handle arguments
    have moved : ({ machine.afterInvoking handle arguments with
        core := machine.core.withValues
          (result :: machine.core.stack.values.drop replaced) }.count).Orderly :=
      ⟨orderly.core.withValues _, invoked.position_le, invoked.position_lt, invoked.traceLimit_eq,
        invoked.traceSize_le⟩
    exact moved.follow inside nofun

theorem Reaches.orderly {program : Program} {registry : Registry α} {world : ω}
    {settings : Settings} (closed : program.Closed)
    (created : create program registry world settings = .ok initial)
    (reached : initial.Reaches machine) : machine.Orderly := by
  apply reached.induction
  · exact orderly_of_create closed created
  · intro machine reached orderly active
    have same : machine.program = program := by
      rw [reached.program_eq, (create_eq_ok.1 created).2]
    rw [← same] at closed
    exact orderly.of_transition closed (transition_step active)

theorem Transition.supplied (transition : machine.Transition after)
    (supplied : machine.registry.config.Supplied) : after.registry.config.Supplied := by
  cases transition with
  | leave outside => exact supplied
  | refuse fetched refused => exact supplied
  | proceed fetched asked =>
    rw [follow_registry]
    exact supplied
  | reject fetched asked rejected => exact Registry.invoke_supplied supplied
  | answer fetched asked answered =>
    rw [follow_registry]
    exact Registry.invoke_supplied supplied

/-- In no state of a run there is a granted id without an action, if there is none at first. -/
theorem Reaches.supplied (reached : initial.Reaches machine)
    (start : initial.registry.config.Supplied) : machine.registry.config.Supplied :=
  reached.induction start fun _ _ supplied active => (transition_step active).supplied supplied

theorem Orderly.isOrdinary_of_failure (orderly : machine.Orderly)
    (supplied : machine.registry.config.Supplied) (authentic : initial.Authentic machine)
    (failure : machine.Failure instruction error after) : error.IsOrdinary := by
  cases failure with
  | refused asked =>
    cases Core.refuses_of_request_eq_error asked with
    | short | full | nested | ungranted => trivial
    | operational accommodates isOperational =>
      cases error <;> trivial
    | unframed called unframed => exact absurd asked (orderly.request_ret_ne_error _)
  | rejected asked outcome_eq =>
    have honors := authentic.honors_of_asked asked
    cases Registry.invoke_error_of_honors honors outcome_eq with
    | capability blamed reason => trivial
    | unsupplied absent => exact absurd (supplied _ honors.2) (Bool.eq_false_iff.1 absent)

theorem Orderly.not_failure_of_isSafe (orderly : machine.Orderly) (safe : instruction.IsSafe) :
    ¬machine.Failure instruction error after := by
  intro failure
  cases failure with
  | refused asked =>
    cases instruction <;> try exact safe
    case nop | jump | halt => cases asked
    case ret => exact orderly.request_ret_ne_error error asked
  | rejected asked outcome_eq => cases Core.allows_of_request_eq_ok asked <;> exact safe

/-- What a step of the machine subtracts is not more than what it subtracts from, and what it looks
up by an index is there. -/
structure InRange (machine : Machine α ω) : Prop where
  room : machine.core.stack.size ≤ machine.core.stack.limit
  taken : ∀ instruction request, machine.request instruction = .ok request →
    instruction.requiredDepth ≤ machine.core.stack.size ∧
      instruction.stackEffect.pops ≤ machine.core.stack.size
  available : machine.core.memory.used ≤ machine.core.memory.capacity
  /-- The next region has a slot that was used before, or gets the one behind all slots. -/
  slot : machine.core.memory.live ≤ machine.core.memory.slots.size
  cell : ∀ reference offset index, machine.core.memory.cellIndex reference offset = .ok index →
    index < machine.core.memory.cells.size
  released : ∀ mark ∈ machine.core.memory.marks, mark < machine.core.memory.live →
    ∃ slot, machine.core.memory.slots[mark]? = some slot ∧ slot.start ≤ machine.core.memory.used
  code : ∀ index instruction, machine.Executes index instruction →
    index < machine.program.size ∧ ∃ offset, machine.program.offset? index = some offset

theorem inRange_of_reaches {options : LoadOptions} {bytes : List UInt8} {program : Program}
    {registry : Registry α} {world : ω} {settings : Settings}
    (loaded : load options bytes = .ok program)
    (created : create program registry world settings = .ok initial)
    (reached : initial.Reaches machine) : machine.InRange := by
  have within := reached.withinStack created
  have wellFormed := (reached.orderly (Load.closed_of_load loaded) created).core.memory
  have same : machine.program = program := by
    rw [reached.program_eq, (create_eq_ok.1 created).2]
  refine ⟨?_, ?_, wellFormed.used_le, wellFormed.live_le, ?_, ?_, ?_⟩
  · rw [within.limit_eq]
    exact within.size_le
  · intro instruction request asked
    have deep := (Core.allows_of_request_eq_ok asked).accommodates.deep
    have pops_le : instruction.stackEffect.pops ≤ instruction.requiredDepth := by
      cases instruction <;> simp [Instruction.requiredDepth, Instruction.stackEffect]
    exact ⟨deep, Nat.le_trans pops_le deep⟩
  · intro reference offset index found
    exact wellFormed.cellIndex_lt found
  · intro mark _ live
    rcases wellFormed.exists_region live with ⟨slot, found⟩
    exact ⟨slot, (Memory.getElem?_regions.1 found).1, wellFormed.start_le found⟩
  · rintro index instruction ⟨_, _, fetched⟩
    have inside : index < machine.program.size := (Array.getElem?_eq_some_iff.1 fetched).1
    rw [same] at inside ⊢
    exact ⟨inside, Load.exists_offset loaded inside⟩

theorem Reaches.isOrdinary {program : Program} {registry : Registry α} {world : ω}
    {settings : Settings} (closed : program.Closed) (supplied : registry.config.Supplied)
    (created : create program registry world settings = .ok initial)
    (reached : initial.Reaches machine) {termination : Termination} {fault : Fault}
    (terminated : machine.termination? = some termination)
    (isFault : termination.fault? = some fault) : fault.error.IsOrdinary := by
  rcases reached with ⟨count, rfl⟩
  rcases exists_last_step created terminated with ⟨earlier, _, active, ended⟩
  rcases (transition_step active).failure ended isFault with ⟨instruction, _, _, failure⟩
  have reached : initial.Reaches (initial.stepTimes earlier) := ⟨earlier, rfl⟩
  have initial_eq := (create_eq_ok.1 created).2
  have stillSupplied := reached.supplied (by rwa [initial_eq])
  exact (reached.orderly closed created).isOrdinary_of_failure stillSupplied
    (reached.authentic (authentic_of_create created)) failure

/-- Along every run of a loaded program, with whatever actions a host registered and granted, the
position is in the code or at its end, every active call goes back to behind a call and has a frame
in memory, and stack, memory, calls and trace stay within the limits of the settings. So every
lookup of a step finds something, no run ends with an error of the machine itself, and instructions
that need nothing do not fail. -/
theorem invariant_of_reaches {options : LoadOptions} {bytes : List UInt8} {program : Program}
    {changes : List (HostConfig.Change α)} {token : Token} {world : ω} {settings : Settings}
    (loaded : load options bytes = .ok program)
    (created : create program ⟨token, HostConfig.built changes⟩ world settings = .ok initial)
    (reached : initial.Reaches machine) :
    machine.position ≤ program.size ∧
    (machine.status = .running → machine.position < program.size) ∧
    (∀ origin ∈ machine.core.frames, 1 ≤ origin ∧ origin ≤ program.size ∧
      ∃ target, program.get? (origin - 1) = some (.call target)) ∧
    machine.callDepth = machine.core.memory.frameDepth ∧
    machine.callDepth ≤ settings.maxCallDepth ∧
    machine.core.stack.size ≤ settings.maxStackDepth ∧
    machine.core.memory.used ≤ settings.memoryCells ∧
    machine.trace.size ≤ settings.traceLimit ∧
    machine.InRange ∧
    (∀ termination fault, machine.termination? = some termination →
      termination.fault? = some fault →
      ∀ reason, fault.error ≠ .internal reason ∧ fault.error ≠ .config reason ∧
        fault.error ≠ .hostFailure reason) ∧
    ∀ index instruction, machine.Executes index instruction → instruction.IsSafe →
      machine.step.status ≠ .faulted ∧ machine.step.status ≠ .denied := by
  have closed := Load.closed_of_load loaded
  have orderly := reached.orderly closed created
  have within := reached.withinStack created
  have inRange := inRange_of_reaches loaded created reached
  have program_eq : machine.program = program := by
    rw [reached.program_eq, (create_eq_ok.1 created).2]
  have settings_eq : machine.settings = settings := by
    rw [reached.settings_eq, (create_eq_ok.1 created).2]
  subst program_eq settings_eq
  refine ⟨orderly.position_le, orderly.position_lt, ?_, orderly.core.depth_eq,
    orderly.core.depth_le, within.size_le, ?_, orderly.traceSize_le, inRange, ?_, ?_⟩
  · intro origin member
    rcases orderly.core.origins origin member with ⟨index, target, fetched, rfl⟩
    have inside : index < machine.program.size := (Array.getElem?_eq_some_iff.1 fetched).1
    exact ⟨Nat.le_add_left _ _, inside, target, fetched⟩
  · rw [← orderly.core.capacity_eq]
    exact orderly.core.memory.used_le
  · intro termination fault terminated isFault reason
    have supplied := HostConfig.supplied_built changes
    have isOrdinary := reached.isOrdinary closed supplied created terminated isFault
    refine ⟨?_, ?_, ?_⟩
    · intro isError
      rw [isError] at isOrdinary
      exact isOrdinary
    · intro isError
      rw [isError] at isOrdinary
      exact isOrdinary
    · intro isError
      rw [isError] at isOrdinary
      exact isOrdinary
  · rintro index instruction ⟨active, rfl, fetched⟩ safe
    suffices ¬(machine.step.status = .faulted ∨ machine.step.status = .denied) from
      not_or.1 this
    intro failed
    rcases (transition_step active).exists_failure failed with ⟨found, _, otherFetched, failure⟩
    cases fetched.symm.trans otherFetched
    exact orderly.not_failure_of_isSafe safe failure

/-- A run that has called a function, which has allocated a region and is about to return. -/
theorem invariant_of_reaches_call_alloc :
    ∃ (program : Program) (initial : Machine Device World),
      load {} ([0x43, 0x50, 0x53, 0x54, 1, 0, 0, 0, 0, 0, 0, 0, 0, 0, 0, 0, 0, 10] ++
        Code.encode [.call 6, .halt, .alloc 1, .ret]) = .ok program ∧
      create program ⟨⟨0⟩, .built []⟩ {} {} = .ok initial ∧
      initial.step.step.core.frames = [1] ∧ (∃ target, program.get? 0 = some (.call target)) ∧
      initial.step.step.core.memory.frameDepth = 1 ∧
      initial.step.step.Executes 3 .ret ∧ initial.step.step.step.status ≠ .faulted := by
  let program : Program := {
    instructions := #[.call 2, .halt, .alloc 1, .ret]
    offsets := #[0, 5, 6, 9]
    entry := 0
    capabilities := []
    version := ⟨1, 0⟩ }
  have loaded : load {} ([0x43, 0x50, 0x53, 0x54, 1, 0, 0, 0, 0, 0, 0, 0, 0, 0, 0, 0, 0, 10] ++
      Code.encode [.call 6, .halt, .alloc 1, .ret]) = .ok program := by cbv
  rcases (⟨_, rfl⟩ : ∃ initial : Machine Device World,
    create program ⟨⟨0⟩, .built []⟩ {} {} = .ok initial) with ⟨initial, created⟩
  have called : initial.step.step.core.frames = [1] := by
    cases created
    rfl
  have executes : initial.step.step.Executes 3 .ret := by
    cases created
    exact ⟨rfl, rfl, rfl⟩
  rcases invariant_of_reaches loaded created (Reaches.refl initial).step.step with
    ⟨_, _, origins, depth_eq, _, _, _, _, _, _, safe⟩
  rw [callDepth, called] at depth_eq
  have origin := origins 1 (by simp [called])
  have returns := safe 3 .ret executes trivial
  exact ⟨program, initial, loaded, created, called, origin.2.2, depth_eq.symm, executes, returns.1⟩

end Machine

end CapabilityMachine
