import CapabilityMachine.Proofs.Machine.Generations
import CapabilityMachine.Proofs.Machine.Transition
/-!
# Calls, returns and memory

What a step makes of the active calls and of memory, in five cases. A call opens a frame of memory
and a return closes one, an allocation adds a region, and a cell changes its value only when
something is stored through a reference to its region.
-/

namespace CapabilityMachine

open Outcome

/-- Regions that lie one behind the other have no cell in common. -/
theorem Tiles.eq_of_common {start stop index first second : Nat} {slots : List Slot}
    {slot other : Slot} (tiles : Tiles start slots stop) (isSlot : slots[first]? = some slot)
    (isOther : slots[second]? = some other)
    (inSlot : slot.start ≤ index ∧ index < slot.start + slot.length)
    (inOther : other.start ≤ index ∧ index < other.start + other.length) : first = second := by
  have apart {first second : Nat} {slot other : Slot} (isSlot : slots[first]? = some slot)
      (isOther : slots[second]? = some other) (before : first < second) :
      slot.start + slot.length ≤ other.start := by
    apply (tiles.take isOther).stop_le
    apply List.mem_of_getElem?
    rw [List.getElem?_take_of_lt before]
    exact isSlot
  rcases Nat.lt_trichotomy first second with before | same | behind
  · have := apart isSlot isOther before
    omega
  · exact same
  · have := apart isOther isSlot behind
    omega

namespace Memory

variable {memory after older : Memory} {reference : Reference} {slot : Slot} {index : Nat}

theorem WellFormed.length_regions (wellFormed : memory.WellFormed) :
    memory.regions.length = memory.live := by
  have live_le := wellFormed.live_le
  rw [regions, List.length_take, Array.length_toList]
  omega

/-- The live regions determine how many there are and how many cells are used. -/
theorem WellFormed.live_used_eq (wellFormed : memory.WellFormed) (other : after.WellFormed)
    (same : after.regions = memory.regions) :
    after.live = memory.live ∧ after.used = memory.used := by
  constructor
  · rw [← other.length_regions, same, wellFormed.length_regions]
  · rw [other.tiles.stop_eq, same, ← wellFormed.tiles.stop_eq]

theorem regions_of_write {offset : Int64} {value : Value}
    (written : memory.write reference offset value = .ok after) :
    after.regions = memory.regions ∧ after.marks = memory.marks := by
  simp only [write, bind_eq_ok, pure_eq_ok] at written
  rcases written with ⟨_, _, rfl⟩
  exact ⟨rfl, rfl⟩

theorem getElem?_of_isPrefix {front slots : List Slot} (kept : front <+: slots)
    (found : front[index]? = some slot) : slots[index]? = some slot := by
  rcases kept with ⟨behind, rfl⟩
  rw [List.getElem?_append_left (List.getElem?_eq_some_iff.1 found).1]
  exact found

/-- References to regions that stay live are accepted as before. -/
theorem slot_of_isPrefix (kept : older.regions <+: memory.regions)
    (isSlot : older.slot reference = .ok slot) : memory.slot reference = .ok slot := by
  rcases slot_eq_ok.1 isSlot with ⟨found, same⟩
  exact slot_eq_ok.2 ⟨getElem?_of_isPrefix kept found, same⟩

/-- A cell that is in use before and after a frame is left keeps its value. -/
theorem WellFormed.cells_of_leaveFrame (wellFormed : memory.WellFormed)
    (left : memory.leaveFrame = .ok after) (inside : index < after.used) :
    after.cells[index]? = memory.cells[index]? := by
  rcases wellFormed.eq_of_leaveFrame left with ⟨_, _, _, _, _, _, _, cells_eq⟩
  rw [used, ← Array.length_toList, cells_eq, List.length_take] at inside
  rw [← Array.getElem?_toList, cells_eq, List.getElem?_take_of_lt (by omega),
    Array.getElem?_toList]

end Memory

namespace Machine

variable {α ω : Type} {machine after : Machine α ω}

/-- The machine's next step stores the value through the reference, which lies on its stack. -/
inductive Stores (machine : Machine α ω) (reference : Reference) (value : Value) :
    Int64 → Prop
  | store {offset : UInt16} {rest : List Value}
      (executes : machine.Executes machine.position (.store offset))
      (held : machine.core.stack.values = value :: .ref reference :: rest) :
      Stores machine reference value (Int64.ofNat offset.toNat)
  | storeAt {offset : Int64} {rest : List Value}
      (executes : machine.Executes machine.position .storeAt)
      (held : machine.core.stack.values = value :: .int offset :: .ref reference :: rest) :
      Stores machine reference value offset

/-- What one step may make of the calls and the memory of a machine. -/
inductive Reframes (machine : Machine α ω) (after : Machine α ω) : Prop
  | keep (frames_eq : after.core.frames = machine.core.frames)
      (memory_eq : after.core.memory = machine.core.memory)
  | call {target : Nat} (executes : machine.Executes machine.position (.call target))
      (frames_eq : after.core.frames = (machine.position + 1) :: machine.core.frames)
      (memory_eq : after.core.memory = machine.core.memory.enterFrame)
  | ret {origin : Nat} (executes : machine.Executes machine.position .ret)
      (frames_eq : machine.core.frames = origin :: after.core.frames)
      (left : machine.core.memory.leaveFrame = .ok after.core.memory)
      (position_eq : after.position = origin)
      (status_eq : after.status = if machine.program.size ≤ origin then .halted else .running)
  | alloc {length : UInt16} {reference : Reference}
      (executes : machine.Executes machine.position (.alloc length))
      (frames_eq : after.core.frames = machine.core.frames)
      (allocated : machine.core.memory.alloc length.toNat = .ok (reference, after.core.memory))
  | store {reference : Reference} {offset : Int64} {value : Value}
      (stores : machine.Stores reference value offset)
      (frames_eq : after.core.frames = machine.core.frames)
      (written : machine.core.memory.write reference offset value = .ok after.core.memory)

theorem reframes_of_allows {core : Core} {flow : Flow} {instruction : Instruction}
    (executes : machine.Executes machine.position instruction)
    (allowed : machine.core.Allows machine.registry machine.settings.maxCallDepth machine.position
      instruction (.proceed core flow)) (core_eq : after.core = core)
    (jumps : ∀ origin, flow = .jump origin → after.position = origin ∧
      after.status = if machine.program.size ≤ origin then .halted else .running) :
    machine.Reframes after := by
  cases allowed
  case call target shallow =>
    exact .call executes ((congrArg Core.frames core_eq).trans rfl) (congrArg Core.memory core_eq)
  case ret origin frames memory called left =>
    have frames_eq : after.core.frames = frames := congrArg Core.frames core_eq
    have memory_eq : after.core.memory = memory := congrArg Core.memory core_eq
    rw [← frames_eq] at called
    rw [← memory_eq] at left
    exact .ret executes called left (jumps origin rfl).1 (jumps origin rfl).2
  case alloc length reference memory room allocated =>
    have memory_eq : after.core.memory = memory := congrArg Core.memory core_eq
    rw [← memory_eq] at allocated
    exact .alloc executes ((congrArg Core.frames core_eq).trans rfl) allocated
  case store offset reference value rest memory shape written =>
    have memory_eq : after.core.memory = memory := congrArg Core.memory core_eq
    rw [← memory_eq] at written
    exact .store (.store executes shape) ((congrArg Core.frames core_eq).trans rfl) written
  case storeAt offset reference value rest memory shape written =>
    have memory_eq : after.core.memory = memory := congrArg Core.memory core_eq
    rw [← memory_eq] at written
    exact .store (.storeAt executes shape) ((congrArg Core.frames core_eq).trans rfl) written
  all_goals
    exact .keep ((congrArg Core.frames core_eq).trans rfl)
      ((congrArg Core.memory core_eq).trans rfl)

/-- A cell that is in use before and after a step keeps its value, unless the step stores another
one there. -/
theorem Reframes.cells_eq_or_stores (reframes : machine.Reframes after)
    (wellFormed : machine.core.memory.WellFormed) {index : Nat}
    (inside : index < machine.core.memory.used) (stays : index < after.core.memory.used) :
    after.core.memory.cells[index]? = machine.core.memory.cells[index]? ∨
      ∃ reference value offset, machine.Stores reference value offset ∧
        machine.core.memory.cellIndex reference offset = .ok index ∧
        after.core.memory.cells[index]? = some value := by
  cases reframes with
  | keep _ memory_eq =>
    left
    rw [memory_eq]
  | call _ _ memory_eq =>
    left
    rw [memory_eq]
    rfl
  | ret _ _ left_eq _ _ => exact Or.inl (wellFormed.cells_of_leaveFrame left_eq stays)
  | alloc _ _ allocated =>
    left
    rcases Memory.alloc_eq_ok.1 allocated with ⟨_, _, _, memory_eq⟩
    rw [memory_eq]
    exact Array.getElem?_append_left inside
  | @store reference offset value stores _ written =>
    simp only [Memory.write, bind_eq_ok, pure_eq_ok] at written
    rcases written with ⟨stored, found, memory_eq⟩
    rw [memory_eq]
    by_cases same : stored = index
    · subst same
      exact Or.inr ⟨reference, value, offset, stores, found,
        Array.getElem?_setIfInBounds_self_of_lt inside⟩
    · exact Or.inl (Array.getElem?_setIfInBounds_ne same)

variable [HostAction α ω]

theorem reframes_step (machine : Machine α ω) : machine.Reframes machine.step := by
  by_cases active : machine.Active
  · have transition := transition_step active
    generalize machine.step = after at transition ⊢
    cases transition with
    | leave outside => exact .keep rfl rfl
    | refuse fetched refused => exact .keep rfl rfl
    | proceed fetched asked =>
      apply reframes_of_allows ⟨active, rfl, fetched⟩ (Core.allows_of_request_eq_ok asked)
        (follow_core _ _)
      rintro origin rfl
      exact ⟨haltAtEnd_position _, follow_jump_status _ _⟩
    | reject fetched asked rejected => exact .keep rfl rfl
    | answer fetched asked answered =>
      exact .keep ((congrArg Core.frames (follow_core _ _)).trans rfl)
        ((congrArg Core.memory (follow_core _ _)).trans rfl)
  · rw [step_of_not_active active]
    exact .keep rfl rfl

end Machine

end CapabilityMachine
