import CapabilityMachine.Proofs.Machine.CallFrames
import CapabilityMachine.Proofs.Machine.Invariant
import CapabilityMachine.Proofs.Machine.Provenance
/-!
# Calls and returns as brackets

The active calls and the open frames of memory are two stacks. From the call of a function up to the
return from it, both have what they had at the call underneath, and the regions that were live at
the call stay live, as the oldest ones. So the return goes back to behind the call and releases just
the regions that were allocated in between, however deep the calls are nested.
-/

namespace CapabilityMachine.Machine

open Outcome

variable {α ω : Type} {initial outer machine after : Machine α ω}

/-- The machine is within a call that the outer one makes: calls and memory of the outer one lie
underneath. -/
structure Within (outer machine : Machine α ω) : Prop where
  frames : (outer.position + 1) :: outer.core.frames <:+ machine.core.frames
  marks : outer.core.memory.live :: outer.core.memory.marks <:+ machine.core.memory.marks
  regions : outer.core.memory.regions <+: machine.core.memory.regions

/-- As many calls are active as memory has frames, and memory has its layout. -/
structure Framed (machine : Machine α ω) : Prop where
  memory : machine.core.memory.WellFormed
  depth_eq : machine.core.frames.length = machine.core.memory.marks.length

theorem Orderly.framed (orderly : machine.Orderly) : machine.Framed :=
  ⟨orderly.core.memory, orderly.core.depth_eq⟩

/-- A step that makes the calls deeper makes one, and it is within that call afterwards. -/
theorem Reframes.within (reframes : outer.Reframes after)
    (deeper : outer.callDepth < after.callDepth) : outer.Within after := by
  rw [callDepth, callDepth] at deeper
  cases reframes with
  | call executes frames_eq memory_eq =>
    refine ⟨?_, ?_, ?_⟩
    · rw [frames_eq]
    · rw [memory_eq]
      exact List.suffix_refl _
    · rw [memory_eq]
      exact List.prefix_refl _
  | keep frames_eq _ =>
    rw [frames_eq] at deeper
    omega
  | ret _ frames_eq _ _ _ =>
    rw [frames_eq, List.length_cons] at deeper
    omega
  | alloc _ frames_eq _ =>
    rw [frames_eq] at deeper
    omega
  | store _ frames_eq _ =>
    rw [frames_eq] at deeper
    omega

theorem suffix_of_suffix_cons {α : Type} {below above : List α} {top : α}
    (under : below <:+ top :: above) (shorter : below.length ≤ above.length) : below <:+ above := by
  rcases List.suffix_cons_iff.1 under with same | under
  · rw [same, List.length_cons] at shorter
    omega
  · exact under

/-- What was live at the call stays live when a frame is left that was opened later or by the call.
-/
theorem Within.regions_of_leaveFrame {memory : Memory} (within : outer.Within machine)
    (framedOuter : outer.Framed) (framed : machine.Framed)
    (left : machine.core.memory.leaveFrame = .ok memory) :
    outer.core.memory.regions <+: memory.regions := by
  rcases framed.memory.eq_of_leaveFrame left with ⟨mark, marks, marks_eq, _, _, _, regions_eq, _⟩
  have live_le : outer.core.memory.live ≤ mark := by
    have ordered := framed.memory.ordered
    have member := within.marks.mem List.mem_cons_self
    rw [marks_eq] at ordered member
    rcases List.mem_cons.1 member with same | older
    · exact Nat.le_of_eq same
    · exact (List.pairwise_cons.1 (List.pairwise_cons.1 ordered).2).1 _ older
  rw [regions_eq]
  apply List.prefix_take_iff.2
  rw [framedOuter.memory.length_regions]
  exact ⟨within.regions, live_le⟩

/-- A step within a call that does not return from it stays within. -/
theorem Within.reframes (within : outer.Within machine) (framedOuter : outer.Framed)
    (framed : machine.Framed) (reframes : machine.Reframes after)
    (deeper : outer.callDepth < after.callDepth) : outer.Within after := by
  cases reframes with
  | keep frames_eq memory_eq =>
    refine ⟨?_, ?_, ?_⟩
    · rw [frames_eq]
      exact within.frames
    · rw [memory_eq]
      exact within.marks
    · rw [memory_eq]
      exact within.regions
  | call _ frames_eq memory_eq =>
    refine ⟨?_, ?_, ?_⟩
    · rw [frames_eq]
      exact within.frames.trans (List.suffix_cons _ _)
    · rw [memory_eq]
      exact within.marks.trans (List.suffix_cons _ _)
    · rw [memory_eq]
      exact within.regions
  | ret _ frames_eq left _ _ =>
    have frames := within.frames
    have marks := within.marks
    have depth_eq := framed.depth_eq
    rcases framed.memory.eq_of_leaveFrame left with ⟨mark, rest, marks_eq, _, rest_eq, _, _, _⟩
    rw [frames_eq] at frames depth_eq
    rw [marks_eq] at marks depth_eq
    simp only [callDepth, List.length_cons] at deeper depth_eq
    refine ⟨?_, ?_, within.regions_of_leaveFrame framedOuter framed left⟩
    · apply suffix_of_suffix_cons frames
      rw [List.length_cons]
      omega
    · rw [rest_eq]
      apply suffix_of_suffix_cons marks
      rw [List.length_cons, ← framedOuter.depth_eq]
      omega
  | alloc _ frames_eq allocated =>
    refine ⟨?_, ?_, ?_⟩
    · rw [frames_eq]
      exact within.frames
    · rcases Memory.alloc_eq_ok.1 allocated with ⟨_, _, _, memory_eq⟩
      rw [memory_eq]
      exact within.marks
    · rw [framed.memory.regions_of_alloc allocated]
      exact within.regions.trans (List.prefix_append _ _)
  | store _ frames_eq written =>
    rcases Memory.regions_of_write written with ⟨regions_eq, marks_eq⟩
    refine ⟨?_, ?_, ?_⟩
    · rw [frames_eq]
      exact within.frames
    · rw [marks_eq]
      exact within.marks
    · rw [regions_eq]
      exact within.regions

/-- What the return from a call leaves: the calls and the memory frames of before, the regions of
before, and the position behind the call. -/
structure Returned (outer machine after : Machine α ω) : Prop where
  executes : machine.Executes machine.position .ret
  frames_eq : after.core.frames = outer.core.frames
  marks_eq : after.core.memory.marks = outer.core.memory.marks
  regions_eq : after.core.memory.regions = outer.core.memory.regions
  position_eq : after.position = outer.position + 1
  status_eq : after.status =
    if machine.program.size ≤ outer.position + 1 then .halted else .running

/-- A step within a call that does not stay within is a return from it. Calls and memory frames are
then as many as at the call, so that what lies underneath is all there is. -/
theorem Within.returned (within : outer.Within machine) (framedOuter : outer.Framed)
    (framed : machine.Framed) (reframes : machine.Reframes after)
    (back : after.callDepth ≤ outer.callDepth) : outer.Returned machine after := by
  have deep := within.frames.length_le
  rw [List.length_cons] at deep
  rw [callDepth, callDepth] at back
  cases reframes with
  | keep frames_eq _ =>
    rw [frames_eq] at back
    omega
  | call _ frames_eq _ =>
    rw [frames_eq, List.length_cons] at back
    omega
  | alloc _ frames_eq _ =>
    rw [frames_eq] at back
    omega
  | store _ frames_eq _ =>
    rw [frames_eq] at back
    omega
  | ret executes frames_eq left position_eq status_eq =>
    have frames := within.frames
    have marks := within.marks
    have depth_eq := framed.depth_eq
    rcases framed.memory.eq_of_leaveFrame left with
      ⟨mark, rest, marks_eq, _, rest_eq, _, regions_eq, _⟩
    rw [frames_eq] at frames depth_eq
    rw [marks_eq] at marks depth_eq
    simp only [List.length_cons] at depth_eq
    have same_frames := frames.eq_of_length_le (by rw [List.length_cons, List.length_cons]; omega)
    have same_marks := marks.eq_of_length_le (by
      rw [List.length_cons, List.length_cons, ← framedOuter.depth_eq]
      omega)
    rcases List.cons.inj same_frames with ⟨origin_eq, frames_same⟩
    rcases List.cons.inj same_marks with ⟨mark_eq, marks_same⟩
    rw [← origin_eq] at position_eq status_eq
    have kept := List.prefix_iff_eq_take.1 within.regions
    rw [framedOuter.memory.length_regions, mark_eq] at kept
    exact ⟨executes, frames_same.symm, rest_eq.trans marks_same.symm, regions_eq.trans kept.symm,
      position_eq, status_eq⟩

/-- A cell of a region that stays live changes only where a step stores something through a
reference to the region. -/
theorem Reframes.stores_of_cell_changed (reframes : machine.Reframes after)
    (wellFormed : machine.core.memory.WellFormed) (wellFormedAfter : after.core.memory.WellFormed)
    {region cell : Nat} {slot : Slot} (isRegion : machine.core.memory.regions[region]? = some slot)
    (stays : after.core.memory.regions[region]? = some slot) (start_le : slot.start ≤ cell)
    (lt_stop : cell < slot.start + slot.length)
    (changed : after.core.memory.cells[cell]? ≠ machine.core.memory.cells[cell]?) :
    ∃ reference value offset, machine.Stores reference value offset ∧
      reference.slot.toNat = region ∧ reference.generation = slot.generation ∧
      0 ≤ offset.toInt ∧ cell = slot.start + offset.toInt.toNat ∧
      after.core.memory.cells[cell]? = some value := by
  have stop_le := wellFormed.tiles.stop_le (List.mem_of_getElem? isRegion)
  have stop_le_after := wellFormedAfter.tiles.stop_le (List.mem_of_getElem? stays)
  have inside : cell < machine.core.memory.used := by omega
  have insideAfter : cell < after.core.memory.used := by omega
  rcases (reframes.cells_eq_or_stores wellFormed inside insideAfter).resolve_left changed with
    ⟨reference, value, offset, stores, found, stored⟩
  rcases Memory.cellIndex_eq_ok.1 found with ⟨other, accepted, nonneg, lt_length, cell_eq⟩
  rcases Memory.slot_eq_ok.1 accepted with ⟨isOther, generation_eq⟩
  have inOther : other.start ≤ cell ∧ cell < other.start + other.length := by omega
  have same : reference.slot.toNat = region :=
    wellFormed.tiles.eq_of_common isOther isRegion inOther ⟨start_le, lt_stop⟩
  rw [same, isRegion] at isOther
  cases isOther
  exact ⟨reference, value, offset, stores, same, generation_eq.symm, nonneg, cell_eq, stored⟩

/-- A reference to a region that was allocated when some regions were live dangles when these are
all that is live. -/
theorem dangles_of_alloc {memory allocated later : Memory} {length : Nat} {reference : Reference}
    (wellFormed : memory.WellFormed) (regions : later.regions <+: memory.regions)
    (allocates : memory.alloc length = .ok (reference, allocated)) : later.Dangles reference := by
  rw [Memory.dangles_iff]
  rintro ⟨slot, accepted⟩
  have live := (List.getElem?_eq_some_iff.1 (Memory.slot_eq_ok.1 accepted).1).1
  have length_le := regions.length_le
  rw [wellFormed.length_regions] at length_le
  rw [Memory.toNat_slot_of_alloc allocates] at live
  omega

variable [HostAction α ω]

theorem Reaches.stepTimes (reached : initial.Reaches machine) (count : Nat) :
    initial.Reaches (machine.stepTimes count) := by
  induction count with
  | zero => exact reached
  | succ count ih =>
    rw [stepTimes_succ_eq_step]
    exact ih.step

/-- From behind the call up to the return the machine is within the call. -/
theorem within_stepTimes (framed : ∀ count, (outer.stepTimes count).Framed) {count : Nat}
    (deeper : ∀ during, 0 < during → during ≤ count →
      outer.callDepth < (outer.stepTimes during).callDepth) {during : Nat} (later : 0 < during)
    (isDuring : during ≤ count) : outer.Within (outer.stepTimes during) := by
  induction during with
  | zero => cases later
  | succ during ih =>
    have deep := deeper (during + 1) later isDuring
    rw [stepTimes_succ_eq_step] at deep ⊢
    have reframes := reframes_step (outer.stepTimes during)
    cases during with
    | zero => exact reframes.within deep
    | succ during =>
      have within := ih (Nat.succ_pos during) (Nat.le_of_succ_le isDuring)
      exact within.reframes (framed 0) (framed _) reframes deep

/-- The step with which the calls are as few again as they were is the return from the call. -/
theorem returned_stepTimes (framed : ∀ count, (outer.stepTimes count).Framed) {count : Nat}
    (deeper : ∀ during, 0 < during → during ≤ count →
      outer.callDepth < (outer.stepTimes during).callDepth) (later : 0 < count)
    (back : (outer.stepTimes (count + 1)).callDepth ≤ outer.callDepth) :
    outer.Returned (outer.stepTimes count) (outer.stepTimes (count + 1)) := by
  have reframes := reframes_step (outer.stepTimes count)
  rw [← stepTimes_succ_eq_step] at reframes
  have within := within_stepTimes framed deeper later (Nat.le_refl count)
  exact within.returned (framed 0) (framed count) reframes back

/-- What is live at a call stays live until it has returned. -/
theorem regions_stepTimes (framed : ∀ count, (outer.stepTimes count).Framed) {count : Nat}
    (deeper : ∀ during, 0 < during → during ≤ count →
      outer.callDepth < (outer.stepTimes during).callDepth)
    (returned : outer.Returned (outer.stepTimes count) (outer.stepTimes (count + 1)))
    {during : Nat} (isDuring : during ≤ count + 1) :
    outer.core.memory.regions <+: (outer.stepTimes during).core.memory.regions := by
  rcases Nat.eq_zero_or_pos during with rfl | later
  · exact List.prefix_refl _
  · rcases Nat.le_succ_iff.1 isDuring with isWithin | rfl
    · exact (within_stepTimes framed deeper later isWithin).regions
    · rw [show (outer.stepTimes count.succ).core.memory.regions = _ from returned.regions_eq]

/-- Calls and returns bracket memory. When the calls are as few as at a call again for the first
time after it, the last step was the return from that call, and calls, memory frames, live regions
and used cells are what they were. The regions that were live at the call have been live all the
time, reached by the same references, and their cells changed only where something was stored
through such a reference. The regions that were allocated in between are gone. -/
theorem call_brackets_memory {options : LoadOptions} {bytes : List UInt8} {program : Program}
    {registry : Registry α} {world : ω} {settings : Settings}
    (loaded : load options bytes = .ok program)
    (created : create program registry world settings = .ok initial)
    (reached : initial.Reaches machine) {index target count : Nat}
    (calls : machine.Executes index (.call target)) (later : 0 < count)
    (deeper : ∀ during, 0 < during → during ≤ count →
      machine.callDepth < (machine.stepTimes during).callDepth)
    (back : (machine.stepTimes (count + 1)).callDepth ≤ machine.callDepth) :
    let after := machine.stepTimes (count + 1)
    (∃ returnIndex, (machine.stepTimes count).Executes returnIndex .ret) ∧
    after.core.frames = machine.core.frames ∧
    after.position = index + 1 ∧
    (after.status = if index + 1 = program.size then .halted else .running) ∧
    after.core.memory.frameDepth = machine.core.memory.frameDepth ∧
    after.core.memory.live = machine.core.memory.live ∧
    after.core.memory.used = machine.core.memory.used ∧
    (∀ during ≤ count + 1,
      machine.core.memory.regions <+: (machine.stepTimes during).core.memory.regions ∧
      ∀ reference slot, machine.core.memory.slot reference = .ok slot →
        (machine.stepTimes during).core.memory.slot reference = .ok slot) ∧
    (∀ during ≤ count, ∀ region slot (cell : Nat),
      machine.core.memory.regions[region]? = some slot →
      slot.start ≤ cell → cell < slot.start + slot.length →
      (machine.stepTimes (during + 1)).core.memory.cells[cell]? ≠
        (machine.stepTimes during).core.memory.cells[cell]? →
      ∃ reference value offset, (machine.stepTimes during).Stores reference value offset ∧
        reference.slot.toNat = region ∧ reference.generation = slot.generation ∧
        0 ≤ offset.toInt ∧ cell = slot.start + offset.toInt.toNat ∧
        (machine.stepTimes (during + 1)).core.memory.cells[cell]? = some value) ∧
    ∀ during ≤ count, ∀ reference, (machine.stepTimes during).Allocates reference →
      after.core.memory.Dangles reference := by
  intro after
  have closed := Load.closed_of_load loaded
  have framed (during : Nat) : (machine.stepTimes during).Framed :=
    ((reached.stepTimes during).orderly closed created).framed
  have returned : machine.Returned (machine.stepTimes count) after :=
    returned_stepTimes framed deeper later back
  have regions {during : Nat} (isDuring : during ≤ count + 1) :
      machine.core.memory.regions <+: (machine.stepTimes during).core.memory.regions :=
    regions_stepTimes framed deeper returned isDuring
  have program_eq : (machine.stepTimes count).program = program := by
    rw [(reached.stepTimes count).program_eq, (create_eq_ok.1 created).2]
  have position_eq : machine.position = index := calls.position_eq
  have fetched : program.get? index = some (.call target) := by
    rw [← calls.fetched, reached.program_eq, (create_eq_ok.1 created).2]
  have inside : index < program.size := (Array.getElem?_eq_some_iff.1 fetched).1
  have status_eq := returned.status_eq
  rcases (framed 0).memory.live_used_eq (framed (count + 1)).memory returned.regions_eq with
    ⟨live_eq, used_eq⟩
  refine ⟨⟨_, returned.executes⟩, returned.frames_eq, ?_, ?_, ?_, live_eq, used_eq, ?_, ?_, ?_⟩
  · rw [returned.position_eq, position_eq]
  · have at_end : program.size ≤ index + 1 ↔ index + 1 = program.size := by omega
    rw [program_eq, position_eq] at status_eq
    simpa only [at_end] using status_eq
  · exact congrArg List.length returned.marks_eq
  · intro during isDuring
    exact ⟨regions isDuring, fun reference slot accepted =>
      Memory.slot_of_isPrefix (regions isDuring) accepted⟩
  · intro during isDuring region slot cell isRegion start_le lt_stop changed
    have kept {during : Nat} (isDuring : during ≤ count + 1) :
        (machine.stepTimes during).core.memory.regions[region]? = some slot :=
      Memory.getElem?_of_isPrefix (regions isDuring) isRegion
    have reframes := reframes_step (machine.stepTimes during)
    rw [← stepTimes_succ_eq_step] at reframes
    exact reframes.stores_of_cell_changed (framed during).memory (framed (during + 1)).memory
      (kept (Nat.le_succ_of_le isDuring)) (kept (Nat.succ_le_succ isDuring)) start_le lt_stop
      changed
  · rintro during isDuring reference ⟨_, length, _, allocates, _⟩
    apply dangles_of_alloc (framed during).memory _ allocates
    rw [returned.regions_eq]
    exact regions (Nat.le_succ_of_le isDuring)

/-- A function that allocates a region, called when one region is live. -/
theorem call_brackets_memory_alloc :
    ∃ (program : Program) (initial machine : Machine Device World),
      load {} ([0x43, 0x50, 0x53, 0x54, 1, 0, 0, 0, 0, 0, 0, 0, 0, 0, 0, 0, 0, 13] ++
        Code.encode [.alloc 1, .call 9, .halt, .alloc 2, .ret]) = .ok program ∧
      create program ⟨⟨0⟩, {}⟩ {} {} = .ok initial ∧ initial.Reaches machine ∧
      machine.Executes 1 (.call 3) ∧
      (∀ during, 0 < during → during ≤ 2 →
        machine.callDepth < (machine.stepTimes during).callDepth) ∧
      (machine.stepTimes 3).callDepth ≤ machine.callDepth ∧
      (machine.stepTimes 2).core.memory.live = 2 ∧ (machine.stepTimes 3).core.memory.live = 1 ∧
      (machine.stepTimes 3).position = 2 ∧
      (machine.stepTimes 3).core.memory.slot ⟨0, 0⟩ = .ok ⟨0, 1, 0⟩ ∧
      (machine.stepTimes 3).core.memory.Dangles ⟨1, 0⟩ := by
  let program : Program := {
    instructions := #[.alloc 1, .call 3, .halt, .alloc 2, .ret]
    offsets := #[0, 3, 8, 9, 12]
    entry := 0
    capabilities := []
    version := ⟨1, 0⟩ }
  have loaded : load {} ([0x43, 0x50, 0x53, 0x54, 1, 0, 0, 0, 0, 0, 0, 0, 0, 0, 0, 0, 0, 13] ++
      Code.encode [.alloc 1, .call 9, .halt, .alloc 2, .ret]) = .ok program := by cbv
  rcases (⟨_, rfl⟩ : ∃ initial : Machine Device World,
    create program ⟨⟨0⟩, {}⟩ {} {} = .ok initial) with ⟨initial, created⟩
  have reached := (Reaches.refl initial).step
  have calls : initial.step.Executes 1 (.call 3) := by
    cases created
    exact ⟨rfl, rfl, rfl⟩
  have depths : initial.step.callDepth = 0 ∧ (initial.step.stepTimes 1).callDepth = 1 ∧
      (initial.step.stepTimes 2).callDepth = 1 ∧ (initial.step.stepTimes 3).callDepth = 0 := by
    cases created
    decide +kernel
  have deeper : ∀ during, 0 < during → during ≤ 2 →
      initial.step.callDepth < (initial.step.stepTimes during).callDepth := by
    intro during later isDuring
    obtain rfl | rfl : during = 1 ∨ during = 2 := by omega
    · rw [depths.1, depths.2.1]
      decide
    · rw [depths.1, depths.2.2.1]
      decide
  have back : (initial.step.stepTimes 3).callDepth ≤ initial.step.callDepth := by
    rw [depths.1, depths.2.2.2]
  have memory : initial.step.core.memory.live = 1 ∧
      (initial.step.stepTimes 2).core.memory.live = 2 ∧
      initial.step.core.memory.slots[0]? = some ⟨0, 1, 0⟩ := by
    cases created
    decide +kernel
  have accepted : initial.step.core.memory.slot ⟨0, 0⟩ = .ok ⟨0, 1, 0⟩ :=
    Memory.slot_eq_ok.2 ⟨Memory.getElem?_regions.2 ⟨memory.2.2, by rw [memory.1]; decide⟩, rfl⟩
  have allocates : (initial.step.stepTimes 1).Allocates ⟨1, 0⟩ := by
    cases created
    exact ⟨3, 2, ⟨rfl, rfl, rfl⟩, by decide +kernel, by decide +kernel⟩
  rcases call_brackets_memory loaded created reached calls (by decide) deeper back with
    ⟨_, _, position_eq, _, _, live_eq, _, kept, _, released⟩
  exact ⟨program, initial, initial.step, loaded, created, reached, calls, deeper, back,
    memory.2.1, live_eq.trans memory.1, position_eq, (kept 3 (Nat.le_refl 3)).2 _ _ accepted,
    released 1 (by decide) _ allocates⟩

end CapabilityMachine.Machine
