import CapabilityMachine.Proofs.Machine.RegionStack
/-!
# Memory as a stack of regions

The cells and slots of memory hold a list of regions, and every operation on memory answers as the
same operation on the list does and leaves cells and slots that hold the list that is left. So
memory answers every sequence of operations as the list of regions does.
-/

namespace CapabilityMachine

open Outcome

namespace RegionStack

open Memory (Operation Answer)

variable {stack : RegionStack} {memory : Memory} {reference : Reference} {offset : Int64}

/-- The list of regions is what the cells and slots of the memory hold. -/
structure Describes (stack : RegionStack) (memory : Memory) : Prop where
  wellFormed : memory.WellFormed
  ordered : Ordered stack.regions stack.frames
  capacity : memory.capacity = stack.capacity
  cells : memory.cells.toList = stack.cells
  lengths : memory.regions.map Slot.length = stack.regions.map (·.values.length)
  generations : memory.generations = stack.generations
  marks : memory.marks = stack.marks

theorem describes_empty (capacity : Nat) : ({ capacity } : RegionStack).Describes { capacity } where
  wellFormed := Memory.wellFormed_empty capacity
  ordered := ⟨List.Pairwise.nil, by simp⟩
  capacity := rfl
  cells := rfl
  lengths := rfl
  generations := rfl
  marks := rfl

/-- Both outcomes are the same error, or the same answer with a list of regions that is what the
memory holds. -/
inductive Agree : Except RuntimeError (Answer × Memory) → Except RuntimeError (Answer × RegionStack) →
    Prop where
  | ok {answer : Answer} {after : Memory} {next : RegionStack} (describes : next.Describes after) :
    Agree (.ok (answer, after)) (.ok (answer, next))
  | error (error : RuntimeError) : Agree (.error error) (.error error)

namespace Describes

theorem used_eq (describes : stack.Describes memory) : memory.used = stack.used := by
  rw [Memory.used, used, ← List.length_flatMap, ← Array.length_toList, describes.cells]
  rfl

theorem live_eq (describes : stack.Describes memory) : memory.live = stack.regions.length := by
  have same := congrArg List.length describes.lengths
  have live_le := describes.wellFormed.live_le
  simp only [List.length_map, Memory.regions, List.length_take, Array.length_toList] at same
  omega

theorem nextGeneration_eq (describes : stack.Describes memory) :
    memory.nextGeneration = stack.nextGeneration := by
  rw [Memory.nextGeneration_eq, nextGeneration, describes.generations, describes.live_eq]
  cases stack.generations[stack.regions.length]? <;> rfl

theorem alloc (describes : stack.Describes memory) (length : Nat) :
    Agree (memory.perform (.alloc length)) (stack.perform (.alloc length)) := by
  have used_eq := describes.used_eq
  have live_eq := describes.live_eq
  have used_le := describes.wellFormed.used_le
  have available_eq : memory.available = stack.capacity - stack.used := by
    rw [Memory.available, used_eq, describes.capacity]
  rw [used_eq, describes.capacity] at used_le
  by_cases fits : stack.used + length ≤ stack.capacity ∧ stack.regions.length < UInt32.size
  · have short : length ≤ memory.available := by omega
    have few : memory.live < Memory.maxRegions := by
      rw [live_eq]
      exact fits.2
    obtain ⟨after, allocated⟩ : ∃ after, memory.alloc length =
        .ok (⟨UInt32.ofNat memory.live, memory.nextGeneration⟩, after) :=
      ⟨_, Memory.alloc_eq_ok.2 ⟨short, few, rfl, rfl⟩⟩
    have regions_eq := describes.wellFormed.regions_of_alloc allocated
    have generations_eq := describes.wellFormed.generations_of_alloc allocated
    have wellFormed := describes.wellFormed.alloc allocated
    rcases Memory.alloc_eq_ok.1 allocated with ⟨_, _, _, after_eq⟩
    simp only [Memory.perform, allocated, ok_bind, perform, fits, and_self, if_true,
      describes.nextGeneration_eq, live_eq]
    apply Agree.ok
    constructor
    · exact wellFormed
    · exact describes.ordered.append _
    · simp [after_eq, describes.capacity]
    · simp [after_eq, describes.cells, RegionStack.cells]
    · simp [regions_eq, describes.lengths]
    · simp [generations_eq, describes.generations, describes.nextGeneration_eq, live_eq]
    · simp [after_eq, describes.marks, RegionStack.marks, marksOf_append]
  · have refused : memory.alloc length = .error (.outOfMemory length memory.available) := by
      rw [Memory.alloc, if_pos]
      rw [live_eq, Memory.maxRegions]
      omega
    simp only [Memory.perform, refused, error_bind, perform, fits, if_false, available_eq]
    exact Agree.error _

/-- A live region lies behind those that were allocated before it. -/
theorem start_eq (describes : stack.Describes memory) {index : Nat} {slot : Slot}
    (found : memory.regions[index]? = some slot) :
    slot.start = ((stack.regions.take index).flatMap Region.values).length := by
  have stop_eq := (describes.wellFormed.tiles.take found).stop_eq
  rw [List.map_take, describes.lengths, ← List.map_take] at stop_eq
  rw [stop_eq, List.length_flatMap, Nat.zero_add]

theorem accepts_iff (describes : stack.Describes memory) :
    stack.Accepts reference ↔ ∃ slot, memory.slot reference = .ok slot := by
  rw [Memory.exists_slot_iff, Accepts, describes.live_eq, describes.generations]

/-- A reference is accepted by both or by neither, and an accepted one leads to the same region. -/
theorem region_cases (describes : stack.Describes memory) (reference : Reference) :
    (∃ slot region front back, memory.slot reference = .ok slot ∧
      stack.region reference = .ok region ∧ stack.regions = front ++ region :: back ∧
      front.length = reference.slot.toNat ∧ slot.length = region.values.length ∧
      slot.start = (front.flatMap Region.values).length) ∨
    memory.slot reference = .error (.danglingReference reference) ∧
      stack.region reference = .error (.danglingReference reference) := by
  by_cases accepted : stack.Accepts reference
  · left
    rcases describes.accepts_iff.1 accepted with ⟨slot, isSlot⟩
    have live := accepted.1
    have found := (Memory.slot_eq_ok.1 isSlot).1
    have same_length := congrArg (·[reference.slot.toNat]?) describes.lengths
    refine ⟨slot, stack.regions.get ⟨_, live⟩, stack.regions.take reference.slot.toNat,
      stack.regions.drop (reference.slot.toNat + 1), isSlot, ?_, ?_, ?_, ?_, ?_⟩
    · rw [region, dif_pos accepted]
    · simp
    · exact List.length_take_of_le (Nat.le_of_lt live)
    · simpa [found, live] using same_length
    · exact describes.start_eq found
  · right
    refine ⟨?_, by rw [region, dif_neg accepted]⟩
    rcases memory.slot_cases reference with present | dangling
    · exact absurd (describes.accepts_iff.2 present) accepted
    · exact dangling

theorem regionLength (describes : stack.Describes memory) (reference : Reference) :
    Agree (memory.perform (.regionLength reference)) (stack.perform (.regionLength reference)) := by
  rcases describes.region_cases reference with
    ⟨slot, region, front, back, isSlot, isRegion, _, _, length_eq, _⟩ | ⟨noSlot, noRegion⟩
  · simp only [Memory.perform, Memory.regionLength, isSlot, perform, isRegion, ok_bind, length_eq]
    exact Agree.ok describes
  · simp only [Memory.perform, Memory.regionLength, noSlot, perform, noRegion, error_bind]
    exact Agree.error _

/-- An offset leads to the same element of the same region, or to the same error. -/
theorem index_cases (describes : stack.Describes memory) (reference : Reference) (offset : Int64) :
    (∃ (region : Region) (front back : List Region) (index : Fin region.values.length),
      memory.cellIndex reference offset =
          .ok ((front.flatMap Region.values).length + index) ∧
        stack.region reference = .ok region ∧ region.index offset = .ok index ∧
        stack.regions = front ++ region :: back ∧ front.length = reference.slot.toNat) ∨
    (∃ region error, memory.cellIndex reference offset = .error error ∧
      stack.region reference = .ok region ∧ region.index offset = .error error) ∨
    ∃ error, memory.cellIndex reference offset = .error error ∧
      stack.region reference = .error error := by
  rcases describes.region_cases reference with
    ⟨slot, region, front, back, isSlot, isRegion, regions_eq, front_eq, length_eq, start_eq⟩ |
      ⟨noSlot, noRegion⟩
  · simp only [Memory.cellIndex, isSlot, ok_bind, Region.index, length_eq, start_eq]
    by_cases inside : 0 ≤ offset.toInt ∧ offset.toInt < region.values.length
    · left
      refine ⟨region, front, back, ⟨offset.toInt.toNat, by omega⟩, ?_, isRegion, ?_, regions_eq,
        front_eq⟩
      · rw [if_pos inside]
        rfl
      · rw [dif_pos inside]
    · right
      left
      exact ⟨region, .outOfBounds offset region.values.length, by rw [if_neg inside], isRegion,
        by rw [dif_neg inside]⟩
  · right
    right
    exact ⟨_, by rw [Memory.cellIndex, noSlot, error_bind], noRegion⟩

theorem read (describes : stack.Describes memory) (reference : Reference) (offset : Int64) :
    Agree (memory.perform (.read reference offset)) (stack.perform (.read reference offset)) := by
  rcases describes.index_cases reference offset with
    ⟨region, front, back, index, isCell, isRegion, isIndex, regions_eq, _⟩ |
      ⟨region, error, noCell, isRegion, noIndex⟩ | ⟨error, noCell, noRegion⟩
  · have found : memory.cells[(front.flatMap Region.values).length + index]? =
        some (region.values.get index) := by
      rw [← Array.getElem?_toList, describes.cells, RegionStack.cells, regions_eq,
        List.flatMap_append, List.flatMap_cons, List.getElem?_append_right (Nat.le_add_right _ _),
        Nat.add_sub_cancel_left, List.getElem?_append_left index.isLt]
      exact List.getElem?_eq_getElem index.isLt
    simp only [Memory.perform, Memory.read, isCell, perform, isRegion, isIndex, ok_bind, found]
    exact Agree.ok describes
  · simp only [Memory.perform, Memory.read, noCell, perform, isRegion, noIndex, ok_bind, error_bind]
    exact Agree.error _
  · simp only [Memory.perform, Memory.read, noCell, perform, noRegion, error_bind]
    exact Agree.error _

theorem write (describes : stack.Describes memory) (reference : Reference) (offset : Int64)
    (value : Value) :
    Agree (memory.perform (.write reference offset value))
      (stack.perform (.write reference offset value)) := by
  rcases describes.index_cases reference offset with
    ⟨region, front, back, index, isCell, isRegion, isIndex, regions_eq, front_eq⟩ |
      ⟨region, error, noCell, isRegion, noIndex⟩ | ⟨error, noCell, noRegion⟩
  · obtain ⟨after, written⟩ : ∃ after, memory.write reference offset value = .ok after := by
      rw [Memory.write, isCell]
      exact ⟨_, rfl⟩
    have wellFormed := describes.wellFormed.write written
    have after_eq := written
    simp only [Memory.write, isCell, ok_bind, pure_eq_ok] at after_eq
    have set_eq (written : Region) :
        stack.regions.set reference.slot.toNat written = front ++ written :: back := by
      rw [regions_eq, ← front_eq, List.set_append_right _ _ (Nat.le_refl _), Nat.sub_self,
        List.set_cons_zero]
    simp only [Memory.perform, written, perform, isRegion, isIndex, ok_bind, set_eq]
    have ordered := describes.ordered
    have cells_eq := describes.cells
    have lengths_eq := describes.lengths
    have marks_eq := describes.marks
    rw [RegionStack.cells] at cells_eq
    rw [RegionStack.marks] at marks_eq
    rw [regions_eq] at ordered cells_eq lengths_eq marks_eq
    apply Agree.ok
    constructor
    · exact wellFormed
    · exact ordered.set rfl
    · rw [after_eq]
      exact describes.capacity
    · simp only [after_eq, RegionStack.cells, Array.toList_setIfInBounds, cells_eq,
        List.flatMap_append, List.flatMap_cons]
      rw [List.set_append_right _ _ (Nat.le_add_right _ _), Nat.add_sub_cancel_left,
        List.set_append_left _ _ index.isLt]
    · simpa [after_eq, Memory.regions] using lengths_eq
    · rw [after_eq]
      exact describes.generations
    · have same_frame : (Region.mk region.frame (region.values.set index value)).frame =
          region.frame := rfl
      simp only [after_eq, RegionStack.marks, marksOf_set same_frame]
      exact marks_eq
  · simp only [Memory.perform, Memory.write, noCell, perform, isRegion, noIndex, ok_bind,
      error_bind]
    exact Agree.error _
  · simp only [Memory.perform, Memory.write, noCell, perform, noRegion, error_bind]
    exact Agree.error _

theorem enterFrame (describes : stack.Describes memory) :
    Agree (memory.perform .enterFrame) (stack.perform .enterFrame) := by
  have all_counted : stack.regions.countP (·.frame ≤ stack.frames) = stack.regions.length := by
    rw [List.countP_eq_length]
    simpa using describes.ordered.2
  apply Agree.ok
  constructor
  · exact describes.wellFormed.enterFrame
  · exact describes.ordered.enter
  · exact describes.capacity
  · exact describes.cells
  · exact describes.lengths
  · exact describes.generations
  · simp [Memory.enterFrame, RegionStack.marks, marksOf, all_counted, describes.live_eq,
      describes.marks]

theorem leaveFrame (describes : stack.Describes memory) :
    Agree (memory.perform .leaveFrame) (stack.perform .leaveFrame) := by
  have marks_eq := describes.marks
  cases isOpen : stack.frames with
  | zero =>
    have no_marks : memory.marks = [] := by
      rw [marks_eq, RegionStack.marks, isOpen, marksOf]
    have refused : memory.leaveFrame = .error (.internal "no memory frame to leave") := by
      rw [Memory.leaveFrame, no_marks]
    simp only [Memory.perform, refused, perform, isOpen, error_bind]
    exact Agree.error _
  | succ frames =>
    have ordered := describes.ordered
    rw [isOpen] at ordered
    have kept_eq := filter_eq_take ordered.1 frames
    rw [RegionStack.marks, isOpen, marksOf] at marks_eq
    obtain ⟨after, left⟩ : ∃ after, memory.leaveFrame = .ok after := by
      rw [Memory.leaveFrame, marks_eq]
      dsimp only
      split
      · split <;> exact ⟨_, rfl⟩
      · exact ⟨_, rfl⟩
    rcases describes.wellFormed.eq_of_leaveFrame left with
      ⟨mark, marks, isMark, after_capacity, after_marks, after_slots, after_regions, after_cells⟩
    rw [marks_eq, List.cons.injEq] at isMark
    rcases isMark with ⟨rfl, rfl⟩
    simp only [Memory.perform, left, perform, isOpen, ok_bind]
    apply Agree.ok
    constructor
    · exact describes.wellFormed.leaveFrame left
    · exact ordered.filter
    · rw [after_capacity]
      exact describes.capacity
    · rw [after_cells, List.map_take, describes.lengths, describes.cells, ← List.map_take,
        ← List.length_flatMap, RegionStack.cells, RegionStack.cells, kept_eq]
      apply take_flatMap
    · rw [after_regions, List.map_take, describes.lengths, ← List.map_take, kept_eq]
    · rw [Memory.generations, after_slots]
      exact describes.generations
    · rw [after_marks]
      exact (marksOf_filter (Nat.le_succ _)).symm

theorem perform (describes : stack.Describes memory) (operation : Operation) :
    Agree (memory.perform operation) (stack.perform operation) := by
  cases operation with
  | alloc length => exact describes.alloc length
  | read reference offset => exact describes.read reference offset
  | write reference offset value => exact describes.write reference offset value
  | regionLength reference => exact describes.regionLength reference
  | enterFrame => exact describes.enterFrame
  | leaveFrame => exact describes.leaveFrame

theorem call (describes : stack.Describes memory) (operation : Operation) :
    (memory.call operation).1 = (stack.call operation).1 ∧
      (stack.call operation).2.Describes (memory.call operation).2 := by
  have agree := describes.perform operation
  rw [Memory.call, RegionStack.call]
  revert agree
  generalize memory.perform operation = done, stack.perform operation = expected
  intro agree
  cases agree with
  | ok later => exact ⟨rfl, later⟩
  | error error => exact ⟨rfl, describes⟩

theorem used_le (describes : stack.Describes memory) : stack.used ≤ stack.capacity := by
  rw [← describes.used_eq, ← describes.capacity]
  exact describes.wellFormed.used_le

end Describes

theorem capacity_of_perform {operation : Operation} {answer : Answer} {next : RegionStack}
    (performed : stack.perform operation = .ok (answer, next)) :
    next.capacity = stack.capacity := by
  cases operation <;> simp only [perform, bind_eq_ok, pure_eq_ok, Prod.mk.injEq] at performed
  case alloc length =>
    split at performed <;> cases performed
    rfl
  case read reference offset =>
    rcases performed with ⟨_, _, _, _, _, rfl⟩
    rfl
  case write reference offset value =>
    rcases performed with ⟨_, _, _, _, _, rfl⟩
    rfl
  case regionLength reference =>
    rcases performed with ⟨_, _, _, rfl⟩
    rfl
  case enterFrame =>
    cases performed
    rfl
  case leaveFrame =>
    split at performed <;> cases performed
    rfl

theorem capacity_call (stack : RegionStack) (operation : Operation) :
    (stack.call operation).2.capacity = stack.capacity := by
  rw [call]
  cases performed : stack.perform operation with
  | ok done => exact capacity_of_perform performed
  | error error => rfl

/-- Memory refines a stack of regions: whatever is done to it, in whatever order, it answers as the
list of regions does, and its cells, frames and live regions are those of the list. -/
theorem memory_refines_regions (capacity : Nat) (operations : List Operation) :
    let ran := Session.run Memory.call { capacity } operations
    let expected := Session.run RegionStack.call { capacity } operations
    ran.1 = expected.1 ∧ ran.2.cells.toList = expected.2.cells ∧
      ran.2.used = expected.2.used ∧ expected.2.used ≤ capacity ∧
      ran.2.live = expected.2.regions.length ∧ ran.2.marks = expected.2.marks ∧
      ∀ reference, (∃ slot, ran.2.slot reference = .ok slot) ↔ expected.2.Accepts reference := by
  intro ran expected
  have related : ran.1 = expected.1 ∧ expected.2.Describes ran.2 :=
    Session.run_related (fun memory stack => Describes stack memory) (describes_empty capacity)
      (fun _ _ operation describes => describes.call operation) operations
  have same_capacity : expected.2.capacity = capacity :=
    Session.run_induction (fun stack : RegionStack => stack.capacity = capacity) rfl
      (fun stack operation same => (capacity_call stack operation).trans same) operations
  rcases related with ⟨same_answers, describes⟩
  refine ⟨same_answers, describes.cells, describes.used_eq, ?_, describes.live_eq, describes.marks,
    ?_⟩
  · rw [← same_capacity]
    exact describes.used_le
  · intro reference
    exact describes.accepts_iff.symm

end RegionStack

end CapabilityMachine
