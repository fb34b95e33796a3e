import CapabilityMachine.Proofs.Machine.Memory
import CapabilityMachine.Proofs.Session
import Mathlib.Algebra.GroupWithZero.Nat
/-!
# Operations on memory

The operations on memory as data, so that they can be put in sequence, and what the two of them that
touch slots do to these. An allocation uses the slot behind the live ones. A frame that is left
keeps the table of slots and makes some slots dead.
-/

namespace CapabilityMachine

open Outcome

theorem Tiles.stop_eq {start stop : Nat} {slots : List Slot} (tiles : Tiles start slots stop) :
    stop = start + (slots.map Slot.length).sum := by
  induction slots generalizing start with
  | nil => exact (show start = stop from tiles).symm
  | cons slot slots ih =>
    rw [ih tiles.2, List.map_cons, List.sum_cons, Nat.add_assoc]

namespace Memory

/-- The operations on memory, with what they are given. -/
inductive Operation where
  | alloc (length : Nat)
  | read (reference : Reference) (offset : Int64)
  | write (reference : Reference) (offset : Int64) (value : Value)
  | regionLength (reference : Reference)
  | enterFrame
  | leaveFrame

/-- What an operation that succeeds is answered with. -/
inductive Answer where
  | done
  | reference (reference : Reference)
  | value (value : Value)
  | length (length : Nat)
deriving DecidableEq

/-- Performs an operation on the memory. -/
def perform (memory : Memory) : Operation → Except RuntimeError (Answer × Memory)
  | .alloc length => do
    let (reference, after) ← memory.alloc length
    return (.reference reference, after)
  | .read reference offset => return (.value (← memory.read reference offset), memory)
  | .write reference offset value => return (.done, ← memory.write reference offset value)
  | .regionLength reference => return (.length (← memory.regionLength reference), memory)
  | .enterFrame => return (.done, memory.enterFrame)
  | .leaveFrame => return (.done, ← memory.leaveFrame)

/-- Calls an operation on the memory, which stays as it is if the operation fails. -/
def call (memory : Memory) (operation : Operation) : Except RuntimeError Answer × Memory :=
  Session.settle memory (memory.perform operation)

variable {memory after : Memory} {reference : Reference} {slot : Slot}

/-- The current generation of each slot that was ever used. -/
def generations (memory : Memory) : List UInt32 :=
  memory.slots.toList.map Slot.generation

theorem getElem?_generations (memory : Memory) (index : Nat) :
    memory.generations[index]? = memory.slots[index]?.map Slot.generation := by
  rw [generations, List.getElem?_map, Array.getElem?_toList]

/-- A reference names a live region if its slot is live and has its generation. -/
theorem exists_slot_iff :
    (∃ slot, memory.slot reference = .ok slot) ↔
      reference.slot.toNat < memory.live ∧
        memory.generations[reference.slot.toNat]? = some reference.generation := by
  simp only [slot_eq_ok, getElem?_regions, getElem?_generations, Option.map_eq_some_iff]
  constructor
  · rintro ⟨slot, ⟨present, live⟩, current⟩
    exact ⟨live, slot, present, current⟩
  · rintro ⟨live, slot, present, current⟩
    exact ⟨slot, ⟨present, live⟩, current⟩

theorem slot_cases (memory : Memory) (reference : Reference) :
    (∃ slot, memory.slot reference = .ok slot) ∨
      memory.slot reference = .error (.danglingReference reference) := by
  rw [Memory.slot]
  split
  · split
    · exact Or.inl ⟨_, rfl⟩
    · exact Or.inr rfl
  · exact Or.inr rfl

/-- To leave a frame is to keep the regions that were live when it was entered, with their cells. -/
theorem WellFormed.eq_of_leaveFrame (wellFormed : memory.WellFormed)
    (left : memory.leaveFrame = .ok after) :
    ∃ mark marks, memory.marks = mark :: marks ∧ after.capacity = memory.capacity ∧
      after.marks = marks ∧ after.slots = memory.slots ∧
      after.regions = memory.regions.take mark ∧
      after.cells.toList =
        memory.cells.toList.take ((memory.regions.take mark).map Slot.length).sum := by
  rcases wellFormed.leaveFrame_cases left with
    ⟨mark, marks, marks_eq, ⟨released, slot, present, rfl⟩ | ⟨rfl, rfl⟩⟩
  · have found : memory.regions[mark]? = some slot := getElem?_regions.2 ⟨present, released⟩
    have start_eq := (wellFormed.tiles.take found).stop_eq
    refine ⟨mark, marks, marks_eq, rfl, rfl, rfl, ?_, ?_⟩
    · rw [regions, regions, List.take_take, Nat.min_eq_left (Nat.le_of_lt released)]
    · rw [← Nat.zero_add (List.sum _), ← start_eq, Array.take_eq_extract, Array.toList_extract]
      simp
  · have used_eq := wellFormed.tiles.stop_eq
    have all_kept : memory.regions.take memory.live = memory.regions := by
      rw [regions, List.take_take, Nat.min_self]
    refine ⟨memory.live, marks, marks_eq, rfl, rfl, rfl, all_kept.symm, ?_⟩
    rw [all_kept, ← Nat.zero_add (List.sum _), ← used_eq, used, ← Array.length_toList,
      List.take_length]

theorem nextGeneration_eq :
    memory.nextGeneration = ((memory.generations[memory.live]?).map (· + 1)).getD 0 := by
  rw [nextGeneration, getElem?_generations]
  cases memory.slots[memory.live]? <;> rfl

/-- An allocation gives the slot behind the live ones a new generation, and leaves all others. -/
theorem WellFormed.generations_of_alloc (wellFormed : memory.WellFormed) {length : Nat}
    (allocated : memory.alloc length = .ok (reference, after)) :
    after.generations = memory.generations.take memory.live ++
      memory.nextGeneration :: memory.generations.drop (memory.live + 1) := by
  rcases alloc_eq_ok.1 allocated with ⟨_, _, _, rfl⟩
  have live_le := wellFormed.live_le
  simp only [generations]
  split
  · rename_i reused
    rw [Array.toList_setIfInBounds, List.map_set, List.set_eq_take_append_cons_drop, if_pos]
    simpa using reused
  · rename_i fresh
    have all_live : (memory.slots.toList.map Slot.generation).length ≤ memory.live := by
      simpa using fresh
    rw [List.take_of_length_le all_live, List.drop_eq_nil_of_le (Nat.le_succ_of_le all_live)]
    simp

theorem WellFormed.getElem?_generations_of_alloc (wellFormed : memory.WellFormed) {length : Nat}
    (allocated : memory.alloc length = .ok (reference, after)) (index : Nat) :
    after.generations[index]? =
      if index = memory.live then some memory.nextGeneration else memory.generations[index]? := by
  have front_length : (memory.generations.take memory.live).length = memory.live := by
    apply List.length_take_of_le
    simpa [generations] using wellFormed.live_le
  rw [wellFormed.generations_of_alloc allocated]
  rcases Nat.lt_trichotomy index memory.live with before | rfl | behind
  · rw [if_neg (Nat.ne_of_lt before), List.getElem?_append_left (by omega),
      List.getElem?_take_of_lt before]
  · simp [front_length]
  · obtain ⟨offset, rfl⟩ := Nat.exists_eq_add_of_lt behind
    have inner : memory.live + offset + 1 - memory.live = offset + 1 := by omega
    rw [if_neg (Nat.ne_of_gt behind), List.getElem?_append_right (by omega), front_length, inner,
      List.getElem?_cons_succ, List.getElem?_drop]
    congr 1
    omega

theorem WellFormed.perform (wellFormed : memory.WellFormed) {operation : Operation} {answer : Answer}
    (performed : memory.perform operation = .ok (answer, after)) : after.WellFormed := by
  cases operation <;>
    simp only [Memory.perform, bind_eq_ok, pure_eq_ok, Prod.mk.injEq] at performed
  case alloc length =>
    rcases performed with ⟨⟨reference, next⟩, allocated, _, rfl⟩
    exact wellFormed.alloc allocated
  case read | regionLength =>
    rcases performed with ⟨_, _, _, rfl⟩
    exact wellFormed
  case write =>
    rcases performed with ⟨next, written, _, rfl⟩
    exact wellFormed.write written
  case enterFrame =>
    rcases performed with ⟨_, rfl⟩
    exact wellFormed.enterFrame
  case leaveFrame =>
    rcases performed with ⟨next, left, _, rfl⟩
    exact wellFormed.leaveFrame left

theorem WellFormed.call (wellFormed : memory.WellFormed) (operation : Operation) :
    (memory.call operation).2.WellFormed := by
  rw [Memory.call]
  cases performed : memory.perform operation with
  | ok done => exact wellFormed.perform performed
  | error error => exact wellFormed

end Memory

end CapabilityMachine
