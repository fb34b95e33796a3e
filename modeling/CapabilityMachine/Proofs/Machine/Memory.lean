import CapabilityMachine.Machine.Memory
import CapabilityMachine.Proofs.Outcome
/-!
# The layout of memory

The live regions lie one behind the other and fill the used cells without a gap, and each open frame
was entered when no more regions were live than now. All operations keep this layout, and it makes
every index that they compute one of an existing cell or slot.
-/

namespace CapabilityMachine

open Outcome

/-- The regions of the slots lie one behind the other, from the first index up to the second. -/
def Tiles : Nat → List Slot → Nat → Prop
  | start, [], stop => start = stop
  | start, slot :: rest, stop => slot.start = start ∧ Tiles (start + slot.length) rest stop

namespace Tiles

variable {start middle stop index : Nat} {slots rest : List Slot} {slot : Slot}

theorem append (front : Tiles start slots middle) (back : Tiles middle rest stop) :
    Tiles start (slots ++ rest) stop := by
  induction slots generalizing start with
  | nil =>
    rcases front with rfl
    exact back
  | cons slot slots ih =>
    rcases front with ⟨start_eq, behind⟩
    exact ⟨start_eq, ih behind⟩

theorem le (tiles : Tiles start slots stop) : start ≤ stop := by
  induction slots generalizing start with
  | nil => exact Nat.le_of_eq tiles
  | cons slot slots ih =>
    have behind := ih tiles.2
    omega

/-- The regions before one of them reach up to where that one starts. -/
theorem take (tiles : Tiles start slots stop) (found : slots[index]? = some slot) :
    Tiles start (slots.take index) slot.start := by
  induction slots generalizing start index with
  | nil => cases found
  | cons first slots ih =>
    rcases tiles with ⟨start_eq, behind⟩
    cases index with
    | zero =>
      cases found
      exact start_eq.symm
    | succ index => exact ⟨start_eq, ih behind found⟩

theorem stop_le (tiles : Tiles start slots stop) (member : slot ∈ slots) :
    slot.start + slot.length ≤ stop := by
  induction slots generalizing start with
  | nil => cases member
  | cons first slots ih =>
    rcases tiles with ⟨start_eq, behind⟩
    rcases List.mem_cons.1 member with rfl | later
    · rw [start_eq]
      exact behind.le
    · exact ih behind later

end Tiles

namespace Memory

variable {memory after : Memory} {reference : Reference} {offset : Int64} {slot : Slot}

/-- The slots of the live regions, in the order of allocation. -/
def regions (memory : Memory) : List Slot :=
  memory.slots.toList.take memory.live

/-- The live regions tile the cells in use, which are not too many, and each frame began when no
more regions were live than now. -/
structure WellFormed (memory : Memory) : Prop where
  live_le : memory.live ≤ memory.slots.size
  tiles : Tiles 0 memory.regions memory.used
  used_le : memory.used ≤ memory.capacity
  /-- The open frames were entered in the order of their marks. -/
  ordered : (memory.live :: memory.marks).Pairwise (· ≥ ·)

theorem wellFormed_empty (capacity : Nat) : ({ capacity } : Memory).WellFormed where
  live_le := Nat.le_refl _
  tiles := rfl
  used_le := Nat.zero_le _
  ordered := List.pairwise_singleton _ _

theorem getElem?_regions {index : Nat} :
    memory.regions[index]? = some slot ↔
      memory.slots[index]? = some slot ∧ index < memory.live := by
  rw [regions, List.getElem?_take]
  split
  · rename_i live
    simp [live]
  · rename_i released
    simp [released]

theorem slot_eq_ok :
    memory.slot reference = .ok slot ↔
      memory.regions[reference.slot.toNat]? = some slot ∧
        slot.generation = reference.generation := by
  rw [getElem?_regions, Memory.slot]
  cases memory.slots[reference.slot.toNat]? with
  | none => simp
  | some found =>
    by_cases valid :
      reference.slot.toNat < memory.live ∧ found.generation = reference.generation
    · simp only [valid, and_self, if_true, Except.ok.injEq, Option.some.injEq, and_true]
      constructor
      · rintro rfl
        exact ⟨rfl, valid.2⟩
      · exact And.left
    · simp only [valid, if_false, reduceCtorEq, Option.some.injEq, false_iff]
      rintro ⟨⟨rfl, live⟩, same⟩
      exact valid ⟨live, same⟩

theorem cellIndex_eq_ok {index : Nat} :
    memory.cellIndex reference offset = .ok index ↔
      ∃ slot, memory.slot reference = .ok slot ∧ 0 ≤ offset.toInt ∧
        offset.toInt < slot.length ∧ index = slot.start + offset.toInt.toNat := by
  rw [cellIndex, bind_eq_ok]
  apply exists_congr
  intro slot
  split
  · rename_i inside
    simp only [pure_eq_ok, inside.1, inside.2, true_and]
  · rename_i outside
    simp only [reduceCtorEq, and_false, false_iff]
    rintro ⟨_, nonneg, lt, _⟩
    exact outside ⟨nonneg, lt⟩

/-- An index that a reference and an offset come to is that of a used cell. -/
theorem WellFormed.cellIndex_lt (wellFormed : memory.WellFormed) {index : Nat}
    (found : memory.cellIndex reference offset = .ok index) : index < memory.cells.size := by
  rcases cellIndex_eq_ok.1 found with ⟨slot, present, nonneg, inside, rfl⟩
  have member : slot ∈ memory.regions := List.mem_of_getElem? (slot_eq_ok.1 present).1
  have stop_le : slot.start + slot.length ≤ memory.cells.size := wellFormed.tiles.stop_le member
  omega

/-- A region that a frame is going to release has a slot. -/
theorem WellFormed.exists_region (wellFormed : memory.WellFormed) {index : Nat}
    (live : index < memory.live) : ∃ slot, memory.regions[index]? = some slot := by
  have inside : index < memory.slots.size := Nat.lt_of_lt_of_le live wellFormed.live_le
  exact ⟨_, getElem?_regions.2 ⟨Array.getElem?_eq_getElem inside, live⟩⟩

theorem WellFormed.start_le (wellFormed : memory.WellFormed) {index : Nat}
    (found : memory.regions[index]? = some slot) : slot.start ≤ memory.used := by
  have stop_le := wellFormed.tiles.stop_le (List.mem_of_getElem? found)
  omega

/-- What an allocation returns, and what it makes of the memory. -/
theorem alloc_eq_ok {length : Nat} :
    memory.alloc length = .ok (reference, after) ↔
      length ≤ memory.available ∧ memory.live < maxRegions ∧
        reference = ⟨UInt32.ofNat memory.live, memory.nextGeneration⟩ ∧
        after = { memory with
          cells := memory.cells ++ Array.replicate length Value.unit
          slots :=
            if memory.live < memory.slots.size then
              memory.slots.setIfInBounds memory.live
                ⟨memory.used, length, memory.nextGeneration⟩
            else memory.slots.push ⟨memory.used, length, memory.nextGeneration⟩
          live := memory.live + 1 } := by
  rw [alloc, ite_error_eq_ok, not_or, Nat.not_lt, Nat.not_le, and_assoc]
  apply and_congr_right
  intro _
  apply and_congr_right
  intro _
  simp only [Except.ok.injEq, Prod.mk.injEq, eq_comm]

/-- An allocation puts a region behind the live ones. -/
theorem WellFormed.regions_of_alloc (wellFormed : memory.WellFormed) {length : Nat}
    (allocated : memory.alloc length = .ok (reference, after)) :
    after.regions = memory.regions ++ [⟨memory.used, length, memory.nextGeneration⟩] := by
  rcases alloc_eq_ok.1 allocated with ⟨_, _, _, rfl⟩
  simp only [regions]
  have live_le := wellFormed.live_le
  split
  · rename_i reused
    rw [List.take_add_one]
    simp [reused, List.take_set_of_le]
  · rename_i fresh
    have live_eq : memory.live = memory.slots.toList.length := by
      rw [Array.length_toList]
      omega
    rw [live_eq, Array.toList_push, List.take_length]
    apply List.take_of_length_le
    simp

theorem WellFormed.alloc (wellFormed : memory.WellFormed) {length : Nat}
    (allocated : memory.alloc length = .ok (reference, after)) : after.WellFormed := by
  have regions_eq := wellFormed.regions_of_alloc allocated
  rcases alloc_eq_ok.1 allocated with ⟨fits, _, _, rfl⟩
  have used_le := wellFormed.used_le
  have live_le := wellFormed.live_le
  simp only [available] at fits
  refine ⟨?_, ?_, ?_, ?_⟩
  · dsimp only
    split <;> simp <;> omega
  · rw [regions_eq]
    apply wellFormed.tiles.append
    exact ⟨rfl, by simp [Tiles, used]⟩
  · simp only [used, Array.size_append, Array.size_replicate] at used_le fits ⊢
    omega
  · have ordered := List.pairwise_cons.1 wellFormed.ordered
    refine List.pairwise_cons.2 ⟨?_, ordered.2⟩
    intro mark member
    exact Nat.le_succ_of_le (ordered.1 mark member)

theorem WellFormed.write (wellFormed : memory.WellFormed) {value : Value}
    (written : memory.write reference offset value = .ok after) : after.WellFormed := by
  simp only [Memory.write, bind_eq_ok, pure_eq_ok] at written
  rcases written with ⟨index, _, rfl⟩
  have used_eq : (memory.cells.setIfInBounds index value).size = memory.cells.size := by simp
  refine ⟨wellFormed.live_le, ?_, ?_, wellFormed.ordered⟩
  · simp only [used, used_eq]
    exact wellFormed.tiles
  · simp only [used, used_eq]
    exact wellFormed.used_le

theorem WellFormed.enterFrame (wellFormed : memory.WellFormed) : memory.enterFrame.WellFormed := by
  refine ⟨wellFormed.live_le, wellFormed.tiles, wellFormed.used_le, ?_⟩
  refine List.pairwise_cons.2 ⟨?_, wellFormed.ordered⟩
  intro mark member
  rcases List.mem_cons.1 member with rfl | older
  · exact Nat.le_refl _
  · exact (List.pairwise_cons.1 wellFormed.ordered).1 mark older

/-- To leave a frame is to release the regions behind its mark, if there are any. -/
theorem WellFormed.leaveFrame_cases (wellFormed : memory.WellFormed)
    (left : memory.leaveFrame = .ok after) :
    ∃ mark marks, memory.marks = mark :: marks ∧
      ((mark < memory.live ∧ ∃ slot, memory.slots[mark]? = some slot ∧
          after = { memory with marks, cells := memory.cells.take slot.start, live := mark }) ∨
        mark = memory.live ∧ after = { memory with marks }) := by
  have ordered := wellFormed.ordered
  rw [Memory.leaveFrame] at left
  split at left
  · cases left
  rename_i mark marks marks_eq
  rw [marks_eq] at ordered
  have mark_le : mark ≤ memory.live := (List.pairwise_cons.1 ordered).1 mark List.mem_cons_self
  refine ⟨mark, marks, marks_eq, ?_⟩
  split at left
  · rename_i slot present
    split at left
    · rename_i released
      cases left
      exact Or.inl ⟨released, slot, present, rfl⟩
    · cases left
      exact Or.inr ⟨by omega, rfl⟩
  · rename_i absent
    cases left
    have outside := Array.getElem?_eq_none_iff.1 absent
    have live_le := wellFormed.live_le
    exact Or.inr ⟨by omega, rfl⟩

theorem WellFormed.leaveFrame (wellFormed : memory.WellFormed)
    (left : memory.leaveFrame = .ok after) : after.WellFormed := by
  have ordered := wellFormed.ordered
  have live_le := wellFormed.live_le
  have used_le := wellFormed.used_le
  rcases wellFormed.leaveFrame_cases left with
    ⟨mark, marks, marks_eq, ⟨released, slot, present, rfl⟩ | ⟨same, rfl⟩⟩
  · rw [marks_eq] at ordered
    have found : memory.regions[mark]? = some slot := getElem?_regions.2 ⟨present, released⟩
    have start_le : slot.start ≤ memory.cells.size := wellFormed.start_le found
    have used_eq : (memory.cells.take slot.start).size = slot.start := by
      simp only [Array.take_eq_extract, Array.size_extract]
      omega
    refine ⟨?_, ?_, ?_, (List.pairwise_cons.1 ordered).2⟩
    · exact Nat.le_trans (Nat.le_of_lt released) live_le
    · have kept := wellFormed.tiles.take found
      rw [regions, List.take_take, Nat.min_eq_left (Nat.le_of_lt released)] at kept
      simp only [regions, used, used_eq]
      exact kept
    · simp only [used, used_eq]
      exact Nat.le_trans start_le used_le
  · rw [marks_eq, same] at ordered
    exact ⟨live_le, wellFormed.tiles, used_le, (List.pairwise_cons.1 ordered).2⟩

end Memory

end CapabilityMachine
