import CapabilityMachine.Proofs.Machine.Operations
/-!
# References that outlive their regions

The regions that are allocated in one slot get generations one after another, so that a reference to
a released region is refused, whatever is allocated in its slot later. Generations start over after
the last one, though. When the slot is used for the 2^32-th time again, the reference is handed out
a second time, and the old one leads to the new region.
-/

namespace CapabilityMachine.Memory

open Outcome

variable {memory after : Memory} {operation : Operation} {answer : Answer} {slot generation : UInt32}

/-- The answer hands out a region in the slot. -/
def uses (slot : UInt32) : Except RuntimeError Answer → Bool
  | .ok (.reference reference) => reference.slot == slot
  | _ => false

/-- How many regions the answers hand out in the slot. -/
def useCount (slot : UInt32) (answers : List (Except RuntimeError Answer)) : Nat :=
  answers.countP (uses slot)

/-- No operation through the reference succeeds. -/
def Dangles (memory : Memory) (reference : Reference) : Prop :=
  ∀ offset value,
    memory.read reference offset = .error (.danglingReference reference) ∧
      memory.write reference offset value = .error (.danglingReference reference) ∧
      memory.regionLength reference = .error (.danglingReference reference)

theorem dangles_iff {reference : Reference} :
    memory.Dangles reference ↔ ¬∃ slot, memory.slot reference = .ok slot := by
  constructor
  · rintro dangles ⟨slot, isSlot⟩
    have refused := (dangles 0 .unit).2.2
    rw [regionLength, isSlot, ok_bind] at refused
    cases refused
  · intro none_found offset value
    have dangling := (memory.slot_cases reference).resolve_left none_found
    simp only [read, write, regionLength, cellIndex, dangling, error_bind, and_self]

/-- An operation that hands out a region is an allocation. Any other operation leaves all
generations as they are and makes no slot live. -/
theorem WellFormed.perform_cases (wellFormed : memory.WellFormed)
    (performed : memory.perform operation = .ok (answer, after)) :
    (∃ length reference, memory.alloc length = .ok (reference, after) ∧
        answer = .reference reference) ∨
      (∀ slot, uses slot (.ok answer) = false) ∧ after.generations = memory.generations ∧
        after.live ≤ memory.live := by
  cases operation <;>
    simp only [Memory.perform, bind_eq_ok, pure_eq_ok, Prod.mk.injEq] at performed
  case alloc length =>
    rcases performed with ⟨⟨reference, next⟩, allocated, rfl, rfl⟩
    exact Or.inl ⟨length, reference, allocated, rfl⟩
  case read | regionLength =>
    rcases performed with ⟨_, _, rfl, rfl⟩
    exact Or.inr ⟨fun _ => rfl, rfl, Nat.le_refl _⟩
  case write =>
    rcases performed with ⟨next, written, rfl, rfl⟩
    simp only [Memory.write, bind_eq_ok, pure_eq_ok] at written
    rcases written with ⟨_, _, rfl⟩
    exact Or.inr ⟨fun _ => rfl, rfl, Nat.le_refl _⟩
  case enterFrame =>
    rcases performed with ⟨rfl, rfl⟩
    exact Or.inr ⟨fun _ => rfl, rfl, Nat.le_refl _⟩
  case leaveFrame =>
    rcases performed with ⟨next, left, rfl, rfl⟩
    rcases wellFormed.leaveFrame_cases left with
      ⟨mark, marks, _, ⟨released, slot, _, rfl⟩ | ⟨_, rfl⟩⟩
    · exact Or.inr ⟨fun _ => rfl, rfl, Nat.le_of_lt released⟩
    · exact Or.inr ⟨fun _ => rfl, rfl, Nat.le_refl _⟩

theorem toNat_slot_of_alloc {length : Nat} {reference : Reference}
    (allocated : memory.alloc length = .ok (reference, after)) :
    reference.slot.toNat = memory.live := by
  rcases alloc_eq_ok.1 allocated with ⟨_, few, rfl, _⟩
  exact UInt32.toNat_ofNat_of_lt few

/-- What an operation does to a slot that was used before: it hands out a region there, with the
next generation, or the slot keeps its generation and is live only if it was live. -/
theorem WellFormed.call_cases (wellFormed : memory.WellFormed)
    (current : memory.generations[slot.toNat]? = some generation) (operation : Operation) :
    ((memory.call operation).1 = .ok (.reference ⟨slot, generation + 1⟩) ∧
        (memory.call operation).2.generations[slot.toNat]? = some (generation + 1)) ∨
      uses slot (memory.call operation).1 = false ∧
        (memory.call operation).2.generations[slot.toNat]? = some generation ∧
        (slot.toNat < (memory.call operation).2.live → slot.toNat < memory.live) := by
  rw [Memory.call]
  cases performed : memory.perform operation with
  | error error => exact Or.inr ⟨rfl, current, id⟩
  | ok done =>
    rcases done with ⟨answer, after⟩
    rcases wellFormed.perform_cases performed with
      ⟨length, reference, allocated, rfl⟩ | ⟨unused, generations_eq, live_le⟩
    · have generations_eq := wellFormed.getElem?_generations_of_alloc allocated slot.toNat
      have slot_eq := toNat_slot_of_alloc allocated
      rcases alloc_eq_ok.1 allocated with ⟨_, _, reference_eq, after_eq⟩
      dsimp only [Session.settle]
      rw [generations_eq]
      by_cases same : slot.toNat = memory.live
      · left
        have same_slot : reference.slot = slot := UInt32.toNat_inj.1 (slot_eq.trans same.symm)
        have next_eq : memory.nextGeneration = generation + 1 := by
          rw [nextGeneration_eq, ← same, current]
          rfl
        rw [if_pos same, ← next_eq, ← same_slot, reference_eq]
        exact ⟨rfl, rfl⟩
      · right
        have other_slot : ¬reference.slot = slot := by
          rintro rfl
          exact same slot_eq
        refine ⟨by simpa [uses] using other_slot, by rw [if_neg same, current], ?_⟩
        rw [after_eq]
        dsimp only
        omega
    · dsimp only [Session.settle]
      rw [generations_eq]
      exact Or.inr ⟨unused slot, current, fun live => Nat.lt_of_lt_of_le live live_le⟩

theorem add_one_add_ofNat (generation : UInt32) (count : Nat) :
    generation + 1 + UInt32.ofNat count = generation + UInt32.ofNat (count + 1) := by
  rw [UInt32.ofNat_add, UInt32.add_assoc, UInt32.add_comm 1]
  rfl

/-- The regions that are handed out in a slot have the generations behind the slot's own, one after
another: each use of the slot moves it on by one. -/
theorem WellFormed.run_generations (wellFormed : memory.WellFormed)
    (current : memory.generations[slot.toNat]? = some generation) (operations : List Operation) :
    let ran := Session.run Memory.call memory operations
    ran.2.generations[slot.toNat]? = some (generation + UInt32.ofNat (useCount slot ran.1)) ∧
      (slot.toNat < ran.2.live → slot.toNat < memory.live ∨ 0 < useCount slot ran.1) ∧
      ∀ other, .ok (.reference ⟨slot, other⟩) ∈ ran.1 ↔
        ∃ use < useCount slot ran.1, other = generation + UInt32.ofNat (use + 1) := by
  induction operations generalizing memory generation with
  | nil =>
    refine ⟨?_, Or.inl, by simp [Session.run, useCount]⟩
    simpa [Session.run, useCount] using current
  | cons operation rest ih =>
    have later := wellFormed.call operation
    rcases wellFormed.call_cases current operation with
      ⟨answer_eq, next_generation⟩ | ⟨unused, same_generation, live_of_live⟩
    · rcases ih later next_generation with ⟨last, _, handed⟩
      have count_eq : useCount slot (Session.run Memory.call memory (operation :: rest)).1 =
          useCount slot (Session.run Memory.call (memory.call operation).2 rest).1 + 1 := by
        simp [Session.run, useCount, answer_eq, uses]
      intro ran
      rw [count_eq]
      refine ⟨?_, fun _ => Or.inr (Nat.succ_pos _), ?_⟩
      · rw [← add_one_add_ofNat]
        exact last
      · intro other
        have first_iff : (.ok (.reference ⟨slot, other⟩) : Except RuntimeError Answer) =
            .ok (.reference ⟨slot, generation + 1⟩) ↔ other = generation + UInt32.ofNat (0 + 1) := by
          simp
        simp only [ran, Session.run, answer_eq, List.mem_cons, handed, first_iff,
          add_one_add_ofNat, Nat.exists_lt_succ_left]
    · rcases ih later same_generation with ⟨last, live, handed⟩
      have count_eq : useCount slot (Session.run Memory.call memory (operation :: rest)).1 =
          useCount slot (Session.run Memory.call (memory.call operation).2 rest).1 := by
        simp [Session.run, useCount, unused]
      intro ran
      rw [count_eq]
      refine ⟨last, fun isLive => (live isLive).imp_left live_of_live, ?_⟩
      intro other
      have not_first : (.ok (.reference ⟨slot, other⟩)) ≠ (memory.call operation).1 := by
        intro first
        simp [← first, uses] at unused
      simp only [ran, Session.run, List.mem_cons, not_first, false_or]
      exact handed other

theorem eq_add_ofNat_iff {count : Nat} :
    generation = generation + UInt32.ofNat count ↔ UInt32.size ∣ count := by
  rw [eq_comm, UInt32.add_eq_left, UInt32.ofNat_eq_iff_mod_eq_toNat, Nat.dvd_iff_mod_eq_zero]
  rfl

/-- A slot gets a generation again when it is used for the 2^32-th time after that, and not before.
-/
theorem exists_use_iff {count : Nat} :
    (∃ use < count, generation = generation + UInt32.ofNat (use + 1)) ↔ UInt32.size ≤ count := by
  simp only [eq_add_ofNat_iff]
  constructor
  · rintro ⟨use, lt, divides⟩
    have size_le := Nat.le_of_dvd (Nat.succ_pos use) divides
    omega
  · intro size_le
    have size_eq : UInt32.size - 1 + 1 = UInt32.size := rfl
    have divides : UInt32.size ∣ UInt32.size - 1 + 1 := Nat.dvd_refl UInt32.size
    exact ⟨UInt32.size - 1, by omega, divides⟩

theorem WellFormed.generation_of_call_alloc (wellFormed : memory.WellFormed) {length : Nat}
    {reference : Reference}
    (allocated : memory.call (.alloc length) = (.ok (.reference reference), after)) :
    after.generations[reference.slot.toNat]? = some reference.generation := by
  rw [Memory.call] at allocated
  cases performed : memory.alloc length with
  | error error =>
    simp only [Memory.perform, performed, error_bind, Session.settle] at allocated
    cases allocated
  | ok done =>
    rcases done with ⟨handed, next⟩
    simp only [Memory.perform, performed, ok_bind, Session.settle] at allocated
    cases allocated
    rw [wellFormed.getElem?_generations_of_alloc performed, if_pos (toNat_slot_of_alloc performed)]
    rcases alloc_eq_ok.1 performed with ⟨_, _, rfl, _⟩
    rfl

theorem WellFormed.run (wellFormed : memory.WellFormed) (operations : List Operation) :
    (Session.run Memory.call memory operations).2.WellFormed :=
  Session.run_induction WellFormed wellFormed (fun _ operation start => start.call operation)
    operations

/-- A reference to a released region stays dangling, and is not handed out again, as long as fewer
than 2^32 regions are allocated in its slot. With that many it is handed out again. -/
theorem released_reference_dangles {capacity length : Nat} {before during rest : List Operation}
    {reference : Reference} {memory made left last : Memory}
    {answers later : List (Except RuntimeError Answer)}
    (reached : (Session.run Memory.call { capacity } before).2 = memory)
    (allocated : memory.call (.alloc length) = (.ok (.reference reference), made))
    (leaving : Session.run Memory.call made (during ++ [.leaveFrame]) = (answers, left))
    (released : left.live ≤ reference.slot.toNat)
    (ran : Session.run Memory.call left rest = (later, last)) :
    (useCount reference.slot (answers ++ later) < UInt32.size →
        last.Dangles reference ∧ .ok (.reference reference) ∉ answers ++ later) ∧
      (UInt32.size ≤ useCount reference.slot (answers ++ later) →
        .ok (.reference reference) ∈ answers ++ later) := by
  have start : memory.WellFormed := reached ▸ (wellFormed_empty capacity).run before
  have made_wellFormed : made.WellFormed := by
    have next := start.call (.alloc length)
    rwa [allocated] at next
  have made_generation := start.generation_of_call_alloc allocated
  have left_wellFormed := made_wellFormed.run (during ++ [.leaveFrame])
  have left_generation :=
    (made_wellFormed.run_generations made_generation (during ++ [.leaveFrame])).1
  have revived := (left_wellFormed.run_generations left_generation rest).2.1
  have whole := made_wellFormed.run_generations made_generation (during ++ [.leaveFrame] ++ rest)
  rw [leaving] at revived
  rw [Session.run_append, leaving] at whole
  simp only [ran] at revived whole
  rcases whole with ⟨last_generation, _, handed⟩
  have again := (handed reference.generation).trans exists_use_iff
  refine ⟨?_, again.2⟩
  intro few
  refine ⟨?_, fun member => Nat.not_le_of_lt few (again.1 member)⟩
  rw [dangles_iff, exists_slot_iff]
  rintro ⟨live, same_generation⟩
  have used : 0 < useCount reference.slot later := (revived live).resolve_left (by omega)
  have divides : UInt32.size ∣ useCount reference.slot (answers ++ later) :=
    eq_add_ofNat_iff.1 (Option.some.inj (same_generation.symm.trans last_generation))
  have used_le : useCount reference.slot later ≤ useCount reference.slot (answers ++ later) := by
    simp [useCount, List.countP_append]
  have size_le := Nat.le_of_dvd (by omega) divides
  omega

theorem released_reference_dangles_reused_slot :
    let entered : Memory := { capacity := 4, marks := [0] }
    let made : Memory := { entered with cells := #[.unit], slots := #[⟨0, 1, 0⟩], live := 1 }
    let left : Memory := { capacity := 4, slots := #[⟨0, 1, 0⟩] }
    let reused : Memory :=
      { capacity := 4, cells := #[.unit, .unit], slots := #[⟨0, 2, 1⟩], live := 1 }
    (Session.run Memory.call { capacity := 4 } [.enterFrame]).2 = entered ∧
      entered.call (.alloc 1) = (.ok (.reference ⟨0, 0⟩), made) ∧
      Session.run Memory.call made [.leaveFrame] = ([.ok .done], left) ∧
      Session.run Memory.call left [.alloc 2] = ([.ok (.reference ⟨0, 1⟩)], reused) ∧
      reused.Dangles ⟨0, 0⟩ := by
  intro entered made left reused
  have reached : (Session.run Memory.call { capacity := 4 } [.enterFrame]).2 = entered := rfl
  have allocated : entered.call (.alloc 1) = (.ok (.reference ⟨0, 0⟩), made) := rfl
  have leaving : Session.run Memory.call made ([] ++ [.leaveFrame]) = ([.ok .done], left) := rfl
  have ran : Session.run Memory.call left [.alloc 2] = ([.ok (.reference ⟨0, 1⟩)], reused) := rfl
  have few : useCount 0 ([.ok .done] ++ [.ok (.reference ⟨0, 1⟩)]) < UInt32.size := by decide
  have dangles := released_reference_dangles reached allocated leaving (Nat.le_refl 0) ran
  exact ⟨reached, allocated, leaving, ran, (dangles.1 few).1⟩

/-! ### The second time around -/

/-- A frame with one region of one cell. -/
def round : List Operation :=
  [.enterFrame, .alloc 1, .leaveFrame]

/-- As many rounds, one after the other. -/
def rounds : Nat → List Operation
  | 0 => []
  | count + 1 => round ++ rounds count

/-- A memory of one cell, in which nothing is live and the only slot has the generation. -/
def idle (generation : UInt32) : Memory :=
  { capacity := 1, slots := #[⟨0, 1, generation⟩] }

theorem run_round (generation : UInt32) :
    (Session.run Memory.call (idle generation) round).2 = idle (generation + 1) :=
  rfl

theorem run_rounds (count : Nat) :
    (Session.run Memory.call (idle generation) (rounds count)).2 =
      idle (generation + UInt32.ofNat count) := by
  induction count generalizing generation with
  | zero => simp [rounds, Session.run]
  | succ count ih =>
    rw [rounds, Session.run_append, run_round, ih, add_one_add_ofNat]

/-- A reference to a released region is handed out again, and leads to the new region. -/
theorem released_reference_handed_out_again :
    let first := Session.run Memory.call { capacity := 1 } round
    let later := Session.run Memory.call first.2 (rounds (UInt32.size - 1))
    let reused := later.2.call (.alloc 1)
    first.1 = [.ok .done, .ok (.reference ⟨0, 0⟩), .ok .done] ∧ first.2.live = 0 ∧
      reused.1 = .ok (.reference ⟨0, 0⟩) ∧ reused.2.regionLength ⟨0, 0⟩ = .ok 1 ∧
      reused.2.read ⟨0, 0⟩ 0 = .ok .unit ∧
      ∃ written, reused.2.write ⟨0, 0⟩ 0 (.bool true) = .ok written := by
  intro first later reused
  have later_eq : later.2 = idle (UInt32.ofNat (UInt32.size - 1)) := by
    have started : first.2 = idle 0 := rfl
    simp only [later, started, run_rounds, UInt32.zero_add]
  have reused_eq : reused = (idle (UInt32.ofNat (UInt32.size - 1))).call (.alloc 1) := by
    simp only [reused, later_eq]
  rw [reused_eq]
  exact ⟨rfl, rfl, rfl, rfl, rfl, _, rfl⟩

end CapabilityMachine.Memory
