import CapabilityMachine.Proofs.Machine.Operations
/-!
# A stack of regions

What memory does can be said without cells that have an address and without a table of slots. There
is a list of live regions, each a list of values of its own that belongs to the frame in which it
was allocated. A frame that is left takes the regions that belong to it along.
-/

namespace CapabilityMachine

/-- A part of memory that is handed out at once. -/
structure Region where
  /-- The number of frames that were open when the region was allocated. -/
  frame : Nat
  values : List Value

/-- Memory as a list of regions. -/
structure RegionStack where
  capacity : Nat
  /-- The live regions, in the order of allocation. The slot of a region is its place here. -/
  regions : List Region := []
  /-- The number of open frames. -/
  frames : Nat := 0
  /-- The current generation of each slot that was ever used. -/
  generations : List UInt32 := []

namespace Region

/-- The place of the offset in the region. -/
def index (region : Region) (offset : Int64) : Except RuntimeError (Fin region.values.length) :=
  if inside : 0 ≤ offset.toInt ∧ offset.toInt < region.values.length then
    .ok ⟨offset.toInt.toNat, by omega⟩
  else .error (.outOfBounds offset region.values.length)

end Region

namespace RegionStack

/-- The cells of all live regions, in the order of allocation. -/
def cells (stack : RegionStack) : List Value :=
  stack.regions.flatMap Region.values

/-- The number of cells in all regions. -/
def used (stack : RegionStack) : Nat :=
  (stack.regions.map (·.values.length)).sum

/-- How many of the regions were there when each of the first frames was entered, innermost
first. -/
def marksOf (regions : List Region) : Nat → List Nat
  | 0 => []
  | frame + 1 => regions.countP (·.frame ≤ frame) :: marksOf regions frame

/-- The number of regions that were live when each open frame was entered, innermost first. -/
def marks (stack : RegionStack) : List Nat :=
  marksOf stack.regions stack.frames

/-- The reference names a slot below the number of live regions, with the slot's current
generation. -/
def Accepts (stack : RegionStack) (reference : Reference) : Prop :=
  reference.slot.toNat < stack.regions.length ∧
    stack.generations[reference.slot.toNat]? = some reference.generation

instance (stack : RegionStack) (reference : Reference) : Decidable (stack.Accepts reference) :=
  inferInstanceAs (Decidable (_ ∧ _))

/-- The region that an accepted reference names. -/
def region (stack : RegionStack) (reference : Reference) : Except RuntimeError Region :=
  if accepted : stack.Accepts reference then .ok (stack.regions.get ⟨_, accepted.1⟩)
  else .error (.danglingReference reference)

/-- The generation of the next region. -/
def nextGeneration (stack : RegionStack) : UInt32 :=
  match stack.generations[stack.regions.length]? with
  | some last => last + 1
  | none => 0

/-- Performs an operation on the stack of regions. -/
def perform (stack : RegionStack) :
    Memory.Operation → Except RuntimeError (Memory.Answer × RegionStack)
  | .alloc length =>
    let slot := stack.regions.length
    if stack.used + length ≤ stack.capacity ∧ slot < UInt32.size then
      .ok (.reference ⟨UInt32.ofNat slot, stack.nextGeneration⟩,
        { stack with
          regions := stack.regions ++ [⟨stack.frames, List.replicate length .unit⟩]
          generations := stack.generations.take slot ++
            stack.nextGeneration :: stack.generations.drop (slot + 1) })
    else .error (.outOfMemory length (stack.capacity - stack.used))
  | .read reference offset => do
    let region ← stack.region reference
    let index ← region.index offset
    return (.value (region.values.get index), stack)
  | .write reference offset value => do
    let region ← stack.region reference
    let index ← region.index offset
    let written : Region := { region with values := region.values.set index value }
    return (.done, { stack with regions := stack.regions.set reference.slot.toNat written })
  | .regionLength reference => return (.length (← stack.region reference).values.length, stack)
  | .enterFrame => .ok (.done, { stack with frames := stack.frames + 1 })
  | .leaveFrame =>
    match stack.frames with
    | 0 => .error (.internal "no memory frame to leave")
    | frames + 1 =>
      .ok (.done, { stack with frames, regions := stack.regions.filter (·.frame ≤ frames) })

/-- Calls an operation on the stack of regions, which stays as it is if the operation fails. -/
def call (stack : RegionStack) (operation : Memory.Operation) :
    Except RuntimeError Memory.Answer × RegionStack :=
  Session.settle stack (stack.perform operation)

end RegionStack

/-! ### Regions and frames -/

namespace RegionStack

variable {regions : List Region} {frames frame : Nat}

/-- Regions lie in the order of their frames, none of which is closed. -/
def Ordered (regions : List Region) (frames : Nat) : Prop :=
  (regions.map Region.frame).Pairwise (· ≤ ·) ∧ ∀ region ∈ regions, region.frame ≤ frames

theorem Ordered.append (ordered : Ordered regions frames) (values : List Value) :
    Ordered (regions ++ [⟨frames, values⟩]) frames := by
  rcases ordered with ⟨sorted, bounded⟩
  constructor
  · simp only [List.map_append, List.map_cons, List.map_nil]
    apply List.pairwise_append.2
    refine ⟨sorted, List.pairwise_singleton _ _, ?_⟩
    intro first isFrame last isLast
    rcases List.mem_map.1 isFrame with ⟨region, member, rfl⟩
    simp only [List.mem_singleton] at isLast
    subst isLast
    exact bounded region member
  · intro region member
    rcases List.mem_append.1 member with old | new
    · exact bounded region old
    · simp only [List.mem_singleton] at new
      subst new
      exact Nat.le_refl _

theorem Ordered.enter (ordered : Ordered regions frames) : Ordered regions (frames + 1) :=
  ⟨ordered.1, fun region member => Nat.le_succ_of_le (ordered.2 region member)⟩

/-- The regions of the first frames are in front. -/
theorem filter_eq_take (sorted : (regions.map Region.frame).Pairwise (· ≤ ·)) (frame : Nat) :
    regions.filter (·.frame ≤ frame) = regions.take (regions.countP (·.frame ≤ frame)) := by
  induction regions with
  | nil => rfl
  | cons region rest ih =>
    rw [List.map_cons, List.pairwise_cons] at sorted
    rcases sorted with ⟨first, sorted⟩
    by_cases below : region.frame ≤ frame
    · simp [below, ih sorted]
    · have none_below : ∀ other ∈ rest, ¬other.frame ≤ frame := by
        intro other member
        have := first other.frame (List.mem_map_of_mem member)
        omega
      have none_kept : rest.filter (·.frame ≤ frame) = [] := by
        simpa using none_below
      have none_counted : rest.countP (·.frame ≤ frame) = 0 := by
        simpa using none_below
      simp [below, none_kept, none_counted]

theorem take_flatMap (regions : List Region) (count : Nat) :
    (regions.flatMap Region.values).take ((regions.take count).flatMap Region.values).length =
      (regions.take count).flatMap Region.values := by
  have split_eq : regions.flatMap Region.values =
      (regions.take count).flatMap Region.values ++ (regions.drop count).flatMap Region.values := by
    rw [← List.flatMap_append, List.take_append_drop]
  rw [split_eq, List.take_left]

theorem Ordered.filter (ordered : Ordered regions (frames + 1)) :
    Ordered (regions.filter (·.frame ≤ frames)) frames := by
  constructor
  · exact ordered.1.sublist (List.filter_sublist.map _)
  · intro region member
    simpa using (List.mem_filter.1 member).2

theorem marksOf_append (values : List Value) (le : frame ≤ frames) :
    marksOf (regions ++ [⟨frames, values⟩]) frame = marksOf regions frame := by
  induction frame with
  | zero => rfl
  | succ frame ih =>
    have outside : ¬frames ≤ frame := by omega
    simp [marksOf, ih (by omega), outside]

theorem marksOf_filter (le : frame ≤ frames + 1) :
    marksOf (regions.filter (·.frame ≤ frames)) frame = marksOf regions frame := by
  induction frame with
  | zero => rfl
  | succ frame ih =>
    have both (region : Region) :
        (decide (region.frame ≤ frame) && decide (region.frame ≤ frames)) =
          decide (region.frame ≤ frame) := by
      rw [Bool.and_eq_left_iff_imp]
      simp only [decide_eq_true_eq]
      omega
    simp only [marksOf, ih (by omega), List.countP_filter, both]

theorem marksOf_set {front back : List Region} {region written : Region}
    (same : written.frame = region.frame) (frame : Nat) :
    marksOf (front ++ written :: back) frame = marksOf (front ++ region :: back) frame := by
  induction frame with
  | zero => rfl
  | succ frame ih => simp [marksOf, ih, List.countP_append, List.countP_cons, same]

theorem Ordered.set {front back : List Region} {region written : Region}
    (ordered : Ordered (front ++ region :: back) frames) (same : written.frame = region.frame) :
    Ordered (front ++ written :: back) frames := by
  rcases ordered with ⟨sorted, bounded⟩
  constructor
  · simpa [same] using sorted
  · simp only [List.forall_mem_append, List.forall_mem_cons] at bounded ⊢
    rw [same]
    exact bounded

end RegionStack

end CapabilityMachine
