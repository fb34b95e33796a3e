import CapabilityMachine.RuntimeError
/-!
# Memory

A bounded sequence of cells, handed out in regions. Regions are allocated at the end and released in
bulk, when the frame that allocated them is left. A reference names the slot of a region and the
generation that the slot had when the region was allocated; a slot gets a new generation whenever it
is used again, so that a reference to a released region is not taken for one to its successor.

Generations are 32-bit numbers and start over after the last one.
-/

namespace CapabilityMachine

/-- A place in the table of regions, with the region that was allocated there last. -/
structure Slot where
  start : Nat
  length : Nat
  generation : UInt32
deriving DecidableEq, Repr

/-- Memory cells, handed out in regions. -/
structure Memory where
  capacity : Nat
  /-- The cells of the live regions, in the order of allocation. -/
  cells : Array Value := #[]
  /-- All slots ever used. The first `live` of them hold the live regions. -/
  slots : Array Slot := #[]
  live : Nat := 0
  /-- The number of regions that were live when each open frame was entered, innermost first. -/
  marks : List Nat := []
deriving DecidableEq, Repr

namespace Memory

/-- The largest number of regions that references can tell apart. -/
def maxRegions : Nat := UInt32.size

/-- The number of cells in use. -/
def used (memory : Memory) : Nat :=
  memory.cells.size

/-- The number of open frames. -/
def frameDepth (memory : Memory) : Nat :=
  memory.marks.length

/-- The number of cells that may still be allocated. -/
def available (memory : Memory) : Nat :=
  memory.capacity - memory.used

/-- The generation of the next region. The slot of a released region goes one generation further,
and starts over behind the last one. -/
def nextGeneration (memory : Memory) : UInt32 :=
  match memory.slots[memory.live]? with
  | some previous => previous.generation + 1
  | none => 0

/-- Allocates a region of `length` cells that hold unit. -/
def alloc (memory : Memory) (length : Nat) : Except RuntimeError (Reference × Memory) :=
  if memory.available < length ∨ maxRegions ≤ memory.live then
    .error (.outOfMemory length memory.available)
  else
    let slot : Slot := ⟨memory.used, length, memory.nextGeneration⟩
    .ok (⟨UInt32.ofNat memory.live, slot.generation⟩,
      { memory with
        cells := memory.cells ++ Array.replicate length Value.unit
        slots :=
          if memory.live < memory.slots.size then memory.slots.setIfInBounds memory.live slot
          else memory.slots.push slot
        live := memory.live + 1 })

/-- The slot of the live region that the reference names. -/
def slot (memory : Memory) (reference : Reference) : Except RuntimeError Slot :=
  let index := reference.slot.toNat
  match memory.slots[index]? with
  | some slot =>
    if index < memory.live ∧ slot.generation = reference.generation then .ok slot
    else .error (.danglingReference reference)
  | none => .error (.danglingReference reference)

/-- The index of the cell at the offset in the region that the reference names. -/
def cellIndex (memory : Memory) (reference : Reference) (offset : Int64) :
    Except RuntimeError Nat := do
  let slot ← memory.slot reference
  if 0 ≤ offset.toInt ∧ offset.toInt < slot.length then
    return slot.start + offset.toInt.toNat
  else
    .error (.outOfBounds offset slot.length)

/-- The number of cells in the region of a reference. -/
def regionLength (memory : Memory) (reference : Reference) : Except RuntimeError Nat := do
  return (← memory.slot reference).length

/-- The value in the cell at an offset in the region of a reference. -/
def read (memory : Memory) (reference : Reference) (offset : Int64) :
    Except RuntimeError Value := do
  let index ← memory.cellIndex reference offset
  return memory.cells[index]?.getD .unit

/-- Puts a value into the cell at an offset in the region of a reference. -/
def write (memory : Memory) (reference : Reference) (offset : Int64) (value : Value) :
    Except RuntimeError Memory := do
  let index ← memory.cellIndex reference offset
  return { memory with cells := memory.cells.setIfInBounds index value }

/-- Opens a frame, to which the regions belong that are allocated until it is left. -/
def enterFrame (memory : Memory) : Memory :=
  { memory with marks := memory.live :: memory.marks }

/-- Closes the innermost frame and releases its regions. -/
def leaveFrame (memory : Memory) : Except RuntimeError Memory :=
  match memory.marks with
  | [] => .error (.internal "no memory frame to leave")
  | mark :: marks =>
    let closed := { memory with marks }
    match memory.slots[mark]? with
    | some slot =>
      if mark < memory.live then
        .ok { closed with cells := memory.cells.take slot.start, live := mark }
      else
        .ok closed
    | none => .ok closed

end Memory

end CapabilityMachine
