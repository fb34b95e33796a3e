import CapabilityMachine.Machine.Basic
/-!
# Snapshots

What can be observed of a machine between two steps. The tokens of registries cannot: two runs of
one program whose capabilities answer alike look the same after every step, although each run has a
registry of its own.
-/

namespace CapabilityMachine

variable {α ω : Type}

/-- The observable state of a machine. -/
structure Snapshot where
  position : Nat
  status : Status
  /-- The operand stack, from bottom to top. -/
  stack : List Value
  /-- The live memory cells, in the order of their allocation. -/
  cells : List Value
  /-- The return indices of the active calls, innermost first. -/
  frames : List Nat
deriving DecidableEq, Repr

namespace Snapshot

/-- The lists are equally long, and their values look the same from outside at every place. -/
def SameValues : List Value → List Value → Prop
  | [], [] => True
  | first :: firsts, second :: seconds => first.ObservablyEq second ∧ SameValues firsts seconds
  | _, _ => False

instance instDecidableSameValues : (firsts seconds : List Value) →
    Decidable (SameValues firsts seconds)
  | [], [] => isTrue trivial
  | [], _ :: _ => isFalse id
  | _ :: _, [] => isFalse id
  | first :: firsts, second :: seconds =>
    have := instDecidableSameValues firsts seconds
    inferInstanceAs (Decidable (first.ObservablyEq second ∧ SameValues firsts seconds))

/-- Two snapshots look the same from outside. -/
def ObservablyEq (first second : Snapshot) : Prop :=
  first.position = second.position ∧ first.status = second.status ∧ first.frames = second.frames
    ∧ SameValues first.stack second.stack ∧ SameValues first.cells second.cells

instance (first second : Snapshot) : Decidable (first.ObservablyEq second) :=
  inferInstanceAs (Decidable (_ ∧ _))

end Snapshot

/-- What can be observed of the machine. -/
def Machine.snapshot (machine : Machine α ω) : Snapshot where
  position := machine.position
  status := machine.status
  stack := machine.core.stack.toList
  cells := machine.core.memory.cells.toList
  frames := machine.core.frames

end CapabilityMachine
