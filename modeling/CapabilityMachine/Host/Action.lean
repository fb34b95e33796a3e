import CapabilityMachine.Host.Signature
/-!
# Host actions

A host action is what stands behind a capability: something with a declared call shape that can be
performed on arguments. Performing it may fail, may change the action itself, as a clock moves on or
a random stream is drawn from, and may change the world that all actions of a host share, such as
the text on a console.

The class leaves open what the actions and the world are, and how an action answers. That performing
an action leaves its signature as it is holds of the actions of this library, and is asked for in a
class of its own.
-/

namespace CapabilityMachine

/-- What came of an operation on something in a world: its result, and what the thing and the world
are afterwards. -/
structure Response (α ω : Type) where
  outcome : Except RuntimeError Value
  next : α
  world : ω

/-- Things that can be performed as host actions in a world. -/
class HostAction (α : Type) (ω : outParam Type) where
  signature : α → Signature
  perform : α → List Value → ω → Response α ω

/-- Host actions whose signature stays the same. -/
class LawfulHostAction (α : Type) {ω : outParam Type} [HostAction α ω] : Prop where
  /-- Performing an action leaves its signature as it is. -/
  signature_next : ∀ (action : α) (arguments : List Value) (world : ω),
    HostAction.signature (HostAction.perform action arguments world).next =
      HostAction.signature action

namespace HostAction

variable {α β ω : Type}

/-- The action's signature in the form in which registries show their actions. -/
def describe [HostAction α ω] (action : α) : String :=
  s!"HostAction({signature action})"

/-- Two sorts of action in the same world can be used side by side. -/
instance [HostAction α ω] [HostAction β ω] : HostAction (α ⊕ β) ω where
  signature
    | .inl action => signature action
    | .inr action => signature action
  perform action arguments world :=
    match action with
    | .inl action =>
      let response := perform action arguments world
      ⟨response.outcome, .inl response.next, response.world⟩
    | .inr action =>
      let response := perform action arguments world
      ⟨response.outcome, .inr response.next, response.world⟩

instance [HostAction α ω] [HostAction β ω] [LawfulHostAction α] [LawfulHostAction β] :
    LawfulHostAction (α ⊕ β) where
  signature_next action arguments world := by
    cases action with
    | inl action => exact LawfulHostAction.signature_next action arguments world
    | inr action => exact LawfulHostAction.signature_next action arguments world

end HostAction

end CapabilityMachine
