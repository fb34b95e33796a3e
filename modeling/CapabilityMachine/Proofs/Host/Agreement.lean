import CapabilityMachine.Machine.Snapshot
import CapabilityMachine.Proofs.Machine.Restamp
/-!
# Hosts that agree

Two registries that differ in their tokens, and in whatever their actions do inside, are alike to a
program as long as they grant the same capabilities, their actions have the same signatures, and
actions that are performed for the same capability with arguments that look the same come to
outcomes that look the same.
-/

namespace CapabilityMachine

open Outcome

/-- Two outcomes look the same from outside a run. -/
def Outcome.Alike : Except RuntimeError Value → Except RuntimeError Value → Prop
  | .ok value, .ok other => value.ObservablyEq other
  | .error error, .error other => error = other
  | _, _ => False

namespace Signature

/-- Arguments are checked for their number and their kinds only. -/
theorem checkArguments_restamp (signature : Signature) (blamed : CapabilityId) (token : Token)
    (arguments : List Value) :
    signature.checkArguments blamed (arguments.map (Value.restamp token)) =
      signature.checkArguments blamed arguments := by
  have admits (param : Param) (value : Value) :
      param.Admits (value.restamp token) ↔ param.Admits value := by
    cases param with
    | any => rfl
    | exactly kind => simp only [Param.Admits, Value.kind_restamp]
  have sameProblem :
      ((fun entry : (Param × Value) × Nat => decide ¬entry.1.1.Admits entry.1.2) ∘
        Prod.map (Prod.map id (Value.restamp token)) id) =
      fun entry => decide ¬entry.1.1.Admits entry.1.2 := by
    funext entry
    simp [admits]
  simp only [checkArguments, List.length_map, List.zip_map_right, List.zipIdx_map, List.find?_map,
    sameProblem]
  split
  · rfl
  · cases (signature.params.zip arguments).zipIdx.find? _ with
    | none => rfl
    | some entry => simp

end Signature

namespace Registry

variable {α : Type} {registry : Registry α} {handle : Handle}

/-- Of a result only its kind is checked. -/
theorem checkOutcome_of_alike (signature : Signature) (id : CapabilityId)
    {outcome other : Except RuntimeError Value} (alike : Outcome.Alike outcome other) :
    checkOutcome signature id other = checkOutcome signature id outcome := by
  cases outcome with
  | error error =>
    cases other with
    | error otherError =>
      cases alike
      rfl
    | ok other => exact False.elim alike
  | ok value =>
    cases other with
    | error otherError => exact False.elim alike
    | ok other =>
      cases value with
      | cap handle =>
        cases other with
        | cap otherHandle => rfl
        | int | bool | ref | unit => cases alike
      | int | bool | ref | unit =>
        cases alike
        rfl

theorem resolve_eq_ok {action : α} :
    registry.resolve handle = .ok action ↔
      handle.token = registry.token ∧ ∃ registration,
        registry.grantedRegistration handle.id = .ok registration ∧
          registration.action = action := by
  rw [resolve]
  split
  · rename_i same
    cases registry.grantedRegistration handle.id with
    | error error => simp [Except.map]
    | ok registration => simp [Except.map, same]
  · rename_i differs
    simp [differs]

end Registry

variable {α β ω υ : Type} [HostAction α ω] [HostAction β υ]

/-- Two actions were performed with outcomes that look the same, and have the same signature
afterwards. -/
structure Response.Alike (response : Response α ω) (other : Response β υ) : Prop where
  outcome : Outcome.Alike response.outcome other.outcome
  signature_eq : HostAction.signature other.next = HostAction.signature response.next

/-- The registry has the action behind the handle performed on the arguments, with the response. -/
def Registry.Answers (registry : Registry α) (handle : Handle) (arguments : List Value) (world : ω)
    (response : Response α ω) : Prop :=
  ∃ action, registry.resolve handle = .ok action ∧
    (HostAction.signature action).checkArguments handle.id arguments = .ok () ∧
    response = HostAction.perform action arguments world

/-- The signature that the action under an id has now. -/
def Registry.actionSignature? (registry : Registry α) (id : CapabilityId) : Option Signature :=
  (registry.config.registrations.find? id).map fun registration =>
    HostAction.signature registration.action

/-- The registries grant the same capabilities, and what is behind them has the same signatures. -/
structure Registry.OffersSame (registry : Registry α) (other : Registry β) : Prop where
  isGranted_eq : ∀ id, other.isGranted id = registry.isGranted id
  signature_eq : ∀ id, registry.isGranted id = true →
    other.actionSignature? id = registry.actionSignature? id

namespace Registry

variable {registry : Registry α} {other : Registry β} {handle : Handle} {arguments : List Value}
  {world : ω} {otherWorld : υ}

theorem actionSignature?_eq_some {id : CapabilityId} {signature : Signature} :
    registry.actionSignature? id = some signature ↔ ∃ registration,
      registry.config.registrations.find? id = some registration ∧
        HostAction.signature registration.action = signature :=
  Option.map_eq_some_iff

theorem actionSignature?_eq_none {id : CapabilityId} :
    registry.actionSignature? id = none ↔ registry.config.registrations.find? id = none :=
  Option.map_eq_none_iff

theorem actionSignature?_withAction (registry : Registry α) (id : CapabilityId) (action : α)
    (found : CapabilityId) :
    (registry.withAction id action).actionSignature? found =
      if found = id then (registry.actionSignature? id).map fun _ => HostAction.signature action
      else registry.actionSignature? found := by
  rw [withAction]
  split
  · rename_i registration isRegistered
    split
    · rename_i same
      subst same
      simp only [actionSignature?, IdTable.find?_insert_self, isRegistered, Option.map_some]
    · rename_i differs
      simp only [actionSignature?, IdTable.find?_insert_of_ne _ _ differs]
  · rename_i absent
    split
    · rename_i same
      subst same
      simp only [actionSignature?, absent, Option.map_none]
    · rfl

theorem OffersSame.withAction (offers : registry.OffersSame other) {id : CapabilityId}
    (granted : registry.isGranted id = true) {action : α} {otherAction : β}
    (same : HostAction.signature otherAction = HostAction.signature action) :
    (registry.withAction id action).OffersSame (other.withAction id otherAction) := by
  constructor
  · intro found
    rw [withAction_isGranted, withAction_isGranted]
    exact offers.isGranted_eq found
  · intro found isGranted
    rw [withAction_isGranted] at isGranted
    rw [actionSignature?_withAction, actionSignature?_withAction, same,
      offers.signature_eq id granted, offers.signature_eq found isGranted]

/-- Registries that offer the same answer an invocation alike, if the actions behind them do. -/
theorem OffersSame.invoke (offers : registry.OffersSame other) (honors : registry.Honors handle)
    (alike : ∀ response otherResponse, registry.Answers handle arguments world response →
      other.Answers (handle.restamp other.token) (arguments.map (Value.restamp other.token))
        otherWorld otherResponse →
      response.Alike otherResponse) :
    let invoked := registry.invoke handle arguments world
    let otherInvoked := other.invoke (handle.restamp other.token)
      (arguments.map (Value.restamp other.token)) otherWorld
    otherInvoked.outcome = invoked.outcome ∧ invoked.next.OffersSame otherInvoked.next := by
  have otherHonors : other.Honors (handle.restamp other.token) :=
    ⟨rfl, (offers.isGranted_eq handle.id).trans honors.2⟩
  have same_signature := offers.signature_eq handle.id honors.2
  have id_eq : (handle.restamp other.token).id = handle.id := rfl
  cases isRegistered : registry.config.registrations.find? handle.id with
  | none =>
    rw [actionSignature?_eq_none.2 isRegistered, actionSignature?_eq_none] at same_signature
    simp only [Registry.invoke, resolve_of_absent honors isRegistered,
      resolve_of_absent otherHonors same_signature, id_eq, true_and]
    exact offers
  | some registration =>
    have resolved := resolve_of_found honors isRegistered
    rw [actionSignature?_eq_some.2 ⟨registration, isRegistered, rfl⟩,
      actionSignature?_eq_some] at same_signature
    rcases same_signature with ⟨otherRegistration, isOtherRegistered, signature_eq⟩
    have otherResolved := resolve_of_found otherHonors isOtherRegistered
    have checked_eq := Signature.checkArguments_restamp
      (HostAction.signature registration.action) handle.id other.token arguments
    simp only [Registry.invoke, resolved, otherResolved, signature_eq, id_eq, checked_eq]
    cases checked :
      (HostAction.signature registration.action).checkArguments handle.id arguments with
    | error error => exact ⟨rfl, offers⟩
    | ok done =>
      have otherChecked := checked_eq.trans checked
      rw [← signature_eq, ← id_eq] at otherChecked
      have responses := alike (HostAction.perform registration.action arguments world)
        (HostAction.perform otherRegistration.action (arguments.map (Value.restamp other.token))
          otherWorld)
        ⟨registration.action, resolved, checked, rfl⟩
        ⟨otherRegistration.action, otherResolved, otherChecked, rfl⟩
      refine ⟨?_, offers.withAction honors.2 responses.signature_eq⟩
      dsimp only
      rw [responses.signature_eq]
      exact checkOutcome_of_alike _ _ responses.outcome

end Registry

end CapabilityMachine
