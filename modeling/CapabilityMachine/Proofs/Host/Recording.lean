import CapabilityMachine.Host.Script
import CapabilityMachine.Proofs.Host.Gate
/-!
# Performances on record

What a registry has its actions perform becomes visible if every action is put on record when it is
performed, under the id at which it is registered. The record does not show in any answer, and it is
the list of the calls that the terms of the registry admit.
-/

namespace CapabilityMachine

open Outcome

/-- An action that was performed, by the id at which it is registered, and what it was given. -/
structure Performance where
  id : CapabilityId
  arguments : List Value
deriving DecidableEq

/-- An action that is put on record under its id whenever it is performed. -/
structure Recorded (α : Type) where
  id : CapabilityId
  action : α

variable {α β ω : Type}

instance [HostAction α ω] : HostAction (Recorded α) (ω × List Performance) where
  signature recorded := HostAction.signature recorded.action
  perform recorded arguments world :=
    let response := HostAction.perform recorded.action arguments world.1
    ⟨response.outcome, { recorded with action := response.next },
      (response.world, world.2 ++ [⟨recorded.id, arguments⟩])⟩

/-- The registration with its action on record. -/
def Registration.recorded (id : CapabilityId) (registration : Registration α) :
    Registration (Recorded α) :=
  { registration with action := ⟨id, registration.action⟩ }

/-- What calls on these terms have performed. -/
def Offer.performances (offer : Offer) (call : Registry.Call) : List Performance :=
  match call.request offer.token with
  | some (handle, arguments) =>
    if offer.Admits handle arguments then [⟨handle.id, arguments⟩] else []
  | none => []

namespace Registry

/-- The registry with all actions on record. -/
def recorded (registry : Registry α) : Registry (Recorded α) where
  token := registry.token
  config :=
    { registry.config with
      registrations := registry.config.registrations.mapEntries Registration.recorded }

/-- The answer with another action. -/
def Answer.map (change : α → β) : Answer α → Answer β
  | .handle issued => .handle issued
  | .action resolved => .action (change resolved)
  | .value result => .value result

variable {registry : Registry α} {handle : Handle} {arguments : List Value} {world : ω}

theorem grantedRegistration_recorded (registry : Registry α) (id : CapabilityId) :
    registry.recorded.grantedRegistration id =
      (registry.grantedRegistration id).map (Registration.recorded id) := by
  have isGranted_eq : registry.recorded.isGranted id = registry.isGranted id := rfl
  rw [grantedRegistration, grantedRegistration, isGranted_eq, recorded, IdTable.find?_mapEntries]
  split
  · cases registry.config.registrations.find? id <;> rfl
  · rfl

theorem issue_recorded (registry : Registry α) (id : CapabilityId) :
    registry.recorded.issue id = registry.issue id :=
  rfl

theorem resolve_recorded (registry : Registry α) (handle : Handle) :
    registry.recorded.resolve handle = (registry.resolve handle).map (Recorded.mk handle.id) := by
  rw [resolve, resolve, grantedRegistration_recorded]
  change (if handle.token = registry.token then _ else _) = _
  split
  · cases registry.grantedRegistration handle.id <;> rfl
  · rfl

theorem withAction_recorded (registry : Registry α) (id : CapabilityId) (action : α) :
    registry.recorded.withAction id ⟨id, action⟩ = (registry.withAction id action).recorded := by
  rw [withAction, withAction, recorded, IdTable.find?_mapEntries]
  cases registry.config.registrations.find? id with
  | none => rfl
  | some registration =>
    simp only [Option.map_some, recorded, IdTable.mapEntries_insert]
    rfl

variable [HostAction α ω]

/-- The record of an invocation shows what was performed, and nothing else is different: actions on
record have the signatures of the actions, so both invocations pass the same checks. -/
theorem invoke_recorded (registry : Registry α) (handle : Handle) (arguments : List Value)
    (world : ω) (record : List Performance) :
    let response := registry.invoke handle arguments world
    registry.recorded.invoke handle arguments (world, record) =
      ⟨response.outcome, response.next.recorded, (response.world, record ++
        if registry.Permits handle arguments then [⟨handle.id, arguments⟩] else [])⟩ := by
  by_cases permits : registry.Permits handle arguments
  · rcases permits with ⟨action, resolved, checked⟩
    have recorded_resolved : registry.recorded.resolve handle = .ok ⟨handle.id, action⟩ := by
      rw [resolve_recorded, resolved]
      rfl
    have recorded_checked : (HostAction.signature (Recorded.mk handle.id action)).checkArguments
        handle.id arguments = .ok () := checked
    rw [if_pos ⟨action, resolved, checked⟩]
    simp only [invoke, resolved, checked, recorded_resolved, recorded_checked,
      ← withAction_recorded]
    rfl
  · simp only [permits, if_false, List.append_nil]
    have resolved_eq := registry.resolve_recorded handle
    cases resolved : registry.resolve handle with
    | error error =>
      rw [resolved] at resolved_eq
      simp only [invoke, resolved, resolved_eq, Except.map]
    | ok action =>
      rw [resolved] at resolved_eq
      cases checked : (HostAction.signature action).checkArguments handle.id arguments with
      | ok done => exact absurd ⟨action, resolved, checked⟩ permits
      | error error =>
        have recorded_checked : (HostAction.signature (Recorded.mk handle.id action)).checkArguments
            handle.id arguments = .error error := checked
        simp only [invoke, resolved, checked, resolved_eq, Except.map, recorded_checked]

theorem performances_invoke (faithful : registry.config.Faithful) (handle : Handle)
    (arguments : List Value) :
    registry.offer.performances (.invoke handle arguments) =
      if registry.Permits handle arguments then [⟨handle.id, arguments⟩] else [] := by
  by_cases permits : registry.Permits handle arguments
  · rw [if_pos permits]
    exact if_pos ((admits_iff_permits faithful).2 permits)
  · rw [if_neg permits]
    exact if_neg (mt (admits_iff_permits faithful).1 permits)

/-- A call to the registry with all actions on record is answered like the call itself. -/
theorem answer_recorded (faithful : registry.config.Faithful) (world : ω)
    (record : List Performance) (call : Call) :
    let response := answer (registry, world) call
    let recorded := answer (registry.recorded, (world, record)) call
    recorded.1.map (Answer.map Recorded.action) = response.1 ∧
      recorded.2 = (response.2.1.recorded,
        (response.2.2, record ++ registry.offer.performances call)) := by
  have of_invoke (handle : Handle) (arguments : List Value) :
      let response := answer (registry, world) (.invoke handle arguments)
      let recorded := answer (registry.recorded, (world, record)) (.invoke handle arguments)
      recorded.1.map (Answer.map Recorded.action) = response.1 ∧
        recorded.2 = (response.2.1.recorded,
          (response.2.2, record ++ registry.offer.performances (.invoke handle arguments))) := by
    simp only [answer, invoke_recorded, performances_invoke faithful, and_true]
    cases (registry.invoke handle arguments world).outcome <;> rfl
  cases call with
  | issue id =>
    simp only [answer, issue_recorded, Offer.performances, Call.request, List.append_nil, and_true]
    cases registry.issue id <;> rfl
  | resolve handle =>
    simp only [answer, resolve_recorded, Offer.performances, Call.request, List.append_nil,
      and_true]
    cases registry.resolve handle <;> rfl
  | invoke handle arguments => exact of_invoke handle arguments
  | invokeId id arguments =>
    rw [answer_invokeId, answer_invokeId]
    exact of_invoke ⟨id, registry.token⟩ arguments

variable [LawfulHostAction α]

/-- The terms stay the same, so those of the beginning decide about every call. -/
theorem run_recorded (faithful : registry.config.Faithful) (supplied : registry.config.Supplied)
    (world : ω) (record : List Performance) (calls : List Call) :
    let ran := Session.run answer (registry, world) calls
    let recorded := Session.run answer (registry.recorded, (world, record)) calls
    recorded.1.map (Except.map (Answer.map Recorded.action)) = ran.1 ∧
      recorded.2 = (ran.2.1.recorded,
        (ran.2.2, record ++ calls.flatMap registry.offer.performances)) := by
  induction calls generalizing registry world record with
  | nil => simp [Session.run]
  | cons call rest ih =>
    rcases answer_recorded faithful world record call with ⟨same_answer, after⟩
    have later : (answer (registry, world) call).2.1.config.Faithful :=
      (gates_answer faithful supplied call).faithful faithful
    have stillSupplied := supplied_answer supplied world call
    have same_offer := offer_answer (registry, world) call
    have rest_same := ih later stillSupplied (answer (registry, world) call).2.2
      (record ++ registry.offer.performances call)
    rw [same_offer] at rest_same
    simp only [Session.run, List.map_cons, after, same_answer, List.flatMap_cons,
      ← List.append_assoc]
    exact ⟨by rw [rest_same.1], rest_same.2⟩

/-- A registry gates every effect of its host: whatever was configured and asked of it before, its
terms are those of the beginning, they decide what a call comes to, and the record shows the
admitted calls, in their order. -/
theorem gates_every_effect (changes : List (HostConfig.Change α)) (token : Token) (world : ω)
    (calls : List Call) (call : Call) :
    let registry : Registry α := ⟨token, HostConfig.built changes⟩
    let ran := Session.run answer (registry, world) calls
    let given := answer ran.2 call
    let recorded := Session.run answer (registry.recorded, (world, [])) calls
    ran.2.1.offer = registry.offer ∧ Gates registry.offer ran.2 call given.1 given.2 ∧
      recorded.1.map (Except.map (Answer.map Recorded.action)) = ran.1 ∧
      recorded.2.2 = (ran.2.2, calls.flatMap registry.offer.performances) := by
  intro registry ran given recorded
  have faithful : registry.config.Faithful := HostConfig.faithful_built changes
  have supplied : registry.config.Supplied := HostConfig.supplied_built changes
  have kept : (ran.2.1.config.Faithful ∧ ran.2.1.config.Supplied) ∧
      ran.2.1.offer = registry.offer := by
    apply Session.run_induction fun state : Registry α × ω =>
      (state.1.config.Faithful ∧ state.1.config.Supplied) ∧ state.1.offer = registry.offer
    · exact ⟨⟨faithful, supplied⟩, rfl⟩
    · rintro ⟨reached, reachedWorld⟩ input ⟨⟨faithful, supplied⟩, same⟩
      exact ⟨⟨(gates_answer faithful supplied input).faithful faithful,
        supplied_answer supplied reachedWorld input⟩, (offer_answer _ input).trans same⟩
  rcases kept with ⟨⟨stillFaithful, stillSupplied⟩, same⟩
  have gates : Gates ran.2.1.offer ran.2 call given.1 given.2 :=
    gates_answer stillFaithful stillSupplied call
  rw [same] at gates
  rcases run_recorded faithful supplied world [] calls with ⟨same_answers, recorded_eq⟩
  refine ⟨same, gates, same_answers, ?_⟩
  rw [recorded_eq]
  rfl

theorem gates_every_effect_of_scripts :
    let counter : ScriptedAction :=
      { signature := { name := "count", returns := .exactly .int }, script := .counter }
    let forger : ScriptedAction :=
      { signature := { name := "forge", returns := .any }, script := .const (.cap ⟨⟨3⟩, ⟨0⟩⟩) }
    let changes : List (HostConfig.Change ScriptedAction) :=
      [.register ⟨1⟩ counter, .grant ⟨1⟩, .register ⟨1⟩ forger, .grant ⟨9⟩,
        .registerGranted ⟨2⟩ forger, .register ⟨3⟩ counter]
    let registry : Registry ScriptedAction := ⟨⟨0⟩, HostConfig.built changes⟩
    let calls : List Call :=
      [.invokeId ⟨1⟩ [], .invoke ⟨⟨1⟩, ⟨7⟩⟩ [], .invokeId ⟨3⟩ [], .invokeId ⟨1⟩ [.unit],
        .invokeId ⟨2⟩ []]
    (Session.run answer (registry.recorded, (({} : World), [])) calls).2.2.2 =
      [⟨⟨1⟩, []⟩, ⟨⟨2⟩, []⟩] := by
  intro counter forger changes registry calls
  have gate := gates_every_effect changes ⟨0⟩ ({} : World) calls (.issue ⟨1⟩)
  rw [show (Session.run answer (registry.recorded, (({} : World), [])) calls).2.2 = _ from
    gate.2.2.2]
  decide

end Registry

end CapabilityMachine
