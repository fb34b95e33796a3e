import CapabilityMachine.Proofs.Host.Offer
import CapabilityMachine.Proofs.Session
/-!
# The gate before host actions

A registry stands between a run and the actions of its host. Whatever was asked of it before, an
action is performed for a call exactly if the terms of the registry admit the call, and then it is
the action under the id of the call, once. Any other call changes nothing.
-/

namespace CapabilityMachine

open Outcome

variable {α ω : Type} [HostAction α ω]

namespace HostConfig

/-- The ways to change what a host offers. -/
inductive Change (α : Type) where
  | register (id : CapabilityId) (action : α)
  | grant (id : CapabilityId)
  | registerGranted (id : CapabilityId) (action : α)

/-- Makes one change. -/
def apply (config : HostConfig α) : Change α → Except RuntimeError (HostConfig α)
  | .register id action => config.register id action
  | .grant id => config.grant id
  | .registerGranted id action => config.registerGranted id action

/-- Makes one change, or leaves everything as it is if that fails. -/
def change (config : HostConfig α) (change : Change α) : Except RuntimeError Unit × HostConfig α :=
  Session.settle config ((config.apply change).map fun next => ((), next))

/-- What a host offers after the changes, some of which may have failed. -/
def built (changes : List (Change α)) : HostConfig α :=
  (Session.run change {} changes).2

variable {config next : HostConfig α} {id : CapabilityId} {action : α}

theorem Faithful.register (faithful : config.Faithful)
    (registered : config.register id action = .ok next) : next.Faithful := by
  rw [HostConfig.register, ite_error_eq_ok] at registered
  cases registered.2
  exact faithful.insert id rfl

theorem Faithful.grant (faithful : config.Faithful) (granted : config.grant id = .ok next) :
    next.Faithful := by
  rw [HostConfig.grant] at granted
  split at granted
  · cases granted
    exact faithful
  · cases granted

theorem Supplied.register (supplied : config.Supplied)
    (registered : config.register id action = .ok next) : next.Supplied := by
  rw [HostConfig.register, ite_error_eq_ok] at registered
  cases registered.2
  intro other granted
  exact IdTable.contains_insert.2 (Or.inr (supplied other granted))

theorem Supplied.grant (supplied : config.Supplied) (granted : config.grant id = .ok next) :
    next.Supplied := by
  rw [HostConfig.grant] at granted
  split at granted
  · rename_i isRegistered
    cases granted
    intro other isGranted
    rcases IdTable.contains_insert.1 isGranted with rfl | before
    · exact isRegistered
    · exact supplied other before
  · cases granted

/-- What holds at first and is kept by registering actions and granting ids holds of whatever a host
offers. -/
theorem built_induction {motive : HostConfig α → Prop} (base : motive {})
    (registered : ∀ {config next : HostConfig α} {id : CapabilityId} {action : α}, motive config →
      config.register id action = .ok next → motive next)
    (granted : ∀ {config next : HostConfig α} {id : CapabilityId}, motive config →
      config.grant id = .ok next → motive next)
    (changes : List (Change α)) : motive (built changes) := by
  apply Session.run_induction motive base
  intro config change holds
  rw [HostConfig.change]
  cases applied : config.apply change with
  | error error => exact holds
  | ok next =>
    show motive next
    cases change with
    | register id action => exact registered holds applied
    | grant id => exact granted holds applied
    | registerGranted id action =>
      rw [apply, registerGranted, bind_eq_ok] at applied
      rcases applied with ⟨between, isRegistered, isGranted⟩
      exact granted (registered holds isRegistered) isGranted

theorem faithful_built (changes : List (Change α)) : (built changes).Faithful :=
  built_induction nofun Faithful.register Faithful.grant changes

/-- Whatever a host does to its offer, every id that is granted has an action. -/
theorem supplied_built (changes : List (Change α)) : (built changes).Supplied :=
  built_induction nofun Supplied.register Supplied.grant changes

end HostConfig

namespace Registry

/-- What can be asked of a registry. -/
inductive Call where
  | issue (id : CapabilityId)
  | resolve (handle : Handle)
  | invoke (handle : Handle) (arguments : List Value)
  | invokeId (id : CapabilityId) (arguments : List Value)

/-- What a call that succeeds is answered with. -/
inductive Answer (α : Type) where
  | handle (handle : Handle)
  | action (action : α)
  | value (value : Value)
deriving DecidableEq

/-- The handle and the arguments of a call that asks for an action to be performed. -/
def Call.request (token : Token) : Call → Option (Handle × List Value)
  | .issue _ | .resolve _ => none
  | .invoke handle arguments => some (handle, arguments)
  | .invokeId id arguments => some (⟨id, token⟩, arguments)

/-- Answers a call. -/
def answer (state : Registry α × ω) :
    Call → Except RuntimeError (Answer α) × (Registry α × ω)
  | .issue id => ((state.1.issue id).map .handle, state)
  | .resolve handle => ((state.1.resolve handle).map .action, state)
  | .invoke handle arguments =>
    let response := state.1.invoke handle arguments state.2
    (response.outcome.map .value, response.next, response.world)
  | .invokeId id arguments =>
    let response := state.1.invokeId id arguments state.2
    (response.outcome.map .value, response.next, response.world)

/-- The action under the id was performed on the arguments, and nothing else was. A result is passed
on if it is plain and of the declared kind, and every failure is one of the capability. -/
def Performs (before : Registry α × ω) (id : CapabilityId) (arguments : List Value)
    (answer : Except RuntimeError (Answer α)) (after : Registry α × ω) : Prop :=
  ∃ registration, before.1.config.registrations.find? id = some registration ∧
    let response := HostAction.perform registration.action arguments before.2
    after.2 = response.world ∧
      after.1.config.registrations.find? id =
        some { registration with action := response.next } ∧
      (∀ other, other ≠ id → after.1.config.registrations.find? other =
        before.1.config.registrations.find? other) ∧
      (∀ result, answer = .ok result ↔ ∃ value, result = .value value ∧
        response.outcome = .ok value ∧ value.IsPlain ∧
          registration.signature.returns.Admits value) ∧
      ∀ error, answer = .error error → ∃ blamed reason, error = .capabilityError blamed reason

/-- What a call comes to on the terms of the registry. -/
inductive Gates (offer : Offer) (before : Registry α × ω) :
    Call → Except RuntimeError (Answer α) → Registry α × ω → Prop where
  | issued {id : CapabilityId} (granted : id ∈ offer.granted) :
    Gates offer before (.issue id) (.ok (.handle ⟨id, offer.token⟩)) before
  | notIssued {id : CapabilityId} (notGranted : id ∉ offer.granted) :
    Gates offer before (.issue id) (.error (.capabilityDenied id)) before
  | resolved {handle : Handle} {registration : Registration α} (honors : offer.Honors handle)
    (found : before.1.config.registrations.find? handle.id = some registration) :
    Gates offer before (.resolve handle) (.ok (.action registration.action)) before
  | notResolved {handle : Handle} {error : RuntimeError} (rejects : offer.Rejects handle error) :
    Gates offer before (.resolve handle) (.error error) before
  | refused {call : Call} {handle : Handle} {arguments : List Value} {error : RuntimeError}
    (request : call.request offer.token = some (handle, arguments))
    (refuses : offer.Refuses handle arguments error) :
    Gates offer before call (.error error) before
  | performed {call : Call} {handle : Handle} {arguments : List Value}
    {answer : Except RuntimeError (Answer α)} {after : Registry α × ω}
    (request : call.request offer.token = some (handle, arguments))
    (admits : offer.Admits handle arguments)
    (performs : Performs before handle.id arguments answer after) :
    Gates offer before call answer after

variable {registry : Registry α} {world : ω} {handle : Handle} {id : CapabilityId}
  {arguments : List Value}

theorem checkOutcome_eq_ok {signature : Signature} {outcome : Except RuntimeError Value}
    {value : Value} :
    checkOutcome signature id outcome = .ok value ↔
      outcome = .ok value ∧ value.IsPlain ∧ signature.returns.Admits value := by
  cases outcome with
  | error error => simp [checkOutcome]
  | ok result =>
    simp only [checkOutcome, check_bind_eq_ok, Signature.checkResult_eq_ok, pure_eq_ok,
      Except.ok.injEq]
    constructor
    · rintro ⟨allowed, rfl⟩
      exact ⟨rfl, allowed⟩
    · rintro ⟨rfl, allowed⟩
      exact ⟨allowed, rfl⟩

/-- To invoke an id is to invoke the registry's own handle for it. -/
theorem invokeId_eq (registry : Registry α) (id : CapabilityId) (arguments : List Value)
    (world : ω) :
    registry.invokeId id arguments world =
      registry.invoke ⟨id, registry.token⟩ arguments world := by
  rw [invokeId, issue]
  by_cases granted : registry.isGranted id = true
  · rw [if_pos granted]
  · simp only [if_neg granted, invoke, resolve, if_true, grantedRegistration, Except.map]

theorem answer_invokeId (state : Registry α × ω) (id : CapabilityId) (arguments : List Value) :
    answer state (.invokeId id arguments) =
      answer state (.invoke ⟨id, state.1.token⟩ arguments) := by
  simp only [answer, invokeId_eq]

theorem invoke_offer (registry : Registry α) (handle : Handle) (arguments : List Value)
    (world : ω) : (registry.invoke handle arguments world).next.offer = registry.offer := by
  rcases registry.invoke_cases handle arguments world with
    ⟨error, same, _⟩ | ⟨_, action, signature, response, performed⟩
  · rw [same]
  · rw [performed]
    exact offer_withAction _ _ _

/-- Performing actions leaves the terms of the registry as they are. -/
theorem offer_answer (state : Registry α × ω) (call : Call) :
    (answer state call).2.1.offer = state.1.offer := by
  cases call with
  | issue id | resolve handle => rfl
  | invoke handle arguments => exact state.1.invoke_offer handle arguments state.2
  | invokeId id arguments =>
    rw [answer_invokeId]
    exact state.1.invoke_offer _ arguments state.2

/-- No call leaves a granted id without an action. -/
theorem supplied_answer (supplied : registry.config.Supplied) (world : ω) (call : Call) :
    (answer (registry, world) call).2.1.config.Supplied := by
  cases call with
  | issue id | resolve handle => exact supplied
  | invoke handle arguments => exact invoke_supplied supplied
  | invokeId id arguments =>
    rw [answer_invokeId]
    exact invoke_supplied supplied

variable [LawfulHostAction α]

theorem performs_withAction {registration : Registration α}
    (found : registry.config.registrations.find? id = some registration)
    (faithful : registration.signature = HostAction.signature registration.action)
    (arguments : List Value) (world : ω) :
    let response := HostAction.perform registration.action arguments world
    Performs (registry, world) id arguments
      ((checkOutcome (HostAction.signature response.next) id response.outcome).map .value)
      (registry.withAction id response.next, response.world) := by
  refine ⟨registration, found, rfl, ?_, ?_, ?_, ?_⟩
  · simp only [withAction, found, IdTable.find?_insert_self]
  · intro other differs
    simp only [withAction, found, IdTable.find?_insert_of_ne _ _ differs]
  · intro result
    rw [LawfulHostAction.signature_next, ← faithful, map_eq_ok]
    simp only [checkOutcome_eq_ok]
    constructor
    · rintro ⟨value, allowed, rfl⟩
      exact ⟨value, rfl, allowed⟩
    · rintro ⟨value, rfl, allowed⟩
      exact ⟨value, allowed, rfl⟩
  · intro error failed
    exact checkOutcome_error (map_eq_error.1 failed)

theorem gates_invoke (faithful : registry.config.Faithful) (supplied : registry.config.Supplied)
    {call : Call}
    (request : call.request registry.token = some (handle, arguments)) :
    let response := registry.invoke handle arguments world
    Gates registry.offer (registry, world) call (response.outcome.map .value)
      (response.next, response.world) := by
  cases resolved : registry.resolve handle with
  | error error =>
    simp only [invoke, resolved]
    exact Gates.refused request (Offer.Refuses.handle (resolve_rejects supplied resolved))
  | ok action =>
    rcases exists_registration_of_resolve resolved with ⟨honors, registration, found, rfl⟩
    have signature_eq := faithful _ _ found
    cases checked :
        (HostAction.signature registration.action).checkArguments handle.id arguments with
    | error error =>
      simp only [invoke, resolved, checked]
      rcases Signature.checkArguments_error checked with ⟨reason, rfl⟩
      have in_catalog : registry.offer.catalog.find? handle.id = some registration.signature := by
        rw [find?_catalog_offer, found]
        rfl
      have misfit : ¬registration.signature.Fits arguments := by
        rw [signature_eq]
        intro fits
        cases checked.symm.trans (Signature.checkArguments_eq_ok.2 fits)
      exact Gates.refused request (Offer.Refuses.arguments honors in_catalog misfit reason)
    | ok done =>
      simp only [invoke, resolved, checked]
      apply Gates.performed request
      · exact (admits_iff_permits faithful).2 ⟨_, resolved, checked⟩
      · exact performs_withAction found signature_eq arguments world

theorem gates_answer (faithful : registry.config.Faithful) (supplied : registry.config.Supplied)
    (call : Call) :
    Gates registry.offer (registry, world) call (answer (registry, world) call).1
      (answer (registry, world) call).2 := by
  cases call with
  | issue id =>
    rw [answer]
    cases issued : registry.issue id with
    | ok handle =>
      rcases issue_eq_ok.1 issued with ⟨granted, rfl⟩
      exact Gates.issued (mem_grantedIds.2 granted)
    | error error =>
      rcases issue_error issued with ⟨notGranted, rfl⟩
      exact Gates.notIssued (not_mem_granted_offer notGranted)
  | resolve handle =>
    rw [answer]
    cases resolved : registry.resolve handle with
    | ok action =>
      rcases exists_registration_of_resolve resolved with ⟨honors, registration, found, rfl⟩
      exact Gates.resolved honors found
    | error error => exact Gates.notResolved (resolve_rejects supplied resolved)
  | invoke handle arguments => exact gates_invoke faithful supplied rfl
  | invokeId id arguments =>
    rw [answer_invokeId]
    exact gates_invoke faithful supplied rfl

theorem Performs.faithful {before after : Registry α × ω}
    {answer : Except RuntimeError (Answer α)} (performs : Performs before id arguments answer after)
    (faithful : before.1.config.Faithful) : after.1.config.Faithful := by
  rcases performs with ⟨registration, found, _, performed, others, _, _⟩
  intro key other isRegistered
  by_cases same : key = id
  · subst same
    cases performed.symm.trans isRegistered
    dsimp only
    rw [LawfulHostAction.signature_next]
    exact faithful _ _ found
  · rw [others key same] at isRegistered
    exact faithful key other isRegistered

/-- Registrations show the signatures of their actions as long as actions keep them. -/
theorem Gates.faithful {offer : Offer} {before after : Registry α × ω} {call : Call}
    {answer : Except RuntimeError (Answer α)} (gates : Gates offer before call answer after)
    (faithful : before.1.config.Faithful) : after.1.config.Faithful := by
  cases gates with
  | issued | notIssued | resolved | notResolved | refused => exact faithful
  | performed request admits performs => exact performs.faithful faithful

end Registry

end CapabilityMachine
