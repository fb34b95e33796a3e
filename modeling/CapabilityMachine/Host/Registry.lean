import CapabilityMachine.Host.Action
import CapabilityMachine.Host.IdTable
/-!
# Registries

Which capabilities a run may use. A host registers actions under ids and grants some of these ids. A
registration says which action it is, with the signature that it was registered with; the granted
ids are kept apart from the registrations. The registry of a run is made from both and a token of
its own. It issues handles for granted capabilities, and lets an action be performed only for a
handle that it issued itself and arguments that the action's signature admits.
-/

namespace CapabilityMachine

variable {α ω : Type}

/-- An action that a host knows. -/
structure Registration (α : Type) where
  action : α
  /-- The signature of the action when it was registered. -/
  signature : Signature

/-- The capabilities that a host offers to a run. -/
structure HostConfig (α : Type) where
  registrations : IdTable (Registration α) := ∅
  /-- The ids that the run may use. -/
  grants : IdSet := ∅

namespace HostConfig

/-- There is an action under the id. -/
def isRegistered (config : HostConfig α) (id : CapabilityId) : Bool :=
  config.registrations.contains id

/-- The run may use the id. -/
def isGranted (config : HostConfig α) (id : CapabilityId) : Bool :=
  config.grants.contains id

/-- Puts an action under an id that has none yet. The run may not use it for now. -/
def register [HostAction α ω] (config : HostConfig α) (id : CapabilityId) (action : α) :
    Except RuntimeError (HostConfig α) :=
  if config.isRegistered id then
    .error (.config s!"{id} registered twice")
  else
    let registration : Registration α := { action, signature := HostAction.signature action }
    .ok { config with registrations := config.registrations.insert id registration }

/-- Lets the run use an id that has an action. -/
def grant (config : HostConfig α) (id : CapabilityId) : Except RuntimeError (HostConfig α) :=
  if config.isRegistered id then
    .ok { config with grants := config.grants.insert id () }
  else
    .error (.config s!"cannot grant unregistered {id}")

/-- Puts an action under an id that has none yet, and lets the run use it. -/
def registerGranted [HostAction α ω] (config : HostConfig α) (id : CapabilityId) (action : α) :
    Except RuntimeError (HostConfig α) := do
  (← config.register id action).grant id

/-- The ids that the run may use, in their order. -/
def grantedIds (config : HostConfig α) : List CapabilityId :=
  config.grants.ids

/-- The same offer with other actions. -/
def map {β : Type} (change : α → β) (config : HostConfig α) : HostConfig β where
  registrations := config.registrations.map fun registration =>
    { registration with action := change registration.action }
  grants := config.grants

instance : ToString (HostConfig α) where
  toString config :=
    let list (ids : List CapabilityId) :=
      ", ".intercalate (ids.map fun id => s!"CapabilityId({id.number})")
    let registered := list config.registrations.ids
    let granted := list config.grantedIds
    s!"CapabilityConfig \x7b registered: [{registered}], granted: \x7b{granted}\x7d \x7d"

end HostConfig

/-- The capabilities of one run, with the token that marks the handles issued for them. -/
structure Registry (α : Type) where
  token : Token
  config : HostConfig α

namespace Registry

/-- The run may use the id. -/
def isGranted (registry : Registry α) (id : CapabilityId) : Bool :=
  registry.config.isGranted id

/-- The ids that the run may use, in their order. -/
def grantedIds (registry : Registry α) : List CapabilityId :=
  registry.config.grantedIds

/-- The signatures of all registered actions, whether they are granted or not. -/
def catalog (registry : Registry α) : Catalog :=
  registry.config.registrations.map Registration.signature

/-- The registration of a granted capability. -/
def grantedRegistration (registry : Registry α) (id : CapabilityId) :
    Except RuntimeError (Registration α) :=
  if registry.isGranted id then
    match registry.config.registrations.find? id with
    | some registration => .ok registration
    | none => .error (.internal s!"granted {id} has no action")
  else .error (.capabilityDenied id)

/-- The signature of a granted capability, as the catalog has it. -/
def signature (registry : Registry α) (id : CapabilityId) : Except RuntimeError Signature :=
  (registry.grantedRegistration id).map Registration.signature

/-- A handle for a granted capability. -/
def issue (registry : Registry α) (id : CapabilityId) : Except RuntimeError Handle :=
  if registry.isGranted id then .ok ⟨id, registry.token⟩ else .error (.capabilityDenied id)

/-- The action behind a handle that the registry issued for a granted capability. -/
def resolve (registry : Registry α) (handle : Handle) : Except RuntimeError α :=
  if handle.token = registry.token then
    (registry.grantedRegistration handle.id).map Registration.action
  else .error (.unresolvedCapability handle.id)

/-- The registry with another action under an id that has one. -/
def withAction (registry : Registry α) (id : CapabilityId) (action : α) : Registry α :=
  match registry.config.registrations.find? id with
  | some registration =>
    { registry with
      config := { registry.config with
        registrations := registry.config.registrations.insert id { registration with action } } }
  | none => registry

/-- The error that a program sees when the action of a capability fails. -/
def actionError (id : CapabilityId) (error : RuntimeError) : RuntimeError :=
  match error with
  | .capabilityError _ _ => error
  | other => .capabilityError id other.message

/-- What a program sees of the outcome of a capability's action. -/
def checkOutcome (signature : Signature) (id : CapabilityId)
    (outcome : Except RuntimeError Value) : Except RuntimeError Value :=
  match outcome with
  | .error error => .error (actionError id error)
  | .ok value => do
    signature.checkResult id value
    return value

/-- Performs the action behind a handle. The handle, the grant and the arguments are checked in this
order before the action is performed, and its result afterwards, against the signature that the
action has then. -/
def invoke [HostAction α ω] (registry : Registry α) (handle : Handle) (arguments : List Value)
    (world : ω) : Response (Registry α) ω :=
  match registry.resolve handle with
  | .error error => ⟨.error error, registry, world⟩
  | .ok action =>
    match (HostAction.signature action).checkArguments handle.id arguments with
    | .error error => ⟨.error error, registry, world⟩
    | .ok () =>
      let response := HostAction.perform action arguments world
      ⟨checkOutcome (HostAction.signature response.next) handle.id response.outcome,
        registry.withAction handle.id response.next, response.world⟩

/-- Performs the action of a granted capability, through a handle that is issued for it. -/
def invokeId [HostAction α ω] (registry : Registry α) (id : CapabilityId)
    (arguments : List Value) (world : ω) : Response (Registry α) ω :=
  match registry.issue id with
  | .error error => ⟨.error error, registry, world⟩
  | .ok handle => registry.invoke handle arguments world

end Registry

end CapabilityMachine
