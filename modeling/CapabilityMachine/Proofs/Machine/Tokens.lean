import CapabilityMachine.Host.Device
import CapabilityMachine.Proofs.Machine.InStep
import CapabilityMachine.Proofs.Machine.Indistinguishable
/-!
# The token of a run

Every registry has a token of its own, so runs of one program never share theirs. This makes no
difference, as long as the actions of the host do not look at the tokens of the handles that they
are given: a run with another token goes through the same states, in which all handles have that
token, and leaves the host as it is left without.
-/

namespace CapabilityMachine

open Outcome

variable {α ω : Type}

/-- Actions do the same whatever tokens the handles among their arguments have. Only the tokens of
the handles in their outcomes may differ. -/
def HostAction.IgnoresTokens (α : Type) {ω : Type} [HostAction α ω] : Prop :=
  ∀ (action : α) (arguments : List Value) (world : ω) (token : Token),
    let response := HostAction.perform action arguments world
    let other := HostAction.perform action (arguments.map (Value.restamp token)) world
    Outcome.Alike response.outcome other.outcome ∧ other.next = response.next ∧
      other.world = response.world

theorem Outcome.Alike.refl (outcome : Except RuntimeError Value) :
    Outcome.Alike outcome outcome := by
  cases outcome with
  | error error => rfl
  | ok value => cases value <;> rfl

theorem Value.toString_restamp (token : Token) (value : Value) :
    toString (value.restamp token) = toString value := by
  cases value <;> rfl

theorem Device.drawBetween_restamp (token : Token) (stream : ChaCha.Stream)
    (arguments : List Value) :
    drawBetween stream (arguments.map (Value.restamp token)) = drawBetween stream arguments := by
  match arguments with
  | [] => rfl
  | [first] => cases first <;> rfl
  | first :: second :: _ => cases first <;> cases second <;> rfl

/-- A console writes a handle without its token, and no other device looks at handles. -/
theorem Device.ignoresTokens : HostAction.IgnoresTokens Device := by
  intro device arguments world token
  have same : HostAction.perform device (arguments.map (Value.restamp token)) world =
      HostAction.perform device arguments world := by
    cases device with
    | console sink =>
      have line_eq : (arguments.map (Value.restamp token)).head?.map toString =
          arguments.head?.map toString := by
        simp only [List.head?_map, Option.map_map]
        congr 1
        exact funext (Value.toString_restamp token)
      change writeArgument sink (arguments.map (Value.restamp token)) world =
        writeArgument sink arguments world
      simp only [writeArgument, line_eq]
    | seededRange stream =>
      change perform (.seededRange stream) (arguments.map (Value.restamp token)) world =
        perform (.seededRange stream) arguments world
      simp only [perform, drawBetween_restamp]
    | monotonicClock | steppedClock | seededRandom => rfl
  rw [same]
  exact ⟨Outcome.Alike.refl _, rfl, rfl⟩

namespace Registry

variable {registry : Registry α} {handle : Handle}

theorem withAction_withToken (registry : Registry α) (token : Token) (id : CapabilityId)
    (action : α) :
    Registry.withAction ⟨token, registry.config⟩ id action =
      ⟨token, (registry.withAction id action).config⟩ := by
  simp only [withAction]
  split <;> rfl

theorem resolve_restamp (own : handle.token = registry.token) (token : Token) :
    Registry.resolve ⟨token, registry.config⟩ (handle.restamp token) = registry.resolve handle := by
  have otherOwn : (handle.restamp token).token = token := rfl
  rw [resolve, resolve, if_pos own, if_pos otherOwn]
  rfl

variable [HostAction α ω]

theorem offersSame_withToken (registry : Registry α) (token : Token) :
    registry.OffersSame ⟨token, registry.config⟩ :=
  ⟨fun _ => rfl, fun _ _ => rfl⟩

/-- An invocation with another token comes to the same and leaves the same host. -/
theorem invoke_restamp (ignores : HostAction.IgnoresTokens α) (own : handle.token = registry.token)
    (token : Token) (arguments : List Value) (world : ω) :
    let response := registry.invoke handle arguments world
    Registry.invoke ⟨token, registry.config⟩ (handle.restamp token)
        (arguments.map (Value.restamp token)) world =
      ⟨response.outcome, ⟨token, response.next.config⟩, response.world⟩ := by
  have resolved_eq := resolve_restamp own token
  cases resolved : registry.resolve handle with
  | error error =>
    rw [resolved] at resolved_eq
    simp only [invoke, resolved, resolved_eq]
  | ok action =>
    rw [resolved] at resolved_eq
    have checked_eq :=
      (HostAction.signature action).checkArguments_restamp handle.id token arguments
    have id_eq : (handle.restamp token).id = handle.id := rfl
    cases checked : (HostAction.signature action).checkArguments handle.id arguments with
    | error error => simp only [invoke, resolved, resolved_eq, id_eq, checked_eq, checked]
    | ok done =>
      rcases ignores action arguments world token with ⟨alike, next_eq, world_eq⟩
      simp only [invoke, resolved, resolved_eq, id_eq, checked_eq, checked, next_eq, world_eq,
        withAction_withToken, checkOutcome_of_alike _ _ alike]

end Registry

namespace Machine

variable {initial machine : Machine α ω}

/-- Nothing that can be observed tells the machines apart, and their hosts have the same actions and
the same world. -/
structure LooksLike (machine other : Machine α ω) : Prop where
  snapshot : machine.snapshot.ObservablyEq other.snapshot
  steps_eq : other.steps = machine.steps
  termination : Option.Rel Termination.ObservablyEq machine.termination? other.termination?
  trace : List.Forall₂ InvocationRecord.ObservablyEq machine.trace.toList other.trace.toList
  dropped_eq : other.trace.dropped = machine.trace.dropped
  config_eq : other.registry.config = machine.registry.config
  world_eq : other.world = machine.world

/-- The machine with another token of its registry, which all handles then have. -/
def withToken (machine : Machine α ω) (token : Token) : Machine α ω :=
  machine.withHost ⟨token, machine.registry.config⟩ machine.world

theorem looksLike_withToken (machine : Machine α ω) (token : Token) :
    machine.LooksLike (machine.withToken token) where
  snapshot := snapshot_withHost _ _ _
  steps_eq := rfl
  termination := termination?_withHost _ _ _
  trace := trace_withHost _ _ _
  dropped_eq := rfl
  config_eq := rfl
  world_eq := rfl

theorem create_withToken {program : Program} {registry : Registry α} {world : ω}
    {settings : Settings} (created : create program registry world settings = .ok initial)
    (token : Token) :
    create program ⟨token, registry.config⟩ world settings = .ok (initial.withToken token) := by
  rcases create_eq_ok.1 created with ⟨valid, rfl⟩
  refine create_eq_ok.2 ⟨valid, ?_⟩
  simp [withToken, withHost, Core.restamp, Stack.restamp, Memory.restamp, Trace.restamp]

variable [HostAction α ω]

theorem invocation?_withToken (authentic : initial.Authentic machine) (token : Token) :
    (machine.withToken token).invocation? =
      machine.invocation?.map fun call =>
        (call.1.restamp token, call.2.map (Value.restamp token)) := by
  have status_eq : (machine.withToken token).status = machine.status := rfl
  have request_eq (instruction : Instruction) :
      (machine.withToken token).request instruction =
        (machine.request instruction).map (Request.restamp token) :=
    request_withHost authentic (machine.registry.offersSame_withToken token) machine.world
      instruction
  have fetched_eq : (machine.withToken token).program.get? (machine.withToken token).position =
      machine.program.get? machine.position := rfl
  rw [invocation?, invocation?, status_eq, fetched_eq]
  split
  · rfl
  · cases machine.program.get? machine.position with
    | none => rfl
    | some instruction =>
      simp only [Option.bind_eq_bind, Option.bind_some, request_eq]
      cases machine.request instruction with
      | error error => rfl
      | ok request => cases request <;> rfl

theorem answersAlike_withToken (ignores : HostAction.IgnoresTokens α)
    (authentic : initial.Authentic machine) (token : Token) :
    machine.AnswersAlike (machine.withToken token) := by
  rintro handle arguments _ otherHandle otherArguments _
    ⟨_, instruction, ⟨active, rfl, fetched⟩, calls, action, resolved, _, rfl⟩
    ⟨_, otherInstruction, ⟨otherActive, rfl, otherFetched⟩, otherCalls, otherAction, otherResolved,
      _, rfl⟩ _ _
  have isInvocation := invocation?_eq_some.2 ⟨instruction, ⟨active, rfl, fetched⟩, calls⟩
  have isOther :=
    invocation?_eq_some.2 ⟨otherInstruction, ⟨otherActive, rfl, otherFetched⟩, otherCalls⟩
  rw [invocation?_withToken authentic, isInvocation] at isOther
  cases isOther
  have own : handle.token = machine.registry.token := (Registry.resolve_eq_ok.1 resolved).1
  cases (otherResolved.symm.trans (Registry.resolve_restamp own token)).trans resolved
  rcases ignores action arguments machine.world token with ⟨alike, next_eq, _⟩
  exact ⟨alike, congrArg HostAction.signature next_eq⟩

/-- With another token, a step leaves the host as it is left without. -/
theorem host_step_withToken (ignores : HostAction.IgnoresTokens α)
    (authentic : initial.Authentic machine) (token : Token) :
    (machine.withToken token).step.registry = ⟨token, machine.step.registry.config⟩ ∧
      (machine.withToken token).step.world = machine.step.world := by
  have invocation_eq := invocation?_withToken authentic token
  rcases step_surroundings machine with ⟨registry_eq, world_eq, _⟩
  rcases step_surroundings (machine.withToken token) with ⟨other_registry_eq, other_world_eq, _⟩
  rw [registry_eq, world_eq, other_registry_eq, other_world_eq]
  cases isInvocation : machine.invocation? with
  | none =>
    rw [isInvocation] at invocation_eq
    rw [invoked_of_none isInvocation, invoked_of_none invocation_eq]
    exact ⟨rfl, rfl⟩
  | some call =>
    rcases call with ⟨handle, arguments⟩
    rw [isInvocation] at invocation_eq
    rcases invocation?_eq_some.1 isInvocation with ⟨instruction, _, calls⟩
    rcases exists_asked_of_calls calls with ⟨replaced, asked⟩
    have own : handle.token = machine.registry.token := (authentic.honors_of_asked asked).1
    have response_eq : (machine.withToken token).response (handle.restamp token)
        (arguments.map (Value.restamp token)) =
          ⟨(machine.response handle arguments).outcome,
            ⟨token, (machine.response handle arguments).next.config⟩,
            (machine.response handle arguments).world⟩ :=
      Registry.invoke_restamp ignores own token arguments machine.world
    rw [invoked_of_some isInvocation, invoked_of_some invocation_eq]
    exact ⟨congrArg Response.next response_eq, (congrArg Response.world response_eq).trans rfl⟩

theorem step_withToken (ignores : HostAction.IgnoresTokens α)
    (authentic : initial.Authentic machine) (token : Token) :
    (machine.withToken token).step = machine.step.withToken token := by
  have offers := machine.registry.offersSame_withToken token
  rcases exists_step_withHost authentic offers (answersAlike_withToken ignores authentic token) with
    ⟨registry, world, stepped, _⟩
  rcases host_step_withToken ignores authentic token with ⟨registry_eq, world_eq⟩
  have step_eq : (machine.withToken token).step = machine.step.withHost registry world := stepped
  rw [step_eq] at registry_eq world_eq ⊢
  cases registry_eq
  cases world_eq
  rfl

/-- A run with another token goes through the same states, up to the token. -/
theorem stepTimes_withToken (ignores : HostAction.IgnoresTokens α)
    (start : initial.Authentic initial) (token : Token) (count : Nat) :
    (initial.withToken token).stepTimes count = (initial.stepTimes count).withToken token := by
  induction count with
  | zero => rfl
  | succ count ih =>
    have authentic : initial.Authentic (initial.stepTimes count) :=
      Reaches.authentic start ⟨count, rfl⟩
    rw [stepTimes_succ_eq_step, stepTimes_succ_eq_step, ih, step_withToken ignores authentic]

end Machine

end CapabilityMachine
