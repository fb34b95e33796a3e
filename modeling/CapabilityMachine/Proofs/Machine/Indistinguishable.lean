import CapabilityMachine.Proofs.Host.Agreement
import Mathlib.Data.List.Forall2
/-!
# Runs with other hosts

Two runs of one program whose registries have other tokens and other actions, but grant the same
capabilities and answer alike, cannot be told apart. The machine of the second run is at all times
that of the first one, with another host and the token of that host in all its handles.
-/

namespace CapabilityMachine

open Outcome

variable (token : Token)

/-! ### What tells the end of a run and its trace apart -/

/-- The termination with another token in all handles. -/
def Termination.restamp : Termination → Termination
  | halted values => halted (values.map (Value.restamp token))
  | other => other

/-- The record with another token in all handles. -/
def InvocationRecord.restamp (record : InvocationRecord) : InvocationRecord :=
  { record with
    arguments := record.arguments.map (Value.restamp token)
    outcome := record.outcome.map (Value.restamp token) }

/-- The trace with another token in all handles. -/
def Trace.restamp (trace : Trace) : Trace :=
  { trace with newest := trace.newest.map (InvocationRecord.restamp token) }

/-- Two runs ended in the same way, as seen from outside. -/
def Termination.ObservablyEq : Termination → Termination → Prop
  | halted values, halted others => Snapshot.SameValues values others
  | faulted fault, faulted other => fault = other
  | denied fault, denied other => fault = other
  | _, _ => False

/-- Two records of invocations look the same from outside. -/
structure InvocationRecord.ObservablyEq (record other : InvocationRecord) : Prop where
  step_eq : other.step = record.step
  instruction_eq : other.instruction = record.instruction
  id_eq : other.id = record.id
  arguments : Snapshot.SameValues record.arguments other.arguments
  outcome : Outcome.Alike record.outcome other.outcome

theorem Snapshot.sameValues_restamp (values : List Value) :
    SameValues values (values.map (Value.restamp token)) := by
  induction values with
  | nil => trivial
  | cons value values ih => exact ⟨value.observablyEq_restamp token, ih⟩

theorem Termination.observablyEq_restamp (termination : Termination) :
    termination.ObservablyEq (termination.restamp token) := by
  cases termination with
  | halted values => exact Snapshot.sameValues_restamp token values
  | faulted fault => rfl
  | denied fault => rfl

@[simp]
theorem Termination.restamp_ofFault (fault : Fault) :
    (Termination.ofFault fault).restamp token = .ofFault fault := by
  rw [ofFault]
  split <;> rfl

theorem Outcome.alike_map_restamp (outcome : Except RuntimeError Value) :
    Outcome.Alike outcome (outcome.map (Value.restamp token)) := by
  cases outcome with
  | error error => rfl
  | ok value => exact value.observablyEq_restamp token

theorem InvocationRecord.observablyEq_restamp (record : InvocationRecord) :
    record.ObservablyEq (record.restamp token) :=
  ⟨rfl, rfl, rfl, Snapshot.sameValues_restamp token _, Outcome.alike_map_restamp token _⟩

theorem Trace.push_restamp (trace : Trace) (record : InvocationRecord) :
    (trace.restamp token).push (record.restamp token) = (trace.push record).restamp token := by
  simp [push, restamp, List.map_take]

namespace Machine

variable {α β ω υ : Type}

/-- The machine with another host, whose token all its handles then have. -/
def withHost (machine : Machine α ω) (registry : Registry β) (world : υ) : Machine β υ where
  program := machine.program
  settings := machine.settings
  registry
  world
  core := machine.core.restamp registry.token
  position := machine.position
  steps := machine.steps
  status := machine.status
  termination? := machine.termination?.map (Termination.restamp registry.token)
  trace := machine.trace.restamp registry.token

section Fields

variable (machine : Machine α ω) (registry : Registry β) (world : υ)

theorem active_withHost : (machine.withHost registry world).Active ↔ machine.Active :=
  Iff.rfl

theorem halt_withHost :
    (machine.withHost registry world).halt = machine.halt.withHost registry world := by
  simp [halt, withHost, Termination.restamp, Core.restamp, Stack.restamp,
    Stack.toList]

theorem fail_withHost (instruction : Instruction) (error : RuntimeError) :
    (machine.withHost registry world).fail instruction error =
      (machine.fail instruction error).withHost registry world := by
  simp [fail, withHost, Core.restamp]

theorem haltAtEnd_withHost :
    (machine.withHost registry world).haltAtEnd = machine.haltAtEnd.withHost registry world := by
  simp only [haltAtEnd, halt_withHost]
  exact (apply_ite (withHost · registry world) _ _ _).symm

theorem follow_withHost (flow : Flow) :
    (machine.withHost registry world).follow flow =
      (machine.follow flow).withHost registry world := by
  let resumed : Machine α ω := { machine with status := .running }
  have advance_eq : (resumed.withHost registry world).advance flow =
      (resumed.advance flow).withHost registry world := by
    cases flow with
    | next | jump target => rfl
    | halt => exact halt_withHost resumed registry world
  rw [follow, follow, ← haltAtEnd_withHost, ← advance_eq]
  rfl

theorem snapshot_withHost :
    machine.snapshot.ObservablyEq (machine.withHost registry world).snapshot := by
  refine ⟨rfl, rfl, rfl, ?_, ?_⟩
  · have stack_eq : (machine.withHost registry world).snapshot.stack =
        machine.snapshot.stack.map (Value.restamp registry.token) := by
      simp [snapshot, withHost, Core.restamp, Stack.restamp, Stack.toList]
    rw [stack_eq]
    exact Snapshot.sameValues_restamp _ _
  · have cells_eq : (machine.withHost registry world).snapshot.cells =
        machine.snapshot.cells.map (Value.restamp registry.token) := by
      simp [snapshot, withHost, Core.restamp, Memory.restamp]
    rw [cells_eq]
    exact Snapshot.sameValues_restamp _ _

theorem termination?_withHost :
    Option.Rel Termination.ObservablyEq machine.termination?
      (machine.withHost registry world).termination? := by
  rw [withHost]
  cases machine.termination? with
  | some termination => exact .some (termination.observablyEq_restamp registry.token)
  | none => exact .none

theorem trace_withHost :
    List.Forall₂ InvocationRecord.ObservablyEq machine.trace.toList
      (machine.withHost registry world).trace.toList := by
  have records_eq : (machine.withHost registry world).trace.toList =
      machine.trace.toList.map (InvocationRecord.restamp registry.token) := by
    simp [Trace.toList, withHost, Trace.restamp]
  rw [records_eq, List.forall₂_map_right_iff, List.forall₂_same]
  intro record _
  exact record.observablyEq_restamp registry.token

theorem executes_withHost {index : Nat} {instruction : Instruction}
    (executes : machine.Executes index instruction) :
    (machine.withHost registry world).Executes index instruction :=
  ⟨(active_withHost _ _ _).2 executes.active, executes.position_eq, executes.fetched⟩

end Fields

section Hosts

variable [HostAction α ω] [HostAction β υ] {first : Machine α ω} {registry : Registry β} {world : υ}

/-- The next step of the machine has an action performed, with the response. -/
def Receives (machine : Machine α ω) (handle : Handle) (arguments : List Value)
    (response : Response α ω) : Prop :=
  ∃ index instruction, machine.Executes index instruction ∧
    machine.Calls instruction handle arguments ∧
    machine.registry.Answers handle arguments machine.world response

/-- If the next steps of both machines have actions performed, for the same capability and with
arguments that look the same, then the responses look the same. -/
def AnswersAlike (first : Machine α ω) (second : Machine β υ) : Prop :=
  ∀ handle arguments response otherHandle otherArguments otherResponse,
    first.Receives handle arguments response →
    second.Receives otherHandle otherArguments otherResponse →
    otherHandle.id = handle.id → Snapshot.SameValues arguments otherArguments →
    response.Alike otherResponse

theorem Authentic.stamped {initial : Machine α ω} (authentic : initial.Authentic first) :
    ∀ value ∈ first.core.stack.values, value.Stamped first.registry.token := by
  intro value member
  have among := authentic.among.stack value member
  cases value with
  | cap handle =>
    rw [authentic.token_eq]
    exact among.1
  | int | bool | ref | unit => trivial

theorem map_restamp_response (token : Token) (handle : Handle) (arguments : List Value) :
    (first.response handle arguments).outcome.map (Value.restamp token) =
      (first.response handle arguments).outcome := by
  cases answered : (first.response handle arguments).outcome with
  | error error => rfl
  | ok result =>
    have plain : result.IsPlain := Registry.isPlain_of_invoke answered
    simp only [Except.map, plain.restamp_eq]

/-- An invocation with another host that answers alike. -/
theorem afterInvoking_withHost {handle : Handle} {arguments : List Value}
    {other : Response (Registry β) υ}
    (answered : (first.withHost registry world).response (handle.restamp registry.token)
      (arguments.map (Value.restamp registry.token)) = other)
    (same : other.outcome = (first.response handle arguments).outcome) :
    (first.withHost registry world).afterInvoking (handle.restamp registry.token)
        (arguments.map (Value.restamp registry.token)) =
      (first.afterInvoking handle arguments).withHost other.next other.world := by
  have token_eq : other.next.token = registry.token := by
    rw [← answered]
    exact Registry.invoke_token _ _ _ _
  have outcome_eq := first.map_restamp_response registry.token handle arguments
  rw [afterInvoking, answered, afterInvoking]
  cases traced : first.settings.traceCapabilities with
  | false => simp [Machine.answered, withHost, traced, token_eq]
  | true =>
    simp only [Machine.answered, withHost, traced, token_eq, if_true, ← Trace.push_restamp]
    simp only [InvocationRecord.restamp, outcome_eq, same, Handle.restamp]

theorem answered_withHost {handle : Handle} {arguments : List Value} {result : Value}
    {other : Response (Registry β) υ} (replaced : Nat)
    (answered : (first.withHost registry world).response (handle.restamp registry.token)
      (arguments.map (Value.restamp registry.token)) = other)
    (same : other.outcome = (first.response handle arguments).outcome)
    (isResult : (first.response handle arguments).outcome = .ok result) :
    { (first.withHost registry world).afterInvoking (handle.restamp registry.token)
        (arguments.map (Value.restamp registry.token)) with
      core := (first.withHost registry world).core.withValues
        (result :: (first.withHost registry world).core.stack.values.drop replaced) } =
      ({ first.afterInvoking handle arguments with
        core := first.core.withValues (result :: first.core.stack.values.drop replaced) }
          : Machine α ω).withHost other.next other.world := by
  have plain : result.IsPlain := Registry.isPlain_of_invoke isResult
  have token_eq : other.next.token = registry.token := by
    rw [← answered]
    exact Registry.invoke_token _ _ _ _
  rw [afterInvoking_withHost answered same]
  simp [withHost, token_eq, Core.withValues, Core.restamp, Stack.restamp, plain.restamp_eq,
    List.map_drop]

theorem request_withHost {initial : Machine α ω} (authentic : initial.Authentic first)
    (offers : first.registry.OffersSame registry) (world : υ) (instruction : Instruction) :
    (first.withHost registry world).request instruction =
      (first.request instruction).map (Request.restamp registry.token) :=
  Core.request_restamp offers.isGranted_eq authentic.stamped _ _ instruction

/-- An invocation that is answered alike leaves hosts that offer the same. -/
theorem offersSame_of_invoke {initial : Machine α ω} (authentic : initial.Authentic first)
    (offers : first.registry.OffersSame registry)
    (alike : first.AnswersAlike (first.withHost registry world)) {index : Nat}
    {instruction : Instruction} {handle : Handle} {arguments : List Value} {replaced : Nat}
    (executes : first.Executes index instruction)
    (asked : first.request instruction = .ok (.invoke handle arguments replaced)) :
    let other := (first.withHost registry world).response (handle.restamp registry.token)
      (arguments.map (Value.restamp registry.token))
    other.outcome = (first.response handle arguments).outcome ∧
      (first.response handle arguments).next.OffersSame other.next := by
  have otherExecutes := executes_withHost first registry world executes
  have otherAsked : (first.withHost registry world).request instruction =
      .ok (.invoke (handle.restamp registry.token) (arguments.map (Value.restamp registry.token))
        replaced) := by
    rw [request_withHost authentic offers world, asked]
    rfl
  apply offers.invoke (authentic.honors_of_asked asked)
  intro response otherResponse answers otherAnswers
  apply alike handle arguments response _ _ otherResponse
  · exact ⟨index, instruction, executes, calls_of_asked asked, answers⟩
  · exact ⟨index, instruction, otherExecutes, calls_of_asked otherAsked, otherAnswers⟩
  · rfl
  · exact Snapshot.sameValues_restamp _ _

/-- With another host that answers alike, a step comes to the same. -/
theorem exists_step_withHost {initial : Machine α ω} (authentic : initial.Authentic first)
    (offers : first.registry.OffersSame registry)
    (alike : first.AnswersAlike (first.withHost registry world)) :
    ∃ (after : Registry β) (afterWorld : υ),
      (first.withHost registry world).step = first.step.withHost after afterWorld ∧
        first.step.registry.OffersSame after := by
  by_cases active : first.Active
  · have otherActive := (first.active_withHost registry world).2 active
    cases fetched : first.program.get? first.position with
    | none =>
      rw [step_of_outside active fetched, step_of_outside otherActive fetched]
      exact ⟨registry, world, halt_withHost _ _ _, offers⟩
    | some instruction =>
      have executes : first.Executes first.position instruction := ⟨active, rfl, fetched⟩
      have otherAsked := request_withHost authentic offers world instruction
      cases asked : first.request instruction with
      | error error =>
        rw [asked] at otherAsked
        rw [step_of_refused active fetched asked, step_of_refused otherActive fetched otherAsked]
        exact ⟨registry, world, fail_withHost first.count registry world instruction error, offers⟩
      | ok request =>
        rw [asked] at otherAsked
        cases request with
        | proceed core flow =>
          rw [step_of_proceeding active fetched asked,
            step_of_proceeding otherActive fetched otherAsked]
          let moved : Machine α ω := { first with core }
          refine ⟨registry, world, follow_withHost moved.count registry world flow, ?_⟩
          rw [follow_registry]
          exact offers
        | invoke handle arguments replaced =>
          rcases offersSame_of_invoke authentic offers alike executes asked with ⟨same, offersNext⟩
          cases outcome : (first.response handle arguments).outcome with
          | error error =>
            have otherOutcome := same.trans outcome
            rw [step_of_rejected active fetched asked outcome,
              step_of_rejected otherActive fetched otherAsked otherOutcome,
              afterInvoking_withHost rfl same]
            let invoked := first.afterInvoking handle arguments
            exact ⟨_, _, fail_withHost invoked.count _ _ instruction error, offersNext⟩
          | ok result =>
            have otherOutcome := same.trans outcome
            rw [step_of_answered active fetched asked outcome,
              step_of_answered otherActive fetched otherAsked otherOutcome,
              answered_withHost replaced rfl same outcome]
            let moved : Machine α ω := { first.afterInvoking handle arguments with
              core := first.core.withValues (result :: first.core.stack.values.drop replaced) }
            refine ⟨_, _, follow_withHost moved.count _ _ .next, ?_⟩
            rw [follow_registry]
            exact offersNext
  · have otherInactive := (not_congr (first.active_withHost registry world)).2 active
    rw [step_of_not_active active, step_of_not_active otherInactive]
    exact ⟨registry, world, rfl, offers⟩

/-- A branch asks nothing of the host. -/
theorem answersAlike_of_branch {second : Machine β υ} {index target : Nat} {condition : Bool}
    (executes : first.Executes index (.branch condition target)) : first.AnswersAlike second := by
  rintro handle arguments response _ _ _ ⟨_, _, otherExecutes, calls, _⟩
  have fetched := executes.fetched
  rw [← executes.position_eq, otherExecutes.position_eq, otherExecutes.fetched] at fetched
  cases fetched
  cases calls

end Hosts

variable {program : Program} {settings : Settings} {registry : Registry α} {other : Registry β}
  {world : ω} {otherWorld : υ} {first : Machine α ω} {second : Machine β υ}

theorem eq_withHost_of_create
    (created : create program registry world settings = .ok first)
    (otherCreated : create program other otherWorld settings = .ok second) :
    second = first.withHost other otherWorld ∧ first.registry = registry := by
  rcases create_eq_ok.1 created with ⟨_, rfl⟩
  rcases create_eq_ok.1 otherCreated with ⟨_, rfl⟩
  simp [withHost, Core.restamp, Stack.restamp, Memory.restamp, Trace.restamp]

variable [HostAction α ω] [HostAction β υ]

/-- As long as the hosts answer alike, the second run is the first one with another host. -/
theorem exists_stepTimes_eq_withHost
    (created : create program registry world settings = .ok first)
    (otherCreated : create program other otherWorld settings = .ok second)
    (offers : registry.OffersSame other) (count : Nat)
    (alike : ∀ earlier < count,
      (first.stepTimes earlier).AnswersAlike (second.stepTimes earlier)) :
    ∃ (after : Registry β) (afterWorld : υ),
      second.stepTimes count = (first.stepTimes count).withHost after afterWorld ∧
        (first.stepTimes count).registry.OffersSame after := by
  induction count with
  | zero =>
    rcases eq_withHost_of_create created otherCreated with ⟨same, rfl⟩
    exact ⟨other, otherWorld, same, offers⟩
  | succ count ih =>
    have now := alike count (Nat.lt_succ_self count)
    have before := ih fun earlier isEarlier => alike earlier (Nat.lt_succ_of_lt isEarlier)
    rcases before with ⟨after, afterWorld, same, offersNow⟩
    have authentic : first.Authentic (first.stepTimes count) :=
      Reaches.authentic (authentic_of_create created) ⟨count, rfl⟩
    rw [stepTimes_succ_eq_step, stepTimes_succ_eq_step, same]
    rw [same] at now
    exact exists_step_withHost authentic offersNow now

/-- What a program does depends on its host only through the grants, the signatures and the answers
of the actions. Two runs whose registries have other tokens and other actions look the same after
every number of steps, provided that both grant the same capabilities with the same signatures, and
that the actions have answered alike so far. In particular comparisons and branches come out the
same. -/
theorem runs_indistinguishable
    (created : create program registry world settings = .ok first)
    (otherCreated : create program other otherWorld settings = .ok second)
    (offers : registry.OffersSame other) (count : Nat)
    (alike : ∀ earlier < count,
      (first.stepTimes earlier).AnswersAlike (second.stepTimes earlier)) :
    (first.stepTimes count).snapshot.ObservablyEq (second.stepTimes count).snapshot ∧
    (second.stepTimes count).steps = (first.stepTimes count).steps ∧
    Option.Rel Termination.ObservablyEq
      (first.stepTimes count).termination? (second.stepTimes count).termination? ∧
    List.Forall₂ InvocationRecord.ObservablyEq
      (first.stepTimes count).trace.toList (second.stepTimes count).trace.toList ∧
    (second.stepTimes count).trace.dropped = (first.stepTimes count).trace.dropped ∧
    (∀ (op : BinaryOp) (left right otherLeft otherRight : Value),
      (first.stepTimes count).core.stack.peek 0 = .ok right →
      (first.stepTimes count).core.stack.peek 1 = .ok left →
      (second.stepTimes count).core.stack.peek 0 = .ok otherRight →
      (second.stepTimes count).core.stack.peek 1 = .ok otherLeft →
      op.apply otherLeft otherRight = op.apply left right) ∧
    ∀ index condition target,
      (first.stepTimes count).Executes index (.branch condition target) →
      (second.stepTimes count).Executes index (.branch condition target) ∧
        (second.stepTimes count).step.position = (first.stepTimes count).step.position := by
  rcases exists_stepTimes_eq_withHost created otherCreated offers count alike with
    ⟨after, afterWorld, same, offersNow⟩
  have authentic : first.Authentic (first.stepTimes count) :=
    Reaches.authentic (authentic_of_create created) ⟨count, rfl⟩
  rw [same]
  generalize first.stepTimes count = machine at *
  refine ⟨snapshot_withHost _ _ _, rfl, termination?_withHost _ _ _, trace_withHost _ _ _, rfl, ?_,
    ?_⟩
  · intro op left right otherLeft otherRight isRight isLeft isOtherRight isOtherLeft
    have stamped {depth : Nat} {value : Value} (found : machine.core.stack.peek depth = .ok value) :
        value.Stamped machine.registry.token :=
      authentic.stamped value (List.mem_of_getElem? (Stack.peek_eq_ok.1 found))
    have peek_eq (depth : Nat) : (machine.withHost after afterWorld).core.stack.peek depth =
        (machine.core.stack.peek depth).map (Value.restamp after.token) :=
      Stack.peek_restamp after.token
    rw [peek_eq, isRight] at isOtherRight
    rw [peek_eq, isLeft] at isOtherLeft
    cases isOtherRight
    cases isOtherLeft
    exact op.apply_restamp after.token (stamped isLeft) (stamped isRight)
  · intro index condition target executes
    refine ⟨executes_withHost _ _ _ executes, ?_⟩
    have alikeNow : machine.AnswersAlike (machine.withHost after afterWorld) :=
      answersAlike_of_branch executes
    rcases exists_step_withHost authentic offersNow alikeNow with ⟨next, nextWorld, stepped, _⟩
    rw [stepped]
    rfl

/-- Two runs that take a handle and read a clock through it. Their handles differ, but there is one
clock only, and it shows the same time in both runs. -/
theorem runs_indistinguishable_clock :
    ∃ (program : Program) (registry other : Registry Device) (first second : Machine Device World),
      create program registry {} {} = .ok first ∧ create program other {} {} = .ok second ∧
      registry.OffersSame other ∧
      (∀ earlier < 2, (first.stepTimes earlier).AnswersAlike (second.stepTimes earlier)) ∧
      (first.stepTimes 1).core.stack.values ≠ (second.stepTimes 1).core.stack.values ∧
      (first.stepTimes 2).core.stack.values = [.int 5] ∧
      (first.stepTimes 2).snapshot.ObservablyEq (second.stepTimes 2).snapshot := by
  let program : Program := {
    instructions := #[.cap ⟨7⟩, .invokeHandle 0, .halt]
    offsets := #[0, 3, 5]
    entry := 0
    capabilities := [⟨7⟩]
    version := ⟨1, 0⟩ }
  let registration : Registration Device := {
    action := .steppedClock 5 1
    signature := HostAction.signature (Device.steppedClock 5 1) }
  let config : HostConfig Device := {
    registrations := (∅ : IdTable _).insert ⟨7⟩ registration
    grants := (∅ : IdSet).insert ⟨7⟩ () }
  let registry : Registry Device := ⟨⟨0⟩, config⟩
  let other : Registry Device := ⟨⟨1⟩, config⟩
  rcases (⟨_, rfl⟩ : ∃ first : Machine Device World,
    create program registry {} {} = .ok first) with ⟨first, created⟩
  rcases (⟨_, rfl⟩ : ∃ second : Machine Device World,
    create program other {} {} = .ok second) with ⟨second, otherCreated⟩
  have clock (token : Token) {handle : Handle} {action : Device}
      (resolved : Registry.resolve ⟨token, config⟩ handle = .ok action) :
      action = .steppedClock 5 1 := by
    rcases Registry.resolve_eq_ok.1 resolved with ⟨_, found, isRegistered, rfl⟩
    have isFound := (Registry.grantedRegistration_eq_ok.1 isRegistered).1
    by_cases same : handle.id = ⟨7⟩
    · rw [same] at isFound
      cases (IdTable.find?_insert_self ∅ ⟨7⟩ registration).symm.trans isFound
      rfl
    · cases (IdTable.find?_insert_of_ne ∅ registration same).symm.trans isFound
  have alike : ∀ earlier < 2,
      (first.stepTimes earlier).AnswersAlike (second.stepTimes earlier) := by
    have registry_eq : ∀ earlier < 2, (first.stepTimes earlier).registry = registry ∧
        (second.stepTimes earlier).registry = other := by
      cases created
      cases otherCreated
      intro earlier isEarlier
      match earlier, isEarlier with
      | 0, _ => exact ⟨rfl, rfl⟩
      | 1, _ => exact ⟨rfl, rfl⟩
    rintro earlier isEarlier handle arguments _ otherHandle otherArguments _
      ⟨_, _, _, _, action, resolved, _, rfl⟩ ⟨_, _, _, _, otherAction, otherResolved, _, rfl⟩ _ _
    rw [(registry_eq earlier isEarlier).1] at resolved
    rw [(registry_eq earlier isEarlier).2] at otherResolved
    rw [clock _ resolved, clock _ otherResolved]
    exact ⟨rfl, rfl⟩
  have offers : registry.OffersSame other := ⟨fun _ => rfl, fun _ _ => rfl⟩
  have look := (runs_indistinguishable created otherCreated offers 2 alike).1
  refine ⟨program, registry, other, first, second, created, otherCreated, offers, alike, ?_, ?_,
    look⟩
  · cases created
    cases otherCreated
    decide
  · cases created
    rfl

end Machine

end CapabilityMachine
