import CapabilityMachine.Proofs.Host.Recording
import CapabilityMachine.Proofs.Machine.InStep
import CapabilityMachine.Proofs.Machine.Provenance
/-!
# The trace as an audit log

The invocations of a run are read off its states, one step after the other: which of the steps come
to an invocation, and what comes of it. The trace of a run that is traced shows the last of them, as
many as it may keep, and has counted the others. What the actions of the host were made to perform
is a part of the list, and the run does not depend on whether anything is recorded.
-/

namespace CapabilityMachine

open Outcome

/-- The trace shows the last of these records, as many as it may keep, and has counted the others.
-/
structure Trace.Shows (trace : Trace) (records : List InvocationRecord) : Prop where
  newest_eq : trace.newest = records.reverse.take trace.limit
  size_add_dropped : trace.size + trace.dropped = records.length

namespace Trace.Shows

variable {trace : Trace} {records : List InvocationRecord}

theorem toList_eq (shown : trace.Shows records) :
    trace.toList = records.drop (records.length - trace.limit) := by
  rw [toList, shown.newest_eq, List.reverse_take, List.reverse_reverse, List.length_reverse]

theorem push (shown : trace.Shows records) (record : InvocationRecord) :
    (trace.push record).Shows (records ++ [record]) := by
  constructor
  · change (record :: trace.newest).take trace.limit = _
    rw [shown.newest_eq, List.reverse_append]
    change _ = (record :: records.reverse).take trace.limit
    cases trace.limit with
    | zero => rfl
    | succ limit => rw [List.take_succ_cons, List.take_succ_cons, List.take_take,
        Nat.min_eq_left (Nat.le_succ limit)]
  · have before := shown.size_add_dropped
    simp only [size, Trace.push, List.length_take, List.length_cons, List.length_append,
      List.length_nil] at before ⊢
    omega

end Trace.Shows

variable {α ω : Type}

/-- What the action is given if the recorded invocation has it performed. -/
def Performance.ofRecord (record : InvocationRecord) : Performance :=
  ⟨record.id, record.arguments⟩

namespace Machine

variable [HostAction α ω] {initial machine : Machine α ω} {handle : Handle}
  {arguments : List Value}

/-! ### The invocations of a run -/

/-- The machine's next step has the registry invoke a capability: the record says at which step and
instruction, which capability with which arguments, and what comes of it. -/
def Invokes (machine : Machine α ω) (record : InvocationRecord) : Prop :=
  ∃ instruction handle, machine.Executes record.instruction instruction ∧
    machine.Calls instruction handle record.arguments ∧ record.step = machine.steps ∧
    record.id = handle.id ∧
    record.outcome = (machine.registry.invoke handle record.arguments machine.world).outcome

/-- The record of an invocation by the machine's next step. -/
def recordOf (machine : Machine α ω) (handle : Handle) (arguments : List Value) :
    InvocationRecord where
  step := machine.steps
  instruction := machine.position
  id := handle.id
  arguments
  outcome := (machine.response handle arguments).outcome

/-- The record of the invocation that the machine's next step comes to, if it comes to one. -/
def record? (machine : Machine α ω) : Option InvocationRecord :=
  machine.invocation?.map fun call => machine.recordOf call.1 call.2

/-- What the machine's next step has performed by a host action. -/
def performance? (machine : Machine α ω) : Option Performance :=
  machine.invocation?.bind fun call =>
    if machine.registry.Permits call.1 call.2 then some ⟨call.1.id, call.2⟩ else none

/-- The records of all invocations in the first steps of the run, in their order. -/
def invocations (initial : Machine α ω) (count : Nat) : List InvocationRecord :=
  (List.range count).filterMap fun earlier => (initial.stepTimes earlier).record?

/-- What host actions perform in the first steps of the run, in their order. -/
def performances (initial : Machine α ω) (count : Nat) : List Performance :=
  (List.range count).filterMap fun earlier => (initial.stepTimes earlier).performance?

theorem record?_eq_some {record : InvocationRecord} :
    machine.record? = some record ↔ machine.Invokes record := by
  rw [record?, Option.map_eq_some_iff]
  constructor
  · rintro ⟨⟨handle, arguments⟩, isInvocation, rfl⟩
    rcases invocation?_eq_some.1 isInvocation with ⟨instruction, executes, calls⟩
    exact ⟨instruction, handle, executes, calls, rfl, rfl, rfl⟩
  · rintro ⟨instruction, handle, executes, calls, step_eq, id_eq, outcome_eq⟩
    have position_eq := executes.position_eq
    rw [← position_eq] at executes
    refine ⟨(handle, record.arguments), invocation?_eq_some.2 ⟨instruction, executes, calls⟩, ?_⟩
    rw [recordOf, position_eq, ← step_eq, ← id_eq, response, ← outcome_eq]

theorem mem_invocations {record : InvocationRecord} {count : Nat} :
    record ∈ initial.invocations count ↔
      ∃ earlier < count, (initial.stepTimes earlier).Invokes record := by
  simp only [invocations, List.mem_filterMap, List.mem_range, record?_eq_some]

theorem invocations_succ (initial : Machine α ω) (count : Nat) :
    initial.invocations (count + 1) =
      initial.invocations count ++ (initial.stepTimes count).record?.toList := by
  rw [invocations, List.range_succ, List.filterMap_append]
  cases recorded : (initial.stepTimes count).record? <;> simp [recorded, invocations]

theorem performances_succ (initial : Machine α ω) (count : Nat) :
    initial.performances (count + 1) =
      initial.performances count ++ (initial.stepTimes count).performance?.toList := by
  rw [performances, List.range_succ, List.filterMap_append]
  cases performed : (initial.stepTimes count).performance? <;> simp [performed, performances]

/-- Every performance belongs to the invocation of the same step. -/
theorem sublist_performance? (machine : Machine α ω) :
    machine.performance?.toList.Sublist (machine.record?.toList.map Performance.ofRecord) := by
  rw [performance?, record?]
  cases machine.invocation? with
  | none => exact List.Sublist.refl _
  | some call =>
    by_cases permits : machine.registry.Permits call.1 call.2
    · rw [Option.bind_some, if_pos permits]
      exact List.Sublist.refl _
    · rw [Option.bind_some, if_neg permits]
      exact List.nil_sublist _

theorem sublist_performances (initial : Machine α ω) (count : Nat) :
    (initial.performances count).Sublist
      ((initial.invocations count).map Performance.ofRecord) := by
  induction count with
  | zero => exact List.Sublist.refl _
  | succ count ih =>
    rw [performances_succ, invocations_succ, List.map_append]
    exact ih.append (sublist_performance? _)

/-- An invocation takes a step, so that no other one has the same number. -/
theorem step_lt_of_mem_invocations (initial : Machine α ω) (count : Nat) :
    ∀ record ∈ initial.invocations count, record.step < (initial.stepTimes count).steps := by
  induction count with
  | zero =>
    intro record member
    cases member
  | succ count ih =>
    intro record member
    rw [stepTimes_succ_eq_step]
    rw [invocations_succ, List.mem_append, Option.mem_toList] at member
    rcases member with earlier | recorded
    · exact Nat.lt_of_lt_of_le (ih record earlier) (steps_le_steps_step _)
    · rcases Option.map_eq_some_iff.1 recorded with ⟨call, isInvocation, rfl⟩
      rw [steps_step_of_invocation? isInvocation]
      exact Nat.lt_succ_self _

theorem pairwise_invocations (initial : Machine α ω) (count : Nat) :
    (initial.invocations count).Pairwise fun earlier later => earlier.step < later.step := by
  induction count with
  | zero => exact List.Pairwise.nil
  | succ count ih =>
    rw [invocations_succ, List.pairwise_append]
    refine ⟨ih, ?_, ?_⟩
    · cases (initial.stepTimes count).record? with
      | none => exact List.Pairwise.nil
      | some record => exact List.pairwise_singleton _ _
    · intro earlier member later isLater
      rw [Option.mem_toList] at isLater
      rcases Option.map_eq_some_iff.1 isLater with ⟨call, _, rfl⟩
      exact step_lt_of_mem_invocations initial count earlier member

/-- The handle of an invocation is one that the registry honors, so that it is not what a failure is
about. -/
theorem Authentic.error_of_invokes (authentic : initial.Authentic machine)
    {record : InvocationRecord} {error : RuntimeError} (invokes : machine.Invokes record)
    (failed : record.outcome = .error error) : ∃ id, machine.registry.FailsHonored id error := by
  rcases invokes with ⟨instruction, handle, _, calls, _, _, outcome_eq⟩
  rcases exists_asked_of_calls calls with ⟨replaced, asked⟩
  exact ⟨handle.id, Registry.invoke_error_of_honors (authentic.honors_of_asked asked)
    (outcome_eq.symm.trans failed)⟩

theorem outcome_ne_of_mem_invocations (start : initial.Authentic initial) {count : Nat}
    {record : InvocationRecord} (member : record ∈ initial.invocations count) (id : CapabilityId) :
    record.outcome ≠ .error (.capabilityDenied id) ∧
      record.outcome ≠ .error (.unresolvedCapability id) := by
  rcases mem_invocations.1 member with ⟨earlier, _, invokes⟩
  have authentic : initial.Authentic (initial.stepTimes earlier) :=
    Reaches.authentic start ⟨earlier, rfl⟩
  constructor
  · intro denied
    rcases authentic.error_of_invokes invokes denied with ⟨_, fails⟩
    cases fails
  · intro unresolved
    rcases authentic.error_of_invokes invokes unresolved with ⟨_, fails⟩
    cases fails

/-! ### The trace of a run -/

theorem step_trace (machine : Machine α ω) :
    machine.step.trace =
      if machine.settings.traceCapabilities then
        machine.record?.toList.foldl Trace.push machine.trace
      else machine.trace := by
  rw [(step_surroundings machine).2.2, invoked, record?]
  cases machine.invocation? with
  | none => simp
  | some call => rfl

theorem stepTimes_settings (initial : Machine α ω) (count : Nat) :
    (initial.stepTimes count).settings = initial.settings :=
  Reaches.settings_eq ⟨count, rfl⟩

theorem shows_invocations (traced : initial.settings.traceCapabilities = true)
    (empty : initial.trace.Shows []) (count : Nat) :
    (initial.stepTimes count).trace.Shows (initial.invocations count) ∧
      (initial.stepTimes count).trace.limit = initial.trace.limit := by
  induction count with
  | zero => exact ⟨empty, rfl⟩
  | succ count ih =>
    rw [stepTimes_succ_eq_step, step_trace, stepTimes_settings, if_pos traced, invocations_succ]
    cases (initial.stepTimes count).record? with
    | none => simpa using ih
    | some record => exact ⟨ih.1.push record, ih.2⟩

theorem trace_of_untraced (untraced : initial.settings.traceCapabilities = false) (count : Nat) :
    (initial.stepTimes count).trace = initial.trace := by
  induction count with
  | zero => rfl
  | succ count ih =>
    rw [stepTimes_succ_eq_step, step_trace, stepTimes_settings, untraced]
    exact ih

/-! ### Runs that differ in what is recorded -/

/-- The second machine is the first one with all actions on record, and they have put the log on
record. -/
structure OnRecord (machine : Machine α ω) (log : List Performance)
    (other : Machine (Recorded α) (ω × List Performance)) : Prop where
  inStep : machine.InStep other
  registry_eq : other.registry = machine.registry.recorded
  world_eq : other.world = (machine.world, log)

namespace OnRecord

variable {log : List Performance} {other : Machine (Recorded α) (ω × List Performance)}

theorem response_eq (onRecord : machine.OnRecord log other) (handle : Handle)
    (arguments : List Value) :
    other.response handle arguments =
      ⟨(machine.response handle arguments).outcome,
        (machine.response handle arguments).next.recorded,
        ((machine.response handle arguments).world, log ++
          if machine.registry.Permits handle arguments then [⟨handle.id, arguments⟩] else [])⟩ := by
  rw [Machine.response, onRecord.registry_eq, onRecord.world_eq]
  exact Registry.invoke_recorded _ _ _ _ _

theorem step (onRecord : machine.OnRecord log other) :
    machine.step.OnRecord (log ++ machine.performance?.toList) other.step := by
  have issues (id : CapabilityId) : other.registry.issue id = machine.registry.issue id := by
    rw [onRecord.registry_eq, Registry.issue_recorded]
  have inStep := onRecord.inStep.step issues fun handle arguments => by rw [onRecord.response_eq]
  rcases onRecord.inStep.host_cases issues with
    ⟨quiet, ⟨registry_eq, world_eq⟩, other_registry_eq, other_world_eq⟩ |
    ⟨handle, arguments, isInvocation, ⟨registry_eq, world_eq⟩, other_registry_eq, other_world_eq⟩
  · refine ⟨inStep, ?_, ?_⟩
    · rw [other_registry_eq, registry_eq, onRecord.registry_eq]
    · rw [other_world_eq, world_eq, onRecord.world_eq, performance?, quiet]
      exact congrArg (Prod.mk _) (List.append_nil log).symm
  · refine ⟨inStep, ?_, ?_⟩
    · rw [other_registry_eq, registry_eq, onRecord.response_eq]
    · rw [other_world_eq, world_eq, onRecord.response_eq, performance?, isInvocation]
      by_cases permits : machine.registry.Permits handle arguments
      · simp [permits]
      · simp [permits]

end OnRecord

theorem onRecord_stepTimes {other : Machine (Recorded α) (ω × List Performance)}
    (onRecord : initial.OnRecord [] other) (count : Nat) :
    (initial.stepTimes count).OnRecord (initial.performances count) (other.stepTimes count) := by
  induction count with
  | zero => exact onRecord
  | succ count ih =>
    rw [stepTimes_succ_eq_step, stepTimes_succ_eq_step, performances_succ]
    exact ih.step

/-- The machines differ in their traces and in what is set about these, and in nothing that has to
do with the run. -/
structure SameRun (first second : Machine α ω) : Prop where
  inStep : first.InStep second
  registry_eq : second.registry = first.registry
  world_eq : second.world = first.world

theorem SameRun.step {first second : Machine α ω} (same : first.SameRun second) :
    first.step.SameRun second.step := by
  have issues (id : CapabilityId) : second.registry.issue id = first.registry.issue id := by
    rw [same.registry_eq]
  have response_eq (handle : Handle) (arguments : List Value) :
      second.response handle arguments = first.response handle arguments := by
    rw [response, same.registry_eq, same.world_eq, response]
  have inStep := same.inStep.step issues fun handle arguments => by rw [response_eq]
  rcases same.inStep.host_cases issues with
    ⟨_, ⟨registry_eq, world_eq⟩, other_registry_eq, other_world_eq⟩ |
    ⟨handle, arguments, _, ⟨registry_eq, world_eq⟩, other_registry_eq, other_world_eq⟩
  · refine ⟨inStep, ?_, ?_⟩
    · rw [other_registry_eq, registry_eq, same.registry_eq]
    · rw [other_world_eq, world_eq, same.world_eq]
  · refine ⟨inStep, ?_, ?_⟩
    · rw [other_registry_eq, registry_eq, response_eq]
    · rw [other_world_eq, world_eq, response_eq]

theorem sameRun_stepTimes {first second : Machine α ω} (same : first.SameRun second)
    (count : Nat) : (first.stepTimes count).SameRun (second.stepTimes count) := by
  induction count with
  | zero => exact same
  | succ count ih =>
    rw [stepTimes_succ_eq_step, stepTimes_succ_eq_step]
    exact ih.step

section Created

variable {program : Program} {registry : Registry α} {world : ω} {settings : Settings}

theorem exists_onRecord (created : create program registry world settings = .ok initial)
    (count : Nat) :
    ∃ recorded, create program registry.recorded (world, []) settings = .ok recorded ∧
      (initial.stepTimes count).OnRecord (initial.performances count)
        (recorded.stepTimes count) := by
  rcases create_eq_ok.1 created with ⟨valid, rfl⟩
  refine ⟨_, create_eq_ok.2 ⟨valid, rfl⟩, onRecord_stepTimes ?_ count⟩
  exact ⟨⟨rfl, rfl, rfl, rfl, rfl, rfl, rfl⟩, rfl, rfl⟩

theorem exists_sameRun (created : create program registry world settings = .ok initial)
    (traceCapabilities : Bool) (traceLimit count : Nat) :
    ∃ other,
      create program registry world { settings with traceCapabilities, traceLimit } = .ok other ∧
      (initial.stepTimes count).SameRun (other.stepTimes count) := by
  rcases create_eq_ok.1 created with ⟨valid, rfl⟩
  refine ⟨_, create_eq_ok.2 ⟨valid, rfl⟩, sameRun_stepTimes ?_ count⟩
  exact ⟨⟨rfl, rfl, rfl, rfl, rfl, rfl, rfl⟩, rfl, rfl⟩

end Created

/-- The trace is a complete and bounded audit log, which the run does not depend on. The invocations
of a run are listed with their numbers of steps, which increase, and with their outcomes, none of
which is a refusal of the handle. A trace that is kept shows the last of them, as many as it may
keep, and has counted the others; one that is not kept stays empty. What host actions perform in the
run is a part of the list, in the same order. Runs that differ in what is traced are the same. -/
theorem trace_is_audit_log {program : Program} {registry : Registry α} {world : ω}
    {settings : Settings} (created : create program registry world settings = .ok initial)
    (count : Nat) :
    let machine := initial.stepTimes count
    let invocations := initial.invocations count
    (∀ record, record ∈ invocations ↔
      ∃ earlier < count, (initial.stepTimes earlier).Invokes record) ∧
    (invocations.Pairwise fun earlier later => earlier.step < later.step) ∧
    (∀ record ∈ invocations, ∀ id, record.outcome ≠ .error (.capabilityDenied id) ∧
      record.outcome ≠ .error (.unresolvedCapability id)) ∧
    (settings.traceCapabilities = true →
      machine.trace.toList = invocations.drop (invocations.length - settings.traceLimit) ∧
      machine.trace.size + machine.trace.dropped = invocations.length) ∧
    (settings.traceCapabilities = false →
      machine.trace.toList = [] ∧ machine.trace.dropped = 0) ∧
    (∃ recorded, create program registry.recorded (world, []) settings = .ok recorded ∧
      machine.OnRecord (initial.performances count) (recorded.stepTimes count)) ∧
    (initial.performances count).Sublist (invocations.map Performance.ofRecord) ∧
    ∀ traceCapabilities traceLimit, ∃ other,
      create program registry world { settings with traceCapabilities, traceLimit } = .ok other ∧
      (other.stepTimes count).status = machine.status ∧
      (other.stepTimes count).position = machine.position ∧
      (other.stepTimes count).core = machine.core ∧
      (other.stepTimes count).steps = machine.steps ∧
      (other.stepTimes count).registry = machine.registry ∧
      (other.stepTimes count).world = machine.world ∧
      (other.stepTimes count).termination? = machine.termination? := by
  intro machine invocations
  have start := authentic_of_create created
  rcases create_eq_ok.1 created with ⟨_, initial_eq⟩
  refine ⟨fun record => mem_invocations, pairwise_invocations initial count,
    fun record member => outcome_ne_of_mem_invocations start member, ?_, ?_, ?_,
    sublist_performances initial count, ?_⟩
  · intro traced
    have isTraced : initial.settings.traceCapabilities = true := by rw [initial_eq, traced]
    have empty : initial.trace.Shows [] := by
      rw [initial_eq]
      exact ⟨List.take_nil.symm, rfl⟩
    rcases shows_invocations isTraced empty count with ⟨shown, limit_eq⟩
    have limit_eq : machine.trace.limit = settings.traceLimit := by rw [limit_eq, initial_eq]
    rw [← limit_eq]
    exact ⟨shown.toList_eq, shown.size_add_dropped⟩
  · intro untraced
    have isUntraced : initial.settings.traceCapabilities = false := by rw [initial_eq, untraced]
    rw [trace_of_untraced isUntraced, initial_eq]
    exact ⟨rfl, rfl⟩
  · exact exists_onRecord created count
  · intro traceCapabilities traceLimit
    rcases exists_sameRun created traceCapabilities traceLimit count with ⟨other, isCreated, same⟩
    have inStep := same.inStep
    exact ⟨other, isCreated, inStep.status_eq, inStep.position_eq, inStep.core_eq,
      inStep.steps_eq, same.registry_eq, same.world_eq, inStep.termination_eq⟩

/-- A run that reads a clock twice, the trace of which may keep one record. -/
theorem trace_is_audit_log_clock :
    ∃ (program : Program) (registry : Registry Device) (settings : Settings)
      (initial : Machine Device World),
      create program registry {} settings = .ok initial ∧
      (initial.invocations 3).map Performance.ofRecord = [⟨⟨7⟩, []⟩, ⟨⟨7⟩, []⟩] ∧
      (initial.stepTimes 3).trace.toList.map InvocationRecord.step = [1] ∧
      (initial.stepTimes 3).trace.size + (initial.stepTimes 3).trace.dropped = 2 := by
  let program : Program := {
    instructions := #[.invoke ⟨7⟩ 0, .invoke ⟨7⟩ 0, .halt]
    offsets := #[0, 4, 8]
    entry := 0
    capabilities := [⟨7⟩]
    version := ⟨1, 0⟩ }
  rcases (⟨_, rfl⟩ : ∃ config : HostConfig Device,
    HostConfig.registerGranted {} ⟨7⟩ (.steppedClock 5 1) = .ok config) with ⟨config, built⟩
  let registry : Registry Device := ⟨⟨0⟩, config⟩
  let settings : Settings := { traceCapabilities := true, traceLimit := 1 }
  rcases (⟨_, rfl⟩ : ∃ initial : Machine Device World,
    create program registry {} settings = .ok initial) with ⟨initial, created⟩
  have invoked : (initial.invocations 3).map InvocationRecord.step = [0, 1] := by
    cases created
    cases built
    decide +kernel
  have performed : (initial.invocations 3).map Performance.ofRecord =
      [⟨⟨7⟩, []⟩, ⟨⟨7⟩, []⟩] := by
    cases created
    cases built
    decide +kernel
  have length_eq : (initial.invocations 3).length = 2 := by
    simpa using congrArg List.length invoked
  rcases (trace_is_audit_log created 3).2.2.2.1 rfl with ⟨shown, counted⟩
  refine ⟨program, registry, settings, initial, created, performed, ?_, counted.trans length_eq⟩
  rw [shown, List.map_drop, invoked, length_eq]
  rfl

end Machine

end CapabilityMachine
