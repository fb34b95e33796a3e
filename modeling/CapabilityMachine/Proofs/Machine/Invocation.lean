import CapabilityMachine.Host.Device
import CapabilityMachine.Proofs.Machine.InStep
import CapabilityMachine.Proofs.Machine.StackEffect
/-!
# Two ways to invoke a capability

A program can invoke a capability by its id, or have a handle issued first and invoke that. The two
instructions ask for different things: the first one checks the grant and, if it passes no
arguments, that there is room for the result, while the second one looks for the handle below the
arguments and takes it off the stack. As far as the capability is granted and there is room for the
handle, they come to the same.
-/

namespace CapabilityMachine

open Outcome

theorem Stack.top_of_values {stack : Stack} {arguments rest : List Value}
    (shape : stack.values = arguments.reverse ++ rest) :
    stack.top arguments.length = .ok arguments := by
  refine top_eq_ok.2 ⟨?_, ?_⟩
  · rw [size, shape, List.length_append, List.length_reverse]
    exact Nat.le_add_right _ _
  · rw [shape, List.take_left' List.length_reverse, List.reverse_reverse]

namespace Machine

variable {α ω : Type} {machine : Machine α ω} {id : CapabilityId} {handle : Handle}
  {arguments rest : List Value} {argumentCount : UInt8}

/-- The machine with another program, and with the given values on its stack, from bottom to top. -/
def holding (machine : Machine α ω) (program : Program) (values : List Value) : Machine α ω :=
  { machine with program, core := machine.core.withValues values.reverse }

@[simp]
theorem values_holding (machine : Machine α ω) (program : Program) (values : List Value) :
    (machine.holding program values).core.stack.values = values.reverse :=
  rfl

@[simp]
theorem size_holding (machine : Machine α ω) (program : Program) (values : List Value) :
    (machine.holding program values).core.stack.size = values.length :=
  List.length_reverse

/-- The run goes on or has halted. -/
def Passed (machine : Machine α ω) : Prop :=
  machine.status = .running ∨ machine.status = .halted

theorem passed_follow (machine : Machine α ω) (flow : Flow) : (machine.follow flow).Passed := by
  rcases machine.follow_status flow with ⟨running, _⟩ | halted
  · exact Or.inl running
  · exact Or.inr halted.status_eq

theorem request_cap (issued : machine.registry.issue id = .ok handle)
    (room : machine.core.stack.size < machine.core.stack.limit) :
    machine.request (.cap id) = .ok (.proceed
      (machine.core.withValues (.cap handle :: machine.core.stack.values)) .next) := by
  simp only [request, Core.request, bind_eq_ok, Stack.ensureRoom_one_eq_ok, Stack.push_eq_ok,
    pure_eq_ok]
  exact ⟨(), room, handle, issued, _, ⟨room, rfl⟩, rfl⟩

theorem request_invoke (issued : machine.registry.issue id = .ok handle)
    (shape : machine.core.stack.values = arguments.reverse ++ rest)
    (length_eq : arguments.length = argumentCount.toNat)
    (room : machine.core.stack.size < machine.core.stack.limit) :
    machine.request (.invoke id argumentCount) =
      .ok (.invoke handle arguments arguments.length) := by
  have taken := Stack.top_of_values shape
  rw [length_eq] at taken ⊢
  have fits (_ : argumentCount.toNat = 0) : machine.core.stack.ensureRoom 1 = .ok () :=
    Stack.ensureRoom_one_eq_ok.2 room
  rcases exists_asked_of_calls (.byId fits issued taken) with ⟨replaced, asked⟩
  rw [asked]
  cases Core.allows_of_request_eq_ok asked
  rfl

theorem request_invokeHandle
    (shape : machine.core.stack.values = arguments.reverse ++ .cap handle :: rest)
    (length_eq : arguments.length = argumentCount.toNat) :
    machine.request (.invokeHandle argumentCount) =
      .ok (.invoke handle arguments (arguments.length + 1)) := by
  have taken := Stack.top_of_values shape
  have held : machine.core.stack.peek arguments.length = .ok (.cap handle) := by
    rw [Stack.peek_eq_ok, shape, ← List.length_reverse,
      List.getElem?_append_right (Nat.le_refl _), Nat.sub_self, List.getElem?_cons_zero]
  rw [length_eq] at held taken ⊢
  rcases exists_asked_of_calls (.byHandle held taken) with ⟨replaced, asked⟩
  rw [asked]
  cases Core.allows_of_request_eq_ok asked
  rfl

variable [HostAction α ω]

/-- The step passes the arguments on to the handle. What the registry and the world have become by
that is kept in either case; the result goes on top of the given rest of the stack, and an error
ends the run with a fault. None of this depends on the program or on what else is on the stack. -/
structure PassesOn (machine : Machine α ω) (handle : Handle) (arguments rest : List Value) :
    Prop where
  registry_eq : machine.step.registry = (machine.response handle arguments).next
  world_eq : machine.step.world = (machine.response handle arguments).world
  trace_eq : machine.step.trace = (machine.afterInvoking handle arguments).trace
  answered : ∀ result, (machine.response handle arguments).outcome = .ok result →
    machine.step.core = machine.core.withValues (result :: rest) ∧ machine.step.Passed
  rejected : ∀ error, (machine.response handle arguments).outcome = .error error →
    machine.step.FaultedWith error

/-- The registry honors the handle, so an error is none that would deny the capability. -/
theorem passesOn_of_asked {instruction : Instruction} {replaced : Nat} (active : machine.Active)
    (fetched : machine.program.get? machine.position = some instruction)
    (asked : machine.request instruction = .ok (.invoke handle arguments replaced))
    (honors : machine.registry.Honors handle)
    (rest_eq : machine.core.stack.values.drop replaced = rest) :
    machine.PassesOn handle arguments rest := by
  rcases machine.step_surroundings with ⟨registry_eq, world_eq, trace_eq⟩
  rw [invoked_of_some (invocation?_of_asked active fetched asked)] at registry_eq world_eq trace_eq
  refine ⟨registry_eq, world_eq, trace_eq, ?_, ?_⟩
  · intro result answered
    rw [step_of_answered active fetched asked answered, follow_core, rest_eq]
    exact ⟨rfl, passed_follow _ _⟩
  · intro error rejected
    have notDenial : error.isDenial = false := by
      cases Registry.invoke_error_of_honors honors rejected <;> rfl
    rw [step_of_rejected active fetched asked rejected]
    exact faultedWith_fail _ _ notDenial

section Holding

variable {program : Program} (below : List Value) (active : machine.Active)
  (issued : machine.registry.issue id = .ok handle)

include active issued

theorem step_cap_of_issued (fetched : program.get? machine.position = some (.cap id))
    (room : below.length < machine.core.stack.limit) :
    (machine.holding program below).step.Passed ∧
      (machine.holding program below).step.core =
        machine.core.withValues (below ++ [Value.cap handle]).reverse := by
  have fits : (machine.holding program below).core.stack.size < machine.core.stack.limit := by
    rw [size_holding]
    exact room
  have asked : (machine.holding program below).request (.cap id) = _ := request_cap issued fits
  have step_eq : (machine.holding program below).step = _ :=
    step_of_proceeding (show (machine.holding program below).Active from active) fetched asked
  rw [step_eq, follow_core, List.reverse_concat]
  exact ⟨passed_follow _ _, rfl⟩

theorem passesOn_by_id (fetched : program.get? machine.position = some (.invoke id argumentCount))
    (length_eq : arguments.length = argumentCount.toNat)
    (room : below.length + arguments.length < machine.core.stack.limit) :
    (machine.holding program (below ++ arguments)).PassesOn handle arguments below.reverse := by
  have shape : (machine.holding program (below ++ arguments)).core.stack.values =
      arguments.reverse ++ below.reverse := List.reverse_append
  have fits : (machine.holding program (below ++ arguments)).core.stack.size <
      machine.core.stack.limit := by
    rw [size_holding, List.length_append]
    exact room
  have asked : (machine.holding program (below ++ arguments)).request _ = _ :=
    request_invoke issued shape length_eq fits
  refine passesOn_of_asked active fetched asked (Registry.honors_of_issue issued) ?_
  rw [shape, List.drop_left' List.length_reverse]

theorem passesOn_by_handle
    (fetched : program.get? machine.position = some (.invokeHandle argumentCount))
    (length_eq : arguments.length = argumentCount.toNat) :
    (machine.holding program (below ++ [Value.cap handle] ++ arguments)).PassesOn handle arguments
      below.reverse := by
  have shape : (machine.holding program
      (below ++ [Value.cap handle] ++ arguments)).core.stack.values =
        arguments.reverse ++ Value.cap handle :: below.reverse := by
    rw [values_holding, List.reverse_append, List.reverse_concat]
  have asked : (machine.holding program (below ++ [Value.cap handle] ++ arguments)).request _ = _ :=
    request_invokeHandle shape length_eq
  refine passesOn_of_asked active fetched asked (Registry.honors_of_issue issued) ?_
  rw [shape, ← List.drop_drop, List.drop_left' List.length_reverse, List.drop_one, List.tail_cons]

end Holding

/-- Invoking a granted capability by its id and through the handle that is issued for it come to the
same, wherever the two instructions stand in its place, whatever the actions of the host are, and
whatever else is on the stack, in memory and among the calls of the machine. Either both of them put
the same result in place of what they take off the stack, or both end the run with a fault of the
same error; and what becomes of the registry, the world and the trace is the same in either case. -/
theorem invoke_eq_invokeHandle (active : machine.Active)
    (granted : machine.registry.isGranted id = true) {below arguments : List Value}
    (length_eq : arguments.length = argumentCount.toNat)
    (room : below.length + arguments.length < machine.core.stack.limit) :
    ∃ handle,
      (∀ program, program.get? machine.position = some (.cap id) →
        (machine.holding program below).step.Passed ∧
        (machine.holding program below).step.core =
          machine.core.withValues (below ++ [Value.cap handle]).reverse) ∧
      ∀ program other, program.get? machine.position = some (.invoke id argumentCount) →
        other.get? machine.position = some (.invokeHandle argumentCount) →
        let byId := (machine.holding program (below ++ arguments)).step
        let byHandle := (machine.holding other (below ++ [Value.cap handle] ++ arguments)).step
        byId.registry = byHandle.registry ∧ byId.world = byHandle.world ∧
        byId.trace = byHandle.trace ∧
        ((∃ result, (byId.Passed ∧ byHandle.Passed) ∧
            byId.core = machine.core.withValues (below ++ [result]).reverse ∧
            byHandle.core = machine.core.withValues (below ++ [result]).reverse) ∨
          ∃ error, byId.FaultedWith error ∧ byHandle.FaultedWith error) := by
  have issued := Registry.issue_eq_ok.2 (⟨granted, rfl⟩ : machine.registry.isGranted id = true ∧
    (⟨id, machine.registry.token⟩ : Handle) = ⟨id, machine.registry.token⟩)
  refine ⟨⟨id, machine.registry.token⟩, ?_, ?_⟩
  · intro program fetched
    exact step_cap_of_issued below active issued fetched (by omega)
  · intro program other fetched otherFetched
    dsimp only
    have byId := passesOn_by_id below active issued fetched length_eq room
    have byHandle := passesOn_by_handle below active issued otherFetched length_eq
    refine ⟨byId.registry_eq.trans byHandle.registry_eq.symm,
      byId.world_eq.trans byHandle.world_eq.symm, byId.trace_eq.trans byHandle.trace_eq.symm, ?_⟩
    cases outcome : (machine.response ⟨id, machine.registry.token⟩ arguments).outcome with
    | ok result =>
      rcases byId.answered result outcome with ⟨core_eq, passed⟩
      rcases byHandle.answered result outcome with ⟨otherCore_eq, otherPassed⟩
      refine Or.inl ⟨result, ⟨passed, otherPassed⟩, ?_, ?_⟩
      · rw [core_eq, List.reverse_concat]
        rfl
      · rw [otherCore_eq, List.reverse_concat]
        rfl
    | error error =>
      exact Or.inr ⟨error, byId.rejected error outcome, byHandle.rejected error outcome⟩

/-- A clock is asked for the time without arguments, on a stack with room for one more value. -/
theorem invoke_eq_invokeHandle_clock :
    ∃ (program other : Program) (config : HostConfig Device) (initial : Machine Device World)
        (handle : Handle),
      HostConfig.registerGranted {} ⟨5⟩ (.steppedClock 40 2) = .ok config ∧
      create program ⟨⟨3⟩, config⟩ {} { maxStackDepth := 2 } = .ok initial ∧
      program.get? 0 = some (.invoke ⟨5⟩ 0) ∧ other.get? 0 = some (.invokeHandle 0) ∧
      (initial.holding program [.unit]).step.core.stack.toList = [.unit, .int 40] ∧
      (initial.holding other [.unit, .cap handle]).step.core.stack.toList = [.unit, .int 40] := by
  let program : Program := {
    instructions := #[.invoke ⟨5⟩ 0]
    offsets := #[0]
    entry := 0
    capabilities := [⟨5⟩]
    version := ⟨1, 0⟩ }
  let other : Program := { program with instructions := #[.invokeHandle 0] }
  rcases (⟨_, rfl⟩ : ∃ config : HostConfig Device,
    HostConfig.registerGranted {} ⟨5⟩ (.steppedClock 40 2) = .ok config) with ⟨config, registered⟩
  rcases (⟨_, rfl⟩ : ∃ initial : Machine Device World,
    create program ⟨⟨3⟩, config⟩ {} { maxStackDepth := 2 } = .ok initial) with ⟨initial, created⟩
  have byId : (initial.holding program [.unit]).step.core.stack.toList = [.unit, .int 40] := by
    cases registered
    cases created
    rfl
  have sameStart : initial.Active ∧ initial.position = 0 ∧
      initial.registry.isGranted ⟨5⟩ = true ∧ initial.core.stack.limit = 2 := by
    cases registered
    cases created
    exact ⟨rfl, rfl, rfl, rfl⟩
  rcases sameStart with ⟨active, position_eq, granted, limit_eq⟩
  have noArguments : ([] : List Value).length = (0 : UInt8).toNat := rfl
  have room : [Value.unit].length + ([] : List Value).length < initial.core.stack.limit := by
    rw [limit_eq]
    decide
  rcases invoke_eq_invokeHandle active granted noArguments room with ⟨handle, _, same⟩
  rw [position_eq] at same
  refine ⟨program, other, config, initial, handle, registered, created, rfl, rfl, byId, ?_⟩
  rcases same program other rfl rfl with ⟨_, _, _, ⟨result, _, core_eq, otherCore_eq⟩ | failed⟩
  · have cores_eq := otherCore_eq.trans core_eq.symm
    exact (congrArg (fun core : Core => core.stack.toList) cores_eq).trans byId
  · rcases failed with ⟨error, ⟨fault, faulted, _⟩, _⟩
    cases registered
    cases created
    cases faulted.termination_eq

end Machine

end CapabilityMachine
