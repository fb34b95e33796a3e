import CapabilityMachine.Machine.Step
import CapabilityMachine.Proofs.Machine.Stack
/-!
# Instructions as requests

An instruction can be read in two stages: it checks everything, without changing anything, and comes
to a request, which is then carried out as a whole. `execute_eq` says that executing an instruction
in place comes to the same. In particular no operation on the stack fails after the memory has been
changed.
-/

namespace CapabilityMachine

variable {α ω β : Type}

/-- What an instruction asks for once its checks have passed: to go on with another core, or to
invoke the capability of a handle and to replace the topmost `replaced` values by the result. -/
inductive Request where
  | proceed (core : Core) (flow : Flow)
  | invoke (handle : Handle) (arguments : List Value) (replaced : Nat)

namespace Core

/-- To go on behind the instruction with another stack, and nothing else changed. -/
def withStack (core : Core) (stack : Stack) : Request :=
  .proceed { core with stack } .next

/-- What the instruction at the index asks for, given the registry and the limit on nested calls. -/
def request (core : Core) (registry : Registry α) (maxCallDepth index : Nat)
    (instruction : Instruction) : Except RuntimeError Request :=
  let stack := core.stack
  let memory := core.memory
  match instruction with
  | .nop => return .proceed core .next
  | .push n => return core.withStack (← stack.push (.int n))
  | .pushBool b => return core.withStack (← stack.push (.bool b))
  | .pushUnit => return core.withStack (← stack.push .unit)
  | .pop => return core.withStack (← stack.dropTop 1)
  | .dup => return core.withStack (← stack.dup)
  | .swap => return core.withStack (← stack.swap)
  | .pick depth => return core.withStack (← stack.pick depth.toNat)
  | .binary op => do
    stack.ensureDepth 2
    let second ← stack.peek 0
    let first ← stack.peek 1
    let result ← op.apply first second
    return core.withStack (← stack.replaceTop 2 result)
  | .unary op => do
    let result ← op.apply (← stack.peek 0)
    return core.withStack (← stack.replaceTop 1 result)
  | .jump target => return .proceed core (.jump target)
  | .branch condition target => do
    let found ← (← stack.peek 0).expectBool
    let stack ← stack.dropTop 1
    return .proceed { core with stack } (if found = condition then .jump target else .next)
  | .call target =>
    if maxCallDepth ≤ core.frames.length then
      .error (.callDepthExceeded maxCallDepth)
    else
      let frames := (index + 1) :: core.frames
      return .proceed { core with memory := memory.enterFrame, frames } (.jump target)
  | .ret =>
    match core.frames with
    | [] => return .proceed core .halt
    | origin :: frames => do
      let memory ← memory.leaveFrame
      return .proceed { core with memory, frames } (.jump origin)
  | .alloc length => do
    stack.ensureRoom 1
    let (reference, memory) ← memory.alloc length.toNat
    let stack ← stack.push (.ref reference)
    return .proceed { core with stack, memory } .next
  | .load offset => do
    let reference ← (← stack.peek 0).expectRef
    let value ← memory.read reference (Int64.ofNat offset.toNat)
    return core.withStack (← stack.replaceTop 1 value)
  | .store offset => do
    stack.ensureDepth 2
    let value ← stack.peek 0
    let reference ← (← stack.peek 1).expectRef
    let memory ← memory.write reference (Int64.ofNat offset.toNat) value
    let stack ← stack.dropTop 2
    return .proceed { core with stack, memory } .next
  | .loadAt => do
    stack.ensureDepth 2
    let offset ← (← stack.peek 0).expectInt
    let reference ← (← stack.peek 1).expectRef
    let value ← memory.read reference offset
    return core.withStack (← stack.replaceTop 2 value)
  | .storeAt => do
    stack.ensureDepth 3
    let value ← stack.peek 0
    let offset ← (← stack.peek 1).expectInt
    let reference ← (← stack.peek 2).expectRef
    let memory ← memory.write reference offset value
    let stack ← stack.dropTop 3
    return .proceed { core with stack, memory } .next
  | .cap id => do
    stack.ensureRoom 1
    let handle ← registry.issue id
    return core.withStack (← stack.push (.cap handle))
  | .invoke id argumentCount => do
    let count := argumentCount.toNat
    stack.ensureDepth count
    if count = 0 then
      stack.ensureRoom 1
    let handle ← registry.issue id
    return .invoke handle (← stack.top count) count
  | .invokeHandle argumentCount => do
    let count := argumentCount.toNat
    stack.ensureDepth (count + 1)
    let handle ← (← stack.peek count).expectCap
    return .invoke handle (← stack.top count) (count + 1)
  | .halt => return .proceed core .halt

end Core

namespace Machine

open Execution

/-- The answer of the machine's registry to an invocation. -/
def response [HostAction α ω] (machine : Machine α ω) (handle : Handle) (arguments : List Value) :
    Response (Registry α) ω :=
  machine.registry.invoke handle arguments machine.world

/-- The machine after an invocation, whatever came of it. -/
def afterInvoking [HostAction α ω] (machine : Machine α ω) (handle : Handle)
    (arguments : List Value) : Machine α ω :=
  machine.answered handle arguments (machine.response handle arguments)

/-- Carries out what an instruction asks for. -/
def carryOut [HostAction α ω] (machine : Machine α ω) (request : Except RuntimeError Request) :
    EStateM.Result RuntimeError (Machine α ω) Flow :=
  match request with
  | .error error => .error error machine
  | .ok (.proceed core flow) => .ok flow { machine with core }
  | .ok (.invoke handle arguments replaced) =>
    let invoked := machine.afterInvoking handle arguments
    let stack := (machine.response handle arguments).outcome >>=
      machine.core.stack.replaceTop replaced
    match stack with
    | .error error => .error error invoked
    | .ok stack => .ok .next { invoked with core := { machine.core with stack } }

theorem bind_apply {γ : Type} (first : Execution α ω β) (next : β → Execution α ω γ)
    (machine : Machine α ω) :
    (first >>= next) machine =
      match first machine with
      | .error error after => .error error after
      | .ok result after => next result after := by
  change EStateM.bind first next machine = _
  unfold EStateM.bind
  cases first machine with
  | error error after => rfl
  | ok result after => rfl

theorem attempt_apply (outcome : Except RuntimeError β) (machine : Machine α ω) :
    attempt outcome machine =
      match outcome with
      | .error error => .error error machine
      | .ok result => .ok result machine := by
  cases outcome with
  | error error => rfl
  | ok result => rfl

theorem changeStack_apply (operation : Stack → Except RuntimeError Stack) (flow : Flow)
    (machine : Machine α ω) :
    (changeStack operation >>= fun _ => pure flow) machine =
      match operation machine.core.stack with
      | .error error => .error error machine
      | .ok stack => .ok flow { machine with core := { machine.core with stack } } := by
  change (attempt (operation machine.core.stack) >>= setStack >>= fun _ => pure flow) machine = _
  rw [bind_apply, bind_apply, attempt_apply]
  cases operation machine.core.stack with
  | error error => rfl
  | ok stack => rfl

section

variable [HostAction α ω] {machine : Machine α ω}

theorem attempt_bind_eq_carryOut {outcome : Except RuntimeError β}
    {inPlace : β → Execution α ω Flow} {checked : β → Except RuntimeError Request}
    (later : ∀ result, outcome = .ok result →
      inPlace result machine = machine.carryOut (checked result)) :
    (attempt outcome >>= inPlace) machine = machine.carryOut (outcome >>= checked) := by
  cases outcome with
  | error error => rfl
  | ok result => exact later result rfl

theorem changeStack_eq_carryOut (operation : Stack → Except RuntimeError Stack) (flow : Flow) :
    (changeStack operation >>= fun _ => pure flow) machine =
      machine.carryOut (do
        let stack ← operation machine.core.stack
        return .proceed { machine.core with stack } flow) := by
  rw [changeStack_apply]
  cases operation machine.core.stack with
  | error error => rfl
  | ok stack => rfl

/-- A change of the stack that is sure to succeed may follow a change of the memory. -/
theorem setMemory_changeStack_eq_carryOut {operation : Stack → Except RuntimeError Stack}
    {memory : Memory} {stack : Stack} (sure : operation machine.core.stack = .ok stack) :
    (setMemory memory >>= fun _ => changeStack operation >>= fun _ => pure .next) machine =
      machine.carryOut (do
        let stack ← operation machine.core.stack
        return .proceed { machine.core with stack, memory } .next) := by
  rw [sure]
  change (changeStack operation >>= fun _ => pure Flow.next)
    { machine with core := { machine.core with memory } } = _
  rw [changeStack_apply]
  dsimp only
  rw [sure]
  rfl

theorem invoke_apply (handle : Handle) (count : Nat) :
    Execution.invoke handle count machine =
      match machine.core.stack.top count with
      | .error error => .error error machine
      | .ok arguments =>
        attempt (machine.response handle arguments).outcome
          (machine.afterInvoking handle arguments) := by
  change (attempt (machine.core.stack.top count) >>= fun arguments =>
    set (machine.afterInvoking handle arguments) >>= fun _ =>
      attempt (machine.response handle arguments).outcome) machine = _
  rw [bind_apply, attempt_apply]
  cases machine.core.stack.top count with
  | error error => rfl
  | ok arguments => rfl

theorem invoke_eq_carryOut {handle : Handle} {count replaced : Nat} :
    (Execution.invoke handle count >>= fun result =>
        changeStack (·.replaceTop replaced result) >>= fun _ => pure .next) machine =
      machine.carryOut (do
        let arguments ← machine.core.stack.top count
        return .invoke handle arguments replaced) := by
  rw [bind_apply, invoke_apply]
  cases machine.core.stack.top count with
  | error error => rfl
  | ok arguments =>
    rw [Outcome.ok_bind]
    change _ = machine.carryOut (.ok (.invoke handle arguments replaced))
    simp only [carryOut, attempt_apply]
    cases (machine.response handle arguments).outcome with
    | error error => rfl
    | ok result => exact changeStack_apply _ _ _

/-- To execute an instruction in place comes to carrying out what it asks for. An allocation has
made sure of room for its reference, so that the push behind it cannot fail. -/
theorem execute_eq (instruction : Instruction) :
    execute instruction machine = machine.carryOut
      (machine.core.request machine.registry machine.settings.maxCallDepth machine.position
        instruction) := by
  cases instruction with
  | nop => rfl
  | push n => exact changeStack_eq_carryOut _ _
  | pushBool b => exact changeStack_eq_carryOut _ _
  | pushUnit => exact changeStack_eq_carryOut _ _
  | pop => exact changeStack_eq_carryOut _ _
  | dup => exact changeStack_eq_carryOut _ _
  | swap => exact changeStack_eq_carryOut _ _
  | pick depth => exact changeStack_eq_carryOut _ _
  | binary op =>
    apply attempt_bind_eq_carryOut
    intro _ _
    apply attempt_bind_eq_carryOut
    intro second _
    apply attempt_bind_eq_carryOut
    intro first _
    apply attempt_bind_eq_carryOut
    intro result _
    exact changeStack_eq_carryOut _ _
  | unary op =>
    apply attempt_bind_eq_carryOut
    intro operand _
    apply attempt_bind_eq_carryOut
    intro result _
    exact changeStack_eq_carryOut _ _
  | jump target => rfl
  | branch condition target =>
    apply attempt_bind_eq_carryOut
    intro value _
    apply attempt_bind_eq_carryOut
    intro found _
    exact changeStack_eq_carryOut _ _
  | call target =>
    rw [execute, bind_apply]
    dsimp only [Core.request, get, getThe, MonadStateOf.get, EStateM.get]
    by_cases deep : machine.settings.maxCallDepth ≤ machine.core.frames.length
    · rw [if_pos deep, if_pos deep]
      rfl
    · rw [if_neg deep, if_neg deep]
      rfl
  | ret =>
    rw [execute, bind_apply]
    dsimp only [Core.request, get, getThe, MonadStateOf.get, EStateM.get]
    cases machine.core.frames with
    | nil => rfl
    | cons origin frames =>
      apply attempt_bind_eq_carryOut
      intro memory _
      rfl
  | alloc length =>
    apply attempt_bind_eq_carryOut
    intro _ room
    apply attempt_bind_eq_carryOut
    rintro ⟨reference, memory⟩ _
    have fits := Stack.ensureRoom_eq_ok.1 room
    exact setMemory_changeStack_eq_carryOut (Stack.push_eq_ok.2 ⟨by omega, rfl⟩)
  | load offset =>
    apply attempt_bind_eq_carryOut
    intro value _
    apply attempt_bind_eq_carryOut
    intro reference _
    apply attempt_bind_eq_carryOut
    intro found _
    exact changeStack_eq_carryOut _ _
  | store offset =>
    apply attempt_bind_eq_carryOut
    intro _ deep
    apply attempt_bind_eq_carryOut
    intro value _
    apply attempt_bind_eq_carryOut
    intro operand _
    apply attempt_bind_eq_carryOut
    intro reference _
    apply attempt_bind_eq_carryOut
    intro memory _
    exact setMemory_changeStack_eq_carryOut
      (Stack.dropTop_eq_ok.2 ⟨Stack.ensureDepth_eq_ok.1 deep, rfl⟩)
  | loadAt =>
    apply attempt_bind_eq_carryOut
    intro _ _
    apply attempt_bind_eq_carryOut
    intro top _
    apply attempt_bind_eq_carryOut
    intro offset _
    apply attempt_bind_eq_carryOut
    intro operand _
    apply attempt_bind_eq_carryOut
    intro reference _
    apply attempt_bind_eq_carryOut
    intro value _
    exact changeStack_eq_carryOut _ _
  | storeAt =>
    apply attempt_bind_eq_carryOut
    intro _ deep
    apply attempt_bind_eq_carryOut
    intro value _
    apply attempt_bind_eq_carryOut
    intro top _
    apply attempt_bind_eq_carryOut
    intro offset _
    apply attempt_bind_eq_carryOut
    intro operand _
    apply attempt_bind_eq_carryOut
    intro reference _
    apply attempt_bind_eq_carryOut
    intro memory _
    exact setMemory_changeStack_eq_carryOut
      (Stack.dropTop_eq_ok.2 ⟨Stack.ensureDepth_eq_ok.1 deep, rfl⟩)
  | cap id =>
    apply attempt_bind_eq_carryOut
    intro _ _
    apply attempt_bind_eq_carryOut
    intro handle _
    exact changeStack_eq_carryOut _ _
  | invoke id argumentCount =>
    apply attempt_bind_eq_carryOut
    intro _ _
    by_cases noArguments : argumentCount.toNat = 0
    · simp only [noArguments, if_true]
      apply attempt_bind_eq_carryOut
      intro _ _
      apply attempt_bind_eq_carryOut
      intro handle _
      exact invoke_eq_carryOut
    · simp only [noArguments, if_false]
      apply attempt_bind_eq_carryOut
      intro handle _
      exact invoke_eq_carryOut
  | invokeHandle argumentCount =>
    apply attempt_bind_eq_carryOut
    intro _ _
    apply attempt_bind_eq_carryOut
    intro value _
    apply attempt_bind_eq_carryOut
    intro handle _
    exact invoke_eq_carryOut
  | halt => rfl

end

end Machine

end CapabilityMachine
