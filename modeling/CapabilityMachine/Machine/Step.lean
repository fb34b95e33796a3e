import CapabilityMachine.Machine.Basic
import CapabilityMachine.Machine.Operator
/-!
# Execution

One step of a machine executes one instruction. An instruction checks what it needs of stack,
memory, calls and grants, and changes the machine in place. An error ends it where it is raised and
takes nothing back, so an instruction that changes several parts of the machine has to make sure of
all of them before the first change. Only an invocation may fail after a change: whatever its action
did to the world stays done.
-/

namespace CapabilityMachine

variable {α ω β : Type}

/-- Where execution continues after an instruction. -/
inductive Flow where
  | next
  | jump (target : Nat)
  | halt
deriving DecidableEq, Repr

/-- The machine after an invocation on behalf of the instruction at the current position, which is
recorded if the settings ask for that. -/
def Machine.answered (machine : Machine α ω) (handle : Handle) (arguments : List Value)
    (response : Response (Registry α) ω) : Machine α ω :=
  let record : InvocationRecord := {
    step := machine.steps
    instruction := machine.position
    id := handle.id
    arguments
    outcome := response.outcome
  }
  { machine with
    registry := response.next
    world := response.world
    trace :=
      if machine.settings.traceCapabilities then machine.trace.push record else machine.trace }

/-- Something that is done to a machine, and comes to a result or an error. The machine has changed
up to there in either case. -/
abbrev Execution (α ω β : Type) : Type :=
  EStateM RuntimeError (Machine α ω) β

namespace Execution

/-- Goes on with the result of an operation that changes nothing, or fails with its error. -/
def attempt (outcome : Except RuntimeError β) : Execution α ω β :=
  match outcome with
  | .ok result => pure result
  | .error error => throw error

/-- Replaces the stack. -/
def setStack (stack : Stack) : Execution α ω Unit :=
  modify fun machine => { machine with core := { machine.core with stack } }

/-- Replaces the memory. -/
def setMemory (memory : Memory) : Execution α ω Unit :=
  modify fun machine => { machine with core := { machine.core with memory } }

/-- Replaces the active calls. -/
def setFrames (frames : List Nat) : Execution α ω Unit :=
  modify fun machine => { machine with core := { machine.core with frames } }

/-- Performs an operation on the stack. -/
def changeStack (operation : Stack → Except RuntimeError Stack) : Execution α ω Unit := do
  let machine ← get
  setStack (← attempt (operation machine.core.stack))

/-- Invokes the capability of a handle with the topmost `argumentCount` values, on behalf of the
instruction at the current position. The stack stays as it is. -/
def invoke [HostAction α ω] (handle : Handle) (argumentCount : Nat) : Execution α ω Value := do
  let machine ← get
  let arguments ← attempt (machine.core.stack.top argumentCount)
  let response := machine.registry.invoke handle arguments machine.world
  set (machine.answered handle arguments response)
  attempt response.outcome

end Execution

namespace Machine

open Execution

/-- Executes an instruction at the current position, and tells where to continue. -/
def execute [HostAction α ω] (instruction : Instruction) : Execution α ω Flow := do
  let machine ← get
  let stack := machine.core.stack
  let memory := machine.core.memory
  match instruction with
  | .nop => return .next
  | .push n =>
    changeStack (·.push (.int n))
    return .next
  | .pushBool b =>
    changeStack (·.push (.bool b))
    return .next
  | .pushUnit =>
    changeStack (·.push .unit)
    return .next
  | .pop =>
    changeStack (·.dropTop 1)
    return .next
  | .dup =>
    changeStack (·.dup)
    return .next
  | .swap =>
    changeStack (·.swap)
    return .next
  | .pick depth =>
    changeStack (·.pick depth.toNat)
    return .next
  | .binary _ =>
    attempt (stack.ensureDepth 2)
    let second ← attempt (stack.peek 0)
    let first ← attempt (stack.peek 1)
    let result ← attempt (instruction.applyBinary first second)
    changeStack (·.replaceTop 2 result)
    return .next
  | .unary op =>
    let result ← attempt (op.apply (← attempt (stack.peek 0)))
    changeStack (·.replaceTop 1 result)
    return .next
  | .jump target => return .jump target
  | .branch condition target =>
    let found ← attempt (← attempt (stack.peek 0)).expectBool
    changeStack (·.dropTop 1)
    return if found = condition then .jump target else .next
  | .call target =>
    if machine.settings.maxCallDepth ≤ machine.core.frames.length then
      throw (.callDepthExceeded machine.settings.maxCallDepth)
    setFrames ((machine.position + 1) :: machine.core.frames)
    setMemory memory.enterFrame
    return .jump target
  | .ret =>
    match machine.core.frames with
    | [] => return .halt
    | origin :: frames =>
      setMemory (← attempt memory.leaveFrame)
      setFrames frames
      return .jump origin
  | .alloc length =>
    attempt (stack.ensureRoom 1)
    let (reference, memory) ← attempt (memory.alloc length.toNat)
    setMemory memory
    changeStack (·.push (.ref reference))
    return .next
  | .load offset =>
    let reference ← attempt (← attempt (stack.peek 0)).expectRef
    let value ← attempt (memory.read reference (Int64.ofNat offset.toNat))
    changeStack (·.replaceTop 1 value)
    return .next
  | .store offset =>
    attempt (stack.ensureDepth 2)
    let value ← attempt (stack.peek 0)
    let reference ← attempt (← attempt (stack.peek 1)).expectRef
    setMemory (← attempt (memory.write reference (Int64.ofNat offset.toNat) value))
    changeStack (·.dropTop 2)
    return .next
  | .loadAt =>
    attempt (stack.ensureDepth 2)
    let offset ← attempt (← attempt (stack.peek 0)).expectInt
    let reference ← attempt (← attempt (stack.peek 1)).expectRef
    let value ← attempt (memory.read reference offset)
    changeStack (·.replaceTop 2 value)
    return .next
  | .storeAt =>
    attempt (stack.ensureDepth 3)
    let value ← attempt (stack.peek 0)
    let offset ← attempt (← attempt (stack.peek 1)).expectInt
    let reference ← attempt (← attempt (stack.peek 2)).expectRef
    setMemory (← attempt (memory.write reference offset value))
    changeStack (·.dropTop 3)
    return .next
  | .cap id =>
    attempt (stack.ensureRoom 1)
    let handle ← attempt (machine.registry.issue id)
    changeStack (·.push (.cap handle))
    return .next
  | .invoke id argumentCount =>
    let count := argumentCount.toNat
    attempt (stack.ensureDepth count)
    if count = 0 then
      attempt (stack.ensureRoom 1)
    let handle ← attempt (machine.registry.issue id)
    let result ← invoke handle count
    changeStack (·.replaceTop count result)
    return .next
  | .invokeHandle argumentCount =>
    let count := argumentCount.toNat
    attempt (stack.ensureDepth (count + 1))
    let handle ← attempt (← attempt (stack.peek count)).expectCap
    let result ← invoke handle count
    changeStack (·.replaceTop (count + 1) result)
    return .next
  | .halt => return .halt

/-- Ends the run with the values that are on the stack. -/
def halt (machine : Machine α ω) : Machine α ω :=
  { machine with
    status := .halted
    termination? := some (.halted machine.core.stack.toList) }

/-- Ends the run with the error of an instruction at the current position. -/
def fail (machine : Machine α ω) (instruction : Instruction) (error : RuntimeError) :
    Machine α ω :=
  let fault : Fault := {
    instruction := machine.position
    offset := (machine.program.offset? machine.position).getD 0
    opcode := instruction.opcode
    error
    frames := machine.core.frames
  }
  { machine with
    status := if error.isDenial then .denied else .faulted
    termination? := some (.ofFault fault) }

/-- Goes where an instruction leads. -/
def advance (machine : Machine α ω) (flow : Flow) : Machine α ω :=
  match flow with
  | .next => { machine with position := machine.position + 1 }
  | .jump target => { machine with position := target }
  | .halt => machine.halt

/-- Halts a machine behind the end of its code, unless its run is over. -/
def haltAtEnd (machine : Machine α ω) : Machine α ω :=
  if !machine.status.isTerminal && machine.program.size ≤ machine.position then machine.halt
  else machine

/-- The machine with one more instruction executed. -/
def count (machine : Machine α ω) : Machine α ω :=
  { machine with steps := machine.steps + 1 }

/-- Executes the next instruction. A machine at the end of its code halts without executing one, and
a machine whose run is over stays as it is. -/
def step [HostAction α ω] (machine : Machine α ω) : Machine α ω :=
  if machine.status.isTerminal then machine
  else
    let machine := { machine with status := .running }
    match machine.program.get? machine.position with
    | none => machine.halt
    | some instruction =>
      match execute instruction machine with
      | .ok flow machine => (machine.count.advance flow).haltAtEnd
      | .error error machine => (machine.count.fail instruction error).haltAtEnd

/-- Executes at most the given number of instructions. -/
def stepTimes [HostAction α ω] (machine : Machine α ω) : Nat → Machine α ω
  | 0 => machine
  | count + 1 => if machine.status.isTerminal then machine else machine.step.stepTimes count

@[simp]
theorem stepTimes_zero [HostAction α ω] (machine : Machine α ω) : machine.stepTimes 0 = machine :=
  rfl

theorem step_of_terminal [HostAction α ω] {machine : Machine α ω}
    (terminal : machine.status.isTerminal = true) : machine.step = machine :=
  if_pos terminal

theorem stepTimes_of_terminal [HostAction α ω] {machine : Machine α ω}
    (terminal : machine.status.isTerminal = true) (count : Nat) :
    machine.stepTimes count = machine := by
  cases count with
  | zero => rfl
  | succ count => exact if_pos terminal

/-- Taking one more step comes to taking one step first, also when the run is over. -/
theorem stepTimes_succ [HostAction α ω] (machine : Machine α ω) (count : Nat) :
    machine.stepTimes (count + 1) = machine.step.stepTimes count := by
  by_cases terminal : machine.status.isTerminal = true
  · rw [stepTimes_of_terminal terminal, step_of_terminal terminal, stepTimes_of_terminal terminal]
  · exact if_neg terminal

end Machine

end CapabilityMachine
