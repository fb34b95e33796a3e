import CapabilityMachine.Host.Action
import CapabilityMachine.Host.World
import CapabilityMachine.Integer
/-!
# Scripted actions

Host actions that follow a short script. They stand in for the actions of a real host where it only
matters how a machine deals with their answers.
-/

namespace CapabilityMachine

/-- What a scripted action does when it is performed. -/
inductive Script where
  | const (value : Value)
  /-- Answers with the argument at the index, or unit if there is none. -/
  | argument (index : Nat)
  /-- Answers with twice the first argument, where anything but an integer counts as 0. -/
  | double
  | counter
  | fail (error : RuntimeError)
deriving DecidableEq, Repr

/-- A host action that follows a script. -/
structure ScriptedAction where
  signature : Signature
  script : Script
  /-- The number of times the action was performed. -/
  performed : Nat := 0
deriving DecidableEq, Repr

namespace ScriptedAction

/-- The outcome of performing a script for the given time, counted from 1. -/
def outcome (script : Script) (time : Nat) (arguments : List Value) :
    Except RuntimeError Value :=
  match script with
  | .const value => .ok value
  | .argument index => .ok (arguments[index]?.getD .unit)
  | .double =>
    let doubled := 2 * ((arguments.head?.bind Value.int?).getD 0).toInt
    if FitsInt64 doubled then .ok (.int (Int64.ofInt doubled))
    else .error (.hostFailure "double overflowed")
  | .counter => .ok (.int (Int64.ofNat time))
  | .fail error => .error error

/-- Performs the action, and counts that. -/
def perform (action : ScriptedAction) (arguments : List Value) (world : World) :
    Response ScriptedAction World :=
  let time := action.performed + 1
  ⟨outcome action.script time arguments, { action with performed := time },
    { world with scripted := world.scripted + 1 }⟩

instance : HostAction ScriptedAction World where
  signature := signature
  perform := perform

instance : LawfulHostAction ScriptedAction where
  signature_next _ _ _ := rfl

end ScriptedAction

end CapabilityMachine
