import CapabilityMachine.RuntimeError
/-!
# Signatures

The declared call shape of a host action, and the checks that a call's arguments and result have to
pass. The result check is stricter than the declared kind: no action can hand out a handle or a
reference, whatever it declares.
-/

namespace CapabilityMachine

/-- The values that one parameter, or the result, of a host action admits. -/
inductive Param where
  | any
  | exactly (kind : Kind)
deriving DecidableEq, Repr

namespace Param

/-- A parameter or result of this kind may have the value. -/
def Admits (param : Param) (value : Value) : Prop :=
  match param with
  | any => True
  | exactly kind => value.kind = kind

instance (param : Param) (value : Value) : Decidable (param.Admits value) := by
  unfold Admits
  split <;> infer_instance

instance : ToString Param where
  toString
    | any => "any"
    | exactly kind => kind.name

end Param

/-- The declared call shape of a host action. -/
structure Signature where
  /-- A dotted name for messages. -/
  name : String
  params : List Param := []
  returns : Param := .exactly .unit
deriving DecidableEq, Repr

namespace Signature

/-- The number of parameters. -/
def arity (signature : Signature) : Nat :=
  signature.params.length

instance : ToString Signature where
  toString signature :=
    let params := ", ".intercalate (signature.params.map toString)
    s!"{signature.name}({params}) -> {signature.returns}"

/-- Fails on behalf of the given capability unless there are as many arguments as parameters and
each parameter admits its argument. -/
def checkArguments (signature : Signature) (id : CapabilityId) (arguments : List Value) :
    Except RuntimeError Unit :=
  let expected := signature.params.length
  let found := arguments.length
  if found ≠ expected then
    .error (.capabilityError id s!"{signature.name} expects {expected} argument(s), got {found}")
  else
    match (signature.params.zip arguments).zipIdx.find? fun entry =>
      ¬ entry.1.1.Admits entry.1.2 with
    | none => .ok ()
    | some ((param, argument), position) =>
      .error (.capabilityError id
        s!"{signature.name} argument {position}: expected {param}, got {argument.kind}")

/-- Fails on behalf of the given capability if the result is a handle, a reference, or something the
signature does not declare. -/
def checkResult (signature : Signature) (id : CapabilityId) (result : Value) :
    Except RuntimeError Unit :=
  match result.kind with
  | .cap => .error (.capabilityError id s!"{signature.name} returned a capability handle")
  | .ref => .error (.capabilityError id s!"{signature.name} returned a memory reference")
  | kind =>
    if signature.returns.Admits result then
      .ok ()
    else
      .error (.capabilityError id
        s!"{signature.name} returned {kind}, declared {signature.returns}")

end Signature

end CapabilityMachine
