import CapabilityMachine.RuntimeError
/-!
# The operand stack

A stack of values with a depth limit. Depths count from the top, which has depth 0. Every operation
either succeeds or fails and leaves nothing changed; lacking values are reported before lacking
room.

The values are kept with the top first. `Stack.toList` shows them from bottom to top, which is the
order in which they were pushed.
-/

namespace CapabilityMachine

/-- A stack of at most `limit` values. -/
structure Stack where
  limit : Nat
  /-- The values, top first. -/
  values : List Value := []
deriving DecidableEq, Repr

namespace Stack

/-- The number of values on the stack. -/
def size (stack : Stack) : Nat :=
  stack.values.length

/-- The values from bottom to top. -/
def toList (stack : Stack) : List Value :=
  stack.values.reverse

/-- Fails unless `count` more values fit. -/
def ensureRoom (stack : Stack) (count : Nat) : Except RuntimeError Unit :=
  if stack.limit - stack.size < count then
    .error (.stackOverflow stack.limit)
  else
    .ok ()

/-- Fails unless there are at least `count` values. -/
def ensureDepth (stack : Stack) (count : Nat) : Except RuntimeError Unit :=
  if stack.size < count then
    .error (.stackUnderflow count stack.size)
  else
    .ok ()

/-- Puts a value on top. -/
def push (stack : Stack) (value : Value) : Except RuntimeError Stack := do
  stack.ensureRoom 1
  return { stack with values := value :: stack.values }

/-- Takes off the topmost value. -/
def pop (stack : Stack) : Except RuntimeError (Value × Stack) :=
  match stack.values with
  | [] => .error (.stackUnderflow 1 0)
  | value :: rest => .ok (value, { stack with values := rest })

/-- The value that has `depth` others above it. -/
def peek (stack : Stack) (depth : Nat) : Except RuntimeError Value :=
  match stack.values[depth]? with
  | none => .error (.stackUnderflow (depth + 1) stack.size)
  | some value => .ok value

/-- The `count` topmost values, from bottom to top. -/
def top (stack : Stack) (count : Nat) : Except RuntimeError (List Value) := do
  stack.ensureDepth count
  return (stack.values.take count).reverse

/-- Drops the `count` topmost values. -/
def dropTop (stack : Stack) (count : Nat) : Except RuntimeError Stack := do
  stack.ensureDepth count
  return { stack with values := stack.values.drop count }

/-- Replaces the `count` topmost values by one. -/
def replaceTop (stack : Stack) (count : Nat) (value : Value) : Except RuntimeError Stack := do
  stack.ensureDepth count
  if count = 0 then
    stack.ensureRoom 1
  return { stack with values := value :: stack.values.drop count }

/-- Pushes the value at the depth again. -/
def pick (stack : Stack) (depth : Nat) : Except RuntimeError Stack := do
  stack.push (← stack.peek depth)

/-- Puts the topmost value on top once more. -/
def dup (stack : Stack) : Except RuntimeError Stack :=
  stack.pick 0

/-- Exchanges the two topmost values. -/
def swap (stack : Stack) : Except RuntimeError Stack :=
  match stack.values with
  | first :: second :: rest => .ok { stack with values := second :: first :: rest }
  | _ => .error (.stackUnderflow 2 stack.size)

end Stack

end CapabilityMachine
