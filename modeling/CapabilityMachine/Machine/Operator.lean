import CapabilityMachine.Instruction.Basic
import CapabilityMachine.Integer
import CapabilityMachine.RuntimeError
/-!
# Operators

What the operators compute. Integer operators are exact: a result that does not fit 64 bits is an
overflow. Operators do not convert between kinds; equality alone applies to all of them.
-/

namespace CapabilityMachine

namespace Value

/-- The integer that the value has to be. -/
def expectInt (value : Value) : Except RuntimeError Int64 :=
  match value with
  | int n => .ok n
  | other => .error (.typeMismatch .int other.kind)

/-- The truth value that the value has to be. -/
def expectBool (value : Value) : Except RuntimeError Bool :=
  match value with
  | bool b => .ok b
  | other => .error (.typeMismatch .bool other.kind)

/-- The reference that the value has to be. -/
def expectRef (value : Value) : Except RuntimeError Reference :=
  match value with
  | ref reference => .ok reference
  | other => .error (.typeMismatch .ref other.kind)

/-- The handle that the value has to be. -/
def expectCap (value : Value) : Except RuntimeError Handle :=
  match value with
  | cap handle => .ok handle
  | other => .error (.typeMismatch .cap other.kind)

end Value

namespace Operator

/-- The value of an exact result, unless it does not fit. -/
def exactly (operation : String) (result : Int) : Except RuntimeError Value :=
  if FitsInt64 result then .ok (.int (Int64.ofInt result))
  else .error (.arithmeticOverflow operation)

/-- The value of a result that comes with a division, unless the divisor is zero or the quotient
does not fit. -/
def divided (operation : String) (dividend divisor result : Int) : Except RuntimeError Value :=
  if divisor = 0 then .error .divisionByZero
  else if FitsInt64 (dividend.tdiv divisor) then .ok (.int (Int64.ofInt result))
  else .error (.arithmeticOverflow operation)

/-- What is computed from two values that have to be integers. -/
def onInts (first second : Value) (compute : Int → Int → Except RuntimeError Value) :
    Except RuntimeError Value := do
  let m ← first.expectInt
  let n ← second.expectInt
  compute m.toInt n.toInt

/-- The truth value computed from two values that have to be truth values. -/
def onBools (first second : Value) (compute : Bool → Bool → Bool) :
    Except RuntimeError Value := do
  let b ← first.expectBool
  let c ← second.expectBool
  return .bool (compute b c)

end Operator

open Operator in
/-- The result of a binary operator, where the second value was on top of the first. Quotients are
rounded toward zero, and remainders have the sign of the dividend. -/
def BinaryOp.apply (op : BinaryOp) (first second : Value) : Except RuntimeError Value :=
  match op with
  | add => onInts first second fun m n => exactly "add" (m + n)
  | sub => onInts first second fun m n => exactly "sub" (m - n)
  | mul => onInts first second fun m n => exactly "mul" (m * n)
  | div => onInts first second fun m n => divided "div" m n (m.tdiv n)
  | rem => onInts first second fun m n => divided "rem" m n (m.tmod n)
  | eq => .ok (.bool (first = second))
  | ne => .ok (.bool (first ≠ second))
  | lt => onInts first second fun m n => .ok (.bool (m < n))
  | le => onInts first second fun m n => .ok (.bool (m ≤ n))
  | gt => onInts first second fun m n => .ok (.bool (n < m))
  | ge => onInts first second fun m n => .ok (.bool (n ≤ m))
  | and => onBools first second (· && ·)
  | or => onBools first second (· || ·)

open Operator in
/-- What a binary instruction computes. It goes by the instruction, so it has an answer for any: one
that is no binary operator is found out when both operands have turned out to be integers. -/
def Instruction.applyBinary (instruction : Instruction) (first second : Value) :
    Except RuntimeError Value :=
  match instruction with
  | .binary op => op.apply first second
  | other =>
    onInts first second fun _ _ =>
      .error (.internal s!"{other.opcode} is not a binary operation")

open Operator in
/-- The result of a unary operator. -/
def UnaryOp.apply (op : UnaryOp) (value : Value) : Except RuntimeError Value :=
  match op with
  | neg => do exactly "neg" (-(← value.expectInt).toInt)
  | not => do return .bool (!(← value.expectBool))

end CapabilityMachine
