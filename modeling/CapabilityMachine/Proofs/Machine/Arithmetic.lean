import CapabilityMachine.Host.Device
import CapabilityMachine.Proofs.Machine.Refusal
import CapabilityMachine.Proofs.Machine.Transition
/-!
# Operators are exact or fail

The integers of a machine have 64 bits, yet no operator wraps around: it comes to the result over
all integers, or it fails because that result does not fit. A division and a remainder fail for the
same operands, and what an operator finds wrong with the kinds of its operands comes before anything
else. The instruction of an operator puts the result in place of the operands, or faults.
-/

namespace CapabilityMachine

open Outcome

/-! ### Integers in range -/

section Range

variable {m n : Int}

theorem fitsInt64_toInt (n : Int64) : FitsInt64 n.toInt := by
  have lower := n.le_toInt
  have upper := n.toInt_lt
  unfold FitsInt64 minInt64 maxInt64
  omega

theorem toInt_ofInt_of_fits (fits : FitsInt64 n) : (Int64.ofInt n).toInt = n := by
  unfold FitsInt64 minInt64 maxInt64 at fits
  exact Int64.toInt_ofInt_of_le (by omega) (by omega)

/-- Of all quotients of two integers in range, one is out of range: a divisor that is neither 1
nor -1 halves the dividend at least. -/
theorem fitsInt64_tdiv_iff (fits : FitsInt64 m) :
    FitsInt64 (m.tdiv n) ↔ ¬(m = minInt64 ∧ n = -1) := by
  constructor
  · rintro quotientFits ⟨rfl, rfl⟩
    exact absurd quotientFits (by decide)
  · intro noOverflow
    have size_eq : (m.tdiv n).natAbs = m.natAbs / n.natAbs := Int.natAbs_tdiv m n
    unfold FitsInt64 minInt64 maxInt64 at *
    by_cases one : n = 1
    · rw [one, Int.tdiv_one]
      omega
    by_cases minusOne : n = -1
    · rw [minusOne, Int.tdiv_neg, Int.tdiv_one]
      omega
    by_cases zero : n = 0
    · rw [zero, Int.tdiv_zero]
      omega
    have halved : m.natAbs / n.natAbs ≤ m.natAbs / 2 :=
      Nat.div_le_div_left (by omega) (by omega)
    omega

theorem natAbs_tmod_lt (nonzero : n ≠ 0) : (m.tmod n).natAbs < n.natAbs := by
  rw [Int.natAbs_tmod]
  exact Nat.mod_lt _ (Int.natAbs_pos.2 nonzero)

theorem fitsInt64_tmod (fits : FitsInt64 n) (nonzero : n ≠ 0) : FitsInt64 (m.tmod n) := by
  have small := natAbs_tmod_lt (m := m) nonzero
  unfold FitsInt64 minInt64 maxInt64 at *
  omega

theorem tmod_eq_zero_or_sign_eq (m n : Int) : m.tmod n = 0 ∨ (m.tmod n).sign = m.sign := by
  have sign_eq := Int.sign_tmod m n
  split at sign_eq
  · exact Or.inl (Int.sign_eq_zero_iff_zero.1 sign_eq)
  · exact Or.inr sign_eq

end Range

/-! ### Operands of the wrong kind -/

namespace Value

variable {value : Value} {error : RuntimeError}

theorem kind_eq_int (value : Value) : value.kind = .int ↔ ∃ n, value = .int n := by
  cases value <;> simp [kind]

theorem kind_eq_bool (value : Value) : value.kind = .bool ↔ ∃ b, value = .bool b := by
  cases value <;> simp [kind]

theorem expectInt_eq_error :
    value.expectInt = .error error ↔
      value.kind ≠ .int ∧ error = .typeMismatch .int value.kind := by
  cases value <;> simp [expectInt, kind, eq_comm]

theorem expectBool_eq_error :
    value.expectBool = .error error ↔
      value.kind ≠ .bool ∧ error = .typeMismatch .bool value.kind := by
  cases value <;> simp [expectBool, kind, eq_comm]

end Value

/-- The error is that of operands one of which is not of the required kind. The first one is looked
at first. -/
def RuntimeError.Mismatches (error : RuntimeError) (required : Kind) (first second : Value) :
    Prop :=
  first.kind ≠ required ∧ error = .typeMismatch required first.kind ∨
    first.kind = required ∧ second.kind ≠ required ∧ error = .typeMismatch required second.kind

/-- The error is that of an operand of the wrong kind. -/
def RuntimeError.IsMismatch : RuntimeError → Prop
  | typeMismatch _ _ => True
  | _ => False

namespace Operator

variable {first second : Value} {error : RuntimeError} {operation : String}

theorem onInts_eq_mismatch {compute : Int → Int → Except RuntimeError Value}
    (computes : ∀ m n, FailsOnly (¬RuntimeError.IsMismatch ·) (compute m n))
    (isMismatch : error.IsMismatch) :
    onInts first second compute = .error error ↔ error.Mismatches .int first second := by
  have never (m n : Int) : compute m n ≠ .error error := fun failed =>
    computes m n error failed isMismatch
  simp only [onInts, bind_eq_error, Value.expectInt_eq_error, Value.expectInt_eq_ok, never,
    and_false, exists_false, or_false, exists_and_right, RuntimeError.Mismatches,
    Value.kind_eq_int first]

theorem onBools_eq_mismatch {compute : Bool → Bool → Bool} :
    onBools first second compute = .error error ↔ error.Mismatches .bool first second := by
  simp only [onBools, bind_eq_error, Value.expectBool_eq_error, Value.expectBool_eq_ok,
    pure_ne_error, and_false, exists_false, or_false, exists_and_right, RuntimeError.Mismatches,
    Value.kind_eq_bool first]

theorem exactly_fails (result : Int) :
    FailsOnly (¬RuntimeError.IsMismatch ·) (exactly operation result) :=
  failsOnly_ite (failsOnly_ok _) (failsOnly_error id)

theorem divided_fails (m n result : Int) :
    FailsOnly (¬RuntimeError.IsMismatch ·) (divided operation m n result) :=
  failsOnly_ite (failsOnly_error id) (failsOnly_ite (failsOnly_ok _) (failsOnly_error id))

end Operator

/-- The kind that an operator requires of both operands, if it requires one. -/
def BinaryOp.operandKind? : BinaryOp → Option Kind
  | eq | ne => none
  | and | or => some .bool
  | _ => some .int

open Operator in
/-- Mismatches are reported exactly for operands of the wrong kind, and before any other error. -/
theorem BinaryOp.apply_eq_mismatch {op : BinaryOp} {kind : Kind} {first second : Value}
    {error : RuntimeError} (required : op.operandKind? = some kind)
    (isMismatch : error.IsMismatch) :
    op.apply first second = .error error ↔ error.Mismatches kind first second := by
  cases op <;> cases required <;> simp only [BinaryOp.apply]
  case add | sub | mul =>
    exact onInts_eq_mismatch (fun m n => exactly_fails _) isMismatch
  case div | rem =>
    exact onInts_eq_mismatch (fun m n => divided_fails m n _) isMismatch
  case lt | le | gt | ge =>
    exact onInts_eq_mismatch (fun m n => failsOnly_ok _) isMismatch
  case and | or => exact onBools_eq_mismatch

/-! ### Exact results -/

namespace Operator

/-- An outcome that has the given value over all integers: it is the value if that is in range, and
an overflow otherwise. -/
structure Exact (operation : String) (value : Int) (outcome : Except RuntimeError Value) :
    Prop where
  of_fits : FitsInt64 value → ∃ n : Int64, n.toInt = value ∧ outcome = .ok (.int n)
  of_not_fits : ¬FitsInt64 value → outcome = .error (.arithmeticOverflow operation)

/-- The outcomes of a division and of its remainder. They fail for the same operands, and otherwise
take the dividend apart into multiples of the divisor and a smaller rest of the dividend's sign. -/
structure Divides (m n : Int) (division remainder : Except RuntimeError Value) : Prop where
  division_byZero : division = .error .divisionByZero ↔ n = 0
  remainder_byZero : remainder = .error .divisionByZero ↔ n = 0
  division_overflow : division = .error (.arithmeticOverflow "div") ↔ m = minInt64 ∧ n = -1
  remainder_overflow : remainder = .error (.arithmeticOverflow "rem") ↔ m = minInt64 ∧ n = -1
  divides : n ≠ 0 → ¬(m = minInt64 ∧ n = -1) → ∃ q r : Int64,
    division = .ok (.int q) ∧ remainder = .ok (.int r) ∧ m = q.toInt * n + r.toInt ∧
      r.toInt.natAbs < n.natAbs ∧ (r.toInt = 0 ∨ r.toInt.sign = m.sign)

variable {operation : String} {m n result : Int}

theorem exact_exactly (operation : String) (value : Int) :
    Exact operation value (exactly operation value) where
  of_fits fits := ⟨_, toInt_ofInt_of_fits fits, if_pos fits⟩
  of_not_fits outside := if_neg outside

theorem divided_eq_ok (fits : FitsInt64 m) (nonzero : n ≠ 0)
    (noOverflow : ¬(m = minInt64 ∧ n = -1)) :
    divided operation m n result = .ok (.int (Int64.ofInt result)) := by
  rw [divided, if_neg nonzero, if_pos ((fitsInt64_tdiv_iff fits).2 noOverflow)]

theorem divided_eq_divisionByZero :
    divided operation m n result = .error .divisionByZero ↔ n = 0 := by
  rw [divided]
  split
  · rename_i zero
    simp [zero]
  · rename_i nonzero
    split <;> simp [nonzero]

theorem divided_eq_overflow (fits : FitsInt64 m) :
    divided operation m n result = .error (.arithmeticOverflow operation) ↔
      m = minInt64 ∧ n = -1 := by
  by_cases zero : n = 0
  · rw [divided_eq_divisionByZero.2 zero]
    exact iff_of_false nofun fun overflow => absurd (zero.symm.trans overflow.2) (by decide)
  · by_cases overflow : m = minInt64 ∧ n = -1
    · have outside := (not_congr (fitsInt64_tdiv_iff fits)).2 (not_not_intro overflow)
      rw [divided, if_neg zero, if_neg outside]
      exact iff_of_true rfl overflow
    · rw [divided_eq_ok fits zero overflow]
      exact iff_of_false nofun overflow

theorem divides_divided (m n : Int64) :
    Divides m.toInt n.toInt (divided "div" m.toInt n.toInt (m.toInt.tdiv n.toInt))
      (divided "rem" m.toInt n.toInt (m.toInt.tmod n.toInt)) where
  division_byZero := divided_eq_divisionByZero
  remainder_byZero := divided_eq_divisionByZero
  division_overflow := divided_eq_overflow (fitsInt64_toInt m)
  remainder_overflow := divided_eq_overflow (fitsInt64_toInt m)
  divides := by
    intro nonzero noOverflow
    have quotient_eq : (Int64.ofInt (m.toInt.tdiv n.toInt)).toInt = m.toInt.tdiv n.toInt :=
      toInt_ofInt_of_fits ((fitsInt64_tdiv_iff (fitsInt64_toInt m)).2 noOverflow)
    have rest_eq : (Int64.ofInt (m.toInt.tmod n.toInt)).toInt = m.toInt.tmod n.toInt :=
      toInt_ofInt_of_fits (fitsInt64_tmod (fitsInt64_toInt n) nonzero)
    refine ⟨_, _, divided_eq_ok (fitsInt64_toInt m) nonzero noOverflow,
      divided_eq_ok (fitsInt64_toInt m) nonzero noOverflow, ?_, ?_, ?_⟩
    · rw [quotient_eq, rest_eq, Int.tdiv_mul_add_tmod]
    · rw [rest_eq]
      exact natAbs_tmod_lt nonzero
    · rw [rest_eq]
      exact tmod_eq_zero_or_sign_eq m.toInt n.toInt

end Operator

/-! ### Instructions of operators -/

namespace Core

variable {α : Type} {core : Core} {registry : Registry α} {maxCallDepth index : Nat}
  {first second operand : Value} {rest : List Value}

theorem request_binary (op : BinaryOp) (shape : core.stack.values = second :: first :: rest) :
    core.request registry maxCallDepth index (.binary op) =
      (op.apply first second).map fun result =>
        .proceed (core.withValues (result :: rest)) .next := by
  have deep : core.stack.ensureDepth 2 = .ok () := by
    apply Stack.ensureDepth_eq_ok.2
    simp [Stack.size, shape]
  have top : core.stack.peek 0 = .ok second := Stack.peek_eq_ok.2 (by simp [shape])
  have below : core.stack.peek 1 = .ok first := Stack.peek_eq_ok.2 (by simp [shape])
  have replaced (result : Value) : core.stack.replaceTop 2 result =
      .ok { core.stack with values := result :: rest } := by
    apply Stack.replaceTop_eq_ok.2
    simp [Stack.size, shape]
  simp only [request, deep, top, below, ok_bind]
  cases op.apply first second with
  | error error => rfl
  | ok result =>
    simp only [ok_bind, replaced]
    rfl

theorem request_unary (op : UnaryOp) (shape : core.stack.values = operand :: rest) :
    core.request registry maxCallDepth index (.unary op) =
      (op.apply operand).map fun result => .proceed (core.withValues (result :: rest)) .next := by
  have top : core.stack.peek 0 = .ok operand := Stack.peek_eq_ok.2 (by simp [shape])
  have replaced (result : Value) : core.stack.replaceTop 1 result =
      .ok { core.stack with values := result :: rest } := by
    apply Stack.replaceTop_eq_ok.2
    simp [Stack.size, shape]
  simp only [request, top, ok_bind]
  cases op.apply operand with
  | error error => rfl
  | ok result =>
    simp only [ok_bind, replaced]
    rfl

end Core

namespace Machine

variable {α ω : Type} [HostAction α ω] {machine : Machine α ω} {index : Nat}
  {instruction : Instruction} {outcome : Except RuntimeError Value} {rest : List Value}

/-- The next step puts the outcome on top of the given rest of the stack and goes on with the next
instruction, or it ends the run with a fault. -/
def Delivers (machine : Machine α ω) (instruction : Instruction) (rest : List Value) :
    Except RuntimeError Value → Prop
  | .ok result => machine.step =
      ({ machine with core := machine.core.withValues (result :: rest) } : Machine α ω).count.follow
        .next
  | .error error => machine.step = { machine.count with
      status := .faulted
      termination? := some (.faulted (machine.faultOf instruction error)) }

theorem delivers_of_request (executes : machine.Executes index instruction)
    (operational : FailsOnly RuntimeError.IsOperational outcome)
    (asked : machine.request instruction = outcome.map fun result =>
      .proceed (machine.core.withValues (result :: rest)) .next) :
    machine.Delivers instruction rest outcome := by
  rcases executes with ⟨active, rfl, fetched⟩
  cases outcome with
  | ok result => exact step_of_proceeding active fetched asked
  | error error =>
    have notDenial : error.isDenial = false := by
      have isOperational := operational error rfl
      cases error <;> first | rfl | exact isOperational.elim
    rw [Delivers, step_of_refused active fetched asked]
    simp [fail, Termination.ofFault, faultOf, count, notDenial]

/-- Operators are exact or fail. The instruction of an operator delivers the outcome of the operator
on the topmost values: for integers the result over all integers or the error of one that is not in
range, for divisions a quotient and a rest, for comparisons the order of the integers. Equality
applies to all values, and any other operator finds its operands of the wrong kind first. -/
theorem operators_exact_or_fail (α ω : Type) [HostAction α ω] :
    (∀ (machine : Machine α ω) (index : Nat) (op : BinaryOp) (first second : Value)
        (rest : List Value), machine.Executes index (.binary op) →
      machine.core.stack.values = second :: first :: rest →
        machine.Delivers (.binary op) rest (op.apply first second)) ∧
    (∀ (machine : Machine α ω) (index : Nat) (op : UnaryOp) (operand : Value) (rest : List Value),
      machine.Executes index (.unary op) → machine.core.stack.values = operand :: rest →
        machine.Delivers (.unary op) rest (op.apply operand)) ∧
    (∀ x y : Int64,
      Operator.Exact "add" (x.toInt + y.toInt) (BinaryOp.add.apply (.int x) (.int y)) ∧
      Operator.Exact "sub" (x.toInt - y.toInt) (BinaryOp.sub.apply (.int x) (.int y)) ∧
      Operator.Exact "mul" (x.toInt * y.toInt) (BinaryOp.mul.apply (.int x) (.int y)) ∧
      Operator.Exact "neg" (-x.toInt) (UnaryOp.neg.apply (.int x)) ∧
      Operator.Divides x.toInt y.toInt (BinaryOp.div.apply (.int x) (.int y))
        (BinaryOp.rem.apply (.int x) (.int y)) ∧
      BinaryOp.lt.apply (.int x) (.int y) = .ok (.bool (x.toInt < y.toInt)) ∧
      BinaryOp.le.apply (.int x) (.int y) = .ok (.bool (x.toInt ≤ y.toInt)) ∧
      BinaryOp.gt.apply (.int x) (.int y) = .ok (.bool (x.toInt > y.toInt)) ∧
      BinaryOp.ge.apply (.int x) (.int y) = .ok (.bool (x.toInt ≥ y.toInt))) ∧
    (∀ b c : Bool,
      BinaryOp.and.apply (.bool b) (.bool c) = .ok (.bool (b && c)) ∧
      BinaryOp.or.apply (.bool b) (.bool c) = .ok (.bool (b || c)) ∧
      UnaryOp.not.apply (.bool b) = .ok (.bool !b)) ∧
    ∀ first second : Value,
      (∃ same : Bool, (same = true ↔ first = second) ∧
        BinaryOp.eq.apply first second = .ok (.bool same) ∧
        BinaryOp.ne.apply first second = .ok (.bool !same)) ∧
      ∀ op kind, BinaryOp.operandKind? op = some kind → ∀ expected actual,
        op.apply first second = .error (.typeMismatch expected actual) ↔
          expected = kind ∧ (first.kind ≠ kind ∧ actual = first.kind ∨
            first.kind = kind ∧ second.kind ≠ kind ∧ actual = second.kind) := by
  refine ⟨?_, ?_, ?_, ?_, ?_⟩
  · intro machine index op first second rest executes shape
    have asked : machine.request (.binary op) = _ := Core.request_binary op shape
    exact delivers_of_request executes (op.operational_apply first second) asked
  · intro machine index op operand rest executes shape
    have asked : machine.request (.unary op) = _ := Core.request_unary op shape
    exact delivers_of_request executes (op.operational_apply operand) asked
  · intro x y
    exact ⟨Operator.exact_exactly _ _, Operator.exact_exactly _ _, Operator.exact_exactly _ _,
      Operator.exact_exactly _ _, Operator.divides_divided x y, rfl, rfl, rfl, rfl⟩
  · intro b c
    exact ⟨rfl, rfl, rfl⟩
  · intro first second
    refine ⟨⟨decide (first = second), decide_eq_true_iff, rfl, ?_⟩, ?_⟩
    · simp [BinaryOp.apply]
    · intro op kind required expected actual
      have isMismatch : (RuntimeError.typeMismatch expected actual).IsMismatch := trivial
      rw [BinaryOp.apply_eq_mismatch required isMismatch, RuntimeError.Mismatches]
      simp only [RuntimeError.typeMismatch.injEq]
      constructor
      · rintro (⟨wrong, rfl, rfl⟩ | ⟨right, wrong, rfl, rfl⟩)
        · exact ⟨rfl, Or.inl ⟨wrong, rfl⟩⟩
        · exact ⟨rfl, Or.inr ⟨right, wrong, rfl⟩⟩
      · rintro ⟨rfl, ⟨wrong, rfl⟩ | ⟨right, wrong, rfl⟩⟩
        · exact Or.inl ⟨wrong, rfl, rfl⟩
        · exact Or.inr ⟨right, wrong, rfl, rfl⟩

/-- The remainder of the least integer by -1 would be 0, but fails like the quotient does. -/
theorem operators_exact_or_fail_least_rem :
    ∃ (program : Program) (initial : Machine Device World),
      create program ⟨⟨0⟩, {}⟩ {} {} = .ok initial ∧
      initial.step.step.Executes 2 (.binary .rem) ∧
      initial.step.step.step.Ended (.faulted
        (initial.step.step.faultOf (.binary .rem) (.arithmeticOverflow "rem"))) := by
  let program : Program := {
    instructions := #[.push Int64.minValue, .push (-1), .binary .rem]
    offsets := #[0, 9, 18]
    entry := 0
    capabilities := []
    version := ⟨1, 0⟩ }
  rcases (⟨_, rfl⟩ : ∃ initial : Machine Device World,
    create program ⟨⟨0⟩, {}⟩ {} {} = .ok initial) with ⟨initial, created⟩
  have executes : initial.step.step.Executes 2 (.binary .rem) := by
    cases created
    exact ⟨rfl, rfl, rfl⟩
  have shape : initial.step.step.core.stack.values =
      [.int (-1), .int Int64.minValue] := by
    cases created
    rfl
  rcases operators_exact_or_fail Device World with ⟨delivers, _, onInts, _⟩
  have faulted := delivers initial.step.step 2 .rem (.int Int64.minValue) (.int (-1)) [] executes
    shape
  have overflow := (onInts Int64.minValue (-1)).2.2.2.2.1.remainder_overflow.2 ⟨rfl, rfl⟩
  rw [overflow] at faulted
  refine ⟨program, initial, created, executes, ?_⟩
  rw [faulted]
  exact ⟨rfl, rfl⟩

end Machine

end CapabilityMachine
