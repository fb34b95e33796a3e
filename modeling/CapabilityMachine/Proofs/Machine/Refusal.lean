import CapabilityMachine.Proofs.Host.Registry
import CapabilityMachine.Proofs.Machine.Request
/-!
# Why instructions are refused

An instruction first needs a stack that is deep enough for what it takes and has room for what it
leaves there. Only then its operands, the memory and the grants are looked at, so that the errors of
the stack are decided by the instruction's stack effect alone. `Core.Refuses` lists the reasons for
a refusal, and by `refuses_of_request_eq_error` the list is complete.
-/

namespace CapabilityMachine

open Outcome

/-- The error says something about the program or the limits of its run, and nothing about the
host. -/
def RuntimeError.IsLocal : RuntimeError → Prop
  | capabilityDenied _ | capabilityError _ _ | unresolvedCapability _ | hostFailure _
  | config _ => False
  | _ => True

/-- The error is that of an operator, of an access to memory, or of an operand of another kind. -/
def RuntimeError.IsOperational : RuntimeError → Prop
  | outOfBounds _ _ | outOfMemory _ _ | danglingReference _ | arithmeticOverflow _
  | divisionByZero | typeMismatch _ _ => True
  | _ => False

/-- The operation fails for reasons of its operands and of the memory only. -/
abbrev Operational {β : Type} (outcome : Except RuntimeError β) : Prop :=
  FailsOnly RuntimeError.IsOperational outcome

namespace Stack

variable {stack : Stack} {expected : RuntimeError → Prop} {depth count : Nat}

theorem failsOnly_peek (deep : depth < stack.size) : FailsOnly expected (stack.peek depth) := by
  intro error failed
  rcases peek_eq_error.1 failed with ⟨short, _⟩
  omega

theorem failsOnly_top (deep : count ≤ stack.size) : FailsOnly expected (stack.top count) := by
  intro error failed
  rcases top_eq_error.1 failed with ⟨short, _⟩
  omega

theorem failsOnly_dropTop (deep : count ≤ stack.size) :
    FailsOnly expected (stack.dropTop count) := by
  intro error failed
  rcases dropTop_eq_error.1 failed with ⟨short, _⟩
  omega

theorem failsOnly_replaceTop (deep : count < stack.size) (value : Value) :
    FailsOnly expected (stack.replaceTop (count + 1) value) := by
  intro error failed
  rcases replaceTop_succ_eq_error.1 failed with ⟨short, _⟩
  omega

end Stack

namespace Memory

variable (memory : Memory) (reference : Reference) (offset : Int64)

theorem operational_alloc (length : Nat) : Operational (memory.alloc length) :=
  failsOnly_ite (failsOnly_error trivial) (failsOnly_ok _)

theorem operational_slot : Operational (memory.slot reference) := by
  rw [slot]
  split
  · exact failsOnly_ite (failsOnly_ok _) (failsOnly_error trivial)
  · exact failsOnly_error trivial

theorem operational_cellIndex : Operational (memory.cellIndex reference offset) :=
  (memory.operational_slot reference).bind fun _ =>
    failsOnly_ite (failsOnly_ok _) (failsOnly_error trivial)

theorem operational_read : Operational (memory.read reference offset) :=
  (memory.operational_cellIndex reference offset).bind fun _ => failsOnly_ok _

theorem operational_write (value : Value) : Operational (memory.write reference offset value) :=
  (memory.operational_cellIndex reference offset).bind fun _ => failsOnly_ok _

/-- There is a frame to leave unless all have been left. -/
theorem leaveFrame_eq_error {error : RuntimeError} :
    memory.leaveFrame = .error error ↔
      memory.marks = [] ∧ error = .internal "no memory frame to leave" := by
  rw [leaveFrame]
  cases memory.marks with
  | nil => simp [eq_comm]
  | cons mark marks =>
    simp only [reduceCtorEq, false_and, iff_false]
    split
    · split <;> simp
    · simp

end Memory

namespace Value

variable (value : Value)

theorem operational_expectInt : Operational value.expectInt := by
  cases value <;> simp [expectInt, Operational, FailsOnly, RuntimeError.IsOperational]

theorem operational_expectBool : Operational value.expectBool := by
  cases value <;> simp [expectBool, Operational, FailsOnly, RuntimeError.IsOperational]

theorem operational_expectRef : Operational value.expectRef := by
  cases value <;> simp [expectRef, Operational, FailsOnly, RuntimeError.IsOperational]

theorem operational_expectCap : Operational value.expectCap := by
  cases value <;> simp [expectCap, Operational, FailsOnly, RuntimeError.IsOperational]

end Value

namespace Operator

variable (operation : String) (first second : Value)

theorem operational_exactly (result : Int) : Operational (exactly operation result) :=
  failsOnly_ite (failsOnly_ok _) (failsOnly_error trivial)

theorem operational_divided (dividend divisor result : Int) :
    Operational (divided operation dividend divisor result) :=
  failsOnly_ite (failsOnly_error trivial)
    (failsOnly_ite (failsOnly_ok _) (failsOnly_error trivial))

theorem operational_onInts {compute : Int → Int → Except RuntimeError Value}
    (computes : ∀ m n, Operational (compute m n)) : Operational (onInts first second compute) :=
  first.operational_expectInt.bind fun _ => second.operational_expectInt.bind fun _ => computes _ _

theorem operational_onBools (compute : Bool → Bool → Bool) :
    Operational (onBools first second compute) :=
  first.operational_expectBool.bind fun _ =>
    second.operational_expectBool.bind fun _ => failsOnly_ok _

end Operator

open Operator in
theorem BinaryOp.operational_apply (op : BinaryOp) (first second : Value) :
    Operational (op.apply first second) := by
  cases op <;> simp only [BinaryOp.apply]
  case add | sub | mul =>
    apply operational_onInts
    intro _ _
    exact operational_exactly _ _
  case div | rem =>
    apply operational_onInts
    intro _ _
    exact operational_divided _ _ _ _
  case eq | ne => exact failsOnly_ok _
  case lt | le | gt | ge =>
    apply operational_onInts
    intro _ _
    exact failsOnly_ok _
  case and | or => exact operational_onBools _ _ _

open Operator in
theorem UnaryOp.operational_apply (op : UnaryOp) (value : Value) :
    Operational (op.apply value) := by
  cases op with
  | neg =>
    apply value.operational_expectInt.bind
    intro _
    exact operational_exactly _ _
  | not =>
    apply value.operational_expectBool.bind
    intro _
    exact failsOnly_ok _

namespace Core

variable {α : Type}

/-- The stack is deep enough for the instruction and has room for what the instruction leaves there.
A stack beyond its limit counts as having room for what does not make it higher. -/
structure Accommodates (core : Core) (instruction : Instruction) : Prop where
  deep : instruction.requiredDepth ≤ core.stack.size
  room : core.stack.size - instruction.stackEffect.pops + instruction.stackEffect.pushes ≤
    max core.stack.limit core.stack.size

/-- The instruction may be refused with the error. -/
inductive Refuses (core : Core) (registry : Registry α) (maxCallDepth : Nat) :
    Instruction → RuntimeError → Prop
  | short {instruction : Instruction} (short : core.stack.size < instruction.requiredDepth) :
      Refuses core registry maxCallDepth instruction
        (.stackUnderflow instruction.requiredDepth core.stack.size)
  | full {instruction : Instruction} (deep : instruction.requiredDepth ≤ core.stack.size)
      (full : core.stack.limit <
        core.stack.size - instruction.stackEffect.pops + instruction.stackEffect.pushes) :
      Refuses core registry maxCallDepth instruction (.stackOverflow core.stack.limit)
  | operational {instruction : Instruction} {error : RuntimeError}
      (accommodates : core.Accommodates instruction) (isOperational : error.IsOperational) :
      Refuses core registry maxCallDepth instruction error
  | nested {target : Nat} (nested : maxCallDepth ≤ core.frames.length) :
      Refuses core registry maxCallDepth (.call target) (.callDepthExceeded maxCallDepth)
  | unframed {origin : Nat} {frames : List Nat} (called : core.frames = origin :: frames)
      (unframed : core.memory.marks = []) :
      Refuses core registry maxCallDepth .ret (.internal "no memory frame to leave")
  | ungranted {instruction : Instruction} {id : CapabilityId}
      (accommodates : core.Accommodates instruction) (names : id ∈ instruction.capability?)
      (ungranted : registry.isGranted id = false) :
      Refuses core registry maxCallDepth instruction (.capabilityDenied id)

variable {core : Core} {registry : Registry α} {maxCallDepth index : Nat}
  {instruction : Instruction} {error : RuntimeError}

/-- A refusal is local, or the denial of the capability that the instruction names. -/
theorem Refuses.isLocal_or_denied (refuses : core.Refuses registry maxCallDepth instruction error) :
    error.IsLocal ∨ ∃ id ∈ instruction.capability?, registry.isGranted id = false ∧
      error = .capabilityDenied id := by
  cases refuses with
  | short | full | nested | unframed => exact Or.inl trivial
  | operational accommodates isOperational =>
    left
    cases error <;> trivial
  | ungranted accommodates names ungranted => exact Or.inr ⟨_, names, ungranted, rfl⟩

/-- An instruction that takes its values off the stack without growing it is accommodated if they
are there. -/
theorem accommodates_of_pushes_le (deep : instruction.requiredDepth ≤ core.stack.size)
    (pops_le : instruction.stackEffect.pops ≤ core.stack.size)
    (pushes_le : instruction.stackEffect.pushes ≤ instruction.stackEffect.pops) :
    core.Accommodates instruction := by
  refine ⟨deep, ?_⟩
  omega

/-- An instruction that finds all its values on the stack and does not make it higher can only be
refused for what it does with these values. -/
theorem refuses_of_ensureDepth {rest : Unit → Except RuntimeError Request}
    (pops_le : instruction.stackEffect.pops ≤ instruction.requiredDepth)
    (pushes_le : instruction.stackEffect.pushes ≤ instruction.stackEffect.pops)
    (refused : (core.stack.ensureDepth instruction.requiredDepth >>= rest) = .error error)
    (operational : instruction.requiredDepth ≤ core.stack.size → Operational (rest ())) :
    core.Refuses registry maxCallDepth instruction error := by
  rcases bind_eq_error.1 refused with missing | ⟨⟨⟩, found, failed⟩
  · rcases Stack.ensureDepth_eq_error.1 missing with ⟨short, rfl⟩
    exact .short short
  · have deep := Stack.ensureDepth_eq_ok.1 found
    have accommodates : core.Accommodates instruction :=
      accommodates_of_pushes_le deep (Nat.le_trans pops_le deep) pushes_le
    exact .operational accommodates (operational deep error failed)

theorem refuses_of_peek {rest : Value → Except RuntimeError Request}
    (requires : instruction.requiredDepth = 1) (pops_eq : instruction.stackEffect.pops = 1)
    (pushes_le : instruction.stackEffect.pushes ≤ 1)
    (refused : (core.stack.peek 0 >>= rest) = .error error)
    (operational : ∀ operand, 0 < core.stack.size → Operational (rest operand)) :
    core.Refuses registry maxCallDepth instruction error := by
  rcases bind_eq_error.1 refused with missing | ⟨operand, found, failed⟩
  · rcases Stack.peek_eq_error.1 missing with ⟨short, rfl⟩
    have tooShort : core.stack.size < instruction.requiredDepth := by omega
    simpa [requires] using Refuses.short tooShort
  · have deep : 0 < core.stack.size :=
      (List.getElem?_eq_some_iff.1 (Stack.peek_eq_ok.1 found)).1
    have accommodates : core.Accommodates instruction := by
      apply accommodates_of_pushes_le <;> omega
    exact .operational accommodates (operational operand deep error failed)

/-- Whatever an instruction is refused with, there is a reason for it among those listed. The result
of an invocation needs room of its own only if there are no arguments. -/
theorem refuses_of_request_eq_error
    (refused : core.request registry maxCallDepth index instruction = .error error) :
    core.Refuses registry maxCallDepth instruction error := by
  cases instruction
  case nop | jump | halt => cases refused
  case push | pushBool | pushUnit =>
    simp only [Core.request, bind_eq_error, Stack.push_eq_error, pure_ne_error, and_false,
      exists_false, or_false] at refused
    rcases refused with ⟨noRoom, rfl⟩
    exact .full (Nat.zero_le _) (Nat.lt_succ_of_le noRoom)
  case pop =>
    simp only [Core.request, bind_eq_error, Stack.dropTop_eq_error, pure_ne_error, and_false,
      exists_false, or_false] at refused
    rcases refused with ⟨short, rfl⟩
    exact .short short
  case dup =>
    simp only [Core.request, bind_eq_error, Stack.dup_eq_error, pure_ne_error, and_false,
      exists_false, or_false] at refused
    rcases refused with ⟨short, rfl⟩ | ⟨deep, noRoom, rfl⟩
    · exact .short short
    · refine .full deep ?_
      simp only [Instruction.stackEffect]
      omega
  case swap =>
    simp only [Core.request, bind_eq_error, Stack.swap_eq_error, pure_ne_error, and_false,
      exists_false, or_false] at refused
    rcases refused with ⟨short, rfl⟩
    exact .short short
  case pick depth =>
    simp only [Core.request, bind_eq_error, Stack.pick_eq_error, pure_ne_error, and_false,
      exists_false, or_false] at refused
    rcases refused with ⟨short, rfl⟩ | ⟨deep, noRoom, rfl⟩
    · exact .short (Nat.lt_succ_of_le short)
    · exact .full deep (Nat.lt_succ_of_le noRoom)
  case binary op =>
    refine refuses_of_ensureDepth (Nat.le_refl 2) (Nat.le_succ 1) refused ?_
    intro (deep : 2 ≤ core.stack.size)
    refine (Stack.failsOnly_peek (by omega)).bind fun second => ?_
    refine (Stack.failsOnly_peek (by omega)).bind fun first => ?_
    refine (op.operational_apply first second).bind fun result => ?_
    exact (Stack.failsOnly_replaceTop (by omega) result).bind fun _ => failsOnly_ok _
  case unary op =>
    refine refuses_of_peek rfl rfl (Nat.le_refl 1) refused fun operand deep => ?_
    refine (op.operational_apply operand).bind fun result => ?_
    exact (Stack.failsOnly_replaceTop deep result).bind fun _ => failsOnly_ok _
  case branch condition target =>
    refine refuses_of_peek rfl rfl (Nat.zero_le 1) refused fun operand deep => ?_
    refine operand.operational_expectBool.bind fun truth => ?_
    exact (Stack.failsOnly_dropTop deep).bind fun _ => failsOnly_ok _
  case call target =>
    simp only [Core.request, ite_error_eq_error, pure_ne_error, and_false, or_false] at refused
    rcases refused with ⟨nested, rfl⟩
    exact .nested nested
  case ret =>
    rw [Core.request] at refused
    split at refused
    · cases refused
    · rename_i origin frames called
      simp only [bind_eq_error, Memory.leaveFrame_eq_error, pure_ne_error, and_false, exists_false,
        or_false] at refused
      rcases refused with ⟨unframed, rfl⟩
      exact .unframed called unframed
  case alloc length =>
    simp only [Core.request, bind_eq_error, Stack.ensureRoom_one_eq_error,
      Stack.ensureRoom_one_eq_ok, Stack.push_eq_error, pure_ne_error, and_false, exists_false,
      or_false] at refused
    rcases refused with ⟨noRoom, rfl⟩ | ⟨_, room, failed | ⟨_, _, noRoom, _⟩⟩
    · exact .full (Nat.zero_le _) (Nat.lt_succ_of_le noRoom)
    · have accommodates : core.Accommodates (.alloc length) :=
        ⟨Nat.zero_le _, Nat.le_trans room (Nat.le_max_left _ _)⟩
      exact .operational accommodates (core.memory.operational_alloc _ error failed)
    · omega
  case load offset =>
    refine refuses_of_peek rfl rfl (Nat.le_refl 1) refused fun operand deep => ?_
    refine operand.operational_expectRef.bind fun reference => ?_
    refine (core.memory.operational_read reference _).bind fun value => ?_
    exact (Stack.failsOnly_replaceTop deep value).bind fun _ => failsOnly_ok _
  case store offset =>
    refine refuses_of_ensureDepth (Nat.le_refl 2) (Nat.zero_le 2) refused ?_
    intro (deep : 2 ≤ core.stack.size)
    refine (Stack.failsOnly_peek (by omega)).bind fun value => ?_
    refine (Stack.failsOnly_peek (by omega)).bind fun operand => ?_
    refine operand.operational_expectRef.bind fun reference => ?_
    refine (core.memory.operational_write reference _ value).bind fun memory => ?_
    exact (Stack.failsOnly_dropTop deep).bind fun _ => failsOnly_ok _
  case loadAt =>
    refine refuses_of_ensureDepth (Nat.le_refl 2) (Nat.le_succ 1) refused ?_
    intro (deep : 2 ≤ core.stack.size)
    refine (Stack.failsOnly_peek (by omega)).bind fun top => ?_
    refine top.operational_expectInt.bind fun offset => ?_
    refine (Stack.failsOnly_peek (by omega)).bind fun operand => ?_
    refine operand.operational_expectRef.bind fun reference => ?_
    refine (core.memory.operational_read reference offset).bind fun value => ?_
    exact (Stack.failsOnly_replaceTop (by omega) value).bind fun _ => failsOnly_ok _
  case storeAt =>
    refine refuses_of_ensureDepth (Nat.le_refl 3) (Nat.zero_le 3) refused ?_
    intro (deep : 3 ≤ core.stack.size)
    refine (Stack.failsOnly_peek (by omega)).bind fun value => ?_
    refine (Stack.failsOnly_peek (by omega)).bind fun top => ?_
    refine top.operational_expectInt.bind fun offset => ?_
    refine (Stack.failsOnly_peek (by omega)).bind fun operand => ?_
    refine operand.operational_expectRef.bind fun reference => ?_
    refine (core.memory.operational_write reference offset value).bind fun memory => ?_
    exact (Stack.failsOnly_dropTop deep).bind fun _ => failsOnly_ok _
  case cap id =>
    simp only [Core.request, bind_eq_error, Stack.ensureRoom_one_eq_error,
      Stack.ensureRoom_one_eq_ok, Stack.push_eq_error, pure_ne_error, and_false, exists_false,
      or_false] at refused
    rcases refused with ⟨noRoom, rfl⟩ | ⟨_, room, failed | ⟨_, _, noRoom, _⟩⟩
    · exact .full (Nat.zero_le _) (Nat.lt_succ_of_le noRoom)
    · have accommodates : core.Accommodates (.cap id) :=
        ⟨Nat.zero_le _, Nat.le_trans room (Nat.le_max_left _ _)⟩
      rcases Registry.issue_error failed with ⟨ungranted, rfl⟩
      exact .ungranted accommodates rfl ungranted
    · omega
  case invoke id argumentCount =>
    simp only [Core.request, bind_eq_error, Stack.ensureDepth_eq_error,
      Stack.ensureDepth_eq_ok] at refused
    rcases refused with ⟨short, rfl⟩ | ⟨_, deep, refused⟩
    · exact .short short
    by_cases noArguments : argumentCount.toNat = 0
    · simp only [noArguments, if_true, bind_eq_error, Stack.ensureRoom_one_eq_error,
        Stack.ensureRoom_one_eq_ok, Stack.top_eq_error, pure_ne_error, and_false, exists_false,
        or_false, Nat.not_lt_zero, false_and] at refused
      rcases refused with ⟨noRoom, rfl⟩ | ⟨_, room, failed⟩
      · refine .full deep ?_
        simp only [Instruction.stackEffect]
        omega
      · rcases Registry.issue_error failed with ⟨ungranted, rfl⟩
        refine .ungranted ⟨deep, ?_⟩ rfl ungranted
        simp only [Instruction.stackEffect]
        omega
    · simp only [noArguments, if_false, bind_eq_error, Stack.top_eq_error, pure_ne_error, and_false,
        exists_false, or_false] at refused
      have accommodates : core.Accommodates (.invoke id argumentCount) :=
        accommodates_of_pushes_le deep deep (Nat.pos_of_ne_zero noArguments)
      rcases refused with failed | ⟨_, _, short, _⟩
      · rcases Registry.issue_error failed with ⟨ungranted, rfl⟩
        exact .ungranted accommodates rfl ungranted
      · omega
  case invokeHandle argumentCount =>
    refine refuses_of_ensureDepth (Nat.le_refl _) (Nat.succ_le_succ (Nat.zero_le _)) refused ?_
    intro (deep : argumentCount.toNat + 1 ≤ core.stack.size)
    refine (Stack.failsOnly_peek deep).bind fun operand => ?_
    refine operand.operational_expectCap.bind fun handle => ?_
    exact (Stack.failsOnly_top (by omega)).bind fun _ => failsOnly_ok _

end Core

end CapabilityMachine
