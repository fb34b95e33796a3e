import CapabilityMachine.Proofs.Machine.Provenance
/-!
# Handles with another token

What a program sees of a handle is the capability it stands for. Giving all handles on the stack and
in memory another token changes nothing in what the operations of the machine do, apart from that
token. Only the comparison of values could tell tokens apart, and it cannot as long as all handles
have the same one.
-/

namespace CapabilityMachine

open Outcome

/-- The handle with another token. -/
def Handle.restamp (token : Token) (handle : Handle) : Handle :=
  { handle with token }

/-- The value with the token, if it is a handle. -/
def Value.restamp (token : Token) : Value → Value
  | cap handle => cap (handle.restamp token)
  | other => other

/-- The stack with the token in all its handles. -/
def Stack.restamp (token : Token) (stack : Stack) : Stack :=
  { stack with values := stack.values.map (Value.restamp token) }

/-- The memory with the token in all its handles. -/
def Memory.restamp (token : Token) (memory : Memory) : Memory :=
  { memory with cells := memory.cells.map (Value.restamp token) }

/-- Stack and memory with the token in all their handles. -/
def Core.restamp (token : Token) (core : Core) : Core :=
  { core with stack := core.stack.restamp token, memory := core.memory.restamp token }

/-- The request with the token in all its handles. -/
def Request.restamp (token : Token) : Request → Request
  | proceed core flow => proceed (core.restamp token) flow
  | invoke handle arguments replaced =>
    invoke (handle.restamp token) (arguments.map (Value.restamp token)) replaced

/-- If the value is a handle, it has the token. -/
def Value.Stamped (token : Token) : Value → Prop
  | cap handle => handle.token = token
  | _ => True

variable (token : Token)

namespace Outcome

variable {ε β γ δ φ : Type}

/-- Sequences of operations correspond to each other if their operations do, step by step. -/
theorem bind_eq_map_bind {outcome : Except ε β} {next : β → Except ε γ} {other : Except ε δ}
    {otherNext : δ → Except ε φ} {change : β → δ} {changeResult : γ → φ}
    (first : other = outcome.map change)
    (later : ∀ value, outcome = .ok value →
      otherNext (change value) = (next value).map changeResult) :
    (other >>= otherNext) = (outcome >>= next).map changeResult := by
  subst first
  cases outcome with
  | error error => rfl
  | ok value => exact later value rfl

/-- An operation that comes to the same in both sequences. -/
theorem bind_eq_map_bind_self {outcome other : Except ε β} {next : β → Except ε γ}
    {otherNext : β → Except ε φ} {changeResult : γ → φ} (same : other = outcome)
    (later : ∀ value, outcome = .ok value → otherNext value = (next value).map changeResult) :
    (other >>= otherNext) = (outcome >>= next).map changeResult := by
  subst same
  cases other with
  | error error => rfl
  | ok value => exact later value rfl

end Outcome

namespace Value

variable {value other : Value}

@[simp]
theorem kind_restamp (value : Value) : (value.restamp token).kind = value.kind := by
  cases value <;> rfl

theorem IsPlain.restamp_eq (plain : value.IsPlain) : value.restamp token = value := by
  cases value with
  | cap handle => exact absurd rfl plain.1
  | int | bool | ref | unit => rfl

theorem observablyEq_restamp (value : Value) : value.ObservablyEq (value.restamp token) := by
  cases value <;> rfl

/-- Among handles of one token, the token does not matter. -/
theorem restamp_eq_restamp_iff {stamp : Token} (stamped : value.Stamped stamp)
    (otherStamped : other.Stamped stamp) :
    value.restamp token = other.restamp token ↔ value = other := by
  constructor
  · intro same
    cases value <;> cases other <;> simp only [restamp, reduceCtorEq] at same
    case cap.cap handle otherHandle =>
      rcases handle with ⟨id, stampOf⟩
      rcases otherHandle with ⟨otherId, otherStampOf⟩
      cases stamped
      cases otherStamped
      cases same
      rfl
    case unit.unit => rfl
    all_goals exact same
  · rintro rfl
    rfl

theorem expectInt_restamp : (value.restamp token).expectInt = value.expectInt := by
  cases value <;> rfl

theorem expectBool_restamp : (value.restamp token).expectBool = value.expectBool := by
  cases value <;> rfl

theorem expectRef_restamp : (value.restamp token).expectRef = value.expectRef := by
  cases value <;> rfl

theorem expectCap_restamp :
    (value.restamp token).expectCap = value.expectCap.map (Handle.restamp token) := by
  cases value <;> rfl

end Value

namespace Operator

variable {first second : Value}

theorem onInts_restamp (compute : Int → Int → Except RuntimeError Value) :
    onInts (first.restamp token) (second.restamp token) compute = onInts first second compute := by
  simp only [onInts, Value.expectInt_restamp]

theorem onBools_restamp (compute : Bool → Bool → Bool) :
    onBools (first.restamp token) (second.restamp token) compute =
      onBools first second compute := by
  simp only [onBools, Value.expectBool_restamp]

end Operator

open Operator in
/-- Operators cannot tell tokens apart, if all handles have the same one. -/
theorem BinaryOp.apply_restamp {stamp : Token} {first second : Value}
    (stamped : first.Stamped stamp) (otherStamped : second.Stamped stamp) (op : BinaryOp) :
    op.apply (first.restamp token) (second.restamp token) = op.apply first second := by
  cases op <;> simp only [BinaryOp.apply, onInts_restamp, onBools_restamp]
  case eq => simp [Value.restamp_eq_restamp_iff token stamped otherStamped]
  case ne => simp [Value.restamp_eq_restamp_iff token stamped otherStamped]

open Operator in
theorem UnaryOp.apply_restamp (value : Value) (op : UnaryOp) :
    op.apply (value.restamp token) = op.apply value := by
  cases op <;> simp only [UnaryOp.apply, Value.expectInt_restamp, Value.expectBool_restamp]

namespace Stack

variable {stack : Stack} {count depth : Nat}

@[simp]
theorem size_restamp (stack : Stack) : (stack.restamp token).size = stack.size := by
  simp [size, restamp]

theorem ensureRoom_restamp : (stack.restamp token).ensureRoom count = stack.ensureRoom count := by
  rw [ensureRoom, size_restamp]
  rfl

theorem ensureDepth_restamp :
    (stack.restamp token).ensureDepth count = stack.ensureDepth count := by
  rw [ensureDepth, size_restamp]
  rfl

theorem push_restamp (value : Value) :
    (stack.restamp token).push (value.restamp token) =
      (stack.push value).map (Stack.restamp token) := by
  apply bind_eq_map_bind_self (ensureRoom_restamp token)
  intro _ _
  rfl

theorem peek_restamp :
    (stack.restamp token).peek depth = (stack.peek depth).map (Value.restamp token) := by
  rw [peek, peek, size_restamp]
  simp only [restamp, List.getElem?_map]
  cases stack.values[depth]? <;> rfl

theorem top_restamp :
    (stack.restamp token).top count = (stack.top count).map (List.map (Value.restamp token)) := by
  apply bind_eq_map_bind_self (ensureDepth_restamp token)
  intro _ _
  simp [restamp, List.map_take, pure, Except.pure, Except.map]

theorem dropTop_restamp :
    (stack.restamp token).dropTop count = (stack.dropTop count).map (Stack.restamp token) := by
  apply bind_eq_map_bind_self (ensureDepth_restamp token)
  intro _ _
  simp [restamp, List.map_drop, pure, Except.pure, Except.map]

theorem replaceTop_restamp (stack : Stack) (count : Nat) (value : Value) :
    (stack.restamp token).replaceTop count (value.restamp token) =
      (stack.replaceTop count value).map (Stack.restamp token) := by
  have replaced : ({ stack.restamp token with
      values := value.restamp token :: (stack.restamp token).values.drop count } : Stack) =
      Stack.restamp token { stack with values := value :: stack.values.drop count } := by
    simp [restamp, List.map_drop]
  apply bind_eq_map_bind_self (ensureDepth_restamp token)
  intro _ _
  by_cases noValues : count = 0
  · simp only [noValues, if_true] at replaced ⊢
    apply bind_eq_map_bind_self (ensureRoom_restamp token)
    intro _ _
    rw [replaced]
    rfl
  · simp only [noValues, if_false]
    rw [replaced]
    rfl

theorem pick_restamp :
    (stack.restamp token).pick depth = (stack.pick depth).map (Stack.restamp token) := by
  apply bind_eq_map_bind (peek_restamp token)
  intro value _
  exact push_restamp token value

theorem swap_restamp :
    (stack.restamp token).swap = stack.swap.map (Stack.restamp token) := by
  rcases stack with ⟨limit, values⟩
  match values with
  | [] | [_] => rfl
  | first :: second :: rest => rfl

end Stack

/-- The result of an operator is no handle. -/
theorem Value.IsPlain.replaceTop_restamp {result : Value} (plain : result.IsPlain) {stack : Stack}
    {count : Nat} :
    (stack.restamp token).replaceTop count result =
      (stack.replaceTop count result).map (Stack.restamp token) := by
  have replaced := stack.replaceTop_restamp token count result
  rw [plain.restamp_eq] at replaced
  exact replaced

namespace Memory

variable {memory : Memory} {reference : Reference} {offset : Int64} {length : Nat}

@[simp]
theorem used_restamp (memory : Memory) : (memory.restamp token).used = memory.used := by
  simp [used, restamp]

theorem alloc_restamp :
    (memory.restamp token).alloc length =
      (memory.alloc length).map fun (reference, after) => (reference, after.restamp token) := by
  have available_eq : (memory.restamp token).available = memory.available := by
    rw [available, used_restamp]
    rfl
  have cells_eq : memory.cells.map (Value.restamp token) ++ Array.replicate length Value.unit =
      (memory.cells ++ Array.replicate length Value.unit).map (Value.restamp token) := by
    simp [Value.restamp]
  have live_eq : (memory.restamp token).live = memory.live := rfl
  rw [alloc, alloc, available_eq, used_restamp, live_eq]
  by_cases full : memory.available < length ∨ maxRegions ≤ memory.live
  · rw [if_pos full, if_pos full]
    rfl
  · rw [if_neg full, if_neg full]
    simp only [Except.map, restamp, ← cells_eq]
    rfl

theorem cellIndex_restamp :
    (memory.restamp token).cellIndex reference offset = memory.cellIndex reference offset :=
  rfl

theorem read_restamp :
    (memory.restamp token).read reference offset =
      (memory.read reference offset).map (Value.restamp token) := by
  apply bind_eq_map_bind_self (cellIndex_restamp token)
  intro index _
  simp only [restamp, Array.getElem?_map]
  cases memory.cells[index]? <;> rfl

theorem write_restamp (value : Value) :
    (memory.restamp token).write reference offset (value.restamp token) =
      (memory.write reference offset value).map (Memory.restamp token) := by
  apply bind_eq_map_bind_self (cellIndex_restamp token)
  intro index _
  simp [restamp, Array.map_setIfInBounds, pure, Except.pure, Except.map]

theorem leaveFrame_restamp :
    (memory.restamp token).leaveFrame = memory.leaveFrame.map (Memory.restamp token) := by
  simp only [leaveFrame, restamp]
  cases memory.marks with
  | nil => rfl
  | cons mark marks =>
    cases found : memory.slots[mark]? with
    | none => simp [found, Except.map, restamp]
    | some slot =>
      by_cases released : mark < memory.live
      · simp [found, released, Except.map, restamp, Array.map_extract]
      · simp [found, released, Except.map, restamp]

end Memory

/-! ### Instructions -/

namespace Core

variable {α β : Type} {core : Core} {registry : Registry α} {other : Registry β}

theorem withStack_eq_map {outcome changed : Except RuntimeError Stack}
    (same : changed = outcome.map (Stack.restamp token)) :
    (do return (core.restamp token).withStack (← changed)) =
      (do return core.withStack (← outcome)).map (Request.restamp token) := by
  apply bind_eq_map_bind same
  intro stack _
  rfl

theorem issue_restamp (grants : ∀ id, other.isGranted id = registry.isGranted id)
    (id : CapabilityId) :
    other.issue id = (registry.issue id).map (Handle.restamp other.token) := by
  rw [Registry.issue, Registry.issue, grants]
  split <;> rfl

/-- What an instruction asks for, or is refused with, does not depend on the token that all handles
have. -/
theorem request_restamp (grants : ∀ id, other.isGranted id = registry.isGranted id)
    (stamped : ∀ value ∈ core.stack.values, value.Stamped registry.token) (maxCallDepth index : Nat)
    (instruction : Instruction) :
    (core.restamp other.token).request other maxCallDepth index instruction =
      (core.request registry maxCallDepth index instruction).map
        (Request.restamp other.token) := by
  have issue_eq (id : CapabilityId) := issue_restamp grants id
  generalize other.token = token at *
  have frames_eq : (core.restamp token).frames = core.frames := rfl
  have operand {depth : Nat} {value : Value} (found : core.stack.peek depth = .ok value) :
      value.Stamped registry.token :=
    stamped value (List.mem_of_getElem? (Stack.peek_eq_ok.1 found))
  cases instruction with
  | nop => rfl
  | push n => exact withStack_eq_map token (Stack.push_restamp token (.int n))
  | pushBool b => exact withStack_eq_map token (Stack.push_restamp token (.bool b))
  | pushUnit => exact withStack_eq_map token (Stack.push_restamp token .unit)
  | pop => exact withStack_eq_map token (Stack.dropTop_restamp token)
  | dup => exact withStack_eq_map token (Stack.pick_restamp token)
  | swap => exact withStack_eq_map token (Stack.swap_restamp token)
  | pick depth => exact withStack_eq_map token (Stack.pick_restamp token)
  | binary op =>
    apply bind_eq_map_bind_self (Stack.ensureDepth_restamp token)
    intro _ _
    apply bind_eq_map_bind (Stack.peek_restamp token)
    intro second top
    apply bind_eq_map_bind (Stack.peek_restamp token)
    intro first next
    apply bind_eq_map_bind_self (op.apply_restamp token (operand next) (operand top))
    intro result computed
    have plain := BinaryOp.isPlain_of_apply computed
    exact withStack_eq_map token (plain.replaceTop_restamp token)
  | unary op =>
    apply bind_eq_map_bind (Stack.peek_restamp token)
    intro value _
    apply bind_eq_map_bind_self (op.apply_restamp token value)
    intro result computed
    have plain := UnaryOp.isPlain_of_apply computed
    exact withStack_eq_map token (plain.replaceTop_restamp token)
  | jump target => rfl
  | branch condition target =>
    apply bind_eq_map_bind (Stack.peek_restamp token)
    intro value _
    apply bind_eq_map_bind_self (Value.expectBool_restamp token)
    intro found _
    apply bind_eq_map_bind (Stack.dropTop_restamp token)
    intro stack _
    rfl
  | call target =>
    rw [Core.request, Core.request, frames_eq]
    split
    · rfl
    · rfl
  | ret =>
    rw [Core.request, Core.request, frames_eq]
    cases core.frames with
    | nil => rfl
    | cons origin frames =>
      apply bind_eq_map_bind (Memory.leaveFrame_restamp token)
      intro memory _
      rfl
  | alloc length =>
    apply bind_eq_map_bind_self (Stack.ensureRoom_restamp token)
    intro _ _
    apply bind_eq_map_bind (Memory.alloc_restamp token)
    rintro ⟨reference, memory⟩ _
    apply bind_eq_map_bind (Stack.push_restamp token (.ref reference))
    intro stack _
    rfl
  | load offset =>
    apply bind_eq_map_bind (Stack.peek_restamp token)
    intro value _
    apply bind_eq_map_bind_self (Value.expectRef_restamp token)
    intro reference _
    apply bind_eq_map_bind (Memory.read_restamp token)
    intro found _
    exact withStack_eq_map token (Stack.replaceTop_restamp token _ _ found)
  | store offset =>
    apply bind_eq_map_bind_self (Stack.ensureDepth_restamp token)
    intro _ _
    apply bind_eq_map_bind (Stack.peek_restamp token)
    intro value _
    apply bind_eq_map_bind (Stack.peek_restamp token)
    intro operand _
    apply bind_eq_map_bind_self (Value.expectRef_restamp token)
    intro reference _
    apply bind_eq_map_bind (Memory.write_restamp token value)
    intro memory _
    apply bind_eq_map_bind (Stack.dropTop_restamp token)
    intro stack _
    rfl
  | loadAt =>
    apply bind_eq_map_bind_self (Stack.ensureDepth_restamp token)
    intro _ _
    apply bind_eq_map_bind (Stack.peek_restamp token)
    intro top _
    apply bind_eq_map_bind_self (Value.expectInt_restamp token)
    intro offset _
    apply bind_eq_map_bind (Stack.peek_restamp token)
    intro operand _
    apply bind_eq_map_bind_self (Value.expectRef_restamp token)
    intro reference _
    apply bind_eq_map_bind (Memory.read_restamp token)
    intro found _
    exact withStack_eq_map token (Stack.replaceTop_restamp token _ _ found)
  | storeAt =>
    apply bind_eq_map_bind_self (Stack.ensureDepth_restamp token)
    intro _ _
    apply bind_eq_map_bind (Stack.peek_restamp token)
    intro value _
    apply bind_eq_map_bind (Stack.peek_restamp token)
    intro top _
    apply bind_eq_map_bind_self (Value.expectInt_restamp token)
    intro offset _
    apply bind_eq_map_bind (Stack.peek_restamp token)
    intro operand _
    apply bind_eq_map_bind_self (Value.expectRef_restamp token)
    intro reference _
    apply bind_eq_map_bind (Memory.write_restamp token value)
    intro memory _
    apply bind_eq_map_bind (Stack.dropTop_restamp token)
    intro stack _
    rfl
  | cap id =>
    apply bind_eq_map_bind_self (Stack.ensureRoom_restamp token)
    intro _ _
    apply bind_eq_map_bind (issue_eq id)
    intro handle _
    exact withStack_eq_map token (Stack.push_restamp token (.cap handle))
  | invoke id argumentCount =>
    apply bind_eq_map_bind_self (Stack.ensureDepth_restamp token)
    intro _ _
    by_cases noArguments : argumentCount.toNat = 0
    · simp only [noArguments, if_true]
      apply bind_eq_map_bind_self (Stack.ensureRoom_restamp token)
      intro _ _
      apply bind_eq_map_bind (issue_eq id)
      intro handle _
      apply bind_eq_map_bind (Stack.top_restamp token)
      intro arguments _
      rfl
    · simp only [noArguments, if_false]
      apply bind_eq_map_bind (issue_eq id)
      intro handle _
      apply bind_eq_map_bind (Stack.top_restamp token)
      intro arguments _
      rfl
  | invokeHandle argumentCount =>
    apply bind_eq_map_bind_self (Stack.ensureDepth_restamp token)
    intro _ _
    apply bind_eq_map_bind (Stack.peek_restamp token)
    intro value _
    apply bind_eq_map_bind (Value.expectCap_restamp token)
    intro handle _
    apply bind_eq_map_bind (Stack.top_restamp token)
    intro arguments _
    rfl
  | halt => rfl

end Core

end CapabilityMachine
