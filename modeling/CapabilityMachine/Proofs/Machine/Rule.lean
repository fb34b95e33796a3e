import CapabilityMachine.Proofs.Machine.Request
/-!
# Rules of execution

`Core.Allows` lists, instruction by instruction, what has to be on the stack, in memory and among
the grants for the instruction to succeed, and what it then asks for. By `allows_of_request_eq_ok`
the list is complete, so properties of execution are proved by cases on these rules.
-/

namespace CapabilityMachine

open Outcome

variable {α : Type}

namespace Value

variable {value : Value}

theorem expectInt_eq_ok {n : Int64} : value.expectInt = .ok n ↔ value = .int n := by
  cases value <;> simp [expectInt]

theorem expectBool_eq_ok {b : Bool} : value.expectBool = .ok b ↔ value = .bool b := by
  cases value <;> simp [expectBool]

theorem expectRef_eq_ok {reference : Reference} :
    value.expectRef = .ok reference ↔ value = .ref reference := by
  cases value <;> simp [expectRef]

theorem expectCap_eq_ok {handle : Handle} : value.expectCap = .ok handle ↔ value = .cap handle := by
  cases value <;> simp [expectCap]

end Value

namespace Core

/-- The core with other values on its stack, top first. -/
def withValues (core : Core) (values : List Value) : Core :=
  { core with stack := { core.stack with values } }

@[simp]
theorem withValues_values (core : Core) (values : List Value) :
    (core.withValues values).stack.values = values :=
  rfl

@[simp]
theorem withValues_limit (core : Core) (values : List Value) :
    (core.withValues values).stack.limit = core.stack.limit :=
  rfl

@[simp]
theorem withValues_memory (core : Core) (values : List Value) :
    (core.withValues values).memory = core.memory :=
  rfl

@[simp]
theorem withValues_frames (core : Core) (values : List Value) :
    (core.withValues values).frames = core.frames :=
  rfl

/-- The instruction at the index may ask for the request. -/
inductive Allows (core : Core) (registry : Registry α) (maxCallDepth index : Nat) :
    Instruction → Request → Prop
  | nop : Allows core registry maxCallDepth index .nop (.proceed core .next)
  | push {n : Int64} (room : core.stack.size < core.stack.limit) :
      Allows core registry maxCallDepth index (.push n)
        (.proceed (core.withValues (.int n :: core.stack.values)) .next)
  | pushBool {b : Bool} (room : core.stack.size < core.stack.limit) :
      Allows core registry maxCallDepth index (.pushBool b)
        (.proceed (core.withValues (.bool b :: core.stack.values)) .next)
  | pushUnit (room : core.stack.size < core.stack.limit) :
      Allows core registry maxCallDepth index .pushUnit
        (.proceed (core.withValues (.unit :: core.stack.values)) .next)
  | pop {value : Value} {rest : List Value} (shape : core.stack.values = value :: rest) :
      Allows core registry maxCallDepth index .pop (.proceed (core.withValues rest) .next)
  | dup {value : Value} (found : core.stack.values[0]? = some value)
      (room : core.stack.size < core.stack.limit) :
      Allows core registry maxCallDepth index .dup
        (.proceed (core.withValues (value :: core.stack.values)) .next)
  | swap {first second : Value} {rest : List Value}
      (shape : core.stack.values = first :: second :: rest) :
      Allows core registry maxCallDepth index .swap
        (.proceed (core.withValues (second :: first :: rest)) .next)
  | pick {depth : UInt16} {value : Value} (found : core.stack.values[depth.toNat]? = some value)
      (room : core.stack.size < core.stack.limit) :
      Allows core registry maxCallDepth index (.pick depth)
        (.proceed (core.withValues (value :: core.stack.values)) .next)
  | binary {op : BinaryOp} {first second result : Value} {rest : List Value}
      (shape : core.stack.values = second :: first :: rest)
      (computed : op.apply first second = .ok result) :
      Allows core registry maxCallDepth index (.binary op)
        (.proceed (core.withValues (result :: rest)) .next)
  | unary {op : UnaryOp} {operand result : Value} {rest : List Value}
      (shape : core.stack.values = operand :: rest) (computed : op.apply operand = .ok result) :
      Allows core registry maxCallDepth index (.unary op)
        (.proceed (core.withValues (result :: rest)) .next)
  | jump {target : Nat} :
      Allows core registry maxCallDepth index (.jump target) (.proceed core (.jump target))
  | branch {condition found : Bool} {target : Nat} {rest : List Value}
      (shape : core.stack.values = .bool found :: rest) :
      Allows core registry maxCallDepth index (.branch condition target)
        (.proceed (core.withValues rest) (if found = condition then .jump target else .next))
  | call {target : Nat} (shallow : core.frames.length < maxCallDepth) :
      Allows core registry maxCallDepth index (.call target)
        (.proceed { core with
          memory := core.memory.enterFrame
          frames := (index + 1) :: core.frames } (.jump target))
  | finish (topLevel : core.frames = []) :
      Allows core registry maxCallDepth index .ret (.proceed core .halt)
  | ret {origin : Nat} {frames : List Nat} {memory : Memory}
      (called : core.frames = origin :: frames) (left : core.memory.leaveFrame = .ok memory) :
      Allows core registry maxCallDepth index .ret
        (.proceed { core with memory, frames } (.jump origin))
  | alloc {length : UInt16} {reference : Reference} {memory : Memory}
      (room : core.stack.size < core.stack.limit)
      (allocated : core.memory.alloc length.toNat = .ok (reference, memory)) :
      Allows core registry maxCallDepth index (.alloc length)
        (.proceed { core.withValues (.ref reference :: core.stack.values) with memory } .next)
  | load {offset : UInt16} {reference : Reference} {value : Value} {rest : List Value}
      (shape : core.stack.values = .ref reference :: rest)
      (found : core.memory.read reference (Int64.ofNat offset.toNat) = .ok value) :
      Allows core registry maxCallDepth index (.load offset)
        (.proceed (core.withValues (value :: rest)) .next)
  | store {offset : UInt16} {reference : Reference} {value : Value} {rest : List Value}
      {memory : Memory} (shape : core.stack.values = value :: .ref reference :: rest)
      (written : core.memory.write reference (Int64.ofNat offset.toNat) value = .ok memory) :
      Allows core registry maxCallDepth index (.store offset)
        (.proceed { core.withValues rest with memory } .next)
  | loadAt {offset : Int64} {reference : Reference} {value : Value} {rest : List Value}
      (shape : core.stack.values = .int offset :: .ref reference :: rest)
      (found : core.memory.read reference offset = .ok value) :
      Allows core registry maxCallDepth index .loadAt
        (.proceed (core.withValues (value :: rest)) .next)
  | storeAt {offset : Int64} {reference : Reference} {value : Value} {rest : List Value}
      {memory : Memory} (shape : core.stack.values = value :: .int offset :: .ref reference :: rest)
      (written : core.memory.write reference offset value = .ok memory) :
      Allows core registry maxCallDepth index .storeAt
        (.proceed { core.withValues rest with memory } .next)
  | cap {id : CapabilityId} {handle : Handle} (room : core.stack.size < core.stack.limit)
      (issued : registry.issue id = .ok handle) :
      Allows core registry maxCallDepth index (.cap id)
        (.proceed (core.withValues (.cap handle :: core.stack.values)) .next)
  | invoke {id : CapabilityId} {argumentCount : UInt8} {handle : Handle}
      (deep : argumentCount.toNat ≤ core.stack.size)
      (room : argumentCount.toNat = 0 → core.stack.size < core.stack.limit)
      (issued : registry.issue id = .ok handle) :
      Allows core registry maxCallDepth index (.invoke id argumentCount)
        (.invoke handle (core.stack.values.take argumentCount.toNat).reverse argumentCount.toNat)
  | invokeHandle {argumentCount : UInt8} {handle : Handle}
      (found : core.stack.values[argumentCount.toNat]? = some (.cap handle)) :
      Allows core registry maxCallDepth index (.invokeHandle argumentCount)
        (.invoke handle (core.stack.values.take argumentCount.toNat).reverse
          (argumentCount.toNat + 1))
  | halt : Allows core registry maxCallDepth index .halt (.proceed core .halt)

variable {core : Core} {registry : Registry α} {maxCallDepth index : Nat}
  {instruction : Instruction} {request : Request}

theorem eq_cons_of_getElem? {values : List Value} {value : Value}
    (top : values[0]? = some value) : ∃ rest, values = value :: rest := by
  cases values with
  | nil => simp at top
  | cons first rest =>
    cases top
    exact ⟨rest, rfl⟩

theorem eq_cons_cons_of_getElem? {values : List Value} {first second : Value}
    (top : values[0]? = some first) (next : values[1]? = some second) :
    ∃ rest, values = first :: second :: rest := by
  rcases eq_cons_of_getElem? top with ⟨rest, rfl⟩
  rcases eq_cons_of_getElem? (show rest[0]? = some second from next) with ⟨rest, rfl⟩
  exact ⟨rest, rfl⟩

theorem eq_cons_cons_cons_of_getElem? {values : List Value} {first second third : Value}
    (top : values[0]? = some first) (next : values[1]? = some second)
    (last : values[2]? = some third) : ∃ rest, values = first :: second :: third :: rest := by
  rcases eq_cons_of_getElem? top with ⟨rest, rfl⟩
  rcases eq_cons_cons_of_getElem? (show rest[0]? = some second from next) last with ⟨rest, rfl⟩
  exact ⟨rest, rfl⟩

theorem allows_of_request_eq_ok
    (succeeded : core.request registry maxCallDepth index instruction = .ok request) :
    core.Allows registry maxCallDepth index instruction request := by
  cases instruction with
  | nop =>
    cases succeeded
    exact .nop
  | push n =>
    simp only [Core.request, bind_eq_ok, Stack.push_eq_ok, pure_eq_ok] at succeeded
    rcases succeeded with ⟨stack, ⟨room, rfl⟩, rfl⟩
    exact .push room
  | pushBool b =>
    simp only [Core.request, bind_eq_ok, Stack.push_eq_ok, pure_eq_ok] at succeeded
    rcases succeeded with ⟨stack, ⟨room, rfl⟩, rfl⟩
    exact .pushBool room
  | pushUnit =>
    simp only [Core.request, bind_eq_ok, Stack.push_eq_ok, pure_eq_ok] at succeeded
    rcases succeeded with ⟨stack, ⟨room, rfl⟩, rfl⟩
    exact .pushUnit room
  | pop =>
    simp only [Core.request, bind_eq_ok, Stack.dropTop_eq_ok, pure_eq_ok] at succeeded
    rcases succeeded with ⟨stack, ⟨deep, rfl⟩, rfl⟩
    cases shape : core.stack.values with
    | nil => simp [Stack.size, shape] at deep
    | cons value rest => exact .pop shape
  | dup =>
    simp only [Core.request, bind_eq_ok, Stack.dup_eq_ok, pure_eq_ok] at succeeded
    rcases succeeded with ⟨stack, ⟨value, found, room, rfl⟩, rfl⟩
    exact .dup found room
  | swap =>
    simp only [Core.request, bind_eq_ok, Stack.swap_eq_ok, pure_eq_ok] at succeeded
    rcases succeeded with ⟨stack, ⟨first, second, rest, shape, rfl⟩, rfl⟩
    exact .swap shape
  | pick depth =>
    simp only [Core.request, bind_eq_ok, Stack.pick_eq_ok, pure_eq_ok] at succeeded
    rcases succeeded with ⟨stack, ⟨value, found, room, rfl⟩, rfl⟩
    exact .pick found room
  | binary op =>
    simp only [Core.request, bind_eq_ok, Stack.peek_eq_ok, Stack.replaceTop_eq_ok, pure_eq_ok]
      at succeeded
    rcases succeeded with
      ⟨_, _, second, top, first, next, result, computed, stack, ⟨_, _, rfl⟩, rfl⟩
    rcases eq_cons_cons_of_getElem? top next with ⟨rest, shape⟩
    rw [shape]
    exact .binary shape computed
  | unary op =>
    simp only [Core.request, bind_eq_ok, Stack.peek_eq_ok, Stack.replaceTop_eq_ok, pure_eq_ok]
      at succeeded
    rcases succeeded with ⟨operand, top, result, computed, stack, ⟨_, _, rfl⟩, rfl⟩
    rcases eq_cons_of_getElem? top with ⟨rest, shape⟩
    rw [shape]
    exact .unary shape computed
  | jump target =>
    cases succeeded
    exact .jump
  | branch condition target =>
    simp only [Core.request, bind_eq_ok, Stack.peek_eq_ok, Value.expectBool_eq_ok,
      Stack.dropTop_eq_ok, pure_eq_ok] at succeeded
    rcases succeeded with ⟨value, top, found, rfl, stack, ⟨_, rfl⟩, rfl⟩
    rcases eq_cons_of_getElem? top with ⟨rest, shape⟩
    rw [shape]
    exact .branch shape
  | call target =>
    rw [Core.request] at succeeded
    split at succeeded
    · cases succeeded
    · rename_i shallow
      cases succeeded
      exact .call (by omega)
  | ret =>
    rw [Core.request] at succeeded
    split at succeeded
    · rename_i topLevel
      cases succeeded
      exact .finish topLevel
    · rename_i origin frames called
      simp only [bind_eq_ok, pure_eq_ok] at succeeded
      rcases succeeded with ⟨memory, left, rfl⟩
      exact .ret called left
  | alloc length =>
    simp only [Core.request, bind_eq_ok, Stack.push_eq_ok, pure_eq_ok, Prod.exists] at succeeded
    rcases succeeded with ⟨_, _, reference, memory, allocated, stack, ⟨room, rfl⟩, rfl⟩
    exact .alloc room allocated
  | load offset =>
    simp only [Core.request, bind_eq_ok, Stack.peek_eq_ok, Value.expectRef_eq_ok,
      Stack.replaceTop_eq_ok, pure_eq_ok] at succeeded
    rcases succeeded with ⟨operand, top, reference, rfl, value, found, stack, ⟨_, _, rfl⟩, rfl⟩
    rcases eq_cons_of_getElem? top with ⟨rest, shape⟩
    rw [shape]
    exact .load shape found
  | store offset =>
    simp only [Core.request, bind_eq_ok, Stack.peek_eq_ok, Value.expectRef_eq_ok,
      Stack.dropTop_eq_ok, pure_eq_ok] at succeeded
    rcases succeeded with
      ⟨_, _, value, top, operand, next, reference, rfl, memory, written, stack, ⟨_, rfl⟩, rfl⟩
    rcases eq_cons_cons_of_getElem? top next with ⟨rest, shape⟩
    rw [shape]
    exact .store shape written
  | loadAt =>
    simp only [Core.request, bind_eq_ok, Stack.peek_eq_ok, Value.expectInt_eq_ok,
      Value.expectRef_eq_ok, Stack.replaceTop_eq_ok, pure_eq_ok] at succeeded
    rcases succeeded with
      ⟨_, _, topmost, top, offset, rfl, operand, next, reference, rfl, value, found, stack,
        ⟨_, _, rfl⟩, rfl⟩
    rcases eq_cons_cons_of_getElem? top next with ⟨rest, shape⟩
    rw [shape]
    exact .loadAt shape found
  | storeAt =>
    simp only [Core.request, bind_eq_ok, Stack.peek_eq_ok, Value.expectInt_eq_ok,
      Value.expectRef_eq_ok, Stack.dropTop_eq_ok, pure_eq_ok] at succeeded
    rcases succeeded with
      ⟨_, _, value, top, topmost, next, offset, rfl, operand, last, reference, rfl, memory,
        written, stack, ⟨_, rfl⟩, rfl⟩
    rcases eq_cons_cons_cons_of_getElem? top next last with ⟨rest, shape⟩
    rw [shape]
    exact .storeAt shape written
  | cap id =>
    simp only [Core.request, bind_eq_ok, Stack.push_eq_ok, pure_eq_ok] at succeeded
    rcases succeeded with ⟨_, _, handle, issued, stack, ⟨room, rfl⟩, rfl⟩
    exact .cap room issued
  | invoke id argumentCount =>
    simp only [Core.request, bind_eq_ok, Stack.ensureDepth_eq_ok] at succeeded
    rcases succeeded with ⟨_, deep, succeeded⟩
    by_cases noArguments : argumentCount.toNat = 0
    · simp only [noArguments, if_true, bind_eq_ok, Stack.ensureRoom_eq_ok, Stack.top_eq_ok,
        pure_eq_ok] at succeeded
      rcases succeeded with ⟨_, room, handle, issued, arguments, ⟨_, rfl⟩, rfl⟩
      rw [← noArguments]
      exact .invoke deep (fun _ => by omega) issued
    · simp only [noArguments, if_false, bind_eq_ok, Stack.top_eq_ok, pure_eq_ok] at succeeded
      rcases succeeded with ⟨handle, issued, arguments, ⟨_, rfl⟩, rfl⟩
      exact .invoke deep (fun zero => absurd zero noArguments) issued
  | invokeHandle argumentCount =>
    simp only [Core.request, bind_eq_ok, Stack.peek_eq_ok, Value.expectCap_eq_ok, Stack.top_eq_ok,
      pure_eq_ok] at succeeded
    rcases succeeded with ⟨_, _, value, found, handle, rfl, arguments, ⟨_, rfl⟩, rfl⟩
    exact .invokeHandle found
  | halt =>
    cases succeeded
    exact .halt

end Core

end CapabilityMachine
