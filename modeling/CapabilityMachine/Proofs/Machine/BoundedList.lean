import CapabilityMachine.Proofs.Machine.Stack
import CapabilityMachine.Proofs.Session
/-!
# The operand stack as a bounded list

What the operand stack does can be said of a list, from bottom to top, that has a bound on its
length. Every operation needs a number of topmost values and hands some of them out, and it puts
other values in their place. The values below them do not matter to it, and it fails only for want
of values or of room.
-/

namespace CapabilityMachine

open Outcome

namespace Stack

/-- The operations on a stack, with what they are given. -/
inductive Operation where
  | push (value : Value)
  | pop
  | peek (depth : Nat)
  | top (count : Nat)
  | dropTop (count : Nat)
  | replaceTop (count : Nat) (value : Value)
  | dup
  | swap
  | pick (depth : Nat)
  | ensureRoom (count : Nat)
  | ensureDepth (count : Nat)

/-- Performs an operation. The answer is the list of the values that it hands out, from bottom to
top. -/
def perform (stack : Stack) : Operation → Except RuntimeError (List Value × Stack)
  | .push value => return ([], ← stack.push value)
  | .pop => do
    let (value, rest) ← stack.pop
    return ([value], rest)
  | .peek depth => return ([← stack.peek depth], stack)
  | .top count => return (← stack.top count, stack)
  | .dropTop count => return ([], ← stack.dropTop count)
  | .replaceTop count value => return ([], ← stack.replaceTop count value)
  | .dup => return ([], ← stack.dup)
  | .swap => return ([], ← stack.swap)
  | .pick depth => return ([], ← stack.pick depth)
  | .ensureRoom count => do
    stack.ensureRoom count
    return ([], stack)
  | .ensureDepth count => do
    stack.ensureDepth count
    return ([], stack)

/-- Calls an operation on the stack, which stays as it is if the operation fails. -/
def call (stack : Stack) (operation : Operation) : Except RuntimeError (List Value) × Stack :=
  Session.settle stack (stack.perform operation)

namespace Operation

/-- The number of values that the operation needs. -/
def depth : Operation → Nat
  | push _ | ensureRoom _ => 0
  | pop | dup => 1
  | swap => 2
  | peek depth | pick depth => depth + 1
  | top count | dropTop count | replaceTop count _ | ensureDepth count => count

/-- The number of free places that the operation needs. -/
def room : Operation → Nat
  | push _ | dup | pick _ | replaceTop 0 _ => 1
  | ensureRoom count => count
  | pop | peek _ | top _ | dropTop _ | replaceTop _ _ | swap | ensureDepth _ => 0

/-- The values that the operation hands out, and those that it puts in the place of the ones that it
needs, which are given from bottom to top. -/
def effect (above : List Value) : Operation → List Value × List Value
  | push value => ([], above ++ [value])
  | pop => (above, [])
  | peek _ => (above.take 1, above)
  | top _ => (above, above)
  | dropTop _ => ([], [])
  | replaceTop _ value => ([], [value])
  | dup => ([], above ++ above)
  | swap => ([], above.reverse)
  | pick _ => ([], above ++ above.take 1)
  | ensureRoom _ | ensureDepth _ => ([], above)

/-- There is room for all the values that take the place of others. -/
theorem length_effect_le {operation : Operation} {above : List Value}
    (needed : above.length = operation.depth) :
    (operation.effect above).2.length ≤ operation.depth + operation.room := by
  cases operation with
  | replaceTop count value => cases count <;> simp [effect, depth, room]
  | push | pop | peek | top | dropTop | dup | swap | pick | ensureRoom | ensureDepth =>
    simp_all [effect, depth, room]

end Operation

end Stack

/-- A list of at most `limit` values, from bottom to top. -/
structure BoundedList where
  limit : Nat
  values : List Value := []

namespace BoundedList

/-- Performs an operation on the list. It takes off the values that the operation needs, and puts
what the operation makes of them in their place. -/
def perform (list : BoundedList) (operation : Stack.Operation) :
    Except RuntimeError (List Value × BoundedList) :=
  if list.values.length < operation.depth then
    .error (.stackUnderflow operation.depth list.values.length)
  else if list.limit < list.values.length + operation.room then
    .error (.stackOverflow list.limit)
  else
    let kept := list.values.length - operation.depth
    let (answer, above) := operation.effect (list.values.drop kept)
    .ok (answer, { list with values := list.values.take kept ++ above })

/-- Calls an operation on the list, which stays as it is if the operation fails. -/
def call (list : BoundedList) (operation : Stack.Operation) :
    Except RuntimeError (List Value) × BoundedList :=
  Session.settle list (list.perform operation)

end BoundedList

namespace Stack

variable {stack : Stack} {operation : Operation}

theorem ensureRoom_zero (stack : Stack) : stack.ensureRoom 0 = .ok () :=
  ensureRoom_eq_ok.2 (Nat.zero_le _)

theorem ensureDepth_zero (stack : Stack) : stack.ensureDepth 0 = .ok () :=
  ensureDepth_eq_ok.2 (Nat.zero_le _)

/-- To look at a value takes as many values as to go down to it. -/
theorem peek_cases (stack : Stack) (depth : Nat) :
    (∃ error, stack.peek depth = .error error ∧ stack.ensureDepth (depth + 1) = .error error) ∨
      ∃ value, stack.peek depth = .ok value ∧ stack.ensureDepth (depth + 1) = .ok () ∧
        (stack.values.take (depth + 1)).reverse.take 1 = [value] := by
  cases found : stack.values[depth]? with
  | none =>
    have short : stack.size ≤ depth := List.getElem?_eq_none_iff.1 found
    exact Or.inl ⟨_, peek_eq_error.2 ⟨short, rfl⟩,
      ensureDepth_eq_error.2 ⟨Nat.lt_succ_of_le short, rfl⟩⟩
  | some value =>
    have deep : depth < stack.size := (List.getElem?_eq_some_iff.1 found).1
    refine Or.inr ⟨value, peek_eq_ok.2 found, ensureDepth_eq_ok.2 deep, ?_⟩
    have front_eq : stack.values.take (depth + 1) = stack.values.take depth ++ [value] := by
      rw [List.take_add_one, found, Option.toList_some]
    rw [front_eq, List.reverse_append]
    rfl

/-- Every operation makes sure of the values and the room that it needs, and does nothing else that
may fail. -/
theorem perform_eq (stack : Stack) (operation : Operation) :
    stack.perform operation = do
      stack.ensureDepth operation.depth
      stack.ensureRoom operation.room
      let (answer, above) := operation.effect (stack.values.take operation.depth).reverse
      return (answer,
        { stack with values := above.reverse ++ stack.values.drop operation.depth }) := by
  cases operation with
  | push value =>
    simp only [perform, push, Operation.depth, Operation.room, Operation.effect, ensureDepth_zero]
    cases stack.ensureRoom 1 <;> rfl
  | pop =>
    rcases stack with ⟨limit, _ | ⟨value, rest⟩⟩ <;> rfl
  | peek depth =>
    simp only [perform, Operation.depth, Operation.room, Operation.effect, ensureRoom_zero]
    rcases stack.peek_cases depth with ⟨error, refused, short⟩ | ⟨value, found, deep, lowest⟩
    · rw [refused, short]
      rfl
    · rw [found, deep, lowest, List.reverse_reverse, List.take_append_drop]
      rfl
  | top count =>
    simp only [perform, top, Operation.depth, Operation.room, Operation.effect, ensureRoom_zero,
      List.reverse_reverse, List.take_append_drop]
    cases stack.ensureDepth count <;> rfl
  | dropTop count =>
    simp only [perform, dropTop, Operation.depth, Operation.room, Operation.effect, ensureRoom_zero]
    cases stack.ensureDepth count <;> rfl
  | replaceTop count value =>
    cases count with
    | zero =>
      simp only [perform, replaceTop, Operation.depth, Operation.room, Operation.effect,
        ensureDepth_zero]
      cases stack.ensureRoom 1 <;> rfl
    | succ count =>
      simp only [perform, replaceTop, Operation.depth, Operation.room, Operation.effect,
        ensureRoom_zero]
      cases stack.ensureDepth (count + 1) <;> rfl
  | dup =>
    rcases stack with ⟨limit, _ | ⟨value, rest⟩⟩
    · rfl
    · simp only [perform, dup, pick, push, Operation.room]
      cases ensureRoom ⟨limit, value :: rest⟩ 1 <;> rfl
  | swap =>
    rcases stack with ⟨limit, _ | ⟨first, _ | ⟨second, rest⟩⟩⟩
    · rfl
    · rfl
    · have deep : ensureDepth ⟨limit, first :: second :: rest⟩ 2 = .ok () :=
        ensureDepth_eq_ok.2 (Nat.le_add_left 2 rest.length)
      simp only [perform, Operation.depth, Operation.room, Operation.effect, ensureRoom_zero, deep]
      rfl
  | pick depth =>
    simp only [perform, pick, push, Operation.depth, Operation.room, Operation.effect,
      List.reverse_append, List.reverse_reverse, List.append_assoc, List.take_append_drop]
    rcases stack.peek_cases depth with ⟨error, refused, short⟩ | ⟨value, found, deep, lowest⟩
    · rw [refused, short]
      rfl
    · rw [found, deep, lowest]
      cases stack.ensureRoom 1 <;> rfl
  | ensureRoom count =>
    simp only [perform, Operation.depth, Operation.room, Operation.effect, ensureDepth_zero]
    cases stack.ensureRoom count <;> rfl
  | ensureDepth count =>
    simp only [perform, Operation.depth, Operation.room, Operation.effect, ensureRoom_zero,
      List.reverse_reverse, List.take_append_drop]
    cases stack.ensureDepth count <;> rfl

end Stack

namespace BoundedList

open Stack

variable {list : BoundedList} {stack : Stack}

/-- The list holds what the stack holds, within the bound. -/
structure Describes (list : BoundedList) (stack : Stack) : Prop where
  limit : stack.limit = list.limit
  values : stack.toList = list.values
  size_le : stack.size ≤ stack.limit

theorem Describes.length_eq (describes : list.Describes stack) :
    list.values.length = stack.size := by
  rw [← describes.values, toList, List.length_reverse, size]

/-- To divide a list from bottom to top is to divide its values from the top. -/
theorem Describes.split_eq (describes : list.Describes stack) (count : Nat) :
    list.values.take (stack.size - count) = (stack.values.drop count).reverse ∧
      list.values.drop (stack.size - count) = (stack.values.take count).reverse := by
  rw [← describes.values, toList, size, List.reverse_drop, List.reverse_take]
  exact ⟨rfl, rfl⟩

theorem Describes.call (describes : list.Describes stack) (operation : Operation) :
    (stack.call operation).1 = (list.call operation).1 ∧
      (list.call operation).2.Describes (stack.call operation).2 := by
  have size_le := describes.size_le
  rcases describes.split_eq operation.depth with ⟨below_eq, above_eq⟩
  rw [Stack.call, BoundedList.call, perform_eq, BoundedList.perform, describes.length_eq,
    ensureDepth, ensureRoom, ← describes.limit]
  by_cases short : stack.size < operation.depth
  · rw [if_pos short, if_pos short]
    exact ⟨rfl, describes⟩
  have full_iff : stack.limit - stack.size < operation.room ↔
      stack.limit < stack.size + operation.room := by omega
  by_cases full : stack.limit < stack.size + operation.room
  · rw [if_neg short, if_neg short, if_pos full, if_pos (full_iff.2 full)]
    exact ⟨rfl, describes⟩
  · rw [if_neg short, if_neg short, if_neg full, if_neg (mt full_iff.1 full)]
    dsimp only
    rw [below_eq, above_eq]
    have length_eq : stack.values.length = stack.size := rfl
    have needed : (stack.values.take operation.depth).reverse.length = operation.depth := by
      rw [List.length_reverse, List.length_take, length_eq]
      omega
    have fits := Operation.length_effect_le needed
    refine ⟨rfl, rfl, ?_, ?_⟩
    · show ((operation.effect _).2.reverse ++ stack.values.drop operation.depth).reverse = _
      rw [List.reverse_append, List.reverse_reverse]
      rfl
    · show ((operation.effect _).2.reverse ++ stack.values.drop operation.depth).length ≤
        stack.limit
      rw [List.length_append, List.length_reverse, List.length_drop, length_eq]
      omega

theorem describes_empty (limit : Nat) : Describes { limit } { limit } where
  limit := rfl
  values := rfl
  size_le := Nat.zero_le limit

theorem limit_call (list : BoundedList) (operation : Operation) :
    (list.call operation).2.limit = list.limit := by
  rw [BoundedList.call, BoundedList.perform]
  split
  · rfl
  · split <;> rfl

end BoundedList

namespace Stack

/-- The operand stack answers every sequence of operations as a list with a bound on its length
does, with the same values and with the same errors, and it holds the same values after each of
them. So it never holds more values than its limit allows, and an operation that fails leaves the
values as they were. -/
theorem stack_refines_bounded_list (limit : Nat) (operations : List Operation) :
    let ran := Session.run Stack.call { limit } operations
    let expected := Session.run BoundedList.call { limit } operations
    ran.1 = expected.1 ∧ ran.2.toList = expected.2.values ∧ ran.2.limit = limit ∧
      ran.2.size ≤ limit := by
  intro ran expected
  have related : ran.1 = expected.1 ∧ expected.2.Describes ran.2 :=
    Session.run_related (fun stack list => BoundedList.Describes list stack)
      (BoundedList.describes_empty limit) (fun _ _ operation describes => describes.call operation)
      operations
  have same_limit : expected.2.limit = limit :=
    Session.run_induction (fun list : BoundedList => list.limit = limit) rfl
      (fun list operation same => (list.limit_call operation).trans same) operations
  rcases related with ⟨same_answers, describes⟩
  have limit_eq := describes.limit.trans same_limit
  refine ⟨same_answers, describes.values, limit_eq, ?_⟩
  rw [← limit_eq]
  exact describes.size_le

/-- On a full stack there is no room for one more value, but the topmost value can be replaced. -/
example :
    Session.run Stack.call { limit := 1 }
      [.push .unit, .replaceTop 0 (.bool true), .replaceTop 1 (.bool true), .pick 1, .dup, .top 1] =
    ([.ok [], .error (.stackOverflow 1), .ok [], .error (.stackUnderflow 2 1),
        .error (.stackOverflow 1), .ok [.bool true]],
      { limit := 1, values := [.bool true] }) :=
  rfl

end Stack

end CapabilityMachine
