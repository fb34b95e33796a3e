import CapabilityMachine.Machine.Stack
import CapabilityMachine.Proofs.Outcome
/-!
# Operations of the operand stack

For each operation of the stack, the condition under which it succeeds and the stack or the values
it comes to, and the conditions under which it fails and with which error. Nothing else about the
operations is used later.
-/

namespace CapabilityMachine.Stack

open Outcome

variable {stack result : Stack} {value : Value} {values : List Value} {count depth : Nat}
  {done : Unit}

theorem ensureRoom_eq_ok :
    stack.ensureRoom count = .ok done ↔ count ≤ stack.limit - stack.size := by
  unfold ensureRoom
  split
  · simp
    omega
  · simp
    omega

theorem ensureRoom_one_eq_ok : stack.ensureRoom 1 = .ok done ↔ stack.size < stack.limit := by
  rw [ensureRoom_eq_ok]
  omega

theorem ensureDepth_eq_ok : stack.ensureDepth count = .ok done ↔ count ≤ stack.size := by
  unfold ensureDepth
  split
  · simp
    omega
  · simp
    omega

theorem push_eq_ok :
    stack.push value = .ok result ↔
      stack.size < stack.limit ∧ result = { stack with values := value :: stack.values } := by
  simp only [push, bind_eq_ok, ensureRoom_one_eq_ok, pure_eq_ok, exists_const]

theorem peek_eq_ok : stack.peek depth = .ok value ↔ stack.values[depth]? = some value := by
  unfold peek
  split <;> simp_all

theorem top_eq_ok :
    stack.top count = .ok values ↔
      count ≤ stack.size ∧ values = (stack.values.take count).reverse := by
  simp only [top, bind_eq_ok, ensureDepth_eq_ok, pure_eq_ok, exists_const]

theorem dropTop_eq_ok :
    stack.dropTop count = .ok result ↔
      count ≤ stack.size ∧ result = { stack with values := stack.values.drop count } := by
  simp only [dropTop, bind_eq_ok, ensureDepth_eq_ok, pure_eq_ok, exists_const]

/-- Only a replacement of no values needs room. -/
theorem replaceTop_eq_ok :
    stack.replaceTop count value = .ok result ↔
      count ≤ stack.size ∧ (count = 0 → stack.size < stack.limit) ∧
        result = { stack with values := value :: stack.values.drop count } := by
  simp only [replaceTop, bind_eq_ok, ensureDepth_eq_ok, exists_const]
  split
  · rename_i noValues
    simp only [bind_eq_ok, ensureRoom_one_eq_ok, pure_eq_ok, exists_const, noValues, true_implies]
  · rename_i someValues
    simp only [pure_eq_ok, someValues, false_implies, true_and]

theorem pick_eq_ok :
    stack.pick depth = .ok result ↔
      ∃ value, stack.values[depth]? = some value ∧ stack.size < stack.limit ∧
        result = { stack with values := value :: stack.values } := by
  simp only [pick, bind_eq_ok, peek_eq_ok, push_eq_ok]

theorem dup_eq_ok :
    stack.dup = .ok result ↔
      ∃ value, stack.values[0]? = some value ∧ stack.size < stack.limit ∧
        result = { stack with values := value :: stack.values } := by
  simp only [dup, pick_eq_ok]

theorem swap_eq_ok :
    stack.swap = .ok result ↔
      ∃ first second rest, stack.values = first :: second :: rest ∧
        result = { stack with values := second :: first :: rest } := by
  unfold swap
  split
  · rename_i first second rest shape
    constructor
    · intro swapped
      cases swapped
      exact ⟨first, second, rest, shape, rfl⟩
    · rintro ⟨_, _, _, same, rfl⟩
      rw [shape] at same
      cases same
      rfl
  · rename_i short
    constructor
    · intro impossible
      cases impossible
    · rintro ⟨first, second, rest, shape, _⟩
      exact absurd shape (short first second rest)

/-! ### Errors -/

section Errors

variable {error : RuntimeError}

theorem ensureRoom_one_eq_error :
    stack.ensureRoom 1 = .error error ↔
      stack.limit ≤ stack.size ∧ error = .stackOverflow stack.limit := by
  have full : stack.limit - stack.size < 1 ↔ stack.limit ≤ stack.size := by omega
  simp only [ensureRoom, ite_error_eq_error, full, reduceCtorEq, and_false, or_false]
  exact and_congr_right fun _ => eq_comm

theorem ensureDepth_eq_error :
    stack.ensureDepth count = .error error ↔
      stack.size < count ∧ error = .stackUnderflow count stack.size := by
  simp only [ensureDepth, ite_error_eq_error, reduceCtorEq, and_false, or_false]
  exact and_congr_right fun _ => eq_comm

theorem push_eq_error :
    stack.push value = .error error ↔
      stack.limit ≤ stack.size ∧ error = .stackOverflow stack.limit := by
  simp only [push, bind_eq_error, ensureRoom_one_eq_error, pure_ne_error, and_false, exists_false,
    or_false]

theorem peek_eq_error :
    stack.peek depth = .error error ↔
      stack.size ≤ depth ∧ error = .stackUnderflow (depth + 1) stack.size := by
  unfold peek
  cases found : stack.values[depth]? with
  | none =>
    have short : stack.size ≤ depth := List.getElem?_eq_none_iff.1 found
    simp [short, eq_comm]
  | some value =>
    have deep : depth < stack.size := (List.getElem?_eq_some_iff.1 found).1
    have notShort : ¬stack.size ≤ depth := by omega
    simp [notShort]

theorem top_eq_error :
    stack.top count = .error error ↔
      stack.size < count ∧ error = .stackUnderflow count stack.size := by
  simp only [top, bind_eq_error, ensureDepth_eq_error, pure_ne_error, and_false, exists_false,
    or_false]

theorem dropTop_eq_error :
    stack.dropTop count = .error error ↔
      stack.size < count ∧ error = .stackUnderflow count stack.size := by
  simp only [dropTop, bind_eq_error, ensureDepth_eq_error, pure_ne_error, and_false, exists_false,
    or_false]

/-- A replacement of some values needs no room, so that it fails for want of values only. -/
theorem replaceTop_succ_eq_error :
    stack.replaceTop (count + 1) value = .error error ↔
      stack.size < count + 1 ∧ error = .stackUnderflow (count + 1) stack.size := by
  simp only [replaceTop, bind_eq_error, ensureDepth_eq_error, Nat.add_one_ne_zero, if_false,
    pure_ne_error, and_false, exists_false, or_false]

/-- Lacking values are reported before lacking room. -/
theorem pick_eq_error :
    stack.pick depth = .error error ↔
      stack.size ≤ depth ∧ error = .stackUnderflow (depth + 1) stack.size ∨
        depth < stack.size ∧ stack.limit ≤ stack.size ∧ error = .stackOverflow stack.limit := by
  have found_iff : (∃ value, stack.values[depth]? = some value) ↔ depth < stack.size := by
    rw [← Option.isSome_iff_exists, isSome_getElem?]
    rfl
  simp only [pick, bind_eq_error, peek_eq_error, peek_eq_ok, push_eq_error, exists_and_right,
    found_iff]

theorem dup_eq_error :
    stack.dup = .error error ↔
      stack.size < 1 ∧ error = .stackUnderflow 1 stack.size ∨
        0 < stack.size ∧ stack.limit ≤ stack.size ∧ error = .stackOverflow stack.limit := by
  simp only [dup, pick_eq_error, Nat.lt_one_iff, Nat.le_zero]

theorem swap_eq_error :
    stack.swap = .error error ↔ stack.size < 2 ∧ error = .stackUnderflow 2 stack.size := by
  rcases stack with ⟨limit, values⟩
  match values with
  | [] | [_] => simp [swap, size, eq_comm]
  | first :: second :: rest =>
    have enough : ¬rest.length + 1 + 1 < 2 := by omega
    simp [swap, size, enough]

end Errors

end CapabilityMachine.Stack
