import CapabilityMachine.Instruction.Basic
/-!
# Provable stack heights

A lower bound on the number of stack values at each instruction, whichever way control got there.
The entry point starts with an empty stack. Every instruction passes on the height that its stack
effect leaves, supposing that it ran at all, and where several ways meet, the least height counts.
A callee may consume values of its caller, so nothing is known about the stack at the instruction
behind a call. An instruction that control cannot reach has no bound.

`bounds` computes the bounds by a worklist: heights that a way lowers are passed on to the
successors until nothing changes. It ends because every change either gives a bound to an
instruction that had none or makes a bound smaller.
-/

namespace CapabilityMachine.StackHeight

/-- The height behind an instruction that runs at the given height. If the height is below what the
instruction takes, then more values are there than were proven. -/
def after (instruction : Instruction) (height : Nat) : Nat :=
  let effect := instruction.stackEffect
  max height effect.pops - effect.pops + effect.pushes

/-- Where control may go from the instruction at the index, and with which height. -/
def successors (instruction : Instruction) (index height : Nat) : List (Nat × Nat) :=
  match instruction with
  | .call target => [(target, height), (index + 1, 0)]
  | .jump target => [(target, after instruction height)]
  | .branch _ target =>
    [(target, after instruction height), (index + 1, after instruction height)]
  | .ret | .halt => []
  | _ => [(index + 1, after instruction height)]

/-- The bounds found so far, one for each instruction. -/
abbrev Bounds := Array (Option Nat)

/-- Bounds under construction, and the instructions whose bound has not been passed on yet. -/
structure Progress where
  bounds : Bounds
  pending : List Nat

namespace Progress

/-- Takes note that control may reach an index with the given height. An index behind the end of the
code is none of an instruction and has no bound. -/
def reach (progress : Progress) (index height : Nat) : Progress :=
  match progress.bounds[index]? with
  | none => progress
  | some bound =>
    let lowered := bound.elim height (min height)
    if bound = some lowered then
      progress
    else
      { bounds := progress.bounds.setIfInBounds index (some lowered)
        pending := progress.pending ++ [index] }

/-- Passes the height before an instruction on to all that may be executed after it. -/
def passOn (progress : Progress) (instruction : Instruction) (index height : Nat) : Progress :=
  (successors instruction index height).foldl
    (fun progress edge => progress.reach edge.1 edge.2) progress

/-- The sum of a weight over a list of bounds. -/
def weigh (weight : Option Nat → Nat) : List (Option Nat) → Nat
  | [] => 0
  | bound :: bounds => weight bound + weigh weight bounds

/-- The number of instructions without a bound. -/
def missing (progress : Progress) : Nat :=
  weigh (fun bound => if bound.isNone then 1 else 0) progress.bounds.toList

/-- The sum of all bounds. -/
def total (progress : Progress) : Nat :=
  weigh (·.getD 0) progress.bounds.toList

/-- The first state has fewer instructions without a bound than the second, or as many and smaller
bounds. -/
def Tighter (first second : Progress) : Prop :=
  first.missing < second.missing
    ∨ first.missing = second.missing ∧ first.total < second.total

theorem Tighter.trans {first second third : Progress} (front : first.Tighter second)
    (back : second.Tighter third) : first.Tighter third := by
  unfold Tighter at *
  omega

theorem weigh_set (weight : Option Nat → Nat) (bounds : List (Option Nat)) (index : Nat)
    (found bound : Option Nat) (present : bounds[index]? = some bound) :
    weigh weight (bounds.set index found) + weight bound
      = weigh weight bounds + weight found := by
  induction bounds generalizing index with
  | nil => simp at present
  | cons first rest ih =>
    cases index with
    | zero =>
      simp at present
      simp [present, weigh]
      omega
    | succ index =>
      have := ih index (by simpa using present)
      simp only [List.set_cons_succ, weigh]
      omega

/-- Noting that control may reach an index changes nothing or tightens the bounds. -/
theorem reach_eq_or_tighter (progress : Progress) (index height : Nat) :
    progress.reach index height = progress ∨ (progress.reach index height).Tighter progress := by
  unfold reach
  split
  · exact .inl rfl
  · rename_i bound present
    have presentInList : progress.bounds.toList[index]? = some bound := by simpa using present
    dsimp only
    split
    · exact .inl rfl
    · rename_i changed
      right
      cases bound with
      | none =>
        have sums := weigh_set (fun bound => if bound.isNone then 1 else 0) progress.bounds.toList
          index (some height) none presentInList
        simp [Tighter, missing] at sums ⊢
        omega
      | some bound =>
        have lower : min height bound < bound := by
          simp at changed
          omega
        have sums := weigh_set (fun bound => if bound.isNone then 1 else 0) progress.bounds.toList
          index (some (min height bound)) (some bound) presentInList
        have totals := weigh_set (·.getD 0) progress.bounds.toList
          index (some (min height bound)) (some bound) presentInList
        simp [Tighter, missing, total] at sums totals ⊢
        omega

/-- Passing on a height changes nothing or tightens the bounds. -/
theorem passOn_eq_or_tighter (progress : Progress) (instruction : Instruction)
    (index height : Nat) :
    progress.passOn instruction index height = progress
      ∨ (progress.passOn instruction index height).Tighter progress := by
  unfold passOn
  induction successors instruction index height generalizing progress with
  | nil => exact .inl rfl
  | cons edge edges ih =>
    rw [List.foldl_cons]
    rcases progress.reach_eq_or_tighter edge.1 edge.2 with unchanged | tighter
    · rw [unchanged]
      exact ih progress
    · rcases ih (progress.reach edge.1 edge.2) with same | tighterStill
      · rw [same]
        exact .inr tighter
      · exact .inr (tighterStill.trans tighter)

/-- Passes heights on until no change is pending. -/
def settle (code : Array Instruction) (progress : Progress) : Bounds :=
  match progress with
  | ⟨bounds, []⟩ => bounds
  | ⟨bounds, index :: pending⟩ =>
    match code[index]?, bounds[index]? with
    | some instruction, some (some height) =>
      settle code (passOn ⟨bounds, pending⟩ instruction index height)
    | _, _ => settle code ⟨bounds, pending⟩
termination_by (progress.missing, progress.total, progress.pending.length)
decreasing_by
  · rcases passOn_eq_or_tighter ⟨bounds, pending⟩ instruction index height with same | tighter
    · rw [same]
      simp [Prod.lex_def, missing, total]
    · simp [Tighter, Prod.lex_def, missing, total] at tighter ⊢
      omega
  · simp [Prod.lex_def, missing, total]

end Progress

/-- The bound on the stack height at each instruction, or `none` where control cannot get from the
entry point. -/
def bounds (code : Array Instruction) (entry : Nat) : Bounds :=
  let unknown : Progress := ⟨Array.replicate code.size none, []⟩
  (unknown.reach entry 0).settle code

end CapabilityMachine.StackHeight
