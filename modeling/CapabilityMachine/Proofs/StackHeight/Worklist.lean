import CapabilityMachine.Program.StackHeight
/-!
# Stability of the bounds

The worklist ends with bounds that are stable: what an instruction passes on from its bound is
covered by the bounds of its successors. While the worklist is worked off, this holds of every
instruction that is not pending, and a height that is covered stays covered, as bounds only get
lower.
-/

namespace CapabilityMachine.StackHeight

variable {code : Array Instruction} {known : Bounds} {progress : Progress}
  {instruction : Instruction} {index height : Nat}

/-- The bound at the index is at most the given height. An index behind the end of the code has no
bound and is covered. -/
def Covers (bounds : Bounds) (index height : Nat) : Prop :=
  ∀ bound, bounds[index]? = some bound → ∃ lower ≤ height, bound = some lower

/-- The successors of an instruction have bounds for what it passes on from its own bound. -/
def StableAt (code : Array Instruction) (bounds : Bounds) (index : Nat) : Prop :=
  ∀ instruction height, code[index]? = some instruction → bounds[index]? = some (some height) →
    ∀ edge ∈ successors instruction index height, Covers bounds edge.1 edge.2

theorem Covers.mono {higher : Nat} (covered : Covers known index height)
    (within : height ≤ higher) : Covers known index higher := by
  intro bound isBound
  rcases covered bound isBound with ⟨lower, least, rfl⟩
  exact ⟨lower, Nat.le_trans least within, rfl⟩

open Progress

/-- All instructions whose bound has been passed on are stable. -/
def Progress.Settled (code : Array Instruction) (progress : Progress) : Prop :=
  ∀ index, index ∉ progress.pending → StableAt code progress.bounds index

/-- Reaching an index has no effect if the height there is covered already. Otherwise it becomes the
bound, and is lower than any bound that was there. -/
theorem Progress.reach_cases (progress : Progress) (index height : Nat) :
    Covers progress.bounds index height ∧ progress.reach index height = progress ∨
      ∃ bound, progress.bounds[index]? = some bound ∧ (∀ old, bound = some old → height < old) ∧
        progress.reach index height =
          ⟨progress.bounds.setIfInBounds index (some height), progress.pending ++ [index]⟩ := by
  rw [reach]
  cases present : progress.bounds[index]? with
  | none =>
    left
    refine ⟨?_, rfl⟩
    intro bound isBound
    rw [present] at isBound
    cases isBound
  | some bound =>
    dsimp only
    cases bound with
    | none =>
      right
      refine ⟨none, rfl, ?_, ?_⟩
      · rintro _ ⟨⟩
      · exact if_neg (by simp)
    | some old =>
      by_cases covered : old ≤ height
      · left
        refine ⟨?_, if_pos (by simp [Nat.min_eq_right covered])⟩
        intro bound isBound
        rw [present] at isBound
        cases isBound
        exact ⟨old, covered, rfl⟩
      · right
        have lower : height < old := by omega
        refine ⟨some old, rfl, ?_, ?_⟩
        · rintro _ ⟨⟩
          exact lower
        · have minimum : min height old = height := by omega
          simp only [Option.elim_some, minimum, Option.some.injEq]
          rw [if_neg (by omega)]

theorem Progress.covers_reach (progress : Progress) (index height : Nat) :
    Covers (progress.reach index height).bounds index height := by
  rcases progress.reach_cases index height with ⟨covered, same⟩ | ⟨bound, present, _, changed⟩
  · rw [same]
    exact covered
  · rw [changed]
    intro found isFound
    have inside : index < progress.bounds.size := (Array.getElem?_eq_some_iff.1 present).1
    rw [Array.getElem?_setIfInBounds_self_of_lt inside] at isFound
    cases isFound
    exact ⟨height, Nat.le_refl _, rfl⟩

theorem Covers.reach {other otherHeight : Nat} (covered : Covers progress.bounds index height) :
    Covers (progress.reach other otherHeight).bounds index height := by
  rcases progress.reach_cases other otherHeight with ⟨_, same⟩ | ⟨bound, present, lower, changed⟩
  · rw [same]
    exact covered
  · rw [changed]
    intro found isFound
    by_cases isOther : other = index
    · subst isOther
      rcases covered bound present with ⟨old, within, rfl⟩
      have := lower old rfl
      have inside : other < progress.bounds.size := (Array.getElem?_eq_some_iff.1 present).1
      rw [Array.getElem?_setIfInBounds_self_of_lt inside] at isFound
      cases isFound
      exact ⟨otherHeight, by omega, rfl⟩
    · rw [Array.getElem?_setIfInBounds_ne isOther] at isFound
      exact covered found isFound

/-- What is not pending after an index was reached was not pending before, and its bound is as it
was. -/
theorem Progress.of_not_mem_reach {other otherHeight : Nat}
    (idle : index ∉ (progress.reach other otherHeight).pending) :
    index ∉ progress.pending ∧
      (progress.reach other otherHeight).bounds[index]? = progress.bounds[index]? := by
  rcases progress.reach_cases other otherHeight with ⟨_, same⟩ | ⟨bound, _, _, changed⟩
  · rw [same] at idle ⊢
    exact ⟨idle, rfl⟩
  · rw [changed] at idle ⊢
    simp only [List.mem_append, List.mem_singleton, not_or] at idle
    exact ⟨idle.1, Array.getElem?_setIfInBounds_ne (Ne.symm idle.2)⟩

/-- Each of the indices is reached with its height. -/
def Progress.reachAll (progress : Progress) (edges : List (Nat × Nat)) : Progress :=
  edges.foldl (fun progress edge => progress.reach edge.1 edge.2) progress

theorem Progress.reachAll_cons (progress : Progress) (edge : Nat × Nat) (edges : List (Nat × Nat)) :
    progress.reachAll (edge :: edges) = (progress.reach edge.1 edge.2).reachAll edges :=
  rfl

section ReachAll

variable {edges : List (Nat × Nat)}

theorem Covers.reachAll (covered : Covers progress.bounds index height) :
    Covers (progress.reachAll edges).bounds index height := by
  induction edges generalizing progress with
  | nil => exact covered
  | cons edge edges ih => exact ih (Covers.reach covered)

theorem Progress.covers_reachAll {edge : Nat × Nat} (member : edge ∈ edges) :
    Covers (progress.reachAll edges).bounds edge.1 edge.2 := by
  induction edges generalizing progress with
  | nil => cases member
  | cons first edges ih =>
    rw [reachAll_cons]
    rcases List.mem_cons.1 member with rfl | later
    · exact Covers.reachAll (progress.covers_reach edge.1 edge.2)
    · exact ih later

theorem Progress.of_not_mem_reachAll (idle : index ∉ (progress.reachAll edges).pending) :
    index ∉ progress.pending ∧
      (progress.reachAll edges).bounds[index]? = progress.bounds[index]? := by
  induction edges generalizing progress with
  | nil => exact ⟨idle, rfl⟩
  | cons edge edges ih =>
    rcases ih idle with ⟨idleBefore, unchanged⟩
    rcases of_not_mem_reach idleBefore with ⟨idleFirst, unchangedFirst⟩
    exact ⟨idleFirst, unchanged.trans unchangedFirst⟩

theorem StableAt.reachAll (stable : StableAt code progress.bounds index)
    (unchanged : (progress.reachAll edges).bounds[index]? = progress.bounds[index]?) :
    StableAt code (progress.reachAll edges).bounds index := by
  intro instruction height present bounded edge member
  rw [unchanged] at bounded
  exact Covers.reachAll (stable instruction height present bounded edge member)

theorem Progress.Settled.reachAll (settled : progress.Settled code) :
    (progress.reachAll edges).Settled code := by
  intro index idle
  rcases of_not_mem_reachAll idle with ⟨idleBefore, unchanged⟩
  exact StableAt.reachAll (settled index idleBefore) unchanged

end ReachAll

theorem Progress.passOn_eq (progress : Progress) (instruction : Instruction) (index height : Nat) :
    progress.passOn instruction index height =
      progress.reachAll (successors instruction index height) :=
  rfl

/-- Passing on the bound of the first pending instruction settles that instruction. -/
theorem Progress.Settled.passOn {pending : List Nat}
    (settled : Settled code ⟨known, index :: pending⟩)
    (present : code[index]? = some instruction) (bounded : known[index]? = some (some height)) :
    Settled code (passOn ⟨known, pending⟩ instruction index height) := by
  rw [passOn_eq]
  intro other idle
  rcases of_not_mem_reachAll idle with ⟨idleBefore, unchanged⟩
  by_cases isFirst : other = index
  · subst isFirst
    intro otherInstruction otherHeight otherPresent otherBounded edge member
    rw [unchanged] at otherBounded
    cases present.symm.trans otherPresent
    cases bounded.symm.trans otherBounded
    exact covers_reachAll member
  · have notPending : other ∉ index :: pending := by simp [isFirst, idleBefore]
    have stable : StableAt code (Progress.mk known pending).bounds other := settled other notPending
    exact stable.reachAll unchanged

theorem Progress.Settled.skip {pending : List Nat}
    (settled : Settled code ⟨known, index :: pending⟩)
    (nothing : ∀ instruction height, code[index]? = some instruction →
      known[index]? ≠ some (some height)) :
    Settled code ⟨known, pending⟩ := by
  intro other idle
  by_cases isFirst : other = index
  · subst isFirst
    intro instruction height present bounded
    exact absurd bounded (nothing instruction height present)
  · exact settled other (by simpa [isFirst] using idle)

theorem Covers.settle (covered : Covers progress.bounds index height) :
    Covers (Progress.settle code progress) index height := by
  fun_induction Progress.settle code progress with
  | case1 known => exact covered
  | case2 known first pending instruction height bounded present ih =>
    exact ih (Covers.reachAll covered)
  | case3 known first pending nothing ih => exact ih covered

theorem Progress.Settled.stableAt_settle (settled : progress.Settled code) (index : Nat) :
    StableAt code (settle code progress) index := by
  fun_induction Progress.settle code progress with
  | case1 known => exact settled index List.not_mem_nil
  | case2 known first pending instruction height bounded present ih =>
    exact ih (settled.passOn present bounded)
  | case3 known first pending nothing ih =>
    apply ih
    apply settled.skip
    intro instruction height present bounded
    exact nothing instruction height present bounded

@[simp]
theorem Progress.size_bounds_reach (progress : Progress) (index height : Nat) :
    (progress.reach index height).bounds.size = progress.bounds.size := by
  rcases progress.reach_cases index height with ⟨_, same⟩ | ⟨bound, _, _, changed⟩
  · rw [same]
  · rw [changed]
    exact Array.size_setIfInBounds

theorem Progress.size_bounds_reachAll (progress : Progress) (edges : List (Nat × Nat)) :
    (progress.reachAll edges).bounds.size = progress.bounds.size := by
  induction edges generalizing progress with
  | nil => rfl
  | cons edge edges ih => rw [reachAll_cons, ih, size_bounds_reach]

theorem Progress.size_settle (code : Array Instruction) (progress : Progress) :
    (progress.settle code).size = progress.bounds.size := by
  fun_induction Progress.settle code progress with
  | case1 known => rfl
  | case2 known first pending instruction height bounded present ih =>
    rw [ih, passOn_eq, size_bounds_reachAll]
  | case3 known first pending nothing ih => exact ih

/-- Before the first instruction is reached nothing is pending, and there are no bounds. -/
theorem settled_unknown (code : Array Instruction) :
    Settled code ⟨Array.replicate code.size none, []⟩ := by
  intro index _ instruction height _ bounded
  rw [Array.getElem?_replicate] at bounded
  split at bounded <;> cases bounded

theorem covers_bounds_entry (code : Array Instruction) (entry : Nat) :
    Covers (bounds code entry) entry 0 := by
  rw [StackHeight.bounds]
  exact (covers_reach _ entry 0).settle

theorem stableAt_bounds (code : Array Instruction) (entry index : Nat) :
    StableAt code (bounds code entry) index := by
  rw [StackHeight.bounds]
  have settled :
      Settled code (Progress.reachAll ⟨Array.replicate code.size none, []⟩ [(entry, 0)]) :=
    (settled_unknown code).reachAll
  exact settled.stableAt_settle index

theorem size_bounds (code : Array Instruction) (entry : Nat) :
    (bounds code entry).size = code.size := by
  rw [StackHeight.bounds, size_settle, size_bounds_reach, Array.size_replicate]

end CapabilityMachine.StackHeight
