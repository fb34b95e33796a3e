import CapabilityMachine.Proofs.Program.Loading
import CapabilityMachine.Proofs.StackHeight.Worklist
import Mathlib
/-!
# The bounds as least heights

The bound of an instruction is the least height with which any path of control arrives there, and an
instruction without a bound is one that no path leads to. On the one hand a bound only ever comes
from passing another one on along an edge, so that there is a path behind it. On the other hand the
bounds are stable when the worklist is done, and an edge leads from a lower height to one that is
not higher, so that the bounds stay below the heights of every path, however often it goes around a
loop. In what order the worklist is worked off does not matter for either.
-/

namespace CapabilityMachine.StackHeight

variable {code : Array Instruction} {entry index height next passed : Nat}
  {instruction : Instruction} {known : Bounds} {progress : Progress}

/-! ### Paths -/

/-- Control may go from the first index, at the first height, to the second index, at the second
height. An index behind the end of the code is none of an instruction, and no edge leads there. -/
inductive Edge (code : Array Instruction) : Nat → Nat → Nat → Nat → Prop
  | next {index height : Nat} {instruction : Instruction}
      (fetched : code[index]? = some instruction) (flows : instruction.endsFlow = false)
      (noCall : ∀ target, instruction ≠ .call target) (inside : index + 1 < code.size) :
      Edge code index height (index + 1)
        (max height instruction.stackEffect.pops - instruction.stackEffect.pops
          + instruction.stackEffect.pushes)
  | jump {index height target : Nat} {instruction : Instruction}
      (fetched : code[index]? = some instruction)
      (jumps : instruction = .jump target ∨ ∃ condition, instruction = .branch condition target)
      (inside : target < code.size) :
      Edge code index height target
        (max height instruction.stackEffect.pops - instruction.stackEffect.pops
          + instruction.stackEffect.pushes)
  | call {index height target : Nat} (fetched : code[index]? = some (.call target))
      (inside : target < code.size) : Edge code index height target height
  /-- Behind a call nothing is known of the stack that the callee leaves. -/
  | resume {index height target : Nat} (fetched : code[index]? = some (.call target))
      (inside : index + 1 < code.size) : Edge code index height (index + 1) 0

/-- A path of control leads from the entry, where it starts with an empty stack, to the index, where
it arrives with the height. -/
inductive Path (code : Array Instruction) (entry : Nat) : Nat → Nat → Prop
  | start : Path code entry entry 0
  | step {index height next passed : Nat} (path : Path code entry index height)
      (edge : Edge code index height next passed) : Path code entry next passed

theorem edge_iff :
    Edge code index height next passed ↔
      ∃ instruction, code[index]? = some instruction ∧
        (next, passed) ∈ successors instruction index height ∧ next < code.size := by
  constructor
  · intro edge
    cases edge with
    | @next instruction fetched flows noCall inside =>
      refine ⟨instruction, fetched, ?_, inside⟩
      cases instruction
      case call target => exact absurd rfl (noCall target)
      case jump | ret | halt => cases flows
      all_goals simp [successors, after]
    | jump fetched jumps inside =>
      refine ⟨_, fetched, ?_, inside⟩
      rcases jumps with rfl | ⟨condition, rfl⟩
      · exact List.mem_cons_self
      · exact List.mem_cons_self
    | call fetched inside => exact ⟨_, fetched, List.mem_cons_self, inside⟩
    | resume fetched inside =>
      exact ⟨_, fetched, List.mem_cons_of_mem _ List.mem_cons_self, inside⟩
  · rintro ⟨instruction, fetched, member, inside⟩
    cases instruction
    case call target =>
      simp only [successors, List.mem_cons, Prod.mk.injEq, List.not_mem_nil, or_false] at member
      rcases member with ⟨rfl, rfl⟩ | ⟨rfl, rfl⟩
      · exact .call fetched inside
      · exact .resume fetched inside
    case jump target =>
      simp only [successors, List.mem_singleton, Prod.mk.injEq] at member
      rcases member with ⟨rfl, rfl⟩
      exact .jump fetched (Or.inl rfl) inside
    case branch condition target =>
      simp only [successors, List.mem_cons, Prod.mk.injEq, List.not_mem_nil, or_false] at member
      rcases member with ⟨rfl, rfl⟩ | ⟨rfl, rfl⟩
      · exact .jump fetched (Or.inr ⟨condition, rfl⟩) inside
      · exact .next fetched rfl nofun inside
    case ret | halt => cases member
    all_goals
      simp only [successors, List.mem_singleton, Prod.mk.injEq] at member
      rcases member with ⟨rfl, rfl⟩
      exact .next fetched rfl nofun inside

/-- From a lower height an edge leads to one that is not higher. -/
theorem Edge.mono {lower : Nat} (edge : Edge code index height next passed)
    (within : lower ≤ height) : ∃ least ≤ passed, Edge code index lower next least := by
  cases edge with
  | next fetched flows noCall inside =>
    exact ⟨_, by omega, .next fetched flows noCall inside⟩
  | jump fetched jumps inside => exact ⟨_, by omega, .jump fetched jumps inside⟩
  | call fetched inside => exact ⟨lower, within, .call fetched inside⟩
  | resume fetched inside => exact ⟨0, Nat.le_refl _, .resume fetched inside⟩

/-- The bounds are not above the height of any path. -/
theorem Path.covers (path : Path code entry index height) :
    Covers (bounds code entry) index height := by
  induction path with
  | start => exact covers_bounds_entry code entry
  | @step index height next passed _ edge ih =>
    rcases edge_iff.1 edge with ⟨instruction, fetched, _, _⟩
    have inside : index < (bounds code entry).size := by
      rw [size_bounds]
      exact (Array.getElem?_eq_some_iff.1 fetched).1
    rcases ih _ (Array.getElem?_eq_getElem inside) with ⟨lower, within, isBound⟩
    rcases edge.mono within with ⟨least, least_le, lowerEdge⟩
    rcases edge_iff.1 lowerEdge with ⟨_, sameFetched, member, _⟩
    cases fetched.symm.trans sameFetched
    have bounded : (bounds code entry)[index]? = some (some lower) := by
      rw [Array.getElem?_eq_getElem inside, isBound]
    have stable := stableAt_bounds code entry index instruction lower fetched bounded _ member
    exact stable.mono least_le

/-! ### Bounds that are attained -/

/-- There is a path behind every bound. -/
def Attained (code : Array Instruction) (entry : Nat) (known : Bounds) : Prop :=
  known.size = code.size ∧
    ∀ index height, known[index]? = some (some height) → Path code entry index height

theorem Attained.reach (attained : Attained code entry progress.bounds)
    (path : index < code.size → Path code entry index height) :
    Attained code entry (progress.reach index height).bounds := by
  rcases attained with ⟨size_eq, paths⟩
  refine ⟨(progress.size_bounds_reach index height).trans size_eq, ?_⟩
  rcases progress.reach_cases index height with ⟨_, same⟩ | ⟨bound, present, _, changed⟩
  · rw [same]
    exact paths
  · rw [changed]
    intro other otherHeight bounded
    have inside : index < progress.bounds.size := (Array.getElem?_eq_some_iff.1 present).1
    by_cases isOther : index = other
    · subst isOther
      rw [Array.getElem?_setIfInBounds_self_of_lt inside] at bounded
      cases bounded
      exact path (size_eq ▸ inside)
    · rw [Array.getElem?_setIfInBounds_ne isOther] at bounded
      exact paths other otherHeight bounded

theorem Attained.reachAll {edges : List (Nat × Nat)}
    (attained : Attained code entry progress.bounds)
    (paths : ∀ edge ∈ edges, edge.1 < code.size → Path code entry edge.1 edge.2) :
    Attained code entry (progress.reachAll edges).bounds := by
  induction edges generalizing progress with
  | nil => exact attained
  | cons edge edges ih =>
    rw [Progress.reachAll_cons]
    apply ih
    · exact attained.reach (paths edge List.mem_cons_self)
    · exact fun other member => paths other (List.mem_cons_of_mem _ member)

/-- To pass a bound on is to go on along the edges of its instruction. -/
theorem Attained.passOn {pending : List Nat} (attained : Attained code entry known)
    (fetched : code[index]? = some instruction) (bounded : known[index]? = some (some height)) :
    Attained code entry (Progress.passOn ⟨known, pending⟩ instruction index height).bounds := by
  rw [Progress.passOn_eq]
  change Attained code entry (Progress.bounds ⟨known, pending⟩) at attained
  apply attained.reachAll
  intro edge member inside
  exact .step (attained.2 index height bounded) (edge_iff.2 ⟨instruction, fetched, member, inside⟩)

theorem Attained.settle (attained : Attained code entry progress.bounds) :
    Attained code entry (progress.settle code) := by
  fun_induction Progress.settle code progress with
  | case1 known => exact attained
  | case2 known first pending instruction height bounded present ih =>
    exact ih (attained.passOn present bounded)
  | case3 known first pending nothing ih => exact ih attained

/-- What is known before the worklist is worked off: control starts at the entry, with an empty
stack. -/
def Progress.initial (code : Array Instruction) (entry : Nat) : Progress :=
  Progress.reach ⟨Array.replicate code.size none, []⟩ entry 0

theorem attained_bounds (code : Array Instruction) (entry : Nat) :
    Attained code entry (bounds code entry) := by
  change Attained code entry ((Progress.initial code entry).settle code)
  apply Attained.settle
  apply Attained.reach
  · refine ⟨Array.size_replicate, ?_⟩
    intro index height bounded
    rw [Array.getElem?_replicate] at bounded
    split at bounded <;> cases bounded
  · intro _
    exact .start

theorem getElem?_bounds_eq_some :
    (bounds code entry)[index]? = some (some height) ↔
      index < code.size ∧ IsLeast {height | Path code entry index height} height := by
  have attained := attained_bounds code entry
  constructor
  · intro bounded
    have inside : index < (bounds code entry).size := (Array.getElem?_eq_some_iff.1 bounded).1
    refine ⟨attained.1 ▸ inside, attained.2 index height bounded, ?_⟩
    intro other path
    rcases Path.covers path _ bounded with ⟨lower, least, isBound⟩
    cases isBound
    exact least
  · rintro ⟨inside, path, least⟩
    have present : index < (bounds code entry).size := attained.1 ▸ inside
    rcases Path.covers path _ (Array.getElem?_eq_getElem present) with ⟨lower, within, isBound⟩
    have bounded : (bounds code entry)[index]? = some (some lower) := by
      rw [Array.getElem?_eq_getElem present, isBound]
    rw [bounded, Nat.le_antisymm within (least (attained.2 index lower bounded))]

theorem getElem?_bounds_eq_none :
    (bounds code entry)[index]? = some none ↔
      index < code.size ∧ ¬∃ height, Path code entry index height := by
  have attained := attained_bounds code entry
  constructor
  · intro unbounded
    have inside : index < (bounds code entry).size := (Array.getElem?_eq_some_iff.1 unbounded).1
    refine ⟨attained.1 ▸ inside, ?_⟩
    rintro ⟨height, path⟩
    rcases path.covers _ unbounded with ⟨_, _, ⟨⟩⟩
  · rintro ⟨inside, unreached⟩
    have present : index < (bounds code entry).size := attained.1 ▸ inside
    rw [Array.getElem?_eq_getElem present]
    cases bounded : (bounds code entry)[index] with
    | none => rfl
    | some height =>
      refine absurd ⟨height, attained.2 index height ?_⟩ unreached
      rw [Array.getElem?_eq_getElem present, bounded]

/-! ### The end of the worklist -/

/-- One round of the worklist: the height of the first pending instruction is passed on. -/
def Progress.round (code : Array Instruction) (progress : Progress) : Progress :=
  match progress with
  | ⟨bounds, []⟩ => ⟨bounds, []⟩
  | ⟨bounds, index :: pending⟩ =>
    match code[index]?, bounds[index]? with
    | some instruction, some (some height) => passOn ⟨bounds, pending⟩ instruction index height
    | _, _ => ⟨bounds, pending⟩

/-- After some number of rounds nothing is pending any more. -/
theorem Progress.exists_rounds (code : Array Instruction) (progress : Progress) :
    ∃ count, (round code)^[count] progress = ⟨progress.settle code, []⟩ := by
  fun_induction Progress.settle code progress with
  | case1 known => exact ⟨0, rfl⟩
  | case2 known first pending instruction height bounded present ih =>
    rcases ih with ⟨count, done⟩
    refine ⟨count + 1, ?_⟩
    rw [Function.iterate_succ_apply, ← done]
    simp only [round, present, bounded]
  | case3 known first pending nothing ih =>
    rcases ih with ⟨count, done⟩
    refine ⟨count + 1, ?_⟩
    rw [Function.iterate_succ_apply, ← done, round]
    split
    · rename_i instruction height present bounded
      exact absurd bounded (nothing instruction height present)
    · rfl

/-! ### Depths -/

/-- The instruction at the index is a `pick` that no path leads to, or that some path leads to with
too few values on the stack. -/
def Doubtful (code : Array Instruction) (entry index : Nat) (depth : UInt16) : Prop :=
  code[index]? = some (.pick depth) ∧
    ((¬∃ height, Path code entry index height) ∨
      ∃ height ≤ depth.toNat, Path code entry index height)

theorem doubtful_iff {depth : UInt16} :
    Doubtful code entry index depth ↔
      code[index]? = some (.pick depth) ∧
        ((bounds code entry)[index]?.join).getD 0 ≤ depth.toNat := by
  apply and_congr_right
  intro fetched
  have inside : index < code.size := (Array.getElem?_eq_some_iff.1 fetched).1
  have present : index < (bounds code entry).size := (attained_bounds code entry).1 ▸ inside
  have isBound := Array.getElem?_eq_getElem present
  cases bound : (bounds code entry)[index] with
  | none =>
    rw [bound] at isBound
    simp [(getElem?_bounds_eq_none.1 isBound).2, isBound]
  | some least =>
    rw [bound] at isBound
    rcases (getElem?_bounds_eq_some.1 isBound).2 with ⟨path, le⟩
    simp only [isBound, Option.join_some, Option.getD_some]
    constructor
    · rintro (unreached | ⟨height, shallow, other⟩)
      · exact absurd ⟨least, path⟩ unreached
      · exact Nat.le_trans (le other) shallow
    · intro shallow
      exact Or.inr ⟨least, shallow, path⟩

theorem withTarget_eq_pick {depth : UInt16} {target : Nat} :
    instruction.withTarget target = .pick depth ↔ instruction = .pick depth := by
  cases instruction <;> simp [Instruction.withTarget]

/-- The instructions in their places are those of the code, but for their targets. -/
def Lays (placed : List PlacedInstruction) (code : Array Instruction) : Prop :=
  placed.map (·.instruction.withTarget 0) = code.toList.map (·.withTarget 0)

theorem Lays.getElem?_eq_pick {placed : List PlacedInstruction} (lays : Lays placed code)
    {depth : UInt16} :
    (∃ position, placed[index]? = some ⟨position, .pick depth⟩) ↔
      code[index]? = some (.pick depth) := by
  have same := congrArg (fun listed => listed[index]? = some (Instruction.pick depth)) lays
  simp only [List.getElem?_map, Option.map_eq_some_iff, withTarget_eq_pick, eq_iff_iff] at same
  rw [← Array.getElem?_toList]
  constructor
  · rintro ⟨position, present⟩
    rcases same.1 ⟨_, present, rfl⟩ with ⟨_, fetched, rfl⟩
    exact fetched
  · intro fetched
    rcases same.2 ⟨_, fetched, rfl⟩ with ⟨⟨position, _⟩, present, rfl⟩
    exact ⟨position, present⟩

theorem unproven?_eq_some {placed : PlacedInstruction} {error : LoadError} :
    Load.unproven? known placed index = some error ↔
      ∃ depth, placed.instruction = .pick depth ∧ (known[index]?.join).getD 0 ≤ depth.toNat ∧
        error = .unprovableStackDepth placed.offset depth ((known[index]?.join).getD 0) := by
  rw [Load.unproven?]
  split
  · rename_i depth isPick
    simp only [isPick, Instruction.requiredDepth, Nat.lt_add_one_iff, Instruction.pick.injEq,
      exists_eq_left', Option.ite_none_right_eq_some, Option.some.injEq, eq_comm (a := error)]
  · rename_i noPick
    simp only [reduceCtorEq, false_iff]
    rintro ⟨depth, isPick, _⟩
    exact noPick depth isPick

/-- The first doubtful `pick` is the one that is reported. -/
theorem rejectFirst_unproven?_eq_error_iff {placed : List PlacedInstruction}
    (lays : Lays placed code) {error : LoadError} :
    Load.rejectFirst (fun (placed, index) => Load.unproven? (bounds code entry) placed index)
        placed.zipIdx = .error error ↔
      ∃ index position depth, placed[index]? = some ⟨position, .pick depth⟩ ∧
        Doubtful code entry index depth ∧
        (∀ earlier < index, ∀ depth, ¬Doubtful code entry earlier depth) ∧
        error = .unprovableStackDepth position depth
          (((bounds code entry)[index]?.join).getD 0) := by
  have element_iff (index : Nat) (element : PlacedInstruction × Nat) :
      placed.zipIdx[index]? = some element ↔
        placed[index]? = some element.1 ∧ element.2 = index := by
    rcases element with ⟨found, position⟩
    simp only [List.getElem?_zipIdx, Nat.zero_add, Option.map_eq_some_iff, Prod.mk.injEq]
    constructor
    · rintro ⟨_, present, rfl, rfl⟩
      exact ⟨present, rfl⟩
    · rintro ⟨present, rfl⟩
      exact ⟨found, present, rfl, rfl⟩
  rw [Load.rejectFirst_eq_error_iff]
  simp only [element_iff, unproven?_eq_some, Prod.exists]
  constructor
  · rintro ⟨index, ⟨position, _⟩, _, ⟨present, rfl⟩, ⟨depth, rfl, shallow, rfl⟩, earlier⟩
    have fetched := lays.getElem?_eq_pick.1 ⟨position, present⟩
    refine ⟨_, position, depth, present, doubtful_iff.2 ⟨fetched, shallow⟩, ?_, rfl⟩
    intro other before otherDepth doubtful
    rcases doubtful_iff.1 doubtful with ⟨otherFetched, otherShallow⟩
    rcases lays.getElem?_eq_pick.2 otherFetched with ⟨otherPosition, otherPresent⟩
    have noProblem := earlier other before (_, other) ⟨otherPresent, rfl⟩
    have proven := Load.unproven?_eq_none.1 noProblem otherDepth rfl
    exact absurd otherShallow (Nat.not_le_of_lt proven)
  · rintro ⟨index, position, depth, present, doubtful, earlier, rfl⟩
    refine ⟨index, _, index, ⟨present, rfl⟩, ⟨depth, rfl, (doubtful_iff.1 doubtful).2, rfl⟩, ?_⟩
    rintro other before ⟨⟨otherPosition, _⟩, _⟩ ⟨otherPresent, rfl⟩
    apply Load.unproven?_eq_none.2
    rintro otherDepth rfl
    have otherFetched := lays.getElem?_eq_pick.1 ⟨_, otherPresent⟩
    by_contra shallow
    exact earlier _ before otherDepth (doubtful_iff.2 ⟨otherFetched, Nat.le_of_not_lt shallow⟩)

/-- The bounds are exactly the least heights of paths: the worklist comes to its end, an instruction
has no bound if no path leads to it, and otherwise its bound is the least of the heights with which
paths arrive there. So the check of the depths refuses code exactly if it has a doubtful `pick`, and
reports the first one. -/
theorem bounds_eq_least_heights (code : Array Instruction) (entry : Nat) :
    (∃ rounds, (Progress.round code)^[rounds] (.initial code entry) = ⟨bounds code entry, []⟩) ∧
    (∀ index, (bounds code entry)[index]? = some none ↔
      index < code.size ∧ ¬∃ height, Path code entry index height) ∧
    (∀ index height, (bounds code entry)[index]? = some (some height) ↔
      index < code.size ∧ IsLeast {height | Path code entry index height} height) ∧
    ∀ placed, Lays placed code → ∀ error,
      Load.rejectFirst (fun (placed, index) => Load.unproven? (bounds code entry) placed index)
          placed.zipIdx = .error error ↔
        ∃ index position depth, placed[index]? = some ⟨position, .pick depth⟩ ∧
          Doubtful code entry index depth ∧
          (∀ earlier < index, ∀ depth, ¬Doubtful code entry earlier depth) ∧
          error = .unprovableStackDepth position depth
            (((bounds code entry)[index]?.join).getD 0) := by
  refine ⟨Progress.exists_rounds code _, fun index => getElem?_bounds_eq_none,
    fun index height => getElem?_bounds_eq_some, ?_⟩
  intro placed lays error
  exact rejectFirst_unproven?_eq_error_iff lays

/-- A loop that pushes one value more each time around, entered with one value. The `pick` behind it
reaches for a third one, and the one before the entry is not reached. -/
theorem bounds_eq_least_heights_loop :
    let code : Array Instruction :=
      #[.pick 0, .pushUnit, .pushUnit, .pushBool true, .branch true 2, .pick 2, .halt]
    let placed : List PlacedInstruction :=
      [⟨0, .pick 0⟩, ⟨3, .pushUnit⟩, ⟨4, .pushUnit⟩, ⟨5, .pushBool true⟩, ⟨7, .branch true 4⟩,
        ⟨12, .pick 2⟩, ⟨15, .halt⟩]
    Lays placed code ∧ (∃ rounds, (Progress.round code)^[rounds] (.initial code 1) =
      ⟨#[none, some 0, some 1, some 2, some 3, some 2, some 3], []⟩) ∧
      IsLeast {height | Path code 1 5 height} 2 ∧ (¬∃ height, Path code 1 0 height) ∧
      ∃ index, Doubtful code 1 index 0 := by
  intro code placed
  have lays : Lays placed code := rfl
  have computed : bounds code 1 = #[none, some 0, some 1, some 2, some 3, some 2, some 3] := by
    cbv
  have refused : Load.rejectFirst
      (fun (placed, index) => Load.unproven? (bounds code 1) placed index) placed.zipIdx =
        .error (.unprovableStackDepth 0 0 0) := by
    rw [computed]
    rfl
  rcases bounds_eq_least_heights code 1 with ⟨ends, unreached, least, checked⟩
  rw [computed] at ends unreached least
  rcases (checked placed lays _).1 refused with ⟨index, position, depth, _, doubtful, _, same⟩
  rw [← (LoadError.unprovableStackDepth.inj same).2.1] at doubtful
  exact ⟨lays, ends, ((least 5 2).1 rfl).2, ((unreached 0).1 rfl).2, index, doubtful⟩

end CapabilityMachine.StackHeight
