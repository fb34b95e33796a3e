import CapabilityMachine.Proofs.Program.AssemblerHistory
/-!
# Finishing an assembler

Whether an assembler can be finished, and to which container, depends on its history only. Every
label that a branch or the entry point uses has to be bound, before or after its use, and the first
one that is not is reported. The container then spells the emitted instructions in their order, with
the offsets at which labels were bound in the place of the labels. As a label is bound between two
instructions, its offset is a boundary, so that a program whose targets are all labels is never
refused for one of them.
-/

namespace CapabilityMachine

open Outcome

namespace History

open Assembler Container Listing

variable {history : List Operation} {label : Label} {offset : Nat} {offsets : Label → Nat}
  {bytes : List UInt8}

/-- The emission with the index has a label that was never bound. -/
def Unresolved (history : List Operation) (index : Nat) (label : Label) : Prop :=
  ∃ emission, (emissions history)[index]? = some emission ∧ emission.label = some label ∧
    ¬Bound history label

/-- The offsets of bound labels are those that they were bound to. -/
def Locates (history : List Operation) (offsets : Label → Nat) : Prop :=
  ∀ label, Bound history label → Binds history label (offsets label)

/-- The emitted instructions with the offsets of their labels as targets. -/
def listing (history : List Operation) (offsets : Label → Nat) : List Instruction :=
  (emissions history).map (Emission.resolved offsets)

/-- The offset of the entry point, which is the start of the code unless a label was chosen. -/
def entryOffset (history : List Operation) (offsets : Label → Nat) : Nat :=
  ((entry history).map offsets).getD 0

/-- No instruction that names its target itself was emitted as it is. -/
def LabelsTargets (history : List Operation) : Prop :=
  ∀ instruction, .emit instruction ∈ history → instruction.target? = none

/-- The header of the container that is written after the operations. -/
def header (history : List Operation) (offsets : Label → Nat) : Header where
  major := 1
  minor := 0
  entry := entryOffset history offsets
  capabilities := capabilities history

theorem codeLength_listing (history : List Operation) (offsets : Label → Nat) :
    codeLength (listing history offsets) = size history :=
  codeLength_map_resolved _ _

theorem emissions_append (front back : List Operation) :
    emissions (front ++ back) = emissions front ++ emissions back :=
  List.filterMap_append

/-- A label is bound between two instructions. -/
theorem Binds.exists_isBoundary (binds : Binds history label offset) (offsets : Label → Nat) :
    ∃ index, Code.IsBoundary (listing history offsets) offset index := by
  rcases binds with ⟨front, back, rfl, _, _, rfl⟩
  refine ⟨(emissions front).length, ?_, ?_⟩
  · simp [listing, emissions_append]
  · have front_eq : (listing (front ++ .bind label :: back) offsets).take (emissions front).length =
        listing front offsets := by
      simp [listing, emissions_append]
    rw [Listing.offset, front_eq, codeLength_listing]

theorem Binds.offset_le_size (binds : Binds history label offset) : offset ≤ size history := by
  rcases binds.exists_isBoundary fun _ => 0 with ⟨index, _, rfl⟩
  rw [← codeLength_listing history]
  exact offset_le_codeLength _ index

/-- What has no label was emitted as it is. -/
theorem LabelsTargets.target?_eq_none (labelsTargets : LabelsTargets history) {emission : Emission}
    (emitted : emission ∈ emissions history) (noLabel : emission.label = none) :
    emission.instruction.target? = none := by
  rcases List.mem_filterMap.1 emitted with ⟨operation, called, isEmission⟩
  cases operation <;> cases isEmission
  case emit instruction => exact labelsTargets instruction called
  case emitBranch instruction label => simpa [Emission.branch] using noLabel
  case jump | branch | call => cases noLabel
  all_goals rfl

theorem bound_of_resolved (resolved : ∀ index label, ¬Unresolved history index label)
    {emission : Emission} (emitted : emission ∈ emissions history)
    (isLabel : emission.label = some label) : Bound history label := by
  rcases List.getElem?_of_mem emitted with ⟨index, present⟩
  by_contra unbound
  exact resolved index label ⟨emission, present, isLabel, unbound⟩

theorem targeted_listing (locates : Locates history offsets)
    (resolved : ∀ index label, ¬Unresolved history index label)
    (labelsTargets : LabelsTargets history) : Load.Targeted (listing history offsets) := by
  intro instruction member target isTarget
  rcases List.mem_map.1 member with ⟨emission, emitted, rfl⟩
  cases isLabel : emission.label with
  | none =>
    have noTarget := labelsTargets.target?_eq_none emitted isLabel
    simp [Emission.resolved, isLabel, noTarget] at isTarget
  | some label =>
    have binds := locates label (bound_of_resolved resolved emitted isLabel)
    simp only [Emission.resolved, isLabel, Instruction.target?_withTarget, Option.mem_def,
      Option.map_eq_some_iff] at isTarget
    rcases isTarget with ⟨_, _, rfl⟩
    exact binds.exists_isBoundary offsets

theorem exists_isBoundary_entryOffset (locates : Locates history offsets)
    (entryBound : ∀ label, entry history = some label → Bound history label) :
    ∃ index, Code.IsBoundary (listing history offsets) (entryOffset history offsets) index := by
  unfold entryOffset
  cases isEntry : entry history with
  | none => exact ⟨0, Nat.zero_le _, rfl⟩
  | some label => exact (locates label (entryBound label isEntry)).exists_isBoundary offsets

theorem le_size_of_isBoundary {index : Nat}
    (isBoundary : Code.IsBoundary (listing history offsets) offset index) :
    offset ≤ size history := by
  rw [← isBoundary.2, ← codeLength_listing history offsets]
  exact offset_le_codeLength _ index

theorem wellFormed_header (fits : size history ≤ maxCodeLength)
    (few : (capabilities history).length ≤ maxCapabilities) (locates : Locates history offsets)
    (entryBound : ∀ label, entry history = some label → Bound history label) :
    (header history offsets).WellFormed (size history) where
  major_eq := rfl
  entry_lt := by
    rcases exists_isBoundary_entryOffset locates entryBound with ⟨index, isBoundary⟩
    exact Nat.lt_succ_of_le (Nat.le_trans (le_size_of_isBoundary isBoundary) fits)
  count_lt := Nat.lt_succ_of_le few
  distinct := nodup_eraseDups _
  codeLength_lt := Nat.lt_succ_of_le fits

theorem write_eq (fits : size history ≤ maxCodeLength)
    (few : (capabilities history).length ≤ maxCapabilities) (offsets : Label → Nat) :
    Container.write (entryOffset history offsets) (capabilities history)
        (Code.encode (listing history offsets)) =
      .ok ((header history offsets).bytes (size history) ++
        Code.encode (listing history offsets)) := by
  simp [Container.write, codeLength_listing, Nat.not_lt.2 fits, Nat.not_lt.2 few, header,
    Header.bytes, Header.front, encodeIds, majorVersion, minorVersion]

theorem lists_written (fits : size history ≤ maxCodeLength)
    (wellFormed : (header history offsets).WellFormed (size history))
    (targeted : Load.Targeted (listing history offsets)) {options : LoadOptions}
    (short : size history ≤ options.maxCodeLength) :
    Load.Lists options
      ((header history offsets).bytes (size history) ++ Code.encode (listing history offsets))
      (header history offsets) (listing history offsets) := by
  refine ⟨Code.encode (listing history offsets), ⟨?_, ?_, ?_⟩, rfl, ?_⟩
  · rw [length_encode, codeLength_listing]
  · rwa [length_encode, codeLength_listing]
  · rwa [length_encode, codeLength_listing]
  · intro instruction member target isTarget
    rcases targeted instruction member target isTarget with ⟨index, isBoundary⟩
    exact Nat.le_trans (le_size_of_isBoundary isBoundary) fits

/-- If all targets are boundaries, loading may find fault with the length of the code, with
capabilities and with depths only. -/
theorem stage_of_load_eq_error (fits : size history ≤ maxCodeLength)
    (wellFormed : (header history offsets).WellFormed (size history))
    (targeted : Load.Targeted (listing history offsets))
    (entryBoundary : ∃ index,
      Code.IsBoundary (listing history offsets) (entryOffset history offsets) index)
    {options : LoadOptions} {error : LoadError}
    (refused : load options ((header history offsets).bytes (size history) ++
      Code.encode (listing history offsets)) = .error error) :
    error.stage ∈ [.codeLength, .declarations, .catalog, .arity, .depths] := by
  rcases Nat.lt_or_ge options.maxCodeLength (size history) with tooLong | short
  · rw [Load.load_eq_codeTooLarge wellFormed tooLong] at refused
    cases refused
    simp [LoadError.stage]
  · have lists := lists_written fits wellFormed targeted short
    have meets (stage : Load.Stage) (earlier : stage.ctorIdx < 3) :
        Load.Meets options _ stage :=
      lists.reaches stage earlier
    rcases Load.earliestViolated_of_load_eq_error refused with ⟨_, violated⟩
    cases stage_eq : error.stage <;> rw [stage_eq] at violated
    case header | encoding => exact absurd (meets _ (by decide)) violated
    case entry => exact absurd ⟨_, _, lists, entryBoundary⟩ violated
    case targets => exact absurd ⟨_, _, lists, targeted⟩ violated
    all_goals simp

end History

namespace Assembler

open History

variable {history : List Operation} {assembler : Assembler} {label : Label} {offset : Nat}
  {offsets : Label → Nat} {emissions : List Emission} {index : Nat} {error : AssembleError}

theorem Follows.resolve_of_binds (follows : assembler.Follows history)
    (binds : Binds history label offset) : assembler.resolve label = .ok offset := by
  simp [resolve, (follows.binds label offset).2 binds]

theorem Follows.resolve_of_unbound (follows : assembler.Follows history)
    (unbound : ¬Bound history label) :
    assembler.resolve label = .error (.unboundLabel label.index) := by
  unfold resolve
  split
  · rename_i offset isBound
    have binds := (follows.binds label offset).1 isBound
    exact absurd (bound_iff_exists_binds.2 ⟨offset, binds⟩) unbound
  · rfl

/-- Filling in stops at the first emission with a label that has no offset. -/
theorem foldlM_fill_eq_error (code : List UInt8) (position : Nat) {emission : Emission}
    (present : emissions[index]? = some emission) (isLabel : emission.label = some label)
    (refused : assembler.resolve label = .error error)
    (earlier : ∀ other < index, ∀ emission, emissions[other]? = some emission →
      ∀ label ∈ emission.label, ∃ offset, assembler.resolve label = .ok offset) :
    (fixupsFrom position emissions).foldlM assembler.fill code = .error error := by
  induction emissions generalizing index code position with
  | nil => simp at present
  | cons first rest ih =>
    cases index with
    | zero =>
      cases present
      simp [fixupsFrom, isLabel, fill, refused]
    | succ index =>
      have later (code : List UInt8) (position : Nat) :=
        ih code position present fun other before => earlier (other + 1) (Nat.succ_lt_succ before)
      cases firstLabel : first.label with
      | none => simpa [fixupsFrom, firstLabel] using later code _
      | some label =>
        rcases earlier 0 (Nat.succ_pos index) first rfl label firstLabel with ⟨offset, resolved⟩
        simpa [fixupsFrom, firstLabel, fill, resolved, pure, Except.pure] using later _ _

theorem Follows.finish_of_unresolved (follows : assembler.Follows history)
    (first : Listing.First (Unresolved history) index label) :
    assembler.finish = .error (.unboundLabel label.index) := by
  rcases first with ⟨⟨emission, present, isLabel, unbound⟩, resolvedBefore⟩
  have patched : assembler.patchedCode = .error (.unboundLabel label.index) := by
    rw [patchedCode, follows.emits.fixups]
    apply foldlM_fill_eq_error _ _ present isLabel (follows.resolve_of_unbound unbound)
    intro other before emission present label isLabel
    have bound : Bound history label := by
      by_contra unbound
      exact resolvedBefore other before label ⟨emission, present, isLabel, unbound⟩
    rcases bound_iff_exists_binds.1 bound with ⟨offset, binds⟩
    exact ⟨offset, follows.resolve_of_binds binds⟩
  simp [finish, patched]

/-- The offset of the label, or 0 if it is not bound. -/
def placement (assembler : Assembler) (label : Label) : Nat :=
  (assembler.labels[label.index]?.join).getD 0

theorem Follows.locates_placement (follows : assembler.Follows history) :
    Locates history assembler.placement := by
  intro label bound
  rcases bound_iff_exists_binds.1 bound with ⟨offset, binds⟩
  have placed : assembler.placement label = offset := by
    simp [placement, (follows.binds label offset).2 binds]
  rwa [placed]

theorem Follows.placement_le_size (follows : assembler.Follows history) (label : Label) :
    assembler.placement label ≤ size history := by
  unfold placement
  cases isPlaced : assembler.labels[label.index]?.join with
  | none => exact Nat.zero_le _
  | some offset =>
    have binds := (follows.binds label offset).1 (Option.join_eq_some_iff.1 isPlaced)
    exact binds.offset_le_size

theorem Follows.patchedCode (follows : assembler.Follows history)
    (fits : size history ≤ Container.maxCodeLength)
    (resolved : ∀ index label, ¬Unresolved history index label) :
    assembler.patchedCode = .ok (Code.encode (listing history assembler.placement)) := by
  apply follows.emits.patchedCode
  · intro emission emitted label isLabel
    apply follows.resolve_of_binds
    exact follows.locates_placement label (bound_of_resolved resolved emitted isLabel)
  · intro label
    exact Nat.le_trans (follows.placement_le_size label) fits

theorem Follows.finish_of_unboundEntry (follows : assembler.Follows history)
    (fits : size history ≤ Container.maxCodeLength)
    (resolved : ∀ index label, ¬Unresolved history index label)
    (isEntry : History.entry history = some label) (unbound : ¬Bound history label) :
    assembler.finish = .error (.unboundLabel label.index) := by
  simp [finish, follows.patchedCode fits resolved, Assembler.entryOffset, follows.entry_eq,
    isEntry, follows.resolve_of_unbound unbound]

theorem Follows.finish_of_resolved (follows : assembler.Follows history)
    (fits : size history ≤ Container.maxCodeLength)
    (resolved : ∀ index label, ¬Unresolved history index label)
    (entryBound : ∀ label, History.entry history = some label → Bound history label) :
    assembler.finish =
      Container.write (History.entryOffset history assembler.placement)
        (History.capabilities history) (Code.encode (listing history assembler.placement)) := by
  have entered : assembler.entryOffset = .ok (History.entryOffset history assembler.placement) := by
    unfold Assembler.entryOffset History.entryOffset
    rw [follows.entry_eq]
    cases isEntry : History.entry history with
    | none => rfl
    | some label =>
      exact follows.resolve_of_binds (follows.locates_placement label (entryBound label isEntry))
  simp [finish, follows.patchedCode fits resolved, entered, follows.capabilities_eq]

end Assembler

namespace History

open Assembler Container Listing

/-- An assembler numbers the labels that it makes, and a label is bound once and not before it was
made. What the assembler is finished to is determined by its history: the container of the emitted
instructions with the offsets of their labels as targets, or an error that tells the first label
that was never bound, with the one of the entry point behind those of the instructions, or that too
many capabilities were declared. If all targets are given by labels, they and the entry point are
boundaries between instructions, and loading does not find fault with them. -/
theorem finish_follows_history (history : List Operation) (fits : size history ≤ maxCodeLength) :
    ((built history).operate .label).1 = .ok (some ⟨labelCount history⟩) ∧
    (∀ label,
      labelCount history ≤ label.index ∧ (built history).operate (.bind label) =
          (.error (.unboundLabel label.index), built history) ∨
        Bound history label ∧ (built history).operate (.bind label) =
          (.error (.labelRebound label.index), built history) ∨
        label.index < labelCount history ∧ ¬Bound history label ∧
          ((built history).operate (.bind label)).1 = .ok none) ∧
    ((∃ index label, First (Unresolved history) index label ∧
        (built history).finish = .error (.unboundLabel label.index)) ∨
      (∀ index label, ¬Unresolved history index label) ∧
        ((∃ label, entry history = some label ∧ ¬Bound history label ∧
            (built history).finish = .error (.unboundLabel label.index)) ∨
          (∀ label, entry history = some label → Bound history label) ∧
            (maxCapabilities < (capabilities history).length ∧ (built history).finish =
                .error (.tooManyCapabilities (capabilities history).length) ∨
              (capabilities history).length ≤ maxCapabilities ∧
                ∃ offsets bytes, Locates history offsets ∧ (built history).finish = .ok bytes ∧
                  Container.write (entryOffset history offsets) (capabilities history)
                    (Code.encode (listing history offsets)) = .ok bytes ∧
                  (LabelsTargets history →
                    Load.Targeted (listing history offsets) ∧
                    (∃ index, Code.IsBoundary (listing history offsets)
                      (entryOffset history offsets) index) ∧
                    ∀ options error, load options bytes = .error error →
                      error.stage ∈ [.codeLength, .declarations, .catalog, .arity, .depths])))) := by
  have follows := follows_built fits
  refine ⟨?_, ?_, ?_⟩
  · rw [← follows.size_labels]
    rfl
  · intro label
    rcases Nat.lt_or_ge label.index (labelCount history) with made | unmade
    · by_cases bound : Bound history label
      · exact .inr (.inl ⟨bound, follows.operate_bind_of_bound fits bound⟩)
      · rw [follows.operate_bind_of_unbound fits made bound]
        exact .inr (.inr ⟨made, bound, rfl⟩)
    · exact .inl ⟨unmade, follows.operate_bind_of_unmade fits unmade⟩
  rcases exists_first_or (Unresolved history) with ⟨index, label, first⟩ | resolved
  · exact .inl ⟨index, label, first, follows.finish_of_unresolved first⟩
  refine .inr ⟨resolved, ?_⟩
  by_cases entryBound : ∀ label, entry history = some label → Bound history label
  · refine .inr ⟨entryBound, ?_⟩
    have locates := follows.locates_placement
    rw [follows.finish_of_resolved fits resolved entryBound]
    rcases Nat.lt_or_ge maxCapabilities (capabilities history).length with tooMany | few
    · exact .inl ⟨tooMany, if_pos tooMany⟩
    · refine .inr ⟨few, _, _, locates, write_eq fits few _, write_eq fits few _, ?_⟩
      intro labelsTargets
      have targeted := targeted_listing locates resolved labelsTargets
      have entryBoundary := exists_isBoundary_entryOffset locates entryBound
      have wellFormed := wellFormed_header fits few locates entryBound
      refine ⟨targeted, entryBoundary, ?_⟩
      intro options error refused
      exact stage_of_load_eq_error fits wellFormed targeted entryBoundary refused
  · simp only [not_forall] at entryBound
    rcases entryBound with ⟨label, isEntry, unbound⟩
    exact .inl ⟨label, isEntry, unbound,
      follows.finish_of_unboundEntry fits resolved isEntry unbound⟩

/-- A history in which a label is used before and after it is bound, and bound twice. -/
theorem finish_follows_history_rebound :
    let history : List Operation := [.label, .label, .jump ⟨1⟩, .bind ⟨0⟩, .cap ⟨7⟩, .bind ⟨1⟩,
      .bind ⟨0⟩, .setEntry ⟨0⟩, .branch true ⟨0⟩]
    size history ≤ maxCodeLength ∧ LabelsTargets history ∧
      ∃ offsets bytes, Locates history offsets ∧ (built history).finish = .ok bytes ∧
        Container.write 5 [⟨7⟩] (Code.encode [.jump 8, .cap ⟨7⟩, .branch true 5]) = .ok bytes ∧
        Load.Targeted (listing history offsets) := by
  intro history
  have fits : size history ≤ maxCodeLength := by decide
  have labelsTargets : LabelsTargets history := by
    intro instruction member
    simp [history] at member
  have finished : (built history).finish =
      Container.write 5 [⟨7⟩] (Code.encode [.jump 8, .cap ⟨7⟩, .branch true 5]) := by decide
  refine ⟨fits, labelsTargets, ?_⟩
  rcases finish_follows_history history fits with
    ⟨_, _, ⟨_, _, _, failed⟩ | ⟨_, ⟨_, _, _, failed⟩ | ⟨_, ⟨tooMany, _⟩ |
      ⟨_, offsets, bytes, locates, isBytes, _, bounded⟩⟩⟩⟩
  · cases finished.symm.trans failed
  · cases finished.symm.trans failed
  · exact absurd tooMany (by decide)
  · exact ⟨offsets, bytes, locates, isBytes, finished.symm.trans isBytes, (bounded labelsTargets).1⟩

end History

end CapabilityMachine
