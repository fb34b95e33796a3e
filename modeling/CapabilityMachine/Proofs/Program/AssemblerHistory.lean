import CapabilityMachine.Proofs.Program.Assembling
import CapabilityMachine.Proofs.Session
import Mathlib.Algebra.GroupWithZero.Nat
/-!
# Histories of an assembler

The operations on an assembler as data, so that they can be put in any sequence, and what a sequence
of them says by itself: what was emitted, which labels were made and bound, and where. An assembler
follows its history: its fields are what the history says, also if some operations of the history
were refused.
-/

namespace CapabilityMachine

open Outcome

namespace Assembler

/-- The operations on an assembler, with what they are given. -/
inductive Operation where
  | label
  | bind (label : Label)
  | setEntry (label : Label)
  | declare (id : CapabilityId)
  | emit (instruction : Instruction)
  | emitBranch (instruction : Instruction) (label : Label)
  | push (n : Int64)
  | jump (label : Label)
  | branch (condition : Bool) (label : Label)
  | call (label : Label)
  | cap (id : CapabilityId)
  | invoke (id : CapabilityId) (argumentCount : UInt8)
deriving DecidableEq

/-- The label that the operation makes, if it makes one, and the assembler behind it. -/
def perform (assembler : Assembler) :
    Operation → Except AssembleError (Option Label × Assembler)
  | .label => .ok (some assembler.label.1, assembler.label.2)
  | .bind label => do return (none, ← assembler.bind label)
  | .setEntry label => .ok (none, assembler.setEntry label)
  | .declare id => .ok (none, assembler.declare id)
  | .emit instruction => .ok (none, assembler.emit instruction)
  | .emitBranch instruction label => .ok (none, assembler.emitBranch instruction label)
  | .push n => .ok (none, assembler.push n)
  | .jump label => .ok (none, assembler.jump label)
  | .branch condition label => .ok (none, assembler.branch condition label)
  | .call label => .ok (none, assembler.call label)
  | .cap id => .ok (none, assembler.cap id)
  | .invoke id argumentCount => .ok (none, assembler.invoke id argumentCount)

/-- Calls an operation on the assembler, which stays as it is if the operation fails. -/
def operate (assembler : Assembler) (operation : Operation) :
    Except AssembleError (Option Label) × Assembler :=
  Session.settle assembler (assembler.perform operation)

/-- The assembler on which the operations were called, in their order. -/
def built (history : List Operation) : Assembler :=
  (Session.run operate {} history).2

theorem built_concat (history : List Operation) (operation : Operation) :
    built (history ++ [operation]) = ((built history).operate operation).2 := by
  rw [built, Session.run_append]
  rfl

end Assembler

namespace History

open Assembler

variable {history : List Operation} {operation : Operation} {label : Label} {offset : Nat}

/-- What the operation appends to the code. -/
def emission? : Operation → Option Emission
  | .emit instruction => some (.plain instruction)
  | .emitBranch instruction label => some (.branch instruction label)
  | .push n => some (.plain (.push n))
  | .jump label => some (.branch (.jump 0) label)
  | .branch condition label => some (.branch (.branch condition 0) label)
  | .call label => some (.branch (.call 0) label)
  | .cap id => some (.plain (.cap id))
  | .invoke id argumentCount => some (.plain (.invoke id argumentCount))
  | .label | .bind _ | .setEntry _ | .declare _ => none

/-- The capability that the operation declares. -/
def declared? : Operation → Option CapabilityId
  | .declare id | .cap id | .invoke id _ => some id
  | _ => none

/-- The label that the operation chooses for the entry point. -/
def chosen? : Operation → Option Label
  | .setEntry label => some label
  | _ => none

/-- All that the operations append to the code, in its order. -/
def emissions (history : List Operation) : List Emission :=
  history.filterMap emission?

/-- The declared capabilities, in the order of their first declaration. -/
def capabilities (history : List Operation) : List CapabilityId :=
  (history.filterMap declared?).eraseDups

/-- The label that was last chosen for the entry point. -/
def entry (history : List Operation) : Option Label :=
  (history.filterMap chosen?).getLast?

/-- The number of labels that were made. They have the indices up to it. -/
def labelCount (history : List Operation) : Nat :=
  history.count .label

/-- The length of the emitted code. -/
def size (history : List Operation) : Nat :=
  ((emissions history).map fun emission => emission.instruction.encodedLength).sum

/-- The label was bound at some time after it was made. -/
def Bound (history : List Operation) (label : Label) : Prop :=
  ∃ front back, history = front ++ .bind label :: back ∧ label.index < labelCount front

/-- When the label was bound for the first time after it was made, the code ended at the offset. -/
def Binds (history : List Operation) (label : Label) (offset : Nat) : Prop :=
  ∃ front back, history = front ++ .bind label :: back ∧ label.index < labelCount front ∧
    ¬Bound front label ∧ offset = size front

section Concat

variable (history operation)

theorem emissions_concat :
    emissions (history ++ [operation]) = emissions history ++ (emission? operation).toList := by
  cases isEmission : emission? operation <;> simp [emissions, isEmission]

theorem capabilities_concat :
    capabilities (history ++ [operation]) =
      match declared? operation with
      | none => capabilities history
      | some id =>
        if id ∈ capabilities history then capabilities history
        else capabilities history ++ [id] := by
  unfold capabilities
  rw [List.filterMap_append]
  cases isDeclared : declared? operation with
  | none => simp [isDeclared]
  | some id => simp [isDeclared, eraseDups_concat]

theorem entry_concat :
    entry (history ++ [operation]) = (chosen? operation).or (entry history) := by
  cases isEntry : chosen? operation <;> simp [entry, isEntry]

theorem labelCount_concat :
    labelCount (history ++ [operation]) =
      labelCount history + if operation = .label then 1 else 0 := by
  simp [labelCount, List.count_singleton]

end Concat

theorem concat_eq_append_cons_iff {front back : List Operation} {middle : Operation} :
    history ++ [operation] = front ++ middle :: back ↔
      (∃ rest, back = rest ++ [operation] ∧ history = front ++ middle :: rest) ∨
        back = [] ∧ history = front ∧ operation = middle := by
  constructor
  · intro split
    rcases List.eq_nil_or_concat back with rfl | ⟨rest, last, rfl⟩
    · right
      simpa using List.append_inj' split rfl
    · left
      rw [List.concat_eq_append, ← List.cons_append, ← List.append_assoc] at split
      rcases List.append_inj' split rfl with ⟨history_eq, last_eq⟩
      exact ⟨rest, by rw [List.concat_eq_append, last_eq], history_eq⟩
  · rintro (⟨rest, rfl, rfl⟩ | ⟨rfl, rfl, rfl⟩)
    · simp
    · rfl

theorem bound_concat :
    Bound (history ++ [operation]) label ↔
      Bound history label ∨ operation = .bind label ∧ label.index < labelCount history := by
  simp only [Bound, concat_eq_append_cons_iff]
  constructor
  · rintro ⟨front, back, ⟨rest, rfl, rfl⟩ | ⟨rfl, rfl, rfl⟩, made⟩
    · exact .inl ⟨front, rest, rfl, made⟩
    · exact .inr ⟨rfl, made⟩
  · rintro (⟨front, rest, rfl, made⟩ | ⟨rfl, made⟩)
    · exact ⟨front, _, .inl ⟨rest, rfl, rfl⟩, made⟩
    · exact ⟨history, _, .inr ⟨rfl, rfl, rfl⟩, made⟩

theorem binds_concat :
    Binds (history ++ [operation]) label offset ↔
      Binds history label offset ∨
        operation = .bind label ∧ label.index < labelCount history ∧ ¬Bound history label ∧
          offset = size history := by
  simp only [Binds, concat_eq_append_cons_iff]
  constructor
  · rintro ⟨front, back, ⟨rest, rfl, rfl⟩ | ⟨rfl, rfl, rfl⟩, binding⟩
    · exact .inl ⟨front, rest, rfl, binding⟩
    · exact .inr ⟨rfl, binding⟩
  · rintro (⟨front, rest, rfl, binding⟩ | ⟨rfl, binding⟩)
    · exact ⟨front, _, .inl ⟨rest, rfl, rfl⟩, binding⟩
    · exact ⟨history, _, .inr ⟨rfl, rfl, rfl⟩, binding⟩

theorem bound_iff_exists_binds : Bound history label ↔ ∃ offset, Binds history label offset := by
  constructor
  · intro bound
    induction history using List.reverseRecOn with
    | nil => simp [Bound] at bound
    | append_singleton history operation ih =>
      simp only [binds_concat]
      by_cases earlier : Bound history label
      · rcases ih earlier with ⟨offset, binds⟩
        exact ⟨offset, .inl binds⟩
      · rcases bound_concat.1 bound with sooner | ⟨binding, made⟩
        · exact absurd sooner earlier
        · exact ⟨size history, .inr ⟨binding, made, earlier, rfl⟩⟩
  · rintro ⟨offset, front, back, split, made, _⟩
    exact ⟨front, back, split, made⟩

theorem size_concat (history : List Operation) (operation : Operation) :
    size (history ++ [operation]) = size history +
      ((emission? operation).map fun emission => emission.instruction.encodedLength).getD 0 := by
  cases isEmission : emission? operation <;> simp [size, emissions_concat, isEmission]

theorem size_le_size_concat (history : List Operation) (operation : Operation) :
    size history ≤ size (history ++ [operation]) := by
  rw [size_concat]
  exact Nat.le_add_right _ _

theorem codeLength_map_resolved (offsets : Label → Nat) (emissions : List Emission) :
    Listing.codeLength (emissions.map (Emission.resolved offsets)) =
      (emissions.map fun emission => emission.instruction.encodedLength).sum := by
  induction emissions with
  | nil => rfl
  | cons emission rest ih => simp [Listing.codeLength, ih]

end History

namespace Assembler

open History

variable {history : List Operation} {operation : Operation} {assembler after : Assembler}
  {label : Label} {offset : Nat}

/-- The fields of the assembler are what the history says. -/
structure Follows (assembler : Assembler) (history : List Operation) : Prop where
  emits : assembler.Emits (emissions history)
  size_labels : assembler.labels.size = labelCount history
  binds : ∀ label offset,
    assembler.labels[label.index]? = some (some offset) ↔ Binds history label offset
  capabilities_eq : assembler.capabilities = History.capabilities history
  entry_eq : assembler.entry = History.entry history

theorem follows_nil : ({} : Assembler).Follows [] where
  emits := ⟨rfl, rfl⟩
  size_labels := rfl
  binds := by simp [Binds]
  capabilities_eq := rfl
  entry_eq := rfl

theorem Follows.size_code (follows : assembler.Follows history) :
    assembler.code.size = size history := by
  rw [follows.emits.size_code, Listing.length_encode]
  exact codeLength_map_resolved _ _

theorem Follows.offset_eq (follows : assembler.Follows history)
    (fits : size history ≤ Container.maxCodeLength) : assembler.offset = .ok (size history) := by
  rw [← follows.size_code] at fits ⊢
  exact if_neg (Nat.not_lt.2 fits)

/-! ### Binding a label -/

theorem Follows.operate_bind_of_unmade (follows : assembler.Follows history)
    (fits : size history ≤ Container.maxCodeLength)
    (unmade : labelCount history ≤ label.index) :
    assembler.operate (.bind label) = (.error (.unboundLabel label.index), assembler) := by
  have noLabel : assembler.labels[label.index]? = none := by
    rw [Array.getElem?_eq_none_iff, follows.size_labels]
    exact unmade
  simp [operate, perform, bind, follows.offset_eq fits, noLabel, Session.settle]

theorem Follows.operate_bind_of_bound (follows : assembler.Follows history)
    (fits : size history ≤ Container.maxCodeLength) (bound : Bound history label) :
    assembler.operate (.bind label) = (.error (.labelRebound label.index), assembler) := by
  rcases bound_iff_exists_binds.1 bound with ⟨offset, binds⟩
  have isBound := (follows.binds label offset).2 binds
  simp [operate, perform, bind, follows.offset_eq fits, isBound, Session.settle]

theorem Follows.getElem?_labels_of_unbound (follows : assembler.Follows history)
    (made : label.index < labelCount history) (unbound : ¬Bound history label) :
    assembler.labels[label.index]? = some none := by
  rw [← follows.size_labels] at made
  rw [Array.getElem?_eq_getElem made]
  cases isOffset : assembler.labels[label.index] with
  | none => rfl
  | some offset =>
    have binds := (follows.binds label offset).1 (by rw [Array.getElem?_eq_getElem made, isOffset])
    exact absurd (bound_iff_exists_binds.2 ⟨offset, binds⟩) unbound

theorem Follows.operate_bind_of_unbound (follows : assembler.Follows history)
    (fits : size history ≤ Container.maxCodeLength) (made : label.index < labelCount history)
    (unbound : ¬Bound history label) :
    assembler.operate (.bind label) = (.ok none, { assembler with
      labels := assembler.labels.setIfInBounds label.index (some (size history)) }) := by
  have isBound := bind_of_unbound (by rwa [follows.size_code])
    (follows.getElem?_labels_of_unbound made unbound)
  simp [operate, perform, isBound, follows.size_code, Session.settle, pure, Except.pure]

theorem Follows.getElem?_labels_set (follows : assembler.Follows history)
    (made : label.index < labelCount history) (unbound : ¬Bound history label) (place : Label) :
    (assembler.labels.setIfInBounds label.index (some (size history)))[place.index]? =
        some (some offset) ↔
      Binds history place offset ∨ Operation.bind label = .bind place ∧
        place.index < labelCount history ∧ ¬Bound history place ∧ offset = size history := by
  rw [← follows.size_labels] at made ⊢
  rw [Array.getElem?_setIfInBounds, ← follows.binds]
  by_cases same : label = place
  · subst same
    have absent := follows.getElem?_labels_of_unbound (by rwa [← follows.size_labels]) unbound
    rw [if_pos rfl, if_pos made, absent]
    simp [made, unbound, eq_comm]
  · have otherIndex : label.index ≠ place.index := by
      intro same_index
      exact same (by cases label; cases place; cases same_index; rfl)
    simp [same, otherIndex]

/-! ### Going on -/

theorem Follows.emits_of_silent (follows : assembler.Follows history)
    (silent : emission? operation = none) (code_eq : after.code = assembler.code)
    (fixups_eq : after.fixups = assembler.fixups) :
    after.Emits (emissions (history ++ [operation])) := by
  rw [emissions_concat, silent, Option.toList_none, List.append_nil]
  exact ⟨code_eq ▸ follows.emits.code, fixups_eq ▸ follows.emits.fixups⟩

theorem Follows.capabilities_declare (follows : assembler.Follows history) {id : CapabilityId}
    (declares : declared? operation = some id) :
    (assembler.declare id).capabilities = History.capabilities (history ++ [operation]) := by
  simp only [capabilities_concat, declares, ← follows.capabilities_eq, declare]
  split <;> rfl

theorem Follows.capabilities_of_declared?_eq_none (follows : assembler.Follows history)
    (declaresNone : declared? operation = none) :
    assembler.capabilities = History.capabilities (history ++ [operation]) := by
  rw [capabilities_concat, declaresNone, follows.capabilities_eq]

theorem Follows.entry_concat (follows : assembler.Follows history)
    (choosesNone : chosen? operation = none) :
    assembler.entry = History.entry (history ++ [operation]) := by
  rw [History.entry_concat, choosesNone, Option.none_or, follows.entry_eq]

theorem Follows.bind (follows : assembler.Follows history)
    (fits : size history ≤ Container.maxCodeLength) (label : Label) :
    (assembler.operate (.bind label)).2.Follows (history ++ [.bind label]) := by
  have relabelled (labels : Array (Option Nat)) (size_eq : labels.size = assembler.labels.size)
      (binds : ∀ place offset, labels[place.index]? = some (some offset) ↔
        Binds (history ++ [.bind label]) place offset) :
      { assembler with labels := labels }.Follows (history ++ [Operation.bind label]) :=
    { emits := follows.emits_of_silent rfl rfl rfl
      size_labels := by simp [labelCount_concat, size_eq, follows.size_labels]
      binds := binds
      capabilities_eq := follows.capabilities_of_declared?_eq_none rfl
      entry_eq := follows.entry_concat rfl }
  by_cases accepted : label.index < labelCount history ∧ ¬Bound history label
  · rcases accepted with ⟨made, unbound⟩
    rw [follows.operate_bind_of_unbound fits made unbound]
    apply relabelled _ Array.size_setIfInBounds
    intro place offset
    rw [binds_concat]
    exact follows.getElem?_labels_set made unbound place
  · have same : (assembler.operate (.bind label)).2 = assembler := by
      by_cases bound : Bound history label
      · rw [follows.operate_bind_of_bound fits bound]
      · rw [follows.operate_bind_of_unmade fits (Nat.le_of_not_lt fun made => accepted ⟨made, bound⟩)]
    rw [same]
    apply relabelled assembler.labels rfl
    intro place offset
    rw [follows.binds, binds_concat]
    constructor
    · exact .inl
    · rintro (binds | ⟨⟨⟩, made, unbound, _⟩)
      · exact binds
      · exact absurd ⟨made, unbound⟩ accepted

theorem Follows.makeLabel (follows : assembler.Follows history) :
    assembler.label.2.Follows (history ++ [.label]) where
  emits := follows.emits_of_silent rfl rfl rfl
  size_labels := by simp [Assembler.label, labelCount_concat, follows.size_labels]
  binds place offset := by
    rw [binds_concat, ← follows.binds, Assembler.label, Array.getElem?_push]
    split
    · rename_i fresh
      simp [fresh]
    · simp
  capabilities_eq := follows.capabilities_of_declared?_eq_none rfl
  entry_eq := follows.entry_concat rfl

/-- An operation that neither makes a label nor binds one leaves the labels as they are. -/
theorem Follows.of_labels_eq (follows : assembler.Follows history)
    (makesNone : operation ≠ .label) (bindsNone : ∀ label, operation ≠ .bind label)
    (labels_eq : after.labels = assembler.labels)
    (emits : after.Emits (emissions (history ++ [operation])))
    (capabilities_eq : after.capabilities = History.capabilities (history ++ [operation]))
    (entry_eq : after.entry = History.entry (history ++ [operation])) :
    after.Follows (history ++ [operation]) where
  emits := emits
  size_labels := by rw [labels_eq, follows.size_labels, labelCount_concat, if_neg makesNone]; rfl
  binds label offset := by
    rw [labels_eq, follows.binds, binds_concat]
    simp [bindsNone]
  capabilities_eq := capabilities_eq
  entry_eq := entry_eq

theorem declare_eq (assembler : Assembler) (id : CapabilityId) :
    ∃ capabilities, assembler.declare id = { assembler with capabilities := capabilities } := by
  unfold declare
  split
  · exact ⟨assembler.capabilities, rfl⟩
  · exact ⟨_, rfl⟩

theorem Follows.emitBranch (follows : assembler.Follows history) {instruction : Instruction}
    (makesNone : operation ≠ .label) (bindsNone : ∀ label, operation ≠ .bind label)
    (emission_eq : emission? operation = some (.branch instruction label))
    (declaresNone : declared? operation = none) (choosesNone : chosen? operation = none) :
    (assembler.emitBranch instruction label).Follows (history ++ [operation]) := by
  refine follows.of_labels_eq makesNone bindsNone labels_emitBranch ?_ ?_ ?_
  · rw [emissions_concat, emission_eq]
    exact follows.emits.emitBranch instruction label
  · exact capabilities_emitBranch.trans (follows.capabilities_of_declared?_eq_none declaresNone)
  · exact entry_emitBranch.trans (follows.entry_concat choosesNone)

theorem Follows.declareEmit (follows : assembler.Follows history) {id : CapabilityId}
    {instruction : Instruction} (makesNone : operation ≠ .label)
    (bindsNone : ∀ label, operation ≠ .bind label)
    (emission_eq : emission? operation = some (.plain instruction))
    (declares : declared? operation = some id) (choosesNone : chosen? operation = none) :
    ((assembler.declare id).emit instruction).Follows (history ++ [operation]) := by
  have capabilities_eq := follows.capabilities_declare declares
  rcases assembler.declare_eq id with ⟨capabilities, declare_eq⟩
  rw [declare_eq] at capabilities_eq ⊢
  refine follows.of_labels_eq makesNone bindsNone rfl ?_ capabilities_eq
    (follows.entry_concat choosesNone)
  have emits : Emits { assembler with capabilities := capabilities } (emissions history) :=
    ⟨follows.emits.code, follows.emits.fixups⟩
  rw [emissions_concat, emission_eq]
  exact emits.emit instruction

/-- An assembler goes on to follow its history, whatever the next operation is and whether or not it
is refused. -/
theorem Follows.operate (follows : assembler.Follows history)
    (fits : size history ≤ Container.maxCodeLength) (operation : Operation) :
    (assembler.operate operation).2.Follows (history ++ [operation]) := by
  cases operation with
  | label => exact follows.makeLabel
  | bind label => exact follows.bind fits label
  | setEntry label =>
    refine follows.of_labels_eq nofun nofun rfl (follows.emits_of_silent rfl rfl rfl)
      (follows.capabilities_of_declared?_eq_none rfl) ?_
    simp [History.entry_concat, chosen?, Assembler.operate, perform, Session.settle, setEntry]
  | declare id =>
    have capabilities_eq :
        (assembler.declare id).capabilities = History.capabilities (history ++ [.declare id]) :=
      follows.capabilities_declare rfl
    rcases assembler.declare_eq id with ⟨capabilities, declare_eq⟩
    rw [declare_eq] at capabilities_eq
    simp only [Assembler.operate, perform, Session.settle, declare_eq]
    exact follows.of_labels_eq nofun nofun rfl (follows.emits_of_silent rfl rfl rfl)
      capabilities_eq (follows.entry_concat rfl)
  | emit | push =>
    refine follows.of_labels_eq nofun nofun rfl ?_ (follows.capabilities_of_declared?_eq_none rfl)
      (follows.entry_concat rfl)
    rw [emissions_concat]
    exact follows.emits.emit _
  | emitBranch instruction label => exact follows.emitBranch nofun nofun rfl rfl rfl
  | jump label =>
    show (assembler.emitBranch (.jump 0) label).Follows _
    exact follows.emitBranch nofun nofun rfl rfl rfl
  | branch condition label =>
    show (assembler.emitBranch (.branch condition 0) label).Follows _
    exact follows.emitBranch nofun nofun rfl rfl rfl
  | call label =>
    show (assembler.emitBranch (.call 0) label).Follows _
    exact follows.emitBranch nofun nofun rfl rfl rfl
  | cap | invoke => exact follows.declareEmit nofun nofun rfl rfl rfl

theorem follows_built (fits : size history ≤ Container.maxCodeLength) :
    (built history).Follows history := by
  induction history using List.reverseRecOn with
  | nil => exact follows_nil
  | append_singleton history operation ih =>
    have fitsBefore := Nat.le_trans (size_le_size_concat history operation) fits
    rw [built_concat]
    exact (ih fitsBefore).operate fitsBefore operation

end Assembler

end CapabilityMachine
