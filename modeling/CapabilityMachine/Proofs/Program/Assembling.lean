import CapabilityMachine.Proofs.Program.Loading
import CapabilityMachine.Proofs.Program.Patching
import Mathlib.Data.List.Induction
import Mathlib.Data.List.Nodup
import Mathlib.Data.Nat.Find
/-!
# Assembling a listing and loading it

A listing whose targets are indices is assembled with one label for each instruction and one for the
end. While the instructions are emitted one after the other, the labels of those that were emitted
are bound to their offsets, so that in the end every label is bound and the targets can be filled
in. What is written is the listing with byte offsets as targets, and loading turns them back into
the indices.
-/

namespace CapabilityMachine

open Outcome

section EraseDups

variable {α : Type} [BEq α] [LawfulBEq α]

theorem eraseDups_concat [DecidableEq α] (elements : List α) (last : α) :
    (elements ++ [last]).eraseDups =
      if last ∈ elements then elements.eraseDups else elements.eraseDups ++ [last] := by
  rw [List.eraseDups_append]
  split <;> simp_all [List.removeAll, List.eraseDups_cons]

theorem nodup_eraseDups (elements : List α) : elements.eraseDups.Nodup := by
  classical
  induction elements using List.reverseRecOn with
  | nil => exact List.nodup_nil
  | append_singleton rest last ih =>
    rw [eraseDups_concat]
    split
    · exact ih
    · rename_i new
      rw [← List.concat_eq_append]
      exact ih.concat (by simpa using new)

end EraseDups

namespace Listing

variable {listing : List Instruction} {instruction : Instruction} {index target : Nat}

/-- The capabilities that the instructions name, in the order of their first use. -/
def capabilities (listing : List Instruction) : List CapabilityId :=
  (listing.filterMap Instruction.capability?).eraseDups

/-- The instruction at the index names a target behind the end of the listing. -/
def LeadsOut (listing : List Instruction) (index target : Nat) : Prop :=
  ∃ instruction, listing[index]? = some instruction ∧ instruction.target? = some target ∧
    listing.length < target

theorem target_le_of_not_leadsOut (present : listing[index]? = some instruction)
    (inside : ∀ target, ¬LeadsOut listing index target) :
    ∀ target ∈ instruction.target?, target ≤ listing.length := by
  intro target isTarget
  apply Nat.le_of_not_lt
  intro outside
  exact inside target ⟨instruction, present, isTarget, outside⟩

/-- The instruction with its target turned from an index into a byte offset. -/
def relocate (listing : List Instruction) (instruction : Instruction) : Instruction :=
  match instruction.target? with
  | none => instruction
  | some target => instruction.withTarget (offset listing target)

/-- The listing with the offset of each target in place of its index. -/
def relocated (listing : List Instruction) : List Instruction :=
  listing.map (relocate listing)

/-- The instruction with the label that has the number of its target. -/
def emission (instruction : Instruction) : Emission :=
  ⟨instruction, instruction.target?.map Label.mk, by simp⟩

@[simp]
theorem encodedLength_relocate (listing : List Instruction) (instruction : Instruction) :
    (relocate listing instruction).encodedLength = instruction.encodedLength := by
  unfold relocate
  split <;> simp

@[simp]
theorem capability?_relocate (listing : List Instruction) (instruction : Instruction) :
    (relocate listing instruction).capability? = instruction.capability? := by
  unfold relocate
  split <;> simp

theorem target?_relocate (listing : List Instruction) (instruction : Instruction) :
    (relocate listing instruction).target? = instruction.target?.map (offset listing) := by
  unfold relocate
  split <;> simp_all

theorem withTarget_relocate (isTarget : instruction.target? = some target)
    (listing : List Instruction) :
    (relocate listing instruction).withTarget target = instruction := by
  unfold relocate
  simp [isTarget, Instruction.withTarget_of_target? isTarget]

theorem resolved_comp_emission (listing : List Instruction) :
    (Emission.resolved fun label => offset listing label.index) ∘ emission = relocate listing := by
  funext instruction
  cases isTarget : instruction.target? <;>
    simp [Emission.resolved, emission, relocate, isTarget]

theorem emission_of_no_target (noTarget : instruction.target? = none) :
    emission instruction = .plain instruction := by
  simp [emission, Emission.plain, noTarget]

theorem emission_of_target (isTarget : instruction.target? = some target) :
    emission instruction = .branch instruction ⟨target⟩ := by
  simp [emission, Emission.branch, isTarget]

theorem codeLength_map {change : Instruction → Instruction}
    (same : ∀ instruction, (change instruction).encodedLength = instruction.encodedLength)
    (listing : List Instruction) : codeLength (listing.map change) = codeLength listing := by
  induction listing with
  | nil => rfl
  | cons instruction rest ih => simp [codeLength, same, ih]

@[simp]
theorem codeLength_relocated (listing : List Instruction) :
    codeLength (relocated listing) = codeLength listing :=
  codeLength_map (encodedLength_relocate listing) listing

theorem offset_relocated (listing : List Instruction) (index : Nat) :
    offset (relocated listing) index = offset listing index := by
  unfold offset relocated
  rw [← List.map_take]
  exact codeLength_map (encodedLength_relocate listing) _

theorem offset_le_codeLength (listing : List Instruction) (index : Nat) :
    offset listing index ≤ codeLength listing := by
  induction listing generalizing index with
  | nil => simp [offset]
  | cons instruction rest ih =>
    cases index with
    | zero => simp [offset, codeLength]
    | succ index =>
      have := ih index
      rw [offset_cons_succ, codeLength]
      omega

theorem mem_capabilities {id : CapabilityId} :
    id ∈ capabilities listing ↔ ∃ instruction ∈ listing, instruction.capability? = some id := by
  simp [capabilities]

theorem capabilities_concat (listing : List Instruction) (instruction : Instruction) :
    capabilities (listing ++ [instruction]) =
      match instruction.capability? with
      | none => capabilities listing
      | some id =>
        if id ∈ capabilities listing then capabilities listing
        else capabilities listing ++ [id] := by
  unfold capabilities
  rw [List.filterMap_append]
  cases isNamed : instruction.capability? with
  | none => simp [isNamed]
  | some id => simp [isNamed, eraseDups_concat]

theorem nodup_capabilities (listing : List Instruction) : (capabilities listing).Nodup :=
  nodup_eraseDups _

end Listing

namespace Assembler

open Listing

variable {listing : List Instruction} {instruction : Instruction} {assembler : Assembler}
  {bound declared emitted index target : Nat}

theorem withLabels_eq (count : Nat) :
    withLabels count = { labels := Array.replicate count none } := by
  unfold withLabels
  induction count with
  | zero => rfl
  | succ count ih => rw [Nat.repeat, ih, label, Array.replicate_succ]

theorem bind_of_unbound {label : Label} (fits : assembler.code.size ≤ Container.maxCodeLength)
    (unbound : assembler.labels[label.index]? = some none) :
    assembler.bind label = .ok { assembler with
      labels := assembler.labels.setIfInBounds label.index (some assembler.code.size) } := by
  simp [bind, Assembler.offset, Nat.not_lt.2 fits, unbound, pure, Except.pure]

theorem declareNamed_eq {front : List Instruction}
    (isDeclared : assembler.capabilities = Listing.capabilities front)
    (instruction : Instruction) :
    assembler.declareNamed instruction = { assembler with
      capabilities := Listing.capabilities (front ++ [instruction]) } := by
  rw [capabilities_concat, ← isDeclared]
  cases isNamed : instruction.capability? with
  | none => simp [declareNamed, isNamed]
  | some id =>
    by_cases known : id ∈ assembler.capabilities <;>
      simp [declareNamed, isNamed, declare, known]

/-- How far the assembler is with the listing: the labels of the first `bound` instructions are
bound, what the first `declared` ones name is declared, and the first `emitted` ones are emitted. -/
structure Progress (assembler : Assembler) (listing : List Instruction)
    (bound declared emitted : Nat) : Prop where
  labels : ∀ label ≤ listing.length, assembler.labels[label]? =
    some (if label < bound then some (Listing.offset listing label) else none)
  capabilities : assembler.capabilities = Listing.capabilities (listing.take declared)
  emits : assembler.Emits ((listing.take emitted).map emission)
  entry : assembler.entry = none

theorem progress_withLabels (listing : List Instruction) :
    (withLabels (listing.length + 1)).Progress listing 0 0 0 := by
  rw [withLabels_eq]
  refine ⟨?_, rfl, ⟨rfl, rfl⟩, rfl⟩
  intro label within
  simp [Nat.lt_succ_of_le within]

theorem Progress.size_code (progress : assembler.Progress listing bound declared index) :
    assembler.code.size = Listing.offset listing index := by
  rw [progress.emits.size_code, length_encode, List.map_map, codeLength_map, Listing.offset]
  intro instruction
  simp [Emission.placeholder, emission]

theorem Progress.bind (progress : assembler.Progress listing index declared index)
    (within : index ≤ listing.length) (fits : codeLength listing ≤ Container.maxCodeLength) :
    ∃ next, assembler.bind ⟨index⟩ = .ok next ∧
      next.Progress listing (index + 1) declared index := by
  have codeFits : assembler.code.size ≤ Container.maxCodeLength := by
    rw [progress.size_code]
    exact Nat.le_trans (offset_le_codeLength listing index) fits
  have unbound : assembler.labels[index]? = some none := by
    simp [progress.labels index within]
  have isLabel : index < assembler.labels.size := by
    rcases Array.getElem?_eq_some_iff.1 unbound with ⟨inside, _⟩
    exact inside
  refine ⟨_, bind_of_unbound codeFits unbound, ?_, progress.capabilities,
    ⟨progress.emits.code, progress.emits.fixups⟩, progress.entry⟩
  intro label labelWithin
  rw [Array.getElem?_setIfInBounds]
  by_cases same : index = label
  · subst same
    simp [isLabel, progress.size_code]
  · have sooner : label < index ↔ label < index + 1 := by omega
    simp [same, progress.labels label labelWithin, sooner]

theorem Progress.declareNamed (progress : assembler.Progress listing bound index emitted)
    (present : listing[index]? = some instruction) :
    (assembler.declareNamed instruction).Progress listing bound (index + 1) emitted := by
  rw [declareNamed_eq progress.capabilities]
  refine ⟨progress.labels, ?_, ⟨progress.emits.code, progress.emits.fixups⟩, progress.entry⟩
  simp [List.take_add_one, present]

theorem Progress.emit (progress : assembler.Progress listing bound declared index)
    (present : listing[index]? = some instruction) (noTarget : instruction.target? = none) :
    (assembler.emit instruction).Progress listing bound declared (index + 1) := by
  refine ⟨progress.labels, progress.capabilities, ?_, progress.entry⟩
  have emits := progress.emits.emit instruction
  simpa [List.take_add_one, present, emission_of_no_target noTarget] using emits

theorem Progress.emitBranch (progress : assembler.Progress listing bound declared index)
    (present : listing[index]? = some instruction) (isTarget : instruction.target? = some target) :
    (assembler.emitBranch instruction ⟨target⟩).Progress listing bound declared (index + 1) := by
  constructor
  · simpa using progress.labels
  · simpa using progress.capabilities
  · have emits := progress.emits.emitBranch instruction ⟨target⟩
    simpa [List.take_add_one, present, emission_of_target isTarget] using emits
  · simpa using progress.entry

theorem Progress.emitListed (progress : assembler.Progress listing index index index)
    (present : listing[index]? = some instruction)
    (inside : ∀ target ∈ instruction.target?, target ≤ listing.length)
    (fits : codeLength listing ≤ Container.maxCodeLength) :
    ∃ next, Assembler.emitListed listing.length assembler (instruction, index) = .ok next ∧
      next.Progress listing (index + 1) (index + 1) (index + 1) := by
  rcases List.getElem?_eq_some_iff.1 present with ⟨before, _⟩
  rcases progress.bind (Nat.le_of_lt before) fits with ⟨labelled, isBound, bound⟩
  have declared := bound.declareNamed present
  simp only [Assembler.emitListed, isBound, ok_bind]
  cases isTarget : instruction.target? with
  | none => exact ⟨_, rfl, declared.emit present isTarget⟩
  | some target =>
    have within := inside target isTarget
    simp only [Nat.not_lt.2 within, if_false]
    exact ⟨_, rfl, declared.emitBranch present isTarget⟩

theorem Progress.emitListed_of_leadsOut (progress : assembler.Progress listing index index index)
    (leadsOut : LeadsOut listing index target)
    (fits : codeLength listing ≤ Container.maxCodeLength) :
    ∃ instruction, listing[index]? = some instruction ∧
      Assembler.emitListed listing.length assembler (instruction, index) =
        .error (.targetOutOfRange index target listing.length) := by
  rcases leadsOut with ⟨instruction, present, isTarget, outside⟩
  rcases List.getElem?_eq_some_iff.1 present with ⟨before, _⟩
  rcases progress.bind (Nat.le_of_lt before) fits with ⟨labelled, isBound, _⟩
  refine ⟨instruction, present, ?_⟩
  simp [Assembler.emitListed, isBound, isTarget, outside]

/-- The instructions in front of the index are emitted, as long as none of them leads out. -/
theorem exists_progress (fits : codeLength listing ≤ Container.maxCodeLength)
    (within : index ≤ listing.length)
    (inside : ∀ earlier < index, ∀ target, ¬LeadsOut listing earlier target) :
    ∃ assembler,
      (listing.take index).zipIdx.foldlM (emitListed listing.length)
        (withLabels (listing.length + 1)) = .ok assembler ∧
      assembler.Progress listing index index index := by
  induction index with
  | zero => exact ⟨_, rfl, progress_withLabels listing⟩
  | succ index ih =>
    rcases ih (by omega) (fun earlier before => inside earlier (by omega)) with
      ⟨assembler, emitted, progress⟩
    have present : listing[index]? = some listing[index] := List.getElem?_eq_getElem within
    have targetInside := target_le_of_not_leadsOut present (inside index (Nat.lt_succ_self _))
    rcases progress.emitListed present targetInside fits with ⟨next, emittedNext, later⟩
    refine ⟨next, ?_, later⟩
    rw [← List.take_append_getElem within, List.zipIdx_append, List.foldlM_append, emitted, ok_bind]
    simp [Nat.min_eq_left (Nat.le_of_succ_le within), emittedNext]

theorem Progress.finish
    (progress : assembler.Progress listing (listing.length + 1) listing.length listing.length)
    (fits : codeLength listing ≤ Container.maxCodeLength)
    (inside : ∀ index target, ¬LeadsOut listing index target) :
    assembler.finish =
      Container.write 0 (Listing.capabilities listing) (Code.encode (relocated listing)) := by
  rcases progress with ⟨labels, capabilities_eq, emits, entry_eq⟩
  rw [List.take_length] at capabilities_eq emits
  have resolves : ∀ emission ∈ listing.map Listing.emission, ∀ label ∈ emission.label,
      assembler.resolve label = .ok (Listing.offset listing label.index) := by
    intro emission member label isLabel
    rcases List.mem_map.1 member with ⟨instruction, isListed, rfl⟩
    rcases List.getElem?_of_mem isListed with ⟨index, present⟩
    rcases Option.map_eq_some_iff.1 isLabel with ⟨target, isTarget, rfl⟩
    have within := target_le_of_not_leadsOut present (inside index) target isTarget
    simp [resolve, labels target within, Nat.lt_succ_of_le within]
  have offsetFits (label : Label) : Listing.offset listing label.index ≤ maxTarget :=
    Nat.le_trans (offset_le_codeLength listing label.index) fits
  have patched : assembler.patchedCode = .ok (Code.encode (relocated listing)) := by
    rw [relocated, ← resolved_comp_emission, ← List.map_map]
    exact emits.patchedCode resolves offsetFits
  simp [Assembler.finish, patched, entryOffset, entry_eq, capabilities_eq]

end Assembler

namespace Listing

open Assembler

variable {listing : List Instruction} {index target : Nat} {depth : UInt16}

/-- The index is the first one at which something holds, and it holds there of the value. -/
def First {α : Type} (holds : Nat → α → Prop) (index : Nat) (value : α) : Prop :=
  holds index value ∧ ∀ earlier < index, ∀ other, ¬holds earlier other

theorem exists_first_or {α : Type} (holds : Nat → α → Prop) :
    (∃ index value, First holds index value) ∨ ∀ index value, ¬holds index value := by
  classical
  by_cases occurs : ∃ index value, holds index value
  · left
    rcases Nat.find_spec occurs with ⟨value, isHeld⟩
    refine ⟨_, value, isHeld, ?_⟩
    intro earlier before other isHeld
    exact Nat.find_min occurs before ⟨other, isHeld⟩
  · right
    intro index value isHeld
    exact occurs ⟨index, value, isHeld⟩

theorem assemble_of_leadsOut (fits : codeLength listing ≤ Container.maxCodeLength)
    (first : First (LeadsOut listing) index target) :
    assemble listing = .error (.targetOutOfRange index target listing.length) := by
  rcases first with ⟨leadsOut, inside⟩
  have within : index ≤ listing.length := by
    rcases leadsOut with ⟨_, present, _⟩
    rcases List.getElem?_eq_some_iff.1 present with ⟨before, _⟩
    exact Nat.le_of_lt before
  rcases exists_progress fits within inside with ⟨assembler, emitted, progress⟩
  rcases progress.emitListed_of_leadsOut leadsOut fits with ⟨instruction, present, refused⟩
  rcases List.getElem?_eq_some_iff.1 present with ⟨before, rfl⟩
  have cut : listing = listing.take index ++ listing[index] :: listing.drop (index + 1) := by
    rw [List.getElem_cons_drop, List.take_append_drop]
  have indexed : listing.zipIdx = (listing.take index).zipIdx ++
      (listing[index], index) :: (listing.drop (index + 1)).zipIdx (index + 1) := by
    have := congrArg List.zipIdx cut
    rwa [List.zipIdx_append, List.zipIdx_cons, List.length_take, Nat.min_eq_left within,
      Nat.zero_add] at this
  simp [assemble, indexed, emitted, refused]

theorem assemble_of_inside (fits : codeLength listing ≤ Container.maxCodeLength)
    (inside : ∀ index target, ¬LeadsOut listing index target) :
    assemble listing =
      Container.write 0 (capabilities listing) (Code.encode (relocated listing)) := by
  rcases exists_progress fits (Nat.le_refl _) (fun index _ => inside index) with
    ⟨assembler, emitted, progress⟩
  rw [List.take_length] at emitted
  rcases progress.bind (Nat.le_refl _) fits with ⟨labelled, isBound, complete⟩
  simp [assemble, emitted, isBound, complete.finish fits inside]

/-- The header of the container for the listing. -/
def header (listing : List Instruction) : Container.Header where
  major := 1
  minor := 0
  entry := 0
  capabilities := capabilities listing

/-- The byte string that the listing is assembled to. -/
def container (listing : List Instruction) : List UInt8 :=
  (header listing).bytes (codeLength listing) ++ Code.encode (relocated listing)

/-- The program that the listing is, with the first instruction as its entry point. -/
def program (listing : List Instruction) : Program where
  instructions := listing.toArray
  offsets := ((List.range listing.length).map (offset listing)).toArray
  entry := 0
  capabilities := capabilities listing
  version := ⟨1, 0⟩

/-- How many values are sure to be on the stack at the index, if the listing is run. -/
def provenHeight (listing : List Instruction) (index : Nat) : Nat :=
  ((StackHeight.bounds listing.toArray 0)[index]?.join).getD 0

/-- The `pick` at the index may reach below the part of the stack that is sure to exist. -/
def Unproven (listing : List Instruction) (index : Nat) (depth : UInt16) : Prop :=
  listing[index]? = some (.pick depth) ∧ provenHeight listing index ≤ depth.toNat

theorem write_relocated (fits : codeLength listing ≤ Container.maxCodeLength)
    (few : (capabilities listing).length ≤ Container.maxCapabilities) :
    Container.write 0 (capabilities listing) (Code.encode (relocated listing)) =
      .ok (container listing) := by
  simp [Container.write, Nat.not_lt.2 fits, Nat.not_lt.2 few, container,
    header, Container.Header.bytes, Container.Header.front, Container.encodeIds,
    Container.majorVersion, Container.minorVersion]

theorem wellFormed_header (fits : codeLength listing ≤ Container.maxCodeLength)
    (few : (capabilities listing).length ≤ Container.maxCapabilities) :
    (header listing).WellFormed (codeLength listing) where
  major_eq := rfl
  entry_lt := Nat.zero_lt_succ _
  count_lt := Nat.lt_succ_of_le few
  distinct := nodup_capabilities listing
  codeLength_lt := Nat.lt_succ_of_le fits

theorem spells_relocated (fits : codeLength listing ≤ Container.maxCodeLength) :
    Code.Spells (Code.encode (relocated listing)) (relocated listing) := by
  refine ⟨rfl, ?_⟩
  intro instruction member target isTarget
  rcases List.mem_map.1 member with ⟨original, _, rfl⟩
  rw [target?_relocate] at isTarget
  rcases Option.map_eq_some_iff.1 isTarget with ⟨index, _, rfl⟩
  exact Nat.le_trans (offset_le_codeLength listing index) fits

theorem lists_container (fits : codeLength listing ≤ Container.maxCodeLength)
    (few : (capabilities listing).length ≤ Container.maxCapabilities) {options : LoadOptions}
    (short : codeLength listing ≤ options.maxCodeLength) :
    Load.Lists options (container listing) (header listing) (relocated listing) := by
  refine ⟨Code.encode (relocated listing), ?_, spells_relocated fits⟩
  constructor
  · simp [container]
  · simpa using wellFormed_header fits few
  · simpa using short

theorem declared_relocated (listing : List Instruction) :
    Load.Declared (capabilities listing) (relocated listing) := by
  intro instruction member id isNamed
  rcases List.mem_map.1 member with ⟨original, isListed, rfl⟩
  rw [capability?_relocate] at isNamed
  exact mem_capabilities.2 ⟨original, isListed, isNamed⟩

theorem resolves_relocated (inside : ∀ index target, ¬LeadsOut listing index target) :
    List.Forall₂ (Code.Resolves (relocated listing)) (relocated listing) listing := by
  unfold relocated
  rw [List.forall₂_map_left_iff, List.forall₂_same]
  intro instruction member
  rcases List.getElem?_of_mem member with ⟨index, present⟩
  unfold Code.Resolves
  rw [target?_relocate]
  cases isTarget : instruction.target? with
  | none => simp [relocate, isTarget]
  | some target =>
    have within := target_le_of_not_leadsOut present (inside index) target isTarget
    refine ⟨target, ⟨?_, ?_⟩, (withTarget_relocate isTarget listing).symm⟩
    · simpa using within
    · exact offset_relocated listing target

theorem denotes_relocated (inside : ∀ index target, ¬LeadsOut listing index target) :
    Load.Denotes (header listing) (relocated listing) (program listing) where
  instructions := resolves_relocated inside
  offsets := by simp [program, relocated, ← offset_relocated listing]
  entry := ⟨Nat.zero_le _, rfl⟩
  capabilities := rfl
  version := rfl

theorem lt_provenHeight_of_not_unproven (proven : ∀ depth, ¬Unproven listing index depth) :
    ∀ depth, (program listing).get? index = some (.pick depth) →
      depth.toNat < provenHeight listing index := by
  intro depth isPick
  apply Nat.lt_of_not_le
  intro unproven
  have isListed : listing[index]? = some (.pick depth) := by
    simpa [Program.get?, program] using isPick
  exact proven depth ⟨isListed, unproven⟩

/-- Loading the byte string under the default options gives the listing back, unless its code is too
long or a `pick` in it is not proven to stay inside the stack. -/
def LoadsBack (listing : List Instruction) (bytes : List UInt8) : Prop :=
  16 * 1024 * 1024 < codeLength listing ∧
      load {} bytes = .error (.codeTooLarge (codeLength listing) (16 * 1024 * 1024)) ∨
    codeLength listing ≤ 16 * 1024 * 1024 ∧
      ((∃ index depth, First (Unproven listing) index depth ∧
          load {} bytes = .error
            (.unprovableStackDepth (offset listing index) depth (provenHeight listing index))) ∨
        (∀ index depth, ¬Unproven listing index depth) ∧ load {} bytes = .ok (program listing))

theorem loadsBack_container (fits : codeLength listing ≤ Container.maxCodeLength)
    (inside : ∀ index target, ¬LeadsOut listing index target)
    (few : (capabilities listing).length ≤ Container.maxCapabilities) :
    LoadsBack listing (container listing) := by
  rcases Nat.lt_or_ge (16 * 1024 * 1024) (codeLength listing) with tooLong | short
  · left
    exact ⟨tooLong, Load.load_eq_codeTooLarge (wellFormed_header fits few) tooLong⟩
  right
  refine ⟨short, ?_⟩
  have lists : Load.Lists {} (container listing) (header listing) (relocated listing) :=
    lists_container fits few short
  have denotes := denotes_relocated inside
  rw [Load.load_eq_of_denotes lists (declared_relocated listing) (by simp [Load.Known])
    (by simp [Load.Applied]) denotes]
  rcases exists_first_or (Unproven listing) with ⟨index, depth, first⟩ | proven
  · left
    refine ⟨index, depth, first, ?_⟩
    rcases first with ⟨⟨isListed, unproven⟩, earlier⟩
    have isPick : (program listing).get? index = some (.pick depth) := by
      simpa [Program.get?, program] using isListed
    rw [Load.rejectFirst_unproven?_eq_error denotes isPick unproven
      fun other before => lt_provenHeight_of_not_unproven (earlier other before), offset_relocated]
    rfl
  · right
    refine ⟨proven, ?_⟩
    have isProven : Load.Proven (program listing) :=
      fun index => lt_provenHeight_of_not_unproven (proven index)
    rw [(Load.rejectFirst_unproven?_eq_ok denotes).2 isProven]
    rfl

/-- A listing that fits a container is assembled unless a target leads out of it or it names too
many capabilities, and loading what was assembled gives it back. In each case the lowest index at
which something is wrong is reported. -/
theorem load_assemble (listing : List Instruction)
    (fits : codeLength listing ≤ Container.maxCodeLength) :
    (∃ index target, First (LeadsOut listing) index target ∧
        assemble listing = .error (.targetOutOfRange index target listing.length)) ∨
      (∀ index target, ¬LeadsOut listing index target) ∧
        (Container.maxCapabilities < (capabilities listing).length ∧
            assemble listing = .error (.tooManyCapabilities (capabilities listing).length) ∨
          (capabilities listing).length ≤ Container.maxCapabilities ∧
            ∃ bytes, assemble listing = .ok bytes ∧ LoadsBack listing bytes) := by
  rcases exists_first_or (LeadsOut listing) with ⟨index, target, first⟩ | inside
  · left
    exact ⟨index, target, first, assemble_of_leadsOut fits first⟩
  right
  refine ⟨inside, ?_⟩
  rw [assemble_of_inside fits inside]
  rcases Nat.lt_or_ge Container.maxCapabilities (capabilities listing).length with tooMany | few
  · left
    refine ⟨tooMany, ?_⟩
    simp [Container.write, tooMany]
  · right
    exact ⟨few, container listing, write_relocated fits few, loadsBack_container fits inside few⟩

/-- A listing with a jump to its end and a jump back is given back. -/
theorem load_assemble_jumps :
    codeLength [.cap ⟨7⟩, .jump 3, .jump 0] ≤ Container.maxCodeLength ∧
      ∃ bytes, assemble [.cap ⟨7⟩, .jump 3, .jump 0] = .ok bytes ∧
        load {} bytes = .ok (program [.cap ⟨7⟩, .jump 3, .jump 0]) := by
  have fits : codeLength [.cap ⟨7⟩, .jump 3, .jump 0] ≤ Container.maxCodeLength := by decide
  refine ⟨fits, ?_⟩
  rcases load_assemble [.cap ⟨7⟩, .jump 3, .jump 0] fits with
    ⟨index, target, ⟨⟨instruction, present, isTarget, outside⟩, _⟩, _⟩ |
      ⟨_, ⟨tooMany, _⟩ | ⟨_, bytes, assembled, ⟨tooLong, _⟩ |
        ⟨_, ⟨index, depth, ⟨⟨isPick, _⟩, _⟩, _⟩ | ⟨_, loaded⟩⟩⟩⟩
  · rcases index with _ | _ | _ | index <;> simp at present <;> subst present <;>
      cases isTarget <;> simp at outside
  · exact absurd tooMany (by decide)
  · exact absurd tooLong (by decide)
  · rcases index with _ | _ | _ | index <;> simp at isPick
  · exact ⟨bytes, assembled, loaded⟩

end Listing

end CapabilityMachine
