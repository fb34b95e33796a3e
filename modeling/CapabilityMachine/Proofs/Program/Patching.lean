import CapabilityMachine.Program.Assembler
import CapabilityMachine.Proofs.Outcome
import CapabilityMachine.Proofs.Program.Listing
/-!
# Filling in targets

What an assembler was given are emissions: instructions, some of which have a label in the place of
their target. Its code spells these instructions with the target 0, and its fixups are the places of
the labels. Filling in the offsets of the labels turns the code into one that spells the
instructions with their final targets. All other bytes stay as they were emitted.
-/

namespace CapabilityMachine

open Outcome

namespace Instruction

variable (instruction : Instruction) (target : Nat)

@[simp]
theorem opcode_withTarget : (instruction.withTarget target).opcode = instruction.opcode := by
  cases instruction <;> rfl

@[simp]
theorem encodedLength_withTarget :
    (instruction.withTarget target).encodedLength = instruction.encodedLength := by
  simp [encodedLength]

@[simp]
theorem capability?_withTarget :
    (instruction.withTarget target).capability? = instruction.capability? := by
  cases instruction <;> rfl

@[simp]
theorem target?_withTarget :
    (instruction.withTarget target).target? = instruction.target?.map fun _ => target := by
  cases instruction <;> rfl

@[simp]
theorem withTarget_withTarget (second : Nat) :
    (instruction.withTarget target).withTarget second = instruction.withTarget second := by
  cases instruction <;> rfl

theorem withTarget_of_target? {instruction : Instruction} {target : Nat}
    (isTarget : instruction.target? = some target) :
    instruction.withTarget target = instruction := by
  cases instruction <;> simp_all [target?, withTarget]

theorem encode_withTarget (isBranch : instruction.target?.isSome) (fits : target ≤ maxTarget) :
    (instruction.withTarget target).encode =
      instruction.opcode.byte :: BigEndian.encode 4 target := by
  have clamped : min target maxTarget = target := Nat.min_eq_left fits
  cases instruction <;> simp [target?] at isBranch
  all_goals
    simp [encode, withTarget, opcode, operandNumber, clamped, Opcode.operandWidth,
      Opcode.operands, OperandKind.width]

end Instruction

/-- An instruction that an assembler was given. If there is a label, it stands for the target. -/
structure Emission where
  instruction : Instruction
  label : Option Label
  isBranch : label.isSome → instruction.target?.isSome

namespace Emission

/-- An instruction as it is. -/
def plain (instruction : Instruction) : Emission :=
  ⟨instruction, none, by simp⟩

/-- An instruction with a label for its target, if it has one. -/
def branch (instruction : Instruction) (label : Label) : Emission :=
  ⟨instruction, instruction.target?.map fun _ => label, by simp⟩

/-- The instruction with the offset of the label as its target. -/
def resolved (offsets : Label → Nat) (emission : Emission) : Instruction :=
  match emission.label with
  | none => emission.instruction
  | some label => emission.instruction.withTarget (offsets label)

/-- The instruction as it is written before the offset of the label is known. -/
def placeholder (emission : Emission) : Instruction :=
  emission.resolved fun _ => 0

@[simp]
theorem encodedLength_resolved (offsets : Label → Nat) (emission : Emission) :
    (emission.resolved offsets).encodedLength = emission.instruction.encodedLength := by
  unfold resolved
  split <;> simp

end Emission

/-- The fixups of the emissions, of which the first one is at the position. -/
def fixupsFrom (position : Nat) : List Emission → List Fixup
  | [] => []
  | emission :: rest =>
    (emission.label.map (Fixup.mk (position + 1))).toList ++
      fixupsFrom (position + emission.instruction.encodedLength) rest

theorem fixupsFrom_append (position : Nat) (front back : List Emission) :
    fixupsFrom position (front ++ back) =
      fixupsFrom position front ++
        fixupsFrom (position + (Code.encode (front.map Emission.placeholder)).length) back := by
  induction front generalizing position with
  | nil => simp [fixupsFrom]
  | cons emission rest ih =>
    simp [fixupsFrom, ih, Emission.placeholder, Nat.add_assoc]

namespace Assembler

variable {assembler : Assembler} {emissions : List Emission} {instruction : Instruction}
  {label : Label} {offsets : Label → Nat}

@[simp]
theorem labels_emitBranch : (assembler.emitBranch instruction label).labels = assembler.labels := by
  unfold emitBranch
  split <;> rfl

@[simp]
theorem capabilities_emitBranch :
    (assembler.emitBranch instruction label).capabilities = assembler.capabilities := by
  unfold emitBranch
  split <;> rfl

@[simp]
theorem entry_emitBranch : (assembler.emitBranch instruction label).entry = assembler.entry := by
  unfold emitBranch
  split <;> rfl

/-- The code and the fixups of the assembler are those of the emissions. -/
structure Emits (assembler : Assembler) (emissions : List Emission) : Prop where
  code : assembler.code.toList = Code.encode (emissions.map Emission.placeholder)
  fixups : assembler.fixups.toList = fixupsFrom 0 emissions

theorem Emits.size_code (emits : assembler.Emits emissions) :
    assembler.code.size = (Code.encode (emissions.map Emission.placeholder)).length := by
  rw [← emits.code, Array.length_toList]

theorem Emits.emit (emits : assembler.Emits emissions) (instruction : Instruction) :
    (assembler.emit instruction).Emits (emissions ++ [.plain instruction]) := by
  constructor
  · simp [Assembler.emit, emits.code, Emission.placeholder, Emission.resolved, Emission.plain]
  · simp [Assembler.emit, emits.fixups, fixupsFrom_append, fixupsFrom, Emission.plain]

theorem Emits.emitBranch (emits : assembler.Emits emissions) (instruction : Instruction)
    (label : Label) :
    (assembler.emitBranch instruction label).Emits (emissions ++ [.branch instruction label]) := by
  unfold Assembler.emitBranch
  split
  · rename_i noTarget
    have isPlain : Emission.branch instruction label = .plain instruction := by
      simp [Emission.branch, Emission.plain, noTarget]
    rw [isPlain]
    exact emits.emit instruction
  · rename_i target isTarget
    constructor
    · simp [Assembler.emit, emits.code, Emission.placeholder, Emission.resolved, Emission.branch,
        isTarget]
    · simp [emits.fixups, emits.size_code, fixupsFrom_append, fixupsFrom, Emission.branch,
        isTarget]

theorem patch_append {front old : List UInt8} {position : Nat} (target : Nat) (back : List UInt8)
    (before : front.length = position) (width : old.length = 4) :
    patch (front ++ old ++ back) position target =
      front ++ BigEndian.encode 4 target ++ back := by
  have behind : (front ++ old).length = position + 4 := by simp [before, width]
  unfold patch
  rw [List.drop_left' behind, List.append_assoc front old back, List.take_left' before]

theorem patch_encode {target : Nat} (front back : List UInt8)
    (isBranch : instruction.target?.isSome) (fits : target ≤ maxTarget) :
    patch (front ++ (instruction.withTarget 0).encode ++ back) (front.length + 1) target =
      front ++ (instruction.withTarget target).encode ++ back := by
  have patched : patch (front ++ [instruction.opcode.byte] ++ BigEndian.encode 4 0 ++ back)
      (front.length + 1) target =
        front ++ [instruction.opcode.byte] ++ BigEndian.encode 4 target ++ back :=
    patch_append target back List.length_append (BigEndian.length_encode 4 0)
  rw [Instruction.encode_withTarget _ _ isBranch fits,
    Instruction.encode_withTarget _ _ isBranch (Nat.zero_le _)]
  simpa using patched

/-- Filling in the offset of a label completes the emission that has the label, and leaves all bytes
around its target as they are. -/
theorem patch_placeholder {emission : Emission} (front back : List UInt8)
    (isLabel : emission.label = some label) (fits : offsets label ≤ maxTarget) :
    patch (front ++ emission.placeholder.encode ++ back) (front.length + 1) (offsets label) =
      front ++ (emission.resolved offsets).encode ++ back := by
  have isBranch := emission.isBranch (by simp [isLabel])
  simpa [Emission.placeholder, Emission.resolved, isLabel] using
    patch_encode front back isBranch fits

/-- The code in front of the emissions is done with, and grows as the fixups are taken one after
the other. -/
theorem foldlM_fill (front : List UInt8)
    (resolves : ∀ emission ∈ emissions, ∀ label ∈ emission.label,
      assembler.resolve label = .ok (offsets label))
    (fits : ∀ label, offsets label ≤ maxTarget) :
    (fixupsFrom front.length emissions).foldlM assembler.fill
        (front ++ Code.encode (emissions.map Emission.placeholder)) =
      .ok (front ++ Code.encode (emissions.map (Emission.resolved offsets))) := by
  induction emissions generalizing front with
  | nil => rfl
  | cons emission rest ih =>
    have later := ih (front ++ (emission.resolved offsets).encode)
      (fun other member => resolves other (List.mem_cons_of_mem _ member))
    simp only [List.length_append, Instruction.length_encode, Emission.encodedLength_resolved,
      List.append_assoc] at later
    simp only [fixupsFrom, List.map_cons, Code.encode_cons]
    cases isLabel : emission.label with
    | none =>
      have same : emission.placeholder = emission.resolved offsets := by
        simp [Emission.placeholder, Emission.resolved, isLabel]
      rw [same]
      exact later
    | some label =>
      have isResolved := resolves emission List.mem_cons_self label isLabel
      simp only [Option.map_some, Option.toList_some, List.singleton_append, List.foldlM_cons,
        fill, isResolved, ok_bind, pure_bind]
      rw [← List.append_assoc, patch_placeholder front _ isLabel (fits label), List.append_assoc]
      exact later

/-- Once all labels that are used have an offset, the code spells the emitted instructions with
these offsets as their targets. -/
theorem Emits.patchedCode (emits : assembler.Emits emissions)
    (resolves : ∀ emission ∈ emissions, ∀ label ∈ emission.label,
      assembler.resolve label = .ok (offsets label))
    (fits : ∀ label, offsets label ≤ maxTarget) :
    assembler.patchedCode = .ok (Code.encode (emissions.map (Emission.resolved offsets))) := by
  unfold Assembler.patchedCode
  rw [emits.fixups, emits.code]
  exact foldlM_fill [] resolves fits

end Assembler

end CapabilityMachine
