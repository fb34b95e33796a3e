import CapabilityMachine.Proofs.Program.Loading
import CapabilityMachine.Proofs.Program.Patching
/-!
# One container for each program

Loading forgets nothing about the bytes that it accepts. The targets of the loaded instructions and
the entry point can be turned back into byte offsets, and the container that is then written for the
program consists of the bytes that were read, but for the minor version, which is written as 0. So
no other bytes are accepted for the same program.
-/

namespace CapabilityMachine

open Outcome

namespace Program

/-- The byte offset of the instruction at the index. Behind the last instruction, that is the length
of the code. -/
def position (program : Program) (index : Nat) : Nat :=
  (program.offset? index).getD (Listing.codeLength program.instructions.toList)

/-- The instruction with its target turned from an index into a byte offset. -/
def unresolve (program : Program) (instruction : Instruction) : Instruction :=
  match instruction.target? with
  | none => instruction
  | some target => instruction.withTarget (program.position target)

/-- The code section of the program. -/
def code (program : Program) : List UInt8 :=
  Code.encode (program.instructions.toList.map program.unresolve)

/-- The container of the program, in which byte 5 is the minor version. -/
def container (program : Program) : Except AssembleError (List UInt8) := do
  let written ← Container.write (program.position program.entry) program.capabilities program.code
  return written.set 5 program.version.minor

end Program

namespace Container

variable {limit : Nat} {bytes code : List UInt8} {header : Header}

/-- A container is written with the minor version 0. With the one of the header in its place, it is
what was read. -/
theorem Holds.write_eq (holds : Holds limit bytes header code) :
    ∃ written, write header.entry header.capabilities code = .ok written ∧
      written.set 5 header.minor = bytes := by
  rcases holds with ⟨rfl, wellFormed, _⟩
  have few : ¬maxCapabilities < header.capabilities.length :=
    Nat.not_lt.2 (Nat.le_of_lt_succ wellFormed.count_lt)
  have short : ¬maxCodeLength < code.length :=
    Nat.not_lt.2 (Nat.le_of_lt_succ wellFormed.codeLength_lt)
  refine ⟨_, by rw [write, if_neg few, if_neg short], ?_⟩
  simp [Header.bytes, Header.front, encodeIds, wellFormed.major_eq, magic]

end Container

namespace Load

open Container Code Listing

variable {options : LoadOptions} {bytes : List UInt8} {header : Header}
  {listing instructions : List Instruction} {program : Program}

theorem encodedLength_of_resolves {instruction resolved : Instruction}
    (resolves : Resolves listing instruction resolved) :
    resolved.encodedLength = instruction.encodedLength := by
  cases isTarget : instruction.target? with
  | none =>
    simp only [Resolves, isTarget] at resolves
    rw [resolves]
  | some target =>
    simp only [Resolves, isTarget] at resolves
    rcases resolves with ⟨index, _, rfl⟩
    simp

theorem codeLength_of_resolves {code : List Instruction}
    (resolved : List.Forall₂ (Resolves listing) code instructions) :
    codeLength instructions = codeLength code := by
  induction resolved with
  | nil => rfl
  | cons resolves _ ih => simp only [codeLength, encodedLength_of_resolves resolves, ih]

/-- An index leads back to the byte offset that it was made from. -/
theorem Denotes.position_eq (denotes : Denotes header listing program) {position index : Nat}
    (isBoundary : IsBoundary listing position index) : program.position index = position := by
  rcases isBoundary with ⟨within, rfl⟩
  have codeLength_eq := codeLength_of_resolves denotes.instructions
  rw [Program.position, Program.offset?, ← Array.getElem?_toList, denotes.offsets]
  rcases Nat.lt_or_eq_of_le within with inside | rfl
  · simp [inside]
  · simp [codeLength_eq, offset]

theorem Denotes.unresolve_eq (denotes : Denotes header listing program)
    {instruction resolved : Instruction} (resolves : Resolves listing instruction resolved) :
    program.unresolve resolved = instruction := by
  cases isTarget : instruction.target? with
  | none =>
    simp only [Resolves, isTarget] at resolves
    simp only [Program.unresolve, resolves, isTarget]
  | some target =>
    simp only [Resolves, isTarget] at resolves
    rcases resolves with ⟨index, isBoundary, rfl⟩
    have position_eq := denotes.position_eq isBoundary
    simp [Program.unresolve, isTarget, position_eq, Instruction.withTarget_of_target? isTarget]

theorem Denotes.map_unresolve (denotes : Denotes header listing program)
    {code : List Instruction} (resolved : List.Forall₂ (Resolves listing) code instructions) :
    instructions.map program.unresolve = code := by
  induction resolved with
  | nil => rfl
  | cons resolves _ ih => simp only [List.map_cons, denotes.unresolve_eq resolves, ih]

/-- A program that was loaded is written back as the bytes that it was loaded from. -/
theorem container_of_load (loaded : load options bytes = .ok program) :
    program.container = .ok bytes := by
  rcases load_eq_ok.1 loaded with ⟨header, listing, lists, _, _, _, denotes, _⟩
  rcases lists with ⟨code, holds, spells⟩
  have code_eq : program.code = code := by
    rw [Program.code, denotes.map_unresolve denotes.instructions, spells.1]
  have entry_eq := denotes.position_eq denotes.entry
  rcases holds.write_eq with ⟨written, isWritten, bytes_eq⟩
  rw [Program.container, code_eq, entry_eq, denotes.capabilities, isWritten, denotes.version,
    ok_bind, bytes_eq]
  rfl

/-- Accepted bytes are canonical: they are those of the container that is written for the loaded
program, and bytes that are loaded as the same program, under whatever options, are the same. -/
theorem accepted_bytes_canonical :
    (∀ options bytes program, load options bytes = .ok program →
      program.container = .ok bytes) ∧
    ∀ options otherOptions bytes otherBytes program, load options bytes = .ok program →
      load otherOptions otherBytes = .ok program → bytes = otherBytes := by
  constructor
  · intro options bytes program loaded
    exact container_of_load loaded
  · intro options otherOptions bytes otherBytes program loaded otherLoaded
    have written := container_of_load loaded
    rw [container_of_load otherLoaded] at written
    exact (Except.ok.inj written).symm

/-- The bytes of a program of minor version 7 that is entered at a jump to the end of its code. -/
def endJumpBytes : List UInt8 :=
  [0x43, 0x50, 0x53, 0x54, 1, 7, 0, 0, 0, 0, 0, 3, 0, 1, 0, 9, 0, 0, 0, 8,
    Opcode.cap.byte, 0, 9, Opcode.jump.byte, 0, 0, 0, 8]

/-- A program of another minor version, which starts with a jump to behind its end. -/
def endJump : Program where
  instructions := #[.cap ⟨9⟩, .jump 2]
  offsets := #[0, 3]
  entry := 1
  capabilities := [⟨9⟩]
  version := ⟨1, 7⟩

theorem accepted_bytes_canonical_end_jump :
    load {} endJumpBytes = .ok endJump ∧ endJump.container = .ok endJumpBytes := by
  have holds : Holds ({} : LoadOptions).maxCodeLength endJumpBytes ⟨1, 7, 3, [⟨9⟩]⟩
      (encode [.cap ⟨9⟩, .jump 8]) :=
    ⟨by decide, ⟨rfl, by decide, by decide, by decide, by decide⟩, by decide⟩
  have denotes : Denotes ⟨1, 7, 3, [⟨9⟩]⟩ [.cap ⟨9⟩, .jump 8] endJump :=
    ⟨.cons rfl (.cons ⟨2, ⟨by decide, by decide⟩, rfl⟩ .nil), by decide,
      ⟨by decide, by decide⟩, rfl, rfl⟩
  have loaded : load {} endJumpBytes = .ok endJump := by
    apply load_eq_ok.2
    refine ⟨_, _, ⟨_, holds, rfl, ?_⟩, ?_, ?_, ?_, denotes, ?_⟩
    · simp [Instruction.target?, maxTarget]
    · simp [Declared, Instruction.capability?]
    · simp [Known]
    · simp [Applied]
    · intro index depth isPick
      rcases index with _ | _ | index <;> simp [Program.get?, endJump] at isPick
  exact ⟨loaded, accepted_bytes_canonical.1 _ _ _ loaded⟩

end Load

end CapabilityMachine
