import CapabilityMachine.Proofs.Outcome
import CapabilityMachine.Proofs.Program.Grammar
/-!
# Decoding of a code section

A code section is decoded exactly if it spells a listing, and the result is that listing with the
offset of every instruction. Offsets in a listing grow from instruction to instruction, so each of
them belongs to one index only.
-/

namespace CapabilityMachine

open Outcome

namespace Instruction

variable {opcode : Opcode} {n : Nat} {instruction : Instruction}

theorem operandNumber_lt (instruction : Instruction) :
    instruction.operandNumber < BigEndian.capacity instruction.opcode.operandWidth := by
  have clamped (target : Nat) : min target maxTarget < BigEndian.capacity 4 :=
    Nat.lt_of_le_of_lt (Nat.min_le_right _ _) (by decide)
  cases instruction
  case push n => exact n.toUInt64.toNat_lt
  case pushBool b => cases b <;> decide
  case pick n | alloc n | load n | store n => exact n.toNat_lt
  case jump target | branch condition target | call target => exact clamped target
  case cap id => exact id.number.toNat_lt
  case invoke id argumentCount =>
    have := id.number.toNat_lt
    have := argumentCount.toNat_lt
    have capacity_eq : BigEndian.capacity 3 = 16777216 := rfl
    show 256 * id.number.toNat + argumentCount.toNat < BigEndian.capacity 3
    omega
  case invokeHandle argumentCount => exact argumentCount.toNat_lt
  all_goals exact Nat.one_pos

theorem target_le_of_ofOperandNumber? (fits : n < BigEndian.capacity opcode.operandWidth)
    (accepted : ofOperandNumber? opcode n = some instruction) :
    ∀ target ∈ instruction.target?, target ≤ maxTarget := by
  cases opcode <;>
    simp [ofOperandNumber?, Opcode.operandWidth, Opcode.operands, OperandKind.width,
      BigEndian.capacity] at accepted fits
  case pushBool => split at accepted <;> simp at accepted <;> subst accepted <;> simp [target?]
  all_goals subst accepted; simp [target?, maxTarget]
  all_goals omega

end Instruction

namespace Listing

variable {listing : List Instruction} {first second index : Nat}

theorem offset_cons_succ (instruction : Instruction) (rest : List Instruction) (index : Nat) :
    offset (instruction :: rest) (index + 1) = instruction.encodedLength + offset rest index :=
  rfl

@[simp]
theorem length_encode (listing : List Instruction) :
    (Code.encode listing).length = codeLength listing := by
  induction listing with
  | nil => rfl
  | cons instruction rest ih =>
    rw [Code.encode_cons, List.length_append, Instruction.length_encode, ih, codeLength]

theorem offset_length (listing : List Instruction) :
    offset listing listing.length = (Code.encode listing).length := by
  rw [offset, List.take_length, length_encode]

theorem offset_succ (inside : index < listing.length) :
    offset listing (index + 1) = offset listing index + listing[index].encodedLength := by
  induction listing generalizing index with
  | nil => cases inside
  | cons instruction rest ih =>
    cases index with
    | zero => simp [offset, codeLength]
    | succ index =>
      have later := ih (Nat.lt_of_succ_lt_succ inside)
      rw [offset_cons_succ, offset_cons_succ, later, List.getElem_cons_succ, Nat.add_assoc]

theorem offset_lt_offset (before : first < second) (inside : second ≤ listing.length) :
    offset listing first < offset listing second := by
  induction second with
  | zero => cases before
  | succ second ih =>
    have positive : 0 < listing[second].encodedLength := by
      unfold Instruction.encodedLength Opcode.encodedLength
      omega
    rw [offset_succ inside]
    rcases Nat.lt_succ_iff_lt_or_eq.1 before with earlier | rfl
    · have := ih earlier (by omega)
      omega
    · omega

end Listing

namespace Code

open Listing

variable {code rest : List UInt8} {listing : List Instruction} {placed : List PlacedInstruction}
  {start : Nat} {byte : UInt8} {opcode : Opcode} {instruction : Instruction}

/-- The listing with the offset of each instruction, of which the first is `start`. -/
def placeFrom (start : Nat) : List Instruction → List PlacedInstruction
  | [] => []
  | instruction :: rest =>
    ⟨start, instruction⟩ :: placeFrom (start + instruction.encodedLength) rest

theorem decodeFrom_encode_append (start : Nat) {instruction : Instruction} (rest : List UInt8)
    (fits : ∀ target ∈ instruction.target?, target ≤ maxTarget) :
    decodeFrom start (instruction.encode ++ rest) = (do
      let later ← decodeFrom (start + instruction.encodedLength) rest
      return ⟨start, instruction⟩ :: later) := by
  rw [Instruction.encode, List.cons_append, decodeFrom]
  simp only [Opcode.ofByte?_byte, List.take_left', BigEndian.length_encode, List.drop_left',
    BigEndian.decode_encode (Instruction.operandNumber_lt instruction), Nat.lt_irrefl, if_false,
    Instruction.ofOperandNumber?_operandNumber fits]
  rfl

theorem decodeFrom_append (start : Nat) (rest : List UInt8) (spells : Spells code listing) :
    decodeFrom start (code ++ rest) = (do
      let later ← decodeFrom (start + code.length) rest
      return placeFrom start listing ++ later) := by
  rcases spells with ⟨rfl, fits⟩
  induction listing generalizing start with
  | nil => simp [placeFrom]
  | cons instruction others ih =>
    have later := ih (start + instruction.encodedLength)
      (fun other member => fits other (List.mem_cons_of_mem _ member))
    rw [encode_cons, List.append_assoc,
      decodeFrom_encode_append start _ (fits instruction List.mem_cons_self), later,
      List.length_append, Instruction.length_encode, Nat.add_assoc]
    simp [placeFrom]

theorem decodeFrom_of_spells (start : Nat) (spells : Spells code listing) :
    decodeFrom start code = .ok (placeFrom start listing) := by
  have decoded := decodeFrom_append start [] spells
  rw [List.append_nil, decodeFrom] at decoded
  simpa [pure, Except.pure] using decoded

/-- Bytes at whose start an instruction is read are its encoding and what is left of them. The
operands are as long as the opcode asks for, so that their number encodes back to them. -/
theorem eq_encode_append_of_accepted (known : Opcode.ofByte? byte = some opcode)
    (enough : ¬(rest.take opcode.operandWidth).length < opcode.operandWidth)
    (accepted : Instruction.ofOperandNumber? opcode
      (BigEndian.decode (rest.take opcode.operandWidth)) = some instruction) :
    byte :: rest = instruction.encode ++ rest.drop opcode.operandWidth ∧
      instruction.opcode = opcode ∧ ∀ target ∈ instruction.target?, target ≤ maxTarget := by
  have width_eq : (rest.take opcode.operandWidth).length = opcode.operandWidth := by
    have := List.length_take_le opcode.operandWidth rest
    omega
  have operandFits : BigEndian.decode (rest.take opcode.operandWidth) <
      BigEndian.capacity opcode.operandWidth := by
    conv_rhs => rw [← width_eq]
    exact BigEndian.decode_lt _
  have encode_decode := BigEndian.encode_decode (rest.take opcode.operandWidth)
  have targetFits := Instruction.target_le_of_ofOperandNumber? operandFits accepted
  rcases Instruction.of_ofOperandNumber? operandFits accepted with ⟨rfl, number_eq⟩
  rw [width_eq, ← number_eq] at encode_decode
  refine ⟨?_, rfl, targetFits⟩
  rw [Instruction.encode, Opcode.byte_of_ofByte? known, encode_decode, List.cons_append,
    List.take_append_drop]

theorem spells_cons (fits : ∀ target ∈ instruction.target?, target ≤ maxTarget)
    (spells : Spells code listing) :
    Spells (instruction.encode ++ code) (instruction :: listing) := by
  refine ⟨by rw [encode_cons, ← spells.1], ?_⟩
  intro other member
  rcases List.mem_cons.1 member with rfl | member
  · exact fits
  · exact spells.2 other member

theorem spells_of_decodeFrom (decoded : decodeFrom start code = .ok placed) :
    ∃ listing, Spells code listing ∧ placed = placeFrom start listing := by
  fun_induction decodeFrom start code generalizing placed with
  | case1 start =>
    cases decoded
    exact ⟨[], ⟨rfl, by simp⟩, rfl⟩
  | case2 start byte rest unknown => cases decoded
  | case3 start byte rest opcode known operands => cases decoded
  | case4 start byte rest opcode known operands enough => cases decoded
  | case5 start byte rest opcode known operands enough instruction accepted =>
    rename_i ih
    simp only [bind_eq_ok, pure_eq_ok] at decoded
    rcases decoded with ⟨later, decoded, rfl⟩
    rcases ih decoded with ⟨listing, spells, rfl⟩
    rcases eq_encode_append_of_accepted known enough accepted with ⟨code_eq, rfl, fits⟩
    rw [code_eq]
    exact ⟨instruction :: listing, spells_cons fits spells, rfl⟩

theorem decode_eq_ok :
    decode code = .ok placed ↔ ∃ listing, Spells code listing ∧ placed = placeFrom 0 listing := by
  constructor
  · exact spells_of_decodeFrom
  · rintro ⟨listing, spells, rfl⟩
    exact decodeFrom_of_spells 0 spells

theorem map_instruction_placeFrom (start : Nat) (listing : List Instruction) :
    (placeFrom start listing).map PlacedInstruction.instruction = listing := by
  induction listing generalizing start with
  | nil => rfl
  | cons instruction rest ih => simp [placeFrom, ih]

/-- A code section spells one listing at most. -/
theorem Spells.unique {otherListing : List Instruction} (spells : Spells code listing)
    (otherSpells : Spells code otherListing) : listing = otherListing := by
  have decoded := decode_eq_ok.2 ⟨listing, spells, rfl⟩
  rw [decode_eq_ok.2 ⟨otherListing, otherSpells, rfl⟩] at decoded
  have same := congrArg (List.map PlacedInstruction.instruction) (Except.ok.inj decoded)
  rw [map_instruction_placeFrom, map_instruction_placeFrom] at same
  exact same.symm

theorem decodeFrom_stage {error : LoadError} (refused : decodeFrom start code = .error error) :
    error.stage = .encoding := by
  fun_induction decodeFrom start code with
  | case1 start => cases refused
  | case2 start byte rest unknown =>
    cases refused
    rfl
  | case3 start byte rest opcode known operands =>
    cases refused
    rfl
  | case4 start byte rest opcode known operands enough =>
    cases refused
    rfl
  | case5 start byte rest opcode known operands enough instruction accepted =>
    rename_i ih
    rw [bind_eq_error] at refused
    rcases refused with refused | ⟨_, _, refused⟩
    · exact ih refused
    · exact absurd refused pure_ne_error

/-- An offset is the boundary at one index at most. -/
theorem IsBoundary.unique {position first second : Nat}
    (isFirst : IsBoundary listing position first) (isSecond : IsBoundary listing position second) :
    first = second := by
  rcases Nat.lt_trichotomy first second with before | same | behind
  · have := offset_lt_offset before isSecond.1
    rw [isFirst.2, isSecond.2] at this
    exact absurd this (Nat.lt_irrefl _)
  · exact same
  · have := offset_lt_offset behind isFirst.1
    rw [isFirst.2, isSecond.2] at this
    exact absurd this (Nat.lt_irrefl _)

@[simp]
theorem length_placeFrom (start : Nat) (listing : List Instruction) :
    (placeFrom start listing).length = listing.length := by
  induction listing generalizing start with
  | nil => rfl
  | cons instruction rest ih => simp [placeFrom, ih]

theorem getElem?_placeFrom (start : Nat) (listing : List Instruction) (index : Nat) :
    (placeFrom start listing)[index]? =
      listing[index]?.map fun instruction => ⟨start + offset listing index, instruction⟩ := by
  induction listing generalizing start index with
  | nil => rfl
  | cons instruction rest ih =>
    cases index with
    | zero => simp [placeFrom, offset, codeLength]
    | succ index =>
      rw [placeFrom, List.getElem?_cons_succ, ih, List.getElem?_cons_succ, offset_cons_succ]
      simp only [Nat.add_assoc]

theorem getElem_placeFrom {start index : Nat} (inside : index < (placeFrom start listing).length) :
    (placeFrom start listing)[index] =
      ⟨start + offset listing index, listing.get ⟨index, by simpa using inside⟩⟩ := by
  rw [List.getElem_eq_iff, getElem?_placeFrom, List.getElem?_eq_getElem (by simpa using inside)]
  rfl

theorem boundary?_eq_some {position index : Nat} :
    Load.boundary? (placeFrom 0 listing) (encode listing).length position = some index ↔
      IsBoundary listing position index := by
  rw [Load.boundary?]
  split
  · rename_i atEnd
    have isEnd : IsBoundary listing position listing.length :=
      ⟨Nat.le_refl _, by rw [offset_length, atEnd]⟩
    rw [length_placeFrom, Option.some.injEq]
    constructor
    · rintro rfl
      exact isEnd
    · intro isBoundary
      exact isEnd.unique isBoundary
  · rename_i notAtEnd
    rw [List.findIdx?_eq_some_iff_getElem]
    constructor
    · rintro ⟨inside, found, _⟩
      rw [length_placeFrom] at inside
      simp only [getElem_placeFrom, Nat.zero_add, decide_eq_true_eq] at found
      exact ⟨Nat.le_of_lt inside, found⟩
    · rintro ⟨within, offset_eq⟩
      have inside : index < listing.length := by
        rcases Nat.lt_or_eq_of_le within with inside | rfl
        · exact inside
        · rw [offset_length] at offset_eq
          exact absurd offset_eq.symm notAtEnd
      refine ⟨by rwa [length_placeFrom], ?_, ?_⟩
      · simp only [getElem_placeFrom, Nat.zero_add, decide_eq_true_eq]
        exact offset_eq
      · intro earlier before
        have := offset_lt_offset before within
        simp only [getElem_placeFrom, Nat.zero_add, decide_eq_true_eq]
        omega

end Code

end CapabilityMachine
