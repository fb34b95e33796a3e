import CapabilityMachine.Proofs.Program.Loading
/-!
# Where decoding stops

A code section that spells no listing still starts with one: the instructions that are decoded
before the first place where there is none. There the byte is no opcode, or the code ends within the
operands, or the operand is a truth value and neither 0 nor 1, and the error says which. So decoding
undoes encoding, on all that was encoded and on nothing else, and an error tells the place.
-/

namespace CapabilityMachine.Code

open Outcome Listing

variable {code rest : List UInt8} {listing : List Instruction} {error : LoadError}
  {start offset : Nat} {byte : UInt8} {opcode : Opcode}

theorem ofOperandNumber?_eq_none {n : Nat} :
    Instruction.ofOperandNumber? opcode n = none ↔ opcode = .pushBool ∧ 1 < n := by
  cases opcode
  case pushBool => rcases n with _ | _ | n <;> simp [Instruction.ofOperandNumber?]
  all_goals simp [Instruction.ofOperandNumber?]

/-- No instruction can be read at the start of the bytes, which have the given offset, for the
reason that the error gives. -/
inductive Illegible (offset : Nat) : List UInt8 → LoadError → Prop
  | unknown {byte : UInt8} {rest : List UInt8} (unlisted : Opcode.ofByte? byte = none) :
    Illegible offset (byte :: rest) (.unknownOpcode offset byte)
  | truncated {byte : UInt8} {rest : List UInt8} {opcode : Opcode}
    (listed : Opcode.ofByte? byte = some opcode)
    (short : (byte :: rest).length < opcode.encodedLength) :
    Illegible offset (byte :: rest) (.truncatedOperand offset opcode)
  | flag {operand : UInt8} {rest : List UInt8} (noFlag : 1 < operand.toNat) :
    Illegible offset (Opcode.pushBool.byte :: operand :: rest) (.invalidFlag offset .pushBool)

theorem Illegible.decodeFrom_eq (illegible : Illegible offset rest error) :
    decodeFrom offset rest = .error error := by
  cases illegible with
  | unknown unlisted => rw [decodeFrom, unlisted]
  | truncated listed short =>
    rw [Opcode.encodedLength, List.length_cons] at short
    rw [decodeFrom, listed]
    simp only [List.length_take]
    rw [if_pos (by omega)]
  | @flag operand rest noFlag =>
    have unreadable := ofOperandNumber?_eq_none.2 ⟨rfl, noFlag⟩
    rw [decodeFrom, Opcode.ofByte?_byte]
    simp [Opcode.operandWidth, Opcode.operands, OperandKind.width, BigEndian.decode, unreadable]

theorem exists_illegible (refused : decodeFrom start code = .error error) :
    ∃ front listing rest, code = front ++ rest ∧ Spells front listing ∧
      Illegible (start + front.length) rest error := by
  fun_induction decodeFrom start code with
  | case1 start => cases refused
  | case2 start byte rest unlisted =>
    cases refused
    exact ⟨[], [], _, rfl, ⟨rfl, by simp⟩, .unknown unlisted⟩
  | case3 start byte rest opcode listed operands short =>
    cases refused
    have tooFew : (byte :: rest).length < opcode.encodedLength := by
      have : operands.length = min opcode.operandWidth rest.length := List.length_take
      rw [Opcode.encodedLength, List.length_cons]
      omega
    exact ⟨[], [], _, rfl, ⟨rfl, by simp⟩, .truncated listed tooFew⟩
  | case4 start byte rest opcode listed operands enough unreadable =>
    cases refused
    rcases ofOperandNumber?_eq_none.1 unreadable with ⟨rfl, noFlag⟩
    rcases rest with _ | ⟨operand, rest⟩
    · exact absurd (by decide) enough
    · have operand_eq : BigEndian.decode operands = operand.toNat := by
        simp [operands, Opcode.operandWidth, Opcode.operands, OperandKind.width, BigEndian.decode]
      rw [operand_eq] at noFlag
      rw [← Opcode.byte_of_ofByte? listed]
      exact ⟨[], [], _, rfl, ⟨rfl, by simp⟩, .flag noFlag⟩
  | case5 start byte rest opcode listed operands enough instruction accepted =>
    rename_i ih
    simp only [bind_eq_error, pure_ne_error, and_false, exists_false, or_false] at refused
    rcases ih refused with ⟨front, listing, behind, rest_eq, spells, illegible⟩
    rcases eq_encode_append_of_accepted listed enough accepted with ⟨code_eq, rfl, fits⟩
    refine ⟨instruction.encode ++ front, instruction :: listing, behind, ?_,
      spells_cons fits spells, ?_⟩
    · rw [code_eq, rest_eq, List.append_assoc]
    · rw [List.length_append, Instruction.length_encode, ← Nat.add_assoc]
      exact illegible

/-- The instructions before the offset are decoded, and there the error finds the byte. It blames
the byte if that is no opcode, the end of the code if that cuts off the operands, and the operand of
a truth value that is neither 0 nor 1. -/
structure StopsAt (code : List UInt8) (error : LoadError) (offset : Nat) (byte : UInt8) : Prop where
  found : code[offset]? = some byte
  decoded : ∃ front, decode (code.take offset) = .ok front
  reason : error = .unknownOpcode offset byte ∨
    (∃ opcode, error = .truncatedOperand offset opcode) ∨ error = .invalidFlag offset .pushBool
  unknown_iff : error = .unknownOpcode offset byte ↔ Opcode.ofByte? byte = none
  truncated_iff : ∀ opcode, error = .truncatedOperand offset opcode ↔
    Opcode.ofByte? byte = some opcode ∧ code.length < offset + opcode.encodedLength
  flag_iff : error = .invalidFlag offset .pushBool ↔
    Opcode.ofByte? byte = some .pushBool ∧
      ∃ operand, code[offset + 1]? = some operand ∧ 1 < operand.toNat

theorem Spells.exists_stopsAt (spells : Spells code listing)
    (illegible : Illegible code.length rest error) :
    ∃ byte, StopsAt (code ++ rest) error code.length byte := by
  have decoded : ∃ front, decode ((code ++ rest).take code.length) = .ok front := by
    rw [List.take_left' rfl]
    exact ⟨_, decode_eq_ok.2 ⟨listing, spells, rfl⟩⟩
  cases illegible with
  | @unknown byte rest unlisted =>
    refine ⟨byte, by simp, decoded, .inl rfl, ?_, ?_, ?_⟩ <;> simp [unlisted]
  | @truncated byte rest opcode listed short =>
    have noOperand (isFlag : opcode = .pushBool) : rest = [] := by
      subst isFlag
      exact List.eq_nil_of_length_eq_zero (Nat.lt_one_iff.1 (Nat.lt_of_succ_lt_succ short))
    refine ⟨byte, by simp, decoded, .inr (.inl ⟨opcode, rfl⟩), by simp [listed], ?_, ?_⟩
    · intro other
      simp only [LoadError.truncatedOperand.injEq, true_and, listed, Option.some.injEq,
        List.length_append, Nat.add_lt_add_iff_left]
      exact ⟨fun same => ⟨same, same ▸ short⟩, And.left⟩
    · simp only [reduceCtorEq, listed, Option.some.injEq, false_iff, not_and]
      intro isFlag
      simp [noOperand isFlag]
  | @flag operand rest noFlag =>
    refine ⟨Opcode.pushBool.byte, by simp, decoded, .inr (.inr rfl), ?_, ?_, ?_⟩
    · simp [Opcode.ofByte?_byte]
    · intro other
      simp only [reduceCtorEq, Opcode.ofByte?_byte, Option.some.injEq, false_iff, not_and]
      rintro rfl
      simp [Opcode.encodedLength, Opcode.operandWidth, Opcode.operands, OperandKind.width]
    · simp [Opcode.ofByte?_byte, noFlag]

theorem StopsAt.illegible (stops : StopsAt code error offset byte) :
    Illegible offset (code.drop offset) error := by
  rcases List.getElem?_eq_some_iff.1 stops.found with ⟨inside, byte_eq⟩
  have drop_eq : code.drop offset = byte :: code.drop (offset + 1) := by
    rw [List.drop_eq_getElem_cons inside, byte_eq]
  rw [drop_eq]
  rcases stops.reason with rfl | ⟨opcode, rfl⟩ | rfl
  · exact .unknown (stops.unknown_iff.1 rfl)
  · rcases (stops.truncated_iff opcode).1 rfl with ⟨listed, short⟩
    refine .truncated listed ?_
    rw [← drop_eq, List.length_drop]
    omega
  · rcases stops.flag_iff.1 rfl with ⟨listed, operand, isOperand, noFlag⟩
    rcases List.getElem?_eq_some_iff.1 isOperand with ⟨operandInside, rfl⟩
    rw [List.drop_eq_getElem_cons operandInside, ← Opcode.byte_of_ofByte? listed]
    exact .flag noFlag

theorem decode_eq_error :
    decode code = .error error ↔ ∃ offset byte, StopsAt code error offset byte := by
  constructor
  · intro refused
    rcases exists_illegible refused with ⟨front, listing, rest, rfl, spells, illegible⟩
    rw [Nat.zero_add] at illegible
    exact ⟨front.length, spells.exists_stopsAt illegible⟩
  · rintro ⟨offset, byte, stops⟩
    rcases List.getElem?_eq_some_iff.1 stops.found with ⟨inside, _⟩
    rcases stops.decoded with ⟨front, decoded⟩
    rcases decode_eq_ok.1 decoded with ⟨listing, spells, _⟩
    have length_eq : (code.take offset).length = offset :=
      List.length_take_of_le (Nat.le_of_lt inside)
    rw [← List.take_append_drop offset code, decode, decodeFrom_append 0 _ spells, length_eq,
      Nat.zero_add, stops.illegible.decodeFrom_eq, error_bind]

/-- Decoding undoes encoding. A code section is decoded exactly if it is the encoding of a listing,
and that listing is the only one, with the lengths of the instructions before it as the offset of
each. Otherwise the error tells where decoding stops, and why. -/
theorem decode_inverts_encode (code : List UInt8) :
    ((∃ placed, decode code = .ok placed) ↔ ∃ listing, Spells code listing) ∧
    (∀ placed listing, decode code = .ok placed → Spells code listing →
      placed.map PlacedInstruction.instruction = listing ∧
      placed.map PlacedInstruction.offset =
        (List.range listing.length).map (Listing.offset listing)) ∧
    (∀ error, decode code = .error error ↔
      ∃ offset byte, StopsAt code error offset byte) := by
  refine ⟨?_, ?_, fun error => decode_eq_error⟩
  · constructor
    · rintro ⟨placed, decoded⟩
      rcases decode_eq_ok.1 decoded with ⟨listing, spells, _⟩
      exact ⟨listing, spells⟩
    · rintro ⟨listing, spells⟩
      exact ⟨_, decode_eq_ok.2 ⟨listing, spells, rfl⟩⟩
  · intro placed listing decoded spells
    rw [decode_eq_ok.2 ⟨listing, spells, rfl⟩] at decoded
    cases decoded
    exact ⟨map_instruction_placeFrom 0 listing, Load.map_offset_placeFrom listing⟩

/-- A truth value written as 2 behind an instruction that is decoded. -/
theorem decode_inverts_encode_flag :
    decode [Opcode.nop.byte, Opcode.pushBool.byte, 2] = .error (.invalidFlag 1 .pushBool) := by
  have spells : Spells [Opcode.nop.byte] [.nop] := ⟨by decide, by simp [Instruction.target?]⟩
  have decoded : ∃ front, decode [Opcode.nop.byte] = .ok front :=
    (decode_inverts_encode _).1.2 ⟨_, spells⟩
  apply ((decode_inverts_encode _).2.2 _).2
  refine ⟨1, Opcode.pushBool.byte, rfl, decoded, .inr (.inr rfl), ?_, ?_, ?_⟩
  · simp [Opcode.ofByte?_byte]
  · intro opcode
    simp only [reduceCtorEq, Opcode.ofByte?_byte, Option.some.injEq, false_iff, not_and]
    rintro rfl
    decide
  · simp [Opcode.ofByte?_byte]

end CapabilityMachine.Code
