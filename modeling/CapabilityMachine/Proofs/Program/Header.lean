import CapabilityMachine.Proofs.Outcome
import CapabilityMachine.Proofs.Program.Grammar
/-!
# Reading a container

The readers of the container format, from single fields to the header and the code section, each
with the byte strings that it accepts and with what it leaves of them.
-/

namespace CapabilityMachine.Container

open Outcome

variable {bytes field rest code : List UInt8} {width n count limit : Nat}
  {declared ids : List CapabilityId} {header : Header} {error : LoadError}

theorem takeField_eq_ok :
    takeField width bytes = .ok (field, rest) ↔ field.length = width ∧ bytes = field ++ rest := by
  unfold takeField
  dsimp only
  split
  · rename_i short
    simp only [reduceCtorEq, false_iff, not_and]
    rintro rfl rfl
    simp at short
  · rename_i enough
    simp only [List.length_take] at enough
    constructor
    · intro taken
      cases taken
      refine ⟨?_, (List.take_append_drop width bytes).symm⟩
      rw [List.length_take]
      omega
    · rintro ⟨rfl, rfl⟩
      simp

theorem takeNumber_eq_ok :
    takeNumber width bytes = .ok (n, rest) ↔
      n < BigEndian.capacity width ∧ bytes = BigEndian.encode width n ++ rest := by
  simp only [takeNumber, bind_eq_ok, takeField_eq_ok, Prod.exists, pure_eq_ok, Prod.mk.injEq]
  constructor
  · rintro ⟨field, _, ⟨rfl, rfl⟩, rfl, rfl⟩
    exact ⟨BigEndian.decode_lt field, by rw [BigEndian.encode_decode]⟩
  · rintro ⟨fits, rfl⟩
    exact ⟨_, _, ⟨BigEndian.length_encode width n, rfl⟩, (BigEndian.decode_encode fits).symm, rfl⟩

/-- The ids are those of the bytes, and each of them is new when it is read. -/
theorem takeIds_eq_ok :
    takeIds count declared bytes = .ok (ids, rest) ↔
      ids.length = count ∧ ids.Nodup ∧ (∀ id ∈ ids, id ∉ declared) ∧
        bytes = encodeIds ids ++ rest := by
  induction count generalizing declared bytes ids rest with
  | zero =>
    simp only [takeIds, Except.ok.injEq, Prod.mk.injEq]
    constructor
    · rintro ⟨rfl, rfl⟩
      simp [encodeIds]
    · rintro ⟨none, _, _, rfl⟩
      simp [List.eq_nil_of_length_eq_zero none, encodeIds]
  | succ count ih =>
    simp only [takeIds, bind_eq_ok, takeNumber_eq_ok, Prod.exists]
    constructor
    · rintro ⟨number, later, ⟨fits, rfl⟩, taken⟩
      split at taken
      · cases taken
      · rename_i new
        simp only [bind_eq_ok, ih, Prod.exists, pure_eq_ok, Prod.mk.injEq] at taken
        rcases taken with ⟨others, _, ⟨enough, distinct, fresh, rfl⟩, rfl, rfl⟩
        have number_eq : (UInt16.ofNat number).toNat = number := UInt16.toNat_ofNat_of_lt' fits
        refine ⟨by simp [enough], ?_, ?_, ?_⟩
        · refine List.nodup_cons.2 ⟨?_, distinct⟩
          intro member
          exact fresh _ member List.mem_cons_self
        · intro id member
          rcases List.mem_cons.1 member with rfl | member
          · exact new
          · intro old
            exact fresh id member (List.mem_cons_of_mem _ old)
        · simp [encodeIds, number_eq]
    · rintro ⟨enough, distinct, fresh, rfl⟩
      cases ids with
      | nil => cases enough
      | cons id others =>
        rw [List.nodup_cons] at distinct
        refine ⟨id.number.toNat, encodeIds others ++ rest, ⟨id.number.toNat_lt, ?_⟩, ?_⟩
        · simp [encodeIds]
        · rw [UInt16.ofNat_toNat, if_neg (fresh id List.mem_cons_self)]
          simp only [bind_eq_ok, ih, Prod.exists, pure_eq_ok, Prod.mk.injEq]
          refine ⟨others, rest, ⟨by simpa using enough, distinct.2, ?_, rfl⟩, rfl, rfl⟩
          intro other member old
          rcases List.mem_cons.1 old with rfl | old
          · exact distinct.1 member
          · exact fresh other (List.mem_cons_of_mem _ member) old

theorem encode_one (n : Nat) : BigEndian.encode 1 n = [UInt8.ofNat n] :=
  rfl

theorem readHeader_eq_ok :
    readHeader bytes = .ok (header, rest) ↔
      header.major = majorVersion ∧ header.entry < BigEndian.capacity 4 ∧
        header.capabilities.length < BigEndian.capacity 2 ∧ header.capabilities.Nodup ∧
        bytes = header.front ++ rest := by
  simp only [readHeader, bind_eq_ok, error_bind, ite_error_eq_ok, takeField_eq_ok,
    takeNumber_eq_ok, takeIds_eq_ok, Prod.exists, ne_eq, not_not, pure_eq_ok, Prod.mk.injEq]
  constructor
  · rintro ⟨_, _, ⟨_, rfl⟩, rfl, major, _, ⟨_, rfl⟩, minor, _, ⟨_, rfl⟩, supported, _, _, ⟨_, rfl⟩,
      rfl, entry, _, ⟨entryFits, rfl⟩, _, _, ⟨countFits, rfl⟩, ids, _, ⟨rfl, distinct, _, rfl⟩, rfl,
      rfl⟩
    refine ⟨supported, entryFits, countFits, distinct, ?_⟩
    simp only [Header.front, encode_one, List.append_assoc, List.cons_append, List.nil_append]
  · rintro ⟨supported, entryFits, countFits, distinct, rfl⟩
    have majorFits := header.major.toNat_lt
    have minorFits := header.minor.toNat_lt
    refine ⟨magic, _, ⟨rfl, ?_⟩, rfl, header.major.toNat, _, ⟨majorFits, rfl⟩,
      header.minor.toNat, _, ⟨minorFits, rfl⟩, ?_, 0, _, ⟨by decide, rfl⟩, rfl, header.entry, _,
      ⟨entryFits, rfl⟩, _, _,
      ⟨countFits, rfl⟩, header.capabilities, rest, ⟨rfl, distinct, by simp, rfl⟩, ?_, rfl⟩
    · simp only [Header.front, encode_one, UInt8.ofNat_toNat, List.append_assoc, List.cons_append,
        List.nil_append]
    · rw [UInt8.ofNat_toNat, supported]
    · rw [UInt8.ofNat_toNat, UInt8.ofNat_toNat]

theorem readCode_eq_ok :
    readCode limit bytes = .ok code ↔
      code.length < BigEndian.capacity 4 ∧ code.length ≤ limit ∧
        bytes = BigEndian.encode 4 code.length ++ code := by
  simp only [readCode, bind_eq_ok, takeNumber_eq_ok, Prod.exists]
  constructor
  · rintro ⟨declared, found, ⟨fits, rfl⟩, read⟩
    split at read
    · cases read
    · split at read
      · cases read
      · split at read
        · cases read
        · cases read
          have declared_eq : declared = code.length := by omega
          subst declared_eq
          exact ⟨fits, by omega, rfl⟩
  · rintro ⟨fits, within, rfl⟩
    refine ⟨code.length, code, ⟨fits, rfl⟩, ?_⟩
    rw [if_neg (by omega), if_neg (by omega), if_neg (by omega)]
    rfl

theorem wellFormed_iff {codeLength : Nat} :
    (bytes = header.bytes codeLength ++ rest ∧ header.WellFormed codeLength) ↔
      ∃ behind, readHeader bytes = .ok (header, behind) ∧
        takeNumber 4 behind = .ok (codeLength, rest) := by
  simp only [readHeader_eq_ok, takeNumber_eq_ok]
  constructor
  · rintro ⟨rfl, major_eq, entry_lt, count_lt, distinct, codeLength_lt⟩
    exact ⟨_, ⟨major_eq, entry_lt, count_lt, distinct, List.append_assoc _ _ _⟩,
      codeLength_lt, rfl⟩
  · rintro ⟨_, ⟨major_eq, entry_lt, count_lt, distinct, rfl⟩, codeLength_lt, rfl⟩
    exact ⟨(List.append_assoc _ _ _).symm, major_eq, entry_lt, count_lt, distinct, codeLength_lt⟩

theorem holds_iff :
    Holds limit bytes header code ↔
      ∃ rest, readHeader bytes = .ok (header, rest) ∧ readCode limit rest = .ok code := by
  simp only [readHeader_eq_ok, readCode_eq_ok]
  constructor
  · rintro ⟨rfl, ⟨major_eq, entry_lt, count_lt, distinct, codeLength_lt⟩, length_le⟩
    exact ⟨_, ⟨major_eq, entry_lt, count_lt, distinct, List.append_assoc _ _ _⟩,
      codeLength_lt, length_le, rfl⟩
  · rintro ⟨_, ⟨major_eq, entry_lt, count_lt, distinct, rfl⟩, codeLength_lt, length_le, rfl⟩
    exact ⟨(List.append_assoc _ _ _).symm,
      ⟨major_eq, entry_lt, count_lt, distinct, codeLength_lt⟩, length_le⟩

/-- A byte string is read as one header and one code section at most. -/
theorem Holds.unique {otherHeader : Header} {otherCode : List UInt8}
    (holds : Holds limit bytes header code) (otherHolds : Holds limit bytes otherHeader otherCode) :
    otherHeader = header ∧ otherCode = code := by
  rcases holds_iff.1 holds with ⟨rest, headed, coded⟩
  rcases holds_iff.1 otherHolds with ⟨otherRest, otherHeaded, otherCoded⟩
  rw [headed] at otherHeaded
  cases otherHeaded
  rw [coded] at otherCoded
  cases otherCoded
  exact ⟨rfl, rfl⟩

theorem takeField_stage (refused : takeField width bytes = .error error) :
    error.stage = .header := by
  rw [takeField] at refused
  split at refused
  · cases refused
    rfl
  · cases refused

theorem takeNumber_stage (refused : takeNumber width bytes = .error error) :
    error.stage = .header := by
  rw [takeNumber, bind_eq_error] at refused
  rcases refused with refused | ⟨_, _, refused⟩
  · exact takeField_stage refused
  · exact absurd refused pure_ne_error

theorem takeIds_stage (refused : takeIds count declared bytes = .error error) :
    error.stage = .header := by
  induction count generalizing declared bytes with
  | zero => cases refused
  | succ count ih =>
    simp only [takeIds, bind_eq_error, Prod.exists] at refused
    rcases refused with refused | ⟨number, rest, _, refused⟩
    · exact takeNumber_stage refused
    · split at refused
      · cases refused
        rfl
      · rw [bind_eq_error] at refused
        rcases refused with refused | ⟨_, _, refused⟩
        · exact ih refused
        · exact absurd refused pure_ne_error

theorem readHeader_stage (refused : readHeader bytes = .error error) : error.stage = .header := by
  simp only [readHeader, bind_eq_error, error_bind, ite_error_eq_error, pure_ne_error, and_false,
    exists_false, or_false] at refused
  rcases refused with refused | ⟨_, _, ⟨_, rfl⟩ | ⟨_, refused⟩⟩
  · exact takeField_stage refused
  · rfl
  rcases refused with refused | ⟨_, _, refused | ⟨_, _, ⟨_, rfl⟩ | ⟨_, refused⟩⟩⟩
  · exact takeNumber_stage refused
  · exact takeNumber_stage refused
  · rfl
  rcases refused with refused | ⟨_, _, ⟨_, rfl⟩ | ⟨_, refused⟩⟩
  · exact takeNumber_stage refused
  · rfl
  rcases refused with refused | ⟨_, _, refused | ⟨_, _, refused⟩⟩
  · exact takeNumber_stage refused
  · exact takeNumber_stage refused
  · exact takeIds_stage refused

theorem readCode_stage (refused : readCode limit bytes = .error error) :
    takeNumber 4 bytes = .error error ∧ error.stage = .header ∨
      (∃ number, takeNumber 4 bytes = .ok number) ∧ error.stage = .codeLength := by
  rw [readCode, bind_eq_error] at refused
  rcases refused with refused | ⟨number, taken, refused⟩
  · exact Or.inl ⟨refused, takeNumber_stage refused⟩
  · right
    refine ⟨⟨number, taken⟩, ?_⟩
    simp only [ite_error_eq_error, pure_ne_error, and_false, or_false] at refused
    rcases refused with ⟨_, rfl⟩ | ⟨_, ⟨_, rfl⟩ | ⟨_, _, rfl⟩⟩ <;> rfl

end CapabilityMachine.Container
