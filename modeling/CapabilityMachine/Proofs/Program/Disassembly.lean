import CapabilityMachine.Proofs.Program.Loading
import CapabilityMachine.Proofs.Text
/-!
# Listings can be read back

A listing shows all of a program. Its lines end where they are broken, a mnemonic ends at the first
blank and a numeral where the digits do, so that there is one way only to take the text apart.
-/

namespace CapabilityMachine

theorem Numeral.newline_notMem_toDigits {n : Nat} : '\n' ∉ Nat.toDigits 10 n :=
  notMem_toDigits rfl

namespace Opcode

theorem ofMnemonic?_mnemonic (opcode : Opcode) : ofMnemonic? opcode.mnemonic = some opcode := by
  cases opcode with
  | binary op => cases op <;> decide
  | unary op => cases op <;> decide
  | branch condition => cases condition <;> decide
  | _ => decide

theorem mnemonic_inj {first second : Opcode} :
    first.mnemonic = second.mnemonic ↔ first = second := by
  constructor
  · intro same
    have opcodes := congrArg ofMnemonic? same
    simpa only [ofMnemonic?_mnemonic, Option.some.injEq] using opcodes
  · rintro rfl
    rfl

theorem all_mnemonic (opcode : Opcode) :
    opcode.mnemonic.toList.all (fun character => character != ' ' && character != '\n') := by
  cases opcode with
  | binary op => cases op <;> decide
  | unary op => cases op <;> decide
  | branch condition => cases condition <;> decide
  | _ => decide

theorem ne_of_mem_mnemonic (opcode : Opcode) :
    ∀ character ∈ opcode.mnemonic.toList, character ≠ ' ' ∧ character ≠ '\n' := by
  simpa using opcode.all_mnemonic

end Opcode

namespace Instruction

open Numeral

/-- The operands of the instruction as they are shown, with a blank in front of each. -/
def operandText : Instruction → List Char
  | push n => ' ' :: n.toInt.repr.toList
  | pushBool b => ' ' :: (toString b).toList
  | pick n | alloc n | load n | store n => ' ' :: Nat.toDigits 10 n.toNat
  | jump target | branch _ target | call target => ' ' :: '@' :: Nat.toDigits 10 target
  | cap id => ' ' :: Nat.toDigits 10 id.number.toNat
  | invoke id argumentCount =>
    ' ' :: Nat.toDigits 10 id.number.toNat ++ ' ' :: Nat.toDigits 10 argumentCount.toNat
  | invokeHandle argumentCount => ' ' :: Nat.toDigits 10 argumentCount.toNat
  | _ => []

theorem toList_toString (instruction : Instruction) :
    (toString instruction).toList =
      instruction.opcode.mnemonic.toList ++ instruction.operandText := by
  cases instruction <;>
    simp [toString, operandText, opcode]

theorem stops_operandText (instruction : Instruction) :
    Stops (· ≠ ' ') instruction.operandText := by
  cases instruction <;> simp [operandText]

theorem newline_notMem_operandText (instruction : Instruction) :
    '\n' ∉ instruction.operandText := by
  cases instruction
  case push n =>
    rw [operandText, toList_repr_int]
    split <;> simp [newline_notMem_toDigits]
  case pushBool b => cases b <;> decide
  all_goals simp [operandText, newline_notMem_toDigits]

theorem eq_of_operandText_eq {first second : Instruction}
    (sameOpcode : first.opcode = second.opcode)
    (sameOperands : first.operandText = second.operandText) : first = second := by
  cases first <;> cases second <;> cases sameOpcode
  case push =>
    simpa [operandText, String.toList_inj, repr_int_inj, Int64.toInt_inj]
      using sameOperands
  case pushBool first second =>
    cases first <;> cases second <;> first | rfl | cases sameOperands
  case cap first second =>
    rcases first with ⟨first⟩
    rcases second with ⟨second⟩
    simpa [operandText, toDigits_inj, UInt16.toNat_inj] using sameOperands
  case invoke firstId firstCount secondId secondCount =>
    rcases firstId with ⟨firstId⟩
    rcases secondId with ⟨secondId⟩
    simp only [operandText, List.cons_append, List.cons.injEq, true_and] at sameOperands
    rcases toDigits_append_inj (stops_cons.2 rfl) (stops_cons.2 rfl) sameOperands with
      ⟨sameId, sameRest⟩
    simpa [toDigits_inj, UInt8.toNat_inj, ← UInt16.toNat_inj, sameId] using sameRest
  all_goals
    simp_all [operandText, toDigits_inj, UInt16.toNat_inj, UInt8.toNat_inj]

theorem newline_notMem_toString (instruction : Instruction) :
    '\n' ∉ (toString instruction).toList := by
  rw [toList_toString, List.mem_append, not_or]
  refine ⟨fun member => ?_, instruction.newline_notMem_operandText⟩
  exact (instruction.opcode.ne_of_mem_mnemonic _ member).2 rfl

theorem toString_inj {first second : Instruction} :
    toString first = toString second ↔ first = second := by
  have bare (instruction : Instruction) :
      ∀ character ∈ instruction.opcode.mnemonic.toList, decide (character ≠ ' ') := by
    intro character member
    exact decide_eq_true (instruction.opcode.ne_of_mem_mnemonic character member).1
  constructor
  · intro same
    rw [← String.toList_inj, toList_toString, toList_toString] at same
    rcases append_inj_of_stops (bare first) (bare second) first.stops_operandText
      second.stops_operandText same with ⟨sameMnemonic, sameOperands⟩
    exact eq_of_operandText_eq (Opcode.mnemonic_inj.1 (String.toList_inj.1 sameMnemonic))
      sameOperands
  · rintro rfl
    rfl

end Instruction

namespace Program

open Numeral

variable {program : Program} {rest otherRest : List Char}

/-! ### Rows -/

/-- What the row of an instruction shows behind its index. -/
def rowText (placed : Nat × Instruction) : List Char :=
  ' ' :: '0' :: 'x' :: (hexadecimal 4 placed.1).toList ++
    ' ' :: ' ' :: (toString placed.2).toList ++ ['\n']

/-- The characters of the lines for the instructions with their offsets, numbered from `start` on.
-/
def rowsText (start : Nat) : List (Nat × Instruction) → List Char
  | [] => []
  | placed :: rest =>
    (rightAligned 4 start).toList ++ rowText placed ++ rowsText (start + 1) rest

theorem toList_row (index offset : Nat) (instruction : Instruction) :
    (row index offset instruction).toList =
      (rightAligned 4 index).toList ++ rowText (offset, instruction) := by
  simp [row, rowText, Numeral.offset, toString]

theorem toList_rows (start : Nat) (placed : List (Nat × Instruction)) :
    (String.join ((placed.zipIdx start).map fun ((offset, instruction), index) =>
      row index offset instruction)).toList = rowsText start placed := by
  induction placed generalizing start with
  | nil => rfl
  | cons first rest ih => simp [String.join_cons, ih, toList_row, rowsText]

theorem rowText_append_inj {first second : Nat × Instruction}
    (same : rowText first ++ rest = rowText second ++ otherRest) :
    first = second ∧ rest = otherRest := by
  simp only [rowText, List.cons_append, List.append_assoc, List.cons.injEq, true_and] at same
  rcases append_cons_inj blank_notMem_hexadecimal blank_notMem_hexadecimal same with
    ⟨sameOffset, same⟩
  simp only [List.cons.injEq, true_and] at same
  rcases append_cons_inj first.2.newline_notMem_toString second.2.newline_notMem_toString same with
    ⟨sameInstruction, sameRest⟩
  have offset_eq : first.1 = second.1 := hexadecimal_inj.1 (String.toList_inj.1 sameOffset)
  have instruction_eq : first.2 = second.2 :=
    Instruction.toString_inj.1 (String.toList_inj.1 sameInstruction)
  exact ⟨Prod.ext offset_eq instruction_eq, sameRest⟩

/-- The indices of the rows need not be read, as they only count the rows. -/
theorem rowsText_inj {start : Nat} {first second : List (Nat × Instruction)}
    (same : rowsText start first = rowsText start second) : first = second := by
  induction first generalizing start second with
  | nil =>
    cases second with
    | nil => rfl
    | cons placed others => simp [rowsText, rowText] at same
  | cons placed others ih =>
    cases second with
    | nil => simp [rowsText, rowText] at same
    | cons otherPlaced otherOthers =>
      simp only [rowsText, List.append_assoc, List.append_cancel_left_eq] at same
      rcases rowText_append_inj same with ⟨rfl, sameRest⟩
      rw [ih sameRest]

/-- A row starts with a blank or a digit. -/
theorem rowsText_ne_semicolon_cons {start : Nat} (placed : List (Nat × Instruction)) :
    rowsText start placed ≠ ';' :: rest := by
  cases placed with
  | nil => simp [rowsText]
  | cons first others =>
    have absent : ';' ∉ (rightAligned 4 start).toList := by
      simp [rightAligned, List.leftpad, notMem_toDigits]
    cases text_eq : (rightAligned 4 start).toList with
    | nil => simp [rightAligned, List.leftpad, Nat.toDigits_ne_nil] at text_eq
    | cons character others =>
      rw [rowsText, text_eq, List.cons_append, List.cons_append]
      intro same
      rw [text_eq, (List.cons.inj same).1] at absent
      exact absent List.mem_cons_self

/-! ### Declared capabilities -/

/-- The characters of the ids, each with a blank in front. -/
def idsText (ids : List CapabilityId) : List Char :=
  ids.flatMap fun id => ' ' :: 'c' :: 'a' :: 'p' :: ':' :: Nat.toDigits 10 id.number.toNat

/-- The characters of the line that names the declared capabilities. -/
def requirementsText : List CapabilityId → List Char
  | [] => []
  | id :: ids => ';' :: (" requires".toList ++ idsText (id :: ids) ++ ['\n'])

theorem toList_requirements (program : Program) :
    program.requirements.toList = requirementsText program.capabilities := by
  cases ids_eq : program.capabilities with
  | nil =>
    rw [requirements, ids_eq]
    rfl
  | cons id ids =>
    have joined : (String.join ((id :: ids).map fun id => s!" {id}")).toList =
        idsText (id :: ids) := by
      rw [String.toList_join, List.flatMap_map, idsText]
      congr
      funext id
      simp [toString]
    rw [requirements, ids_eq]
    simp only [String.toList_append]
    rw [joined]
    rfl

theorem idsText_inj {first second : List CapabilityId} (same : idsText first = idsText second) :
    first = second := by
  have stops (ids : List CapabilityId) : Stops Char.isDigit (idsText ids) := by
    cases ids <;> simp [idsText]
  induction first generalizing second with
  | nil =>
    cases second with
    | nil => rfl
    | cons id ids => simp [idsText] at same
  | cons id ids ih =>
    cases second with
    | nil => simp [idsText] at same
    | cons otherId otherIds =>
      simp only [idsText, List.flatMap_cons, List.cons_append, List.cons.injEq, true_and] at same
      rcases toDigits_append_inj (stops ids) (stops otherIds) same with ⟨sameNumber, sameRest⟩
      have id_eq : id = otherId := by
        rcases id with ⟨number⟩
        rcases otherId with ⟨otherNumber⟩
        have number_eq : number = otherNumber := UInt16.toNat_inj.1 sameNumber
        rw [number_eq]
      rw [id_eq, ih sameRest]

theorem newline_notMem_idsText (ids : List CapabilityId) : '\n' ∉ idsText ids := by
  simp [idsText, newline_notMem_toDigits]

/-- As no row starts with a semicolon, it can be told whether there is a line about capabilities. -/
theorem requirementsText_append_inj {first second : List CapabilityId}
    {placed otherPlaced : List (Nat × Instruction)}
    (same : requirementsText first ++ rowsText 0 placed =
      requirementsText second ++ rowsText 0 otherPlaced) :
    first = second ∧ rowsText 0 placed = rowsText 0 otherPlaced := by
  cases first with
  | nil =>
    cases second with
    | nil => exact ⟨rfl, same⟩
    | cons id ids => exact absurd same (rowsText_ne_semicolon_cons placed)
  | cons id ids =>
    cases second with
    | nil => exact absurd same.symm (rowsText_ne_semicolon_cons otherPlaced)
    | cons otherId otherIds =>
      simp only [requirementsText, List.cons_append, List.cons.injEq, true_and, List.append_assoc,
        List.append_cancel_left_eq, List.nil_append] at same
      rcases append_cons_inj (newline_notMem_idsText _) (newline_notMem_idsText _) same with
        ⟨sameIds, sameRest⟩
      exact ⟨idsText_inj sameIds, sameRest⟩

/-! ### The listing -/

theorem toList_headline (program : Program) :
    program.headline.toList =
      "; capstan ".toList ++ (Nat.toDigits 10 program.version.major.toNat ++
        '.' :: (Nat.toDigits 10 program.version.minor.toNat ++
          ',' :: (" entry @".toList ++ (Nat.toDigits 10 program.entry ++ ['\n'])))) := by
  simp [headline, toString]

theorem headline_append_inj {other : Program}
    (same : program.headline.toList ++ rest = other.headline.toList ++ otherRest) :
    program.version = other.version ∧ program.entry = other.entry ∧ rest = otherRest := by
  simp only [toList_headline, List.append_assoc, List.append_cancel_left_eq, List.cons_append]
    at same
  rcases toDigits_append_inj (stops_cons.2 rfl) (stops_cons.2 rfl) same with
    ⟨sameMajor, afterMajor⟩
  rcases toDigits_append_inj (stops_cons.2 rfl) (stops_cons.2 rfl)
    (List.tail_eq_of_cons_eq afterMajor) with ⟨sameMinor, afterMinor⟩
  have entries := List.append_cancel_left (List.tail_eq_of_cons_eq afterMinor)
  rcases toDigits_append_inj (stops_cons.2 rfl) (stops_cons.2 rfl) entries with
    ⟨sameEntry, afterEntry⟩
  refine ⟨?_, sameEntry, List.tail_eq_of_cons_eq afterEntry⟩
  cases version_eq : program.version
  cases otherVersion_eq : other.version
  simp_all [UInt8.toNat_inj]

theorem toList_listing (program : Program) :
    program.listing.toList = program.headline.toList ++
      (requirementsText program.capabilities ++
        rowsText 0 (program.offsets.toList.zip program.instructions.toList)) := by
  rw [listing, String.toList_append, String.toList_append, toList_requirements, toList_rows,
    List.append_assoc]

/-- The listing shows all of a program in which every instruction has an offset. -/
theorem eq_of_listing_eq {other : Program} (placed : program.offsets.size = program.size)
    (otherPlaced : other.offsets.size = other.size) (same : program.listing = other.listing) :
    program = other := by
  rw [← String.toList_inj, toList_listing, toList_listing] at same
  rcases headline_append_inj same with ⟨sameVersion, sameEntry, same⟩
  rcases requirementsText_append_inj same with ⟨sameCapabilities, same⟩
  have sameRows := rowsText_inj same
  have offsets_eq := congrArg (List.map Prod.fst) sameRows
  have instructions_eq := congrArg (List.map Prod.snd) sameRows
  have lengths (program : Program) (placed : program.offsets.size = program.size) :
      program.offsets.toList.length = program.instructions.toList.length := by
    rwa [Array.length_toList, Array.length_toList]
  rw [List.map_fst_zip (Nat.le_of_eq (lengths program placed)),
    List.map_fst_zip (Nat.le_of_eq (lengths other otherPlaced))] at offsets_eq
  rw [List.map_snd_zip (Nat.le_of_eq (lengths program placed).symm),
    List.map_snd_zip (Nat.le_of_eq (lengths other otherPlaced).symm)] at instructions_eq
  cases program
  cases other
  simp_all [Array.toList_inj]

end Program

namespace Load

/-- The listing of a loaded program shows all of it, whatever it was loaded from and under which
options. -/
theorem listing_inj_of_loaded {options otherOptions : LoadOptions} {bytes otherBytes : List UInt8}
    {program other : Program} (loaded : load options bytes = .ok program)
    (otherLoaded : load otherOptions otherBytes = .ok other) :
    program.listing = other.listing ↔ program = other := by
  constructor
  · exact Program.eq_of_listing_eq (size_offsets_of_load loaded)
      (size_offsets_of_load otherLoaded)
  · rintro rfl
    rfl

/-- The bytes of a program that declares two capabilities and halts. -/
def declaringBytes (first second : UInt8) : List UInt8 :=
  [0x43, 0x50, 0x53, 0x54, 1, 0, 0, 0, 0, 0, 0, 0, 0, 2, 0, first, 0, second, 0, 0, 0, 1,
    Opcode.halt.byte]

/-- A program that does nothing but declare capabilities. -/
def declaring (ids : List CapabilityId) : Program where
  instructions := #[.halt]
  offsets := #[0]
  entry := 0
  capabilities := ids
  version := ⟨1, 0⟩

/-- The listings of two programs that differ in the order of their declarations. -/
theorem listing_inj_of_loaded_order :
    load {} (declaringBytes 1 2) = .ok (declaring [⟨1⟩, ⟨2⟩]) ∧
      load { maxCodeLength := 1 } (declaringBytes 2 1) = .ok (declaring [⟨2⟩, ⟨1⟩]) ∧
      (declaring [⟨1⟩, ⟨2⟩]).listing ≠ (declaring [⟨2⟩, ⟨1⟩]).listing := by
  have loaded : load {} (declaringBytes 1 2) = .ok (declaring [⟨1⟩, ⟨2⟩]) := by cbv
  have otherLoaded :
      load { maxCodeLength := 1 } (declaringBytes 2 1) = .ok (declaring [⟨2⟩, ⟨1⟩]) := by
    cbv
  refine ⟨loaded, otherLoaded, ?_⟩
  intro same
  exact absurd ((listing_inj_of_loaded loaded otherLoaded).1 same) (by decide)

end Load

end CapabilityMachine
