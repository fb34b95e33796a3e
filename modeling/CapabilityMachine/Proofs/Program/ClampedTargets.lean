import CapabilityMachine.Proofs.Program.Finishing
/-!
# Targets that are too large to be written

A target has four bytes, and one that they cannot hold is written as the largest number that they
can. No instruction starts at that offset. It can still be the end of the code, in a code section
that has the greatest length that a container admits, and a branch with a clamped target is then
loaded as a branch to the end of the code. Containers with any other length of code are refused.
-/

namespace CapabilityMachine

open Outcome

namespace Instruction

variable {instruction : Instruction} {target : Nat}

/-- The instruction with the target that is written for its own. -/
def clamped (instruction : Instruction) : Instruction :=
  match instruction.target? with
  | none => instruction
  | some target => instruction.withTarget (min target maxTarget)

theorem target?_clamped (instruction : Instruction) :
    instruction.clamped.target? = instruction.target?.map (min · maxTarget) := by
  unfold clamped
  split <;> simp_all

theorem encode_clamped (instruction : Instruction) :
    instruction.clamped.encode = instruction.encode := by
  cases instruction <;> simp [clamped, target?, withTarget, encode, opcode, operandNumber]

theorem clamped_eq (isTarget : instruction.target? = some target) (oversized : maxTarget ≤ target) :
    instruction.clamped = instruction.withTarget maxTarget := by
  simp [clamped, isTarget, Nat.min_eq_right oversized]

end Instruction

namespace Code

variable {rest : List UInt8} {listing : List Instruction}

theorem spells_clamped (front : List Instruction) :
    Spells (encode front) (front.map Instruction.clamped) := by
  constructor
  · simp [encode, List.flatMap_map, Instruction.encode_clamped]
  · intro instruction member target isTarget
    rcases List.mem_map.1 member with ⟨original, _, rfl⟩
    rw [Instruction.target?_clamped, Option.mem_def, Option.map_eq_some_iff] at isTarget
    rcases isTarget with ⟨written, _, rfl⟩
    exact Nat.min_le_right _ _

/-- A code section that starts with encoded instructions spells a listing that starts with them. -/
theorem Spells.exists_append_of_encode {front : List Instruction}
    (spells : Spells (encode front ++ rest) listing) :
    ∃ back, listing = front.map Instruction.clamped ++ back := by
  have decoded := decodeFrom_of_spells 0 spells
  rw [decodeFrom_append 0 rest (spells_clamped front)] at decoded
  rcases bind_eq_ok.1 decoded with ⟨later, _, placed_eq⟩
  have same := congrArg (List.map PlacedInstruction.instruction) (pure_eq_ok.1 placed_eq)
  rw [map_instruction_placeFrom, List.map_append, map_instruction_placeFrom] at same
  exact ⟨_, same⟩

end Code

namespace Container

variable {limit other : Nat} {bytes code : List UInt8} {header : Header}

theorem Holds.mono (holds : Holds limit bytes header code) (le : limit ≤ other) :
    Holds other bytes header code :=
  ⟨holds.bytes_eq, holds.wellFormed, Nat.le_trans holds.length_le le⟩

theorem Holds.code_eq {otherHeader : Header} {otherCode : List UInt8}
    (holds : Holds limit bytes header code) (otherHolds : Holds other bytes otherHeader otherCode) :
    otherCode = code :=
  ((holds.mono (Nat.le_max_left limit other)).unique
    (otherHolds.mono (Nat.le_max_right limit other))).2

theorem Holds.length_le_maxTarget (holds : Holds limit bytes header code) :
    code.length ≤ maxTarget :=
  Nat.le_of_lt_succ holds.wellFormed.codeLength_lt

end Container

namespace Load

open Container Code Listing

variable {options : LoadOptions} {bytes : List UInt8} {header : Header}
  {listing instructions : List Instruction} {instruction : Instruction} {program : Program}
  {target limit index : Nat}

theorem exists_resolved {code : List Instruction}
    (resolved : List.Forall₂ (Resolves listing) code instructions)
    (present : code[index]? = some instruction) :
    ∃ result, instructions[index]? = some result ∧ Resolves listing instruction result := by
  rcases List.getElem?_eq_some_iff.1 present with ⟨inside, rfl⟩
  have resultInside : index < instructions.length := resolved.length_eq ▸ inside
  exact ⟨_, List.getElem?_eq_getElem resultInside, resolved.get inside resultInside⟩

/-- The largest target that can be written is no instruction of a code section, only the end of the
longest one. -/
theorem eq_length_of_isBoundary_maxTarget (isBoundary : IsBoundary listing maxTarget index)
    (fits : codeLength listing ≤ maxTarget) :
    codeLength listing = maxTarget ∧ index = listing.length := by
  have within := offset_le_codeLength listing index
  rw [isBoundary.2] at within
  have length_eq : codeLength listing = maxTarget := Nat.le_antisymm fits within
  refine ⟨length_eq, isBoundary.unique ⟨Nat.le_refl _, ?_⟩⟩
  rw [offset, List.take_length, length_eq]

/-- The bytes are refused unless their code section has the greatest length that there is, and then
the instruction with the index leads to the end of the code. -/
structure LeadsToEndOnly (options : LoadOptions) (bytes : List UInt8) (codeLength index : Nat)
    (instruction : Instruction) : Prop where
  refused : codeLength ≠ maxTarget → ∃ error, load options bytes = .error error
  loaded : ∀ program, load options bytes = .ok program →
    codeLength = maxTarget ∧ maxTarget ≤ options.maxCodeLength ∧
      program.get? index = some (instruction.withTarget program.size)

theorem leadsToEndOnly_of_holds {code : List UInt8} {front : List Instruction} {back : List UInt8}
    (isTarget : instruction.target? = some target) (oversized : maxTarget ≤ target)
    (holds : Holds limit bytes header code)
    (code_eq : code = encode (front ++ [instruction]) ++ back) :
    LeadsToEndOnly options bytes code.length front.length instruction := by
  have loaded (program : Program) (isLoaded : load options bytes = .ok program) :
      code.length = maxTarget ∧ maxTarget ≤ options.maxCodeLength ∧
        program.get? front.length = some (instruction.withTarget program.size) := by
    rcases load_eq_ok.1 isLoaded with ⟨_, listing, ⟨read, others, spells⟩, _, _, _, denotes, _⟩
    have same : read = code := holds.code_eq others
    rw [same] at others spells
    have length_eq : code.length = codeLength listing := by rw [spells.1, length_encode]
    have listed : listing[front.length]? = some (instruction.withTarget maxTarget) := by
      rw [code_eq] at spells
      rcases spells.exists_append_of_encode with ⟨later, rfl⟩
      simp [Instruction.clamped_eq isTarget oversized]
    rcases exists_resolved denotes.instructions listed with ⟨result, present, resolves⟩
    simp only [Resolves, Instruction.target?_withTarget, isTarget, Option.map_some] at resolves
    rcases resolves with ⟨index, isBoundary, rfl⟩
    rcases eq_length_of_isBoundary_maxTarget isBoundary (length_eq ▸ holds.length_le_maxTarget) with
      ⟨full, rfl⟩
    rw [length_eq, full, Program.get?, ← Array.getElem?_toList, present, denotes.size_eq]
    refine ⟨rfl, ?_, by simp⟩
    rw [← full, ← length_eq]
    exact others.length_le
  refine ⟨?_, loaded⟩
  intro notFull
  cases outcome : load options bytes with
  | error error => exact ⟨error, rfl⟩
  | ok program => exact absurd (loaded program outcome).1 notFull

end Load

namespace Assembler

open History

variable {assembler next : Assembler} {label : Label} {bytes code : List UInt8}

theorem code_of_bind_eq_ok (isBound : assembler.bind label = .ok next) :
    next.code = assembler.code := by
  rw [bind] at isBound
  rcases bind_eq_ok.1 isBound with ⟨here, _, isBound⟩
  split at isBound
  · cases isBound
  · cases isBound
  · cases isBound
    rfl

theorem code_declare (assembler : Assembler) (id : CapabilityId) :
    (assembler.declare id).code = assembler.code := by
  rcases assembler.declare_eq id with ⟨capabilities, declare_eq⟩
  rw [declare_eq]

theorem size_code_emit (assembler : Assembler) (instruction : Instruction) :
    (assembler.emit instruction).code.size =
      assembler.code.size + instruction.encodedLength := by
  simp [emit, ← Array.length_toList]

theorem size_code_emitBranch (assembler : Assembler) (instruction : Instruction) (label : Label) :
    (assembler.emitBranch instruction label).code.size =
      assembler.code.size + instruction.encodedLength := by
  unfold emitBranch
  split
  · exact size_code_emit assembler instruction
  · simp [size_code_emit]

/-- The code grows by what is emitted, whether or not it has outgrown the container. -/
theorem size_code_operate (assembler : Assembler) (operation : Operation) :
    (assembler.operate operation).2.code.size = assembler.code.size +
      ((emission? operation).map fun emission => emission.instruction.encodedLength).getD 0 := by
  cases operation with
  | label => rfl
  | bind label =>
    cases isBound : assembler.bind label with
    | error error => simp [operate, perform, isBound, Session.settle, emission?]
    | ok next =>
      simp [operate, perform, isBound, Session.settle, emission?, code_of_bind_eq_ok isBound, pure,
        Except.pure]
  | setEntry label => rfl
  | declare id => exact congrArg Array.size (assembler.code_declare id)
  | emit | push => exact size_code_emit assembler _
  | emitBranch | jump | branch | call => exact size_code_emitBranch assembler _ _
  | cap id | invoke id =>
    refine (size_code_emit (assembler.declare id) _).trans ?_
    rw [code_declare]
    rfl

theorem size_code_built (history : List Operation) :
    (built history).code.size = size history := by
  induction history using List.reverseRecOn with
  | nil => rfl
  | append_singleton history operation ih =>
    rw [built_concat, size_code_operate, ih, size_concat]

theorem length_le_length_patch (code : List UInt8) (position target : Nat) :
    code.length ≤ (patch code position target).length := by
  simp only [patch, List.length_append, List.length_take, List.length_drop,
    BigEndian.length_encode]
  omega

theorem length_le_of_foldlM_fill {before : List UInt8} {fixups : List Fixup}
    (filled : fixups.foldlM assembler.fill before = .ok code) : before.length ≤ code.length := by
  induction fixups generalizing before with
  | nil => rw [pure_eq_ok.1 filled]
  | cons fixup rest ih =>
    rw [List.foldlM_cons] at filled
    rcases bind_eq_ok.1 filled with ⟨patched, once, filled⟩
    rcases bind_eq_ok.1 once with ⟨target, _, patched_eq⟩
    rw [pure_eq_ok.1 patched_eq] at filled
    exact Nat.le_trans (length_le_length_patch before _ target) (ih filled)

/-- What is finished fits the container. -/
theorem size_code_le_of_finish (finished : assembler.finish = .ok bytes) :
    assembler.code.size ≤ Container.maxCodeLength := by
  rcases bind_eq_ok.1 finished with ⟨code, patched, finished⟩
  rcases bind_eq_ok.1 finished with ⟨entry, _, written⟩
  have grown := length_le_of_foldlM_fill patched
  rw [Array.length_toList] at grown
  rw [Container.write] at written
  split at written
  · cases written
  · split at written
    · cases written
    · omega

end Assembler

namespace History

open Assembler Container Load

variable {history : List Operation} {bytes : List UInt8}

theorem exists_holds_of_finish (finished : (built history).finish = .ok bytes) :
    ∃ header offsets, Holds maxCodeLength bytes header (Code.encode (listing history offsets)) := by
  have fits : size history ≤ maxCodeLength := by
    rw [← size_code_built]
    exact size_code_le_of_finish finished
  have follows := follows_built fits
  rcases Listing.exists_first_or (Unresolved history) with ⟨index, label, first⟩ | resolved
  · rw [follows.finish_of_unresolved first] at finished
    cases finished
  by_cases entryBound : ∀ label, entry history = some label → Bound history label
  · rw [follows.finish_of_resolved fits resolved entryBound] at finished
    rcases Nat.lt_or_ge maxCapabilities (capabilities history).length with tooMany | few
    · rw [Container.write, if_pos tooMany] at finished
      cases finished
    · rw [write_eq fits few] at finished
      cases finished
      refine ⟨header history (built history).placement, (built history).placement, ?_, ?_, ?_⟩
      · rw [Listing.length_encode, codeLength_listing]
      · rw [Listing.length_encode, codeLength_listing]
        exact wellFormed_header fits few follows.locates_placement entryBound
      · rwa [Listing.length_encode, codeLength_listing]
  · simp only [not_forall] at entryBound
    rcases entryBound with ⟨label, isEntry, unbound⟩
    rw [follows.finish_of_unboundEntry fits resolved isEntry unbound] at finished
    cases finished

theorem leadsToEndOnly_of_finish {instruction : Instruction} {target : Nat}
    {before after : List Operation} {options : LoadOptions}
    (isTarget : instruction.target? = some target) (oversized : maxTarget ≤ target)
    (finished : (built (before ++ .emit instruction :: after)).finish = .ok bytes) :
    LeadsToEndOnly options bytes (size (before ++ .emit instruction :: after))
      (emissions before).length instruction := by
  rcases exists_holds_of_finish finished with ⟨header, offsets, holds⟩
  have split : Code.encode (listing (before ++ .emit instruction :: after) offsets) =
      Code.encode (listing before offsets ++ [instruction]) ++
        Code.encode (listing after offsets) := by
    simp [listing, emissions, emission?, Emission.plain, Emission.resolved, Code.encode]
  have leads : LeadsToEndOnly options bytes _ _ instruction :=
    leadsToEndOnly_of_holds isTarget oversized holds split
  rwa [Listing.length_encode, codeLength_listing, listing, List.length_map] at leads

end History

namespace Load

open Assembler Container Code Listing History

/-- A branch with a target that is clamped is written for an offset at which no instruction starts.
So what holds it is not loaded, unless its code has all of the four gigabytes that a container can
have and the branch goes to its end. -/
theorem clamped_target_refused (options : LoadOptions) {instruction : Instruction} {target : Nat}
    (isTarget : instruction.target? = some target) (oversized : maxTarget ≤ target) :
    (∀ limit bytes header front back,
      Holds limit bytes header (encode (front ++ [instruction]) ++ back) →
        LeadsToEndOnly options bytes (encode (front ++ [instruction]) ++ back).length front.length
          instruction) ∧
    ∀ before after bytes, (built (before ++ .emit instruction :: after)).finish = .ok bytes →
      LeadsToEndOnly options bytes (size (before ++ .emit instruction :: after))
        (emissions before).length instruction :=
  ⟨fun _ _ _ _ _ holds => leadsToEndOnly_of_holds isTarget oversized holds rfl,
    fun _ _ _ => leadsToEndOnly_of_finish isTarget oversized⟩

end Load

/-! ### The longest code section -/

namespace Listing

open Assembler History Load

variable {rest : List Instruction} {target : Nat}

theorem codeLength_append (front back : List Instruction) :
    codeLength (front ++ back) = codeLength front + codeLength back := by
  rw [← length_encode, Code.encode_append, List.length_append, length_encode, length_encode]

theorem codeLength_replicate (count : Nat) (instruction : Instruction) :
    codeLength (List.replicate count instruction) = count * instruction.encodedLength := by
  induction count with
  | zero => simp [codeLength]
  | succ count ih => rw [List.replicate_succ, codeLength, ih, Nat.succ_mul, Nat.add_comm]

/-- Instructions that take up the given number of bytes. -/
def filler (length : Nat) : List Instruction :=
  List.replicate (length / 9) (.push 0) ++ List.replicate (length % 9) .nop

theorem codeLength_filler (length : Nat) : codeLength (filler length) = length := by
  have widths : (Instruction.push 0).encodedLength = 9 ∧ Instruction.nop.encodedLength = 1 := by
    decide
  rw [filler, codeLength_append, codeLength_replicate, codeLength_replicate, widths.1, widths.2,
    Nat.mul_one, Nat.div_add_mod']

theorem mem_filler {length : Nat} {instruction : Instruction}
    (member : instruction ∈ filler length) : instruction = .push 0 ∨ instruction = .nop := by
  rw [filler, List.mem_append, List.mem_replicate, List.mem_replicate] at member
  exact member.imp And.right And.right

/-- Instructions that need nothing but their place: no target, no capability and no depth. -/
def Inert (listing : List Instruction) : Prop :=
  ∀ instruction ∈ listing, instruction.target? = none ∧ instruction.capability? = none ∧
    ∀ depth, instruction ≠ .pick depth

theorem inert_filler (length : Nat) : Inert (filler length) := by
  intro instruction member
  rcases mem_filler member with rfl | rfl <;> exact ⟨rfl, rfl, nofun⟩

theorem Inert.capabilities_jump_cons (inert : Inert rest) (target : Nat) :
    capabilities (.jump target :: rest) = [] := by
  have noneNamed : (Instruction.jump target :: rest).filterMap Instruction.capability? = [] := by
    simpa [Instruction.capability?] using fun instruction member => (inert instruction member).2.1
  rw [capabilities, noneNamed]
  rfl

theorem Inert.few_capabilities (inert : Inert rest) (target : Nat) :
    (capabilities (.jump target :: rest)).length ≤ Container.maxCapabilities := by
  rw [inert.capabilities_jump_cons]
  exact Nat.zero_le _

theorem Inert.encode_relocated (inert : Inert rest) (oversized : maxTarget ≤ target)
    (full : codeLength (.jump target :: rest) = maxTarget) :
    Code.encode (relocated (.jump (rest.length + 1) :: rest)) =
      Code.encode (.jump target :: rest) := by
  have atEnd : offset (.jump (rest.length + 1) :: rest) (rest.length + 1) = maxTarget :=
    (offset_length (.jump (rest.length + 1) :: rest)).trans ((length_encode _).trans full)
  have first : relocate (.jump (rest.length + 1) :: rest) (.jump (rest.length + 1)) =
      (Instruction.jump target).clamped := by
    rw [Instruction.clamped_eq rfl oversized, ← atEnd]
    rfl
  have others : rest.map (relocate (.jump (rest.length + 1) :: rest)) = rest := by
    conv_rhs => rw [← List.map_id rest]
    apply List.map_congr_left
    intro instruction member
    rw [relocate, (inert instruction member).1, id]
  rw [relocated, List.map_cons, first, others, Code.encode_cons, Code.encode_cons,
    Instruction.encode_clamped]

theorem finish_map_emit {listing : List Instruction}
    (fits : codeLength listing ≤ Container.maxCodeLength) :
    (built (listing.map .emit)).finish = Container.write 0 [] (Code.encode listing) := by
  have emissions_eq : emissions (listing.map .emit) = listing.map Emission.plain := by
    simp [emissions, emission?, List.filterMap_map, Function.comp_def]
  have listing_eq (offsets : Label → Nat) :
      History.listing (listing.map .emit) offsets = listing := by
    simp [History.listing, emissions_eq, Emission.resolved, Emission.plain, Function.comp_def]
  have noEntry : History.entry (listing.map .emit) = none := by
    simp [History.entry, chosen?, List.filterMap_map, Function.comp_def]
  have noCapabilities : History.capabilities (listing.map .emit) = [] := by
    simp [History.capabilities, declared?, List.filterMap_map, Function.comp_def]
  have sizeFits : size (listing.map .emit) ≤ Container.maxCodeLength := by
    rwa [← codeLength_listing _ fun _ => 0, listing_eq]
  have resolved : ∀ index label, ¬Unresolved (listing.map .emit) index label := by
    rintro index label ⟨emission, present, isLabel, _⟩
    have member := List.mem_of_getElem? present
    rw [emissions_eq] at member
    rcases List.mem_map.1 member with ⟨instruction, _, rfl⟩
    cases isLabel
  rw [(follows_built sizeFits).finish_of_resolved sizeFits resolved (by simp [noEntry]),
    noCapabilities, listing_eq, History.entryOffset, noEntry]
  rfl

theorem Inert.finish_jump_cons (inert : Inert rest) (oversized : maxTarget ≤ target)
    (full : codeLength (.jump target :: rest) = maxTarget) :
    (built ((.jump target :: rest).map .emit)).finish =
      .ok (container (.jump (rest.length + 1) :: rest)) := by
  have fits : codeLength (.jump (rest.length + 1) :: rest) ≤ Container.maxCodeLength :=
    Nat.le_of_eq full
  rw [finish_map_emit (Nat.le_of_eq full), ← inert.encode_relocated oversized full,
    ← write_relocated fits (inert.few_capabilities _), inert.capabilities_jump_cons]

theorem Inert.load_jump_cons (inert : Inert rest)
    (full : codeLength (.jump target :: rest) = maxTarget) :
    load { maxCodeLength := maxTarget } (container (.jump (rest.length + 1) :: rest)) =
      .ok (program (.jump (rest.length + 1) :: rest)) := by
  have fits : codeLength (.jump (rest.length + 1) :: rest) ≤ maxTarget := Nat.le_of_eq full
  have inside : ∀ index target, ¬LeadsOut (.jump (rest.length + 1) :: rest) index target := by
    rintro index target ⟨instruction, present, isTarget, outside⟩
    rcases List.mem_cons.1 (List.mem_of_getElem? present) with rfl | member
    · cases isTarget
      simp at outside
    · rw [(inert instruction member).1] at isTarget
      cases isTarget
  have proven : Proven (program (.jump (rest.length + 1) :: rest)) := by
    intro index depth isPick
    have listed : (Instruction.jump (rest.length + 1) :: rest)[index]? = some (.pick depth) := by
      simpa [Program.get?, program] using isPick
    rcases List.mem_cons.1 (List.mem_of_getElem? listed) with same | member
    · cases same
    · exact absurd rfl ((inert _ member).2.2 depth)
  exact load_eq_ok.2 ⟨_, _, lists_container fits (inert.few_capabilities _) fits,
    declared_relocated _, by simp [Known], by simp [Applied], denotes_relocated inside, proven⟩

theorem Inert.exists_accepted (inert : Inert rest) (oversized : maxTarget ≤ target)
    (full : codeLength (.jump target :: rest) = maxTarget) :
    ∃ bytes program, (built ((.jump target :: rest).map .emit)).finish = .ok bytes ∧
      load { maxCodeLength := maxTarget } bytes = .ok program ∧
      program.get? 0 = some (.jump program.size) :=
  ⟨_, _, inert.finish_jump_cons oversized full, inert.load_jump_cons full, by
    simp [program, Program.get?, Program.size]⟩

/-- Behind a jump whose target has too many bits, the code goes on to the greatest length that there
is. Then it is loaded, and jumps to its end. -/
theorem clamped_target_accepted :
    ∃ bytes program,
      (built ((.jump 0x100000000 :: filler (maxTarget - 5)).map .emit)).finish = .ok bytes ∧
        load { maxCodeLength := maxTarget } bytes = .ok program ∧
        program.get? 0 = some (.jump program.size) := by
  have full : codeLength (.jump 0x100000000 :: filler (maxTarget - 5)) = maxTarget := by
    rw [codeLength, codeLength_filler]
    decide
  exact (inert_filler (maxTarget - 5)).exists_accepted (by decide) full

end Listing

end CapabilityMachine
