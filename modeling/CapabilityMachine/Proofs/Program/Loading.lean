import CapabilityMachine.Proofs.Program.Header
import CapabilityMachine.Proofs.Program.Listing
/-!
# Loading accepts the grammar

Every pass of loading succeeds exactly if what it is there to check holds of the header and of the
listing, and its errors belong to the stage that it checks. Together the passes accept the byte
strings that have what all stages ask for, and an error that is reported tells the first stage that
asks for more.
-/

namespace CapabilityMachine.Load

open Outcome Container Code Listing

variable {α β : Type} {options : LoadOptions} {bytes : List UInt8} {header : Header}
  {listing : List Instruction} {declared : List CapabilityId} {program : Program}
  {error : LoadError}

/-! ### Passes over a list -/

section Lists

variable {problem : α → Option LoadError} {run : α → Except LoadError β} {elements : List α}
  {results : List β}

theorem rejectFirst_eq_ok :
    rejectFirst problem elements = .ok () ↔ ∀ element ∈ elements, problem element = none := by
  rw [← List.findSome?_eq_none_iff, rejectFirst]
  cases elements.findSome? problem <;> simp

/-- The error that is reported is that of the first element that has one. -/
theorem rejectFirst_eq_error_iff :
    rejectFirst problem elements = .error error ↔
      ∃ (index : Nat) (element : α), elements[index]? = some element ∧
        problem element = some error ∧
        ∀ other < index, ∀ element, elements[other]? = some element → problem element = none := by
  have found_iff : rejectFirst problem elements = .error error ↔
      elements.findSome? problem = some error := by
    rw [rejectFirst]
    cases elements.findSome? problem <;> simp
  rw [found_iff, List.findSome?_eq_some_iff]
  constructor
  · rintro ⟨front, element, back, rfl, isProblem, none_before⟩
    refine ⟨front.length, element, by simp, isProblem, ?_⟩
    intro other before present earlier
    rw [List.getElem?_append_left before] at earlier
    exact none_before present (List.mem_of_getElem? earlier)
  · rintro ⟨index, element, present, isProblem, earlier⟩
    rcases List.getElem?_eq_some_iff.1 present with ⟨inside, rfl⟩
    refine ⟨elements.take index, elements[index], elements.drop (index + 1), ?_, isProblem, ?_⟩
    · rw [List.getElem_cons_drop, List.take_append_drop]
    · intro other member
      rcases List.mem_take_iff_getElem.1 member with ⟨position, before, rfl⟩
      apply earlier position (by omega)
      exact List.getElem?_eq_getElem _

theorem exists_of_rejectFirst_eq_error (refused : rejectFirst problem elements = .error error) :
    ∃ element ∈ elements, problem element = some error := by
  rcases rejectFirst_eq_error_iff.1 refused with ⟨index, element, present, isProblem, _⟩
  exact ⟨element, List.mem_of_getElem? present, isProblem⟩

theorem rejectFirst_stage {stage : Stage}
    (belongs : ∀ element error, problem element = some error → error.stage = stage)
    (refused : rejectFirst problem elements = .error error) : error.stage = stage := by
  rcases exists_of_rejectFirst_eq_error refused with ⟨element, _, isProblem⟩
  exact belongs element error isProblem

theorem mapM_eq_ok :
    elements.mapM run = .ok results ↔
      List.Forall₂ (fun element result => run element = .ok result) elements results := by
  induction elements generalizing results with
  | nil =>
    rw [List.mapM_nil, pure_eq_ok, List.forall₂_nil_left_iff]
  | cons element rest ih =>
    simp only [List.mapM_cons, bind_eq_ok, pure_eq_ok, ih, List.forall₂_cons_left_iff]
    constructor
    · rintro ⟨result, ran, others, rested, rfl⟩
      exact ⟨result, others, ran, rested, rfl⟩
    · rintro ⟨result, others, ran, rested, rfl⟩
      exact ⟨result, ran, others, rested, rfl⟩

theorem exists_of_mapM_eq_error (refused : elements.mapM run = .error error) :
    ∃ element ∈ elements, run element = .error error := by
  induction elements with
  | nil => simp at refused
  | cons element rest ih =>
    simp only [List.mapM_cons, bind_eq_error, pure_ne_error, and_false, exists_false,
      or_false] at refused
    rcases refused with refused | ⟨_, _, refused⟩
    · exact ⟨element, List.mem_cons_self, refused⟩
    · rcases ih refused with ⟨other, member, refused⟩
      exact ⟨other, List.mem_cons_of_mem _ member, refused⟩

theorem exists_forall₂_iff {related : α → β → Prop} :
    (∃ results, List.Forall₂ related elements results) ↔
      ∀ element ∈ elements, ∃ result, related element result := by
  induction elements with
  | nil => simp
  | cons element rest ih =>
    rw [List.forall_mem_cons, ← ih]
    simp only [List.forall₂_cons_left_iff]
    constructor
    · rintro ⟨_, result, others, isResult, rested, _⟩
      exact ⟨⟨result, isResult⟩, others, rested⟩
    · rintro ⟨⟨result, isResult⟩, others, rested⟩
      exact ⟨result :: others, result, others, isResult, rested, rfl⟩

end Lists

theorem map_offset_placeFrom (listing : List Instruction) :
    (placeFrom 0 listing).map PlacedInstruction.offset =
      (List.range listing.length).map (offset listing) := by
  apply List.ext_getElem
  · simp
  · intro index _ _
    simp [getElem_placeFrom]

theorem forall_mem_placeFrom (start : Nat) (listing : List Instruction)
    {holds : Instruction → Prop} :
    (∀ placed ∈ placeFrom start listing, holds placed.instruction) ↔
      ∀ instruction ∈ listing, holds instruction := by
  conv_rhs => rw [← map_instruction_placeFrom start listing]
  exact List.forall_mem_map.symm

/-! ### Capabilities -/

theorem rejectFirst_undeclared?_eq_ok :
    rejectFirst (undeclared? declared) (placeFrom 0 listing) = .ok () ↔
      Declared declared listing := by
  rw [rejectFirst_eq_ok, Declared, ← forall_mem_placeFrom 0 listing]
  apply forall₂_congr
  intro placed _
  rw [undeclared?]
  cases placed.instruction.capability? <;> simp

theorem rejectFirst_unknown?_eq_ok {catalog : Catalog} :
    rejectFirst (unknown? catalog) declared = .ok () ↔ Known (some catalog) declared := by
  simp [rejectFirst_eq_ok, unknown?, Known]

theorem misapplied?_eq_none {catalog : Catalog} {placed : PlacedInstruction} :
    misapplied? catalog placed = none ↔
      ∀ id argumentCount, placed.instruction = .invoke id argumentCount →
        ((catalog.find? id).map Signature.arity).getD 0 = argumentCount.toNat := by
  rw [misapplied?]
  split
  · rename_i id argumentCount isInvoke
    simp [isInvoke]
  · rename_i noInvoke
    simp only [true_iff]
    intro id argumentCount isInvoke
    exact absurd isInvoke (noInvoke id argumentCount)

/-- The pass relies on the ones before it, as an id that the catalog does not list counts there as
one that takes no arguments. -/
theorem rejectFirst_misapplied?_eq_ok {catalog : Catalog} (isDeclared : Declared declared listing)
    (known : Known (some catalog) declared) :
    rejectFirst (misapplied? catalog) (placeFrom 0 listing) = .ok () ↔
      Applied (some catalog) listing := by
  have matches_iff :
      rejectFirst (misapplied? catalog) (placeFrom 0 listing) = .ok () ↔
        ∀ instruction ∈ listing, ∀ id argumentCount, instruction = .invoke id argumentCount →
          ((catalog.find? id).map Signature.arity).getD 0 = argumentCount.toNat := by
    rw [rejectFirst_eq_ok, ← forall_mem_placeFrom 0 listing]
    simp only [misapplied?_eq_none]
  rw [matches_iff]
  constructor
  · intro matching table isCatalog id argumentCount member
    cases isCatalog
    have listed := known catalog rfl id (isDeclared _ member id rfl)
    rcases Option.isSome_iff_exists.1 listed with ⟨signature, found⟩
    have arity_eq := matching _ member id argumentCount rfl
    rw [found] at arity_eq
    exact ⟨signature, found, arity_eq⟩
  · rintro applied _ member id argumentCount rfl
    rcases applied catalog rfl id argumentCount member with ⟨signature, found, arity_eq⟩
    rw [found]
    exact arity_eq

theorem checkCapabilities_eq_ok {catalog : Option Catalog} :
    checkCapabilities catalog declared (placeFrom 0 listing) = .ok () ↔
      Declared declared listing ∧ Known catalog declared ∧ Applied catalog listing := by
  simp only [checkCapabilities, check_bind_eq_ok, rejectFirst_undeclared?_eq_ok]
  apply and_congr_right
  intro isDeclared
  cases catalog with
  | none => simp [Known, Applied, pure_eq_ok]
  | some catalog =>
    simp only [check_bind_eq_ok, rejectFirst_unknown?_eq_ok]
    apply and_congr_right
    intro known
    exact rejectFirst_misapplied?_eq_ok isDeclared known

theorem undeclared?_stage {placed : PlacedInstruction}
    (problem : undeclared? declared placed = some error) : error.stage = .declarations := by
  rw [undeclared?] at problem
  split at problem
  · split at problem <;> cases problem
    rfl
  · cases problem

theorem unknown?_stage {catalog : Catalog} {id : CapabilityId}
    (problem : unknown? catalog id = some error) : error.stage = .catalog := by
  rw [unknown?] at problem
  split at problem <;> cases problem
  rfl

theorem misapplied?_stage {catalog : Catalog} {placed : PlacedInstruction}
    (problem : misapplied? catalog placed = some error) : error.stage = .arity := by
  rw [misapplied?] at problem
  split at problem
  · dsimp only at problem
    split at problem <;> cases problem
    rfl
  · cases problem

theorem checkCapabilities_stage {catalog : Option Catalog}
    (refused : checkCapabilities catalog declared (placeFrom 0 listing) = .error error) :
    ¬Declared declared listing ∧ error.stage = .declarations ∨
      Declared declared listing ∧ ¬Known catalog declared ∧ error.stage = .catalog ∨
      Declared declared listing ∧ Known catalog declared ∧ ¬Applied catalog listing ∧
        error.stage = .arity := by
  have isError := refused
  simp only [checkCapabilities, bind_eq_error] at isError
  rcases isError with first | ⟨⟨⟩, isDeclared, second⟩
  · left
    refine ⟨?_, ?_⟩
    · rw [← rejectFirst_undeclared?_eq_ok, first]
      simp
    · exact rejectFirst_stage (fun _ _ => undeclared?_stage) first
  right
  rw [rejectFirst_undeclared?_eq_ok] at isDeclared
  cases catalog with
  | none => exact absurd second pure_ne_error
  | some catalog =>
    simp only [bind_eq_error] at second
    rcases second with second | ⟨⟨⟩, known, third⟩
    · left
      refine ⟨isDeclared, ?_, ?_⟩
      · rw [← rejectFirst_unknown?_eq_ok, second]
        simp
      · exact rejectFirst_stage (fun _ _ => unknown?_stage) second
    right
    rw [rejectFirst_unknown?_eq_ok] at known
    refine ⟨isDeclared, known, ?_, ?_⟩
    · rw [← rejectFirst_misapplied?_eq_ok isDeclared known, third]
      simp
    · exact rejectFirst_stage (fun _ _ => misapplied?_stage) third

/-! ### Boundaries -/

theorem resolveEntry_eq_ok {entry index : Nat} :
    resolveEntry (placeFrom 0 listing) (encode listing).length entry = .ok index ↔
      IsBoundary listing entry index := by
  rw [← boundary?_eq_some, resolveEntry]
  split <;> simp_all

theorem resolveEntry_stage {entry : Nat}
    (refused : resolveEntry (placeFrom 0 listing) (encode listing).length entry = .error error) :
    error.stage = .entry := by
  rw [resolveEntry] at refused
  split at refused
  · cases refused
  · cases refused
    rfl

theorem resolveTarget_eq_ok {placed : PlacedInstruction} {resolved : Instruction} :
    resolveTarget (placeFrom 0 listing) (encode listing).length placed = .ok resolved ↔
      Resolves listing placed.instruction resolved := by
  rw [resolveTarget, Resolves]
  cases placed.instruction.target? with
  | none => exact ⟨fun done => (Except.ok.inj done).symm, fun same => by rw [same]⟩
  | some target =>
    simp only [← boundary?_eq_some]
    cases boundary? (placeFrom 0 listing) (encode listing).length target with
    | none => simp
    | some index => simp [eq_comm]

theorem mapM_resolveTarget_eq_ok {instructions : List Instruction} :
    (placeFrom 0 listing).mapM (resolveTarget (placeFrom 0 listing) (encode listing).length) =
        .ok instructions ↔
      List.Forall₂ (Resolves listing) listing instructions := by
  rw [mapM_eq_ok]
  simp only [resolveTarget_eq_ok]
  rw [← List.forall₂_map_left_iff, map_instruction_placeFrom]

theorem targeted_iff :
    Targeted listing ↔ ∃ instructions, List.Forall₂ (Resolves listing) listing instructions := by
  rw [exists_forall₂_iff, Targeted]
  apply forall₂_congr
  intro instruction _
  simp only [Resolves]
  cases instruction.target? with
  | none => simp
  | some target => simp

theorem mapM_resolveTarget_stage
    (refused : (placeFrom 0 listing).mapM
      (resolveTarget (placeFrom 0 listing) (encode listing).length) = .error error) :
    error.stage = .targets := by
  rcases exists_of_mapM_eq_error refused with ⟨placed, _, refused⟩
  rw [resolveTarget] at refused
  split at refused
  · cases refused
  · split at refused
    · cases refused
    · cases refused
      rfl

/-! ### Depths -/

theorem eq_iff_of_resolves {instruction resolved plain : Instruction}
    (noTarget : plain.target? = none) (resolves : Resolves listing instruction resolved) :
    resolved = plain ↔ instruction = plain := by
  rw [Resolves] at resolves
  split at resolves
  · rw [resolves]
  · rename_i target isTarget
    rcases resolves with ⟨index, _, rfl⟩
    constructor
    · rintro rfl
      cases instruction <;> cases isTarget <;> cases noTarget
    · rintro rfl
      cases noTarget.symm.trans isTarget

theorem getElem?_eq_iff_of_resolved {code instructions : List Instruction} {plain : Instruction}
    (noTarget : plain.target? = none)
    (resolved : List.Forall₂ (Resolves listing) code instructions) (index : Nat) :
    instructions[index]? = some plain ↔ code[index]? = some plain := by
  induction resolved generalizing index with
  | nil => rfl
  | cons resolves _ ih =>
    cases index with
    | zero => simp [eq_iff_of_resolves noTarget resolves]
    | succ index => simpa using ih index

/-- Instructions without a target stand in the program as they are listed. -/
theorem get?_eq_iff_of_denotes {plain : Instruction} (noTarget : plain.target? = none)
    (denotes : Denotes header listing program) (index : Nat) :
    program.get? index = some plain ↔ listing[index]? = some plain := by
  rw [Program.get?, ← Array.getElem?_toList]
  exact getElem?_eq_iff_of_resolved noTarget denotes.instructions index

theorem get?_eq_pick (denotes : Denotes header listing program) (index : Nat) (depth : UInt16) :
    program.get? index = some (.pick depth) ↔ listing[index]? = some (.pick depth) :=
  get?_eq_iff_of_denotes rfl denotes index

theorem unproven?_eq_none {bounds : StackHeight.Bounds} {placed : PlacedInstruction}
    {index : Nat} :
    unproven? bounds placed index = none ↔
      ∀ depth, placed.instruction = .pick depth →
        depth.toNat < (bounds[index]?.join).getD 0 := by
  rw [unproven?]
  split
  · rename_i depth isPick
    simp only [isPick, Instruction.requiredDepth, ite_eq_right_iff, reduceCtorEq, imp_false,
      Nat.not_lt, Instruction.pick.injEq, forall_eq']
    exact Nat.succ_le_iff
  · rename_i noPick
    simp only [true_iff]
    intro depth isPick
    exact absurd isPick (noPick depth)

theorem rejectFirst_unproven?_eq_ok (denotes : Denotes header listing program) :
    rejectFirst (fun (placed, index) =>
        unproven? program.bounds placed index)
        (placeFrom 0 listing).zipIdx = .ok () ↔
      Proven program := by
  simp only [rejectFirst_eq_ok, Prod.forall, List.mem_zipIdx_iff_getElem?, unproven?_eq_none]
  simp only [Proven, get?_eq_pick denotes]
  constructor
  · intro enough index depth isPick
    exact enough ⟨offset listing index, .pick depth⟩ index
      (by simp [getElem?_placeFrom, isPick]) depth rfl
  · intro proven placed index isPlaced depth isPick
    rw [getElem?_placeFrom, Option.map_eq_some_iff] at isPlaced
    rcases isPlaced with ⟨instruction, present, rfl⟩
    cases isPick
    exact proven index depth present

/-- The first `pick` without a proven height is the one that is reported. -/
theorem rejectFirst_unproven?_eq_error {index : Nat} {depth : UInt16}
    (denotes : Denotes header listing program)
    (isPick : program.get? index = some (.pick depth))
    (unproven : (program.bounds[index]?.join).getD 0 ≤ depth.toNat)
    (earlier : ∀ other < index, ∀ depth, program.get? other = some (.pick depth) →
      depth.toNat < (program.bounds[other]?.join).getD 0) :
    rejectFirst (fun (placed, index) =>
        unproven? program.bounds placed index)
        (placeFrom 0 listing).zipIdx =
      .error (.unprovableStackDepth (offset listing index) depth
        ((program.bounds[index]?.join).getD 0)) := by
  simp only [get?_eq_pick denotes] at isPick earlier
  have present : (placeFrom 0 listing).zipIdx[index]? =
      some (⟨offset listing index, .pick depth⟩, index) := by
    simp [List.getElem?_zipIdx, getElem?_placeFrom, isPick]
  refine rejectFirst_eq_error_iff.2 ⟨index, _, present, ?_, ?_⟩
  · simp [unproven?, Instruction.requiredDepth, Nat.lt_succ_of_le unproven]
  · intro other before element present
    rw [List.getElem?_zipIdx, getElem?_placeFrom, Option.map_map, Option.map_eq_some_iff] at present
    rcases present with ⟨instruction, isListed, rfl⟩
    apply unproven?_eq_none.2
    intro otherDepth isOther
    cases isOther
    simpa using earlier other before otherDepth isListed

theorem unproven?_stage {bounds : StackHeight.Bounds} {placed : PlacedInstruction} {index : Nat}
    (problem : unproven? bounds placed index = some error) : error.stage = .depths := by
  rw [unproven?] at problem
  split at problem
  · dsimp only at problem
    split at problem <;> cases problem
    rfl
  · cases problem

/-! ### All passes -/

theorem Lists.unique {otherHeader : Header} {otherListing : List Instruction}
    (lists : Lists options bytes header listing)
    (otherLists : Lists options bytes otherHeader otherListing) :
    otherHeader = header ∧ otherListing = listing := by
  rcases lists with ⟨code, holds, spells⟩
  rcases otherLists with ⟨otherCode, otherHolds, otherSpells⟩
  rcases holds.unique otherHolds with ⟨rfl, rfl⟩
  exact ⟨rfl, otherSpells.unique spells⟩

theorem exists_lists_iff {holds : Header → List Instruction → Prop}
    (lists : Lists options bytes header listing) :
    (∃ header listing, Lists options bytes header listing ∧ holds header listing) ↔
      holds header listing := by
  constructor
  · rintro ⟨otherHeader, otherListing, otherLists, isHeld⟩
    rcases lists.unique otherLists with ⟨rfl, rfl⟩
    exact isHeld
  · intro isHeld
    exact ⟨header, listing, lists, isHeld⟩

theorem load_eq_codeTooLarge {codeLength : Nat} {rest : List UInt8}
    (wellFormed : header.WellFormed codeLength) (tooLong : options.maxCodeLength < codeLength) :
    load options (header.bytes codeLength ++ rest) =
      .error (.codeTooLarge codeLength options.maxCodeLength) := by
  have starts : header.bytes codeLength ++ rest = header.bytes codeLength ++ rest ∧
      header.WellFormed codeLength := ⟨rfl, wellFormed⟩
  rcases wellFormed_iff.1 starts with ⟨behind, headed, taken⟩
  simp only [load, headed, readCode, taken, tooLong, ok_bind, if_true, error_bind]

/-- When everything else is as the grammar asks for, the pass over the depths decides. -/
theorem load_eq_of_denotes (lists : Lists options bytes header listing)
    (isDeclared : Declared header.capabilities listing)
    (known : Known options.catalog header.capabilities)
    (applied : Applied options.catalog listing) (denotes : Denotes header listing program) :
    load options bytes = (do
      rejectFirst (fun (placed, index) => unproven? program.bounds placed index)
        (placeFrom 0 listing).zipIdx
      return program) := by
  rcases lists with ⟨code, holds, spells⟩
  rcases holds_iff.1 holds with ⟨rest, headed, coded⟩
  have decoded := decode_eq_ok.2 ⟨listing, spells, rfl⟩
  have checked := checkCapabilities_eq_ok.2 ⟨isDeclared, known, applied⟩
  have entered := resolveEntry_eq_ok.2 denotes.entry
  have resolved := mapM_resolveTarget_eq_ok.2 denotes.instructions
  rw [← spells.1] at entered resolved
  simp only [load, headed, coded, decoded, checked, entered, resolved, ok_bind]
  rcases program with ⟨instructions, offsets, entry, capabilities, version⟩
  rcases denotes with ⟨_, offsets_eq, _, rfl, rfl⟩
  rw [map_offset_placeFrom, ← offsets_eq]
  rfl

theorem load_eq_ok :
    load options bytes = .ok program ↔
      ∃ header listing, Lists options bytes header listing ∧
        Declared header.capabilities listing ∧ Known options.catalog header.capabilities ∧
        Applied options.catalog listing ∧ Denotes header listing program ∧ Proven program := by
  constructor
  · intro loaded
    simp only [load, bind_eq_ok, Prod.exists, pure_eq_ok] at loaded
    rcases loaded with ⟨header, rest, headed, code, coded, placed, decoded, ⟨⟩, checked, entry,
      entered, instructions, resolved, ⟨⟩, proven, rfl⟩
    rcases decode_eq_ok.1 decoded with ⟨listing, spells, rfl⟩
    rcases checkCapabilities_eq_ok.1 checked with ⟨isDeclared, known, applied⟩
    have lists : Lists options bytes header listing :=
      ⟨code, holds_iff.2 ⟨rest, headed, coded⟩, spells⟩
    rw [spells.1] at entered resolved
    suffices denotes : Denotes header listing _ from
      ⟨header, listing, lists, isDeclared, known, applied, denotes,
        (rejectFirst_unproven?_eq_ok denotes).1 proven⟩
    exact {
      instructions := mapM_resolveTarget_eq_ok.1 resolved
      offsets := map_offset_placeFrom listing
      entry := resolveEntry_eq_ok.1 entered
      capabilities := rfl
      version := rfl }
  · rintro ⟨header, listing, lists, isDeclared, known, applied, denotes, proven⟩
    rw [load_eq_of_denotes lists isDeclared known applied denotes,
      (rejectFirst_unproven?_eq_ok denotes).2 proven]
    rfl

/-! ### Loaded programs -/

theorem target_le_of_resolves {instruction resolved : Instruction}
    (resolves : Resolves listing instruction resolved) :
    ∀ target ∈ resolved.target?, target ≤ listing.length := by
  rw [Resolves] at resolves
  split at resolves
  · rename_i noTarget
    rw [resolves, noTarget]
    intro target named
    cases named
  · rename_i target isTarget
    rcases resolves with ⟨index, ⟨inside, _⟩, rfl⟩
    intro found named
    cases instruction <;> cases isTarget <;> cases named <;> exact inside

theorem forall_target_le {code instructions : List Instruction}
    (resolved : List.Forall₂ (Resolves listing) code instructions) :
    ∀ instruction ∈ instructions, ∀ target ∈ instruction.target?, target ≤ listing.length := by
  induction resolved with
  | nil =>
    intro instruction member
    cases member
  | cons resolves _ ih =>
    intro instruction member
    rcases List.mem_cons.1 member with rfl | later
    · exact target_le_of_resolves resolves
    · exact ih instruction later

theorem Denotes.size_eq (denotes : Denotes header listing program) :
    program.size = listing.length := by
  rw [denotes.instructions.length_eq]
  rfl

theorem closed_of_load (loaded : load options bytes = .ok program) : program.Closed := by
  rcases load_eq_ok.1 loaded with ⟨header, listing, _, _, _, _, denotes, _⟩
  constructor
  · rw [denotes.size_eq]
    exact denotes.entry.1
  · rw [denotes.size_eq]
    exact forall_target_le denotes.instructions

theorem size_offsets_of_load (loaded : load options bytes = .ok program) :
    program.offsets.size = program.size := by
  rcases load_eq_ok.1 loaded with ⟨header, listing, _, _, _, _, denotes, _⟩
  rw [← Array.length_toList, denotes.offsets, List.length_map, List.length_range, denotes.size_eq]

/-- Every instruction of a loaded program has a byte offset. -/
theorem exists_offset (loaded : load options bytes = .ok program) {index : Nat}
    (inside : index < program.size) : ∃ offset, program.offset? index = some offset := by
  rw [← size_offsets_of_load loaded] at inside
  exact ⟨_, Array.getElem?_eq_getElem inside⟩

/-! ### Loading with a catalog -/

theorem mem_capabilities_of_load (loaded : load options bytes = .ok program) {index : Nat}
    {instruction : Instruction} {id : CapabilityId}
    (fetched : program.get? index = some instruction) (names : instruction.capability? = some id) :
    id ∈ program.capabilities := by
  rcases load_eq_ok.1 loaded with ⟨header, listing, _, isDeclared, _, _, denotes, _⟩
  have noTarget : instruction.target? = none := by
    cases instruction <;> cases names <;> rfl
  have listed := (get?_eq_iff_of_denotes noTarget denotes index).1 fetched
  rw [denotes.capabilities]
  exact isDeclared instruction (List.mem_of_getElem? listed) id names

theorem applied_iff (denotes : Denotes header listing program) (catalog : Catalog) :
    Applied (some catalog) listing ↔
      ∀ index id argumentCount, program.get? index = some (.invoke id argumentCount) →
        ∃ signature, catalog.find? id = some signature ∧
          signature.arity = argumentCount.toNat := by
  have get?_eq_invoke (index : Nat) (id : CapabilityId) (argumentCount : UInt8) :
      program.get? index = some (.invoke id argumentCount) ↔
        listing[index]? = some (.invoke id argumentCount) :=
    get?_eq_iff_of_denotes rfl denotes index
  simp only [get?_eq_invoke]
  constructor
  · intro applied index id argumentCount listed
    exact applied catalog rfl id argumentCount (List.mem_of_getElem? listed)
  · rintro applied _ ⟨⟩ id argumentCount member
    rcases List.mem_iff_getElem?.1 member with ⟨index, listed⟩
    exact applied index id argumentCount listed

/-- A catalog has no influence on what is loaded, only on whether it is. -/
theorem load_with_catalog_eq_ok (options : LoadOptions) (catalog : Catalog) :
    load { options with catalog := some catalog } bytes = .ok program ↔
      load { options with catalog := none } bytes = .ok program ∧
        (∀ id ∈ program.capabilities, catalog.contains id = true) ∧
        ∀ index id argumentCount, program.get? index = some (.invoke id argumentCount) →
          ∃ signature, catalog.find? id = some signature ∧
            signature.arity = argumentCount.toNat := by
  rw [load_eq_ok, load_eq_ok]
  constructor
  · rintro ⟨header, listing, lists, isDeclared, known, applied, denotes, proven⟩
    refine ⟨⟨header, listing, lists, isDeclared, ?_, ?_, denotes, proven⟩, ?_, ?_⟩
    · rintro _ ⟨⟩
    · rintro _ ⟨⟩
    · rw [denotes.capabilities]
      exact known catalog rfl
    · exact (applied_iff denotes catalog).1 applied
  · rintro ⟨⟨header, listing, lists, isDeclared, _, _, denotes, proven⟩, contained, fits⟩
    refine ⟨header, listing, lists, isDeclared, ?_, (applied_iff denotes catalog).2 fits, denotes,
      proven⟩
    rintro _ ⟨⟩
    rw [← denotes.capabilities]
    exact contained

/-! ### The first violation -/

theorem Stage.eq_of_ctorIdx_eq {first second : Stage} (same : first.ctorIdx = second.ctorIdx) :
    first = second := by
  rw [← Stage.ofNat_ctorIdx first, same, Stage.ofNat_ctorIdx]

theorem reaches_header : Reaches options bytes .header := by
  intro earlier before
  exact absurd before (Nat.not_lt_zero _)

theorem Reaches.next {stage next : Stage} (reaches : Reaches options bytes stage)
    (meets : Meets options bytes stage) (adjacent : next.ctorIdx = stage.ctorIdx + 1) :
    Reaches options bytes next := by
  intro earlier before
  rw [Stage.Before, adjacent, Nat.lt_succ_iff_lt_or_eq] at before
  rcases before with before | same
  · exact reaches earlier before
  · rw [Stage.eq_of_ctorIdx_eq same]
    exact meets

theorem meets_header_iff :
    Meets options bytes .header ↔
      ∃ header rest, readHeader bytes = .ok (header, rest) ∧
        ∃ taken, takeNumber 4 rest = .ok taken := by
  simp only [Meets, wellFormed_iff, Prod.exists]
  constructor
  · rintro ⟨header, codeLength, rest, behind, headed, taken⟩
    exact ⟨header, behind, headed, codeLength, rest, taken⟩
  · rintro ⟨header, behind, headed, codeLength, rest, taken⟩
    exact ⟨header, codeLength, rest, behind, headed, taken⟩

theorem meets_codeLength_iff :
    Meets options bytes .codeLength ↔
      ∃ header rest, readHeader bytes = .ok (header, rest) ∧
        ∃ code, readCode options.maxCodeLength rest = .ok code := by
  simp only [Meets, holds_iff]
  constructor
  · rintro ⟨header, code, rest, headed, coded⟩
    exact ⟨header, rest, headed, code, coded⟩
  · rintro ⟨header, rest, headed, code, coded⟩
    exact ⟨header, code, rest, headed, coded⟩

theorem earliestViolated_of_readHeader (refused : readHeader bytes = .error error) :
    EarliestViolated options bytes error.stage := by
  rw [readHeader_stage refused]
  refine ⟨reaches_header, ?_⟩
  intro meets
  rcases meets_header_iff.1 meets with ⟨header, rest, headed, _⟩
  rw [refused] at headed
  cases headed

theorem earliestViolated_of_readCode {rest : List UInt8}
    (headed : readHeader bytes = .ok (header, rest))
    (refused : readCode options.maxCodeLength rest = .error error) :
    EarliestViolated options bytes error.stage := by
  rcases readCode_stage refused with ⟨notTaken, stage_eq⟩ | ⟨taken, stage_eq⟩ <;> rw [stage_eq]
  · refine ⟨reaches_header, ?_⟩
    intro meets
    rcases meets_header_iff.1 meets with ⟨_, _, otherHeaded, taken⟩
    rw [headed] at otherHeaded
    cases otherHeaded
    rw [notTaken] at taken
    rcases taken with ⟨_, ⟨⟩⟩
  · refine ⟨reaches_header.next (meets_header_iff.2 ⟨header, rest, headed, taken⟩) rfl, ?_⟩
    intro meets
    rcases meets_codeLength_iff.1 meets with ⟨_, _, otherHeaded, coded⟩
    rw [headed] at otherHeaded
    cases otherHeaded
    rw [refused] at coded
    rcases coded with ⟨_, ⟨⟩⟩

theorem reaches_encoding {code : List UInt8}
    (holds : Holds options.maxCodeLength bytes header code) : Reaches options bytes .encoding := by
  have meetsHeader : Meets options bytes .header :=
    ⟨header, code.length, code, holds.bytes_eq, holds.wellFormed⟩
  have meetsCodeLength : Meets options bytes .codeLength := ⟨header, code, holds⟩
  exact (reaches_header.next meetsHeader rfl).next meetsCodeLength rfl

theorem earliestViolated_of_decode {code : List UInt8}
    (holds : Holds options.maxCodeLength bytes header code) (refused : decode code = .error error) :
    EarliestViolated options bytes error.stage := by
  rw [decodeFrom_stage refused]
  refine ⟨reaches_encoding holds, ?_⟩
  rintro ⟨otherHeader, listing, otherCode, otherHolds, spells⟩
  rcases holds.unique otherHolds with ⟨rfl, rfl⟩
  rw [decode_eq_ok.2 ⟨listing, spells, rfl⟩] at refused
  cases refused

theorem Lists.reaches (lists : Lists options bytes header listing) :
    Reaches options bytes .declarations := by
  rcases lists with ⟨code, holds, spells⟩
  exact (reaches_encoding holds).next ⟨header, listing, code, holds, spells⟩ rfl

theorem Lists.reaches_catalog (lists : Lists options bytes header listing)
    (isDeclared : Declared header.capabilities listing) : Reaches options bytes .catalog :=
  lists.reaches.next ⟨header, listing, lists, isDeclared⟩ rfl

theorem earliestViolated_of_checkCapabilities (lists : Lists options bytes header listing)
    (refused : checkCapabilities options.catalog header.capabilities (placeFrom 0 listing) =
      .error error) :
    EarliestViolated options bytes error.stage := by
  rcases checkCapabilities_stage refused with ⟨undeclared, stage_eq⟩ |
    ⟨isDeclared, unknown, stage_eq⟩ | ⟨isDeclared, known, misapplied, stage_eq⟩ <;> rw [stage_eq]
  · exact ⟨lists.reaches, mt (exists_lists_iff lists).1 undeclared⟩
  · exact ⟨lists.reaches_catalog isDeclared, mt (exists_lists_iff lists).1 unknown⟩
  · have reaches : Reaches options bytes .arity :=
      (lists.reaches_catalog isDeclared).next ⟨header, listing, lists, known⟩ rfl
    exact ⟨reaches, mt (exists_lists_iff lists).1 misapplied⟩

theorem Lists.reaches_entry (lists : Lists options bytes header listing)
    (checked : checkCapabilities options.catalog header.capabilities (placeFrom 0 listing) =
      .ok ()) :
    Reaches options bytes .entry := by
  rcases checkCapabilities_eq_ok.1 checked with ⟨isDeclared, known, applied⟩
  have reachesArity : Reaches options bytes .arity :=
    (lists.reaches_catalog isDeclared).next ⟨header, listing, lists, known⟩ rfl
  exact reachesArity.next ⟨header, listing, lists, applied⟩ rfl

theorem earliestViolated_of_resolveEntry (lists : Lists options bytes header listing)
    (reaches : Reaches options bytes .entry)
    (refused : resolveEntry (placeFrom 0 listing) (encode listing).length header.entry =
      .error error) :
    EarliestViolated options bytes error.stage := by
  rw [resolveEntry_stage refused]
  refine ⟨reaches, ?_⟩
  intro meets
  rcases (exists_lists_iff lists).1 meets with ⟨index, isBoundary⟩
  rw [resolveEntry_eq_ok.2 isBoundary] at refused
  cases refused

theorem earliestViolated_of_resolveTarget (lists : Lists options bytes header listing)
    (reaches : Reaches options bytes .targets)
    (refused : (placeFrom 0 listing).mapM
      (resolveTarget (placeFrom 0 listing) (encode listing).length) = .error error) :
    EarliestViolated options bytes error.stage := by
  rw [mapM_resolveTarget_stage refused]
  refine ⟨reaches, ?_⟩
  intro meets
  rcases targeted_iff.1 ((exists_lists_iff lists).1 meets) with ⟨instructions, resolved⟩
  rw [mapM_resolveTarget_eq_ok.2 resolved] at refused
  cases refused

/-- An error belongs to the first stage that asks for something that the byte string does not have.
Of the passes of the loader one fails, and those before it succeed, so that their stages are met. -/
theorem earliestViolated_of_load_eq_error (refused : load options bytes = .error error) :
    EarliestViolated options bytes error.stage := by
  have isError := refused
  simp only [load, bind_eq_error, Prod.exists, pure_ne_error, and_false, exists_false,
    or_false] at isError
  rcases isError with notHeaded | ⟨header, rest, headed, isError⟩
  · exact earliestViolated_of_readHeader notHeaded
  rcases isError with notCoded | ⟨code, coded, isError⟩
  · exact earliestViolated_of_readCode headed notCoded
  have holds := holds_iff.2 ⟨rest, headed, coded⟩
  rcases isError with notDecoded | ⟨placed, decoded, isError⟩
  · exact earliestViolated_of_decode holds notDecoded
  rcases decode_eq_ok.1 decoded with ⟨listing, spells, rfl⟩
  have lists : Lists options bytes header listing := ⟨code, holds, spells⟩
  rcases isError with notChecked | ⟨⟨⟩, checked, isError⟩
  · exact earliestViolated_of_checkCapabilities lists notChecked
  rw [spells.1] at isError
  rcases isError with notEntered | ⟨entry, entered, isError⟩
  · exact earliestViolated_of_resolveEntry lists (lists.reaches_entry checked) notEntered
  have reachesTargets : Reaches options bytes .targets :=
    (lists.reaches_entry checked).next
      ⟨header, listing, lists, entry, resolveEntry_eq_ok.1 entered⟩ rfl
  rcases isError with notResolved | ⟨instructions, resolved, unproven⟩
  · exact earliestViolated_of_resolveTarget lists reachesTargets notResolved
  have targeted : Targeted listing :=
    targeted_iff.2 ⟨instructions, mapM_resolveTarget_eq_ok.1 resolved⟩
  rw [rejectFirst_stage (fun _ _ => unproven?_stage) unproven]
  refine ⟨reachesTargets.next ⟨header, listing, lists, targeted⟩ rfl, ?_⟩
  rintro ⟨otherHeader, otherListing, program, otherLists, denotes, proven⟩
  rcases lists.unique otherLists with ⟨rfl, rfl⟩
  rcases checkCapabilities_eq_ok.1 checked with ⟨isDeclared, known, applied⟩
  rw [load_eq_ok.2 ⟨_, _, lists, isDeclared, known, applied, denotes, proven⟩] at refused
  cases refused

theorem meets_of_load_eq_ok (loaded : load options bytes = .ok program) (stage : Stage) :
    Meets options bytes stage := by
  rcases load_eq_ok.1 loaded with
    ⟨header, listing, lists, isDeclared, known, applied, denotes, proven⟩
  rcases id lists with ⟨code, holds, spells⟩
  cases stage with
  | header => exact ⟨header, code.length, code, holds.bytes_eq, holds.wellFormed⟩
  | codeLength => exact ⟨header, code, holds⟩
  | encoding => exact ⟨header, listing, lists⟩
  | declarations => exact ⟨header, listing, lists, isDeclared⟩
  | catalog => exact ⟨header, listing, lists, known⟩
  | arity => exact ⟨header, listing, lists, applied⟩
  | entry => exact ⟨header, listing, lists, program.entry, denotes.entry⟩
  | targets => exact ⟨header, listing, lists, targeted_iff.2 ⟨_, denotes.instructions⟩⟩
  | depths => exact ⟨header, listing, program, lists, denotes, proven⟩

/-- Loading accepts the grammar: a byte string is loaded exactly if it has what every stage asks
for, the program is then the one that its listing denotes, and otherwise the error tells the first
stage that is violated. -/
theorem load_accepts_grammar (options : LoadOptions) (bytes : List UInt8) :
    (∀ program, load options bytes = .ok program ↔
      ∃ header listing, Lists options bytes header listing ∧
        Declared header.capabilities listing ∧ Known options.catalog header.capabilities ∧
        Applied options.catalog listing ∧ Denotes header listing program ∧ Proven program) ∧
    ((∃ program, load options bytes = .ok program) ↔ ∀ stage, Meets options bytes stage) ∧
    ∀ error, load options bytes = .error error →
      EarliestViolated options bytes error.stage := by
  refine ⟨fun program => load_eq_ok, ⟨?_, ?_⟩, fun error => earliestViolated_of_load_eq_error⟩
  · rintro ⟨program, loaded⟩ stage
    exact meets_of_load_eq_ok loaded stage
  · intro meets
    cases outcome : load options bytes with
    | ok program => exact ⟨program, rfl⟩
    | error error =>
      rcases earliestViolated_of_load_eq_error outcome with ⟨_, violated⟩
      exact absurd (meets error.stage) violated

end CapabilityMachine.Load
