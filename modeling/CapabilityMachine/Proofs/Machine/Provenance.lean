import CapabilityMachine.Host.Device
import CapabilityMachine.Proofs.Machine.Refusal
import CapabilityMachine.Proofs.Machine.Transition
/-!
# Where handles and references come from

No instruction makes up a handle or a reference, and no host action can return one. All handles on
the stack and in memory were issued by the registry of the run for a capability that it grants, and
all references were returned by an allocation of the run. So an invocation through a handle is never
refused, and a run is denied only where it names a capability itself.
-/

namespace CapabilityMachine

open Outcome

/-- If the value is a handle or a reference, it is one of the given ones. -/
def Value.Among (handles : Handle → Prop) (references : Reference → Prop) : Value → Prop
  | cap handle => handles handle
  | ref reference => references reference
  | _ => True

/-- The handles and references on the stack and in memory are among the given ones. -/
structure Core.Among (handles : Handle → Prop) (references : Reference → Prop) (core : Core) :
    Prop where
  stack : ∀ value ∈ core.stack.values, value.Among handles references
  cells : ∀ value ∈ core.memory.cells, value.Among handles references

section Among

variable {handles : Handle → Prop} {references more : Reference → Prop} {value : Value}

theorem Value.Among.mono (among : value.Among handles references)
    (widen : ∀ reference, references reference → more reference) : value.Among handles more := by
  cases value with
  | ref reference => exact widen reference among
  | cap handle => exact among
  | int | bool | unit => trivial

theorem Value.IsPlain.among (plain : value.IsPlain) : value.Among handles references := by
  cases value with
  | ref reference => exact absurd rfl plain.2
  | cap handle => exact absurd rfl plain.1
  | int | bool | unit => trivial

theorem Core.Among.mono {core : Core} (among : core.Among handles references)
    (widen : ∀ reference, references reference → more reference) : core.Among handles more :=
  ⟨fun value member => (among.stack value member).mono widen,
    fun value member => (among.cells value member).mono widen⟩

end Among

namespace Operator

variable {operation : String} {first second result : Value}

theorem isPlain_bool (b : Bool) : (Value.bool b).IsPlain := by
  simp [Value.IsPlain, Value.kind]

theorem isPlain_of_exactly {n : Int} (computed : exactly operation n = .ok result) :
    result.IsPlain := by
  simp only [exactly] at computed
  split at computed <;> cases computed
  simp [Value.IsPlain, Value.kind]

theorem isPlain_of_divided {dividend divisor n : Int}
    (computed : divided operation dividend divisor n = .ok result) : result.IsPlain := by
  simp only [divided] at computed
  split at computed
  · cases computed
  · split at computed <;> cases computed
    simp [Value.IsPlain, Value.kind]

theorem isPlain_of_onInts {compute : Int → Int → Except RuntimeError Value}
    (computed : onInts first second compute = .ok result)
    (plain : ∀ m n, compute m n = .ok result → result.IsPlain) : result.IsPlain := by
  simp only [onInts, bind_eq_ok] at computed
  rcases computed with ⟨m, _, n, _, computed⟩
  exact plain _ _ computed

theorem isPlain_of_onBools {compute : Bool → Bool → Bool}
    (computed : onBools first second compute = .ok result) : result.IsPlain := by
  simp only [onBools, bind_eq_ok, pure_eq_ok] at computed
  rcases computed with ⟨b, _, c, _, rfl⟩
  exact isPlain_bool _

end Operator

open Operator in
theorem BinaryOp.isPlain_of_apply {op : BinaryOp} {first second result : Value}
    (computed : op.apply first second = .ok result) : result.IsPlain := by
  cases op <;> simp only [BinaryOp.apply] at computed
  case add | sub | mul => exact isPlain_of_onInts computed fun _ _ => isPlain_of_exactly
  case div | rem => exact isPlain_of_onInts computed fun _ _ => isPlain_of_divided
  case eq | ne =>
    cases computed
    exact isPlain_bool _
  case lt | le | gt | ge =>
    apply isPlain_of_onInts computed
    rintro m n ⟨⟩
    exact isPlain_bool _
  case and | or => exact isPlain_of_onBools computed

open Operator in
theorem UnaryOp.isPlain_of_apply {op : UnaryOp} {operand result : Value}
    (computed : op.apply operand = .ok result) : result.IsPlain := by
  cases op <;> simp only [UnaryOp.apply, bind_eq_ok] at computed
  case neg =>
    rcases computed with ⟨n, _, computed⟩
    exact isPlain_of_exactly computed
  case not =>
    rcases computed with ⟨b, _, ⟨⟩⟩
    exact isPlain_bool _

namespace Memory

variable {memory after : Memory} {reference : Reference} {offset : Int64} {value : Value}

theorem mem_cells_of_alloc {length : Nat} (allocated : memory.alloc length = .ok (reference, after))
    (member : value ∈ after.cells) : value ∈ memory.cells ∨ value = .unit := by
  simp only [alloc] at allocated
  split at allocated <;> cases allocated
  simp only [Array.mem_append, Array.mem_replicate] at member
  rcases member with old | ⟨_, fresh⟩
  · exact Or.inl old
  · exact Or.inr fresh

theorem mem_cells_of_read (found : memory.read reference offset = .ok value) :
    value ∈ memory.cells ∨ value = .unit := by
  simp only [read, bind_eq_ok, pure_eq_ok] at found
  rcases found with ⟨index, _, rfl⟩
  cases present : memory.cells[index]? with
  | none => exact Or.inr rfl
  | some value => exact Or.inl (Array.mem_of_getElem? present)

theorem mem_cells_of_write {written : Value}
    (done : memory.write reference offset written = .ok after) (member : value ∈ after.cells) :
    value ∈ memory.cells ∨ value = written := by
  simp only [write, bind_eq_ok, pure_eq_ok] at done
  rcases done with ⟨index, _, rfl⟩
  exact Array.mem_or_eq_of_mem_setIfInBounds member

theorem mem_cells_of_leaveFrame (left : memory.leaveFrame = .ok after)
    (member : value ∈ after.cells) : value ∈ memory.cells := by
  simp only [leaveFrame] at left
  split at left
  · cases left
  · split at left
    · split at left <;> cases left
      · rcases Array.mem_extract_iff_getElem.1 member with ⟨index, _, found⟩
        exact Array.mem_of_getElem found
      · exact member
    · cases left
      exact member

end Memory

theorem Instruction.capability?_eq_some {instruction : Instruction} {id : CapabilityId} :
    instruction.capability? = some id ↔
      instruction = .cap id ∨ ∃ argumentCount, instruction = .invoke id argumentCount := by
  cases instruction <;> simp [capability?]

namespace Core

variable {α : Type} {core after : Core} {registry : Registry α} {maxCallDepth index : Nat}
  {instruction : Instruction} {flow : Flow} {handles : Handle → Prop}
  {references : Reference → Prop}

theorem Among.withValues {values : List Value} (among : core.Among handles references)
    (fresh : ∀ value ∈ values, value ∈ core.stack.values ∨ value.Among handles references) :
    (core.withValues values).Among handles references := by
  refine ⟨?_, among.cells⟩
  intro value member
  rcases fresh value member with old | new
  · exact among.stack value old
  · exact new

theorem Among.cons {value : Value} {rest : List Value} (among : core.Among handles references)
    (new : value.Among handles references) (old : ∀ value ∈ rest, value ∈ core.stack.values) :
    (core.withValues (value :: rest)).Among handles references := by
  apply among.withValues
  intro other member
  rcases List.mem_cons.1 member with rfl | member
  · exact Or.inr new
  · exact Or.inl (old other member)

theorem Among.read {reference : Reference} {offset : Int64} {value : Value}
    (among : core.Among handles references)
    (found : core.memory.read reference offset = .ok value) : value.Among handles references := by
  rcases Memory.mem_cells_of_read found with old | rfl
  · exact among.cells value old
  · trivial

theorem Among.write {reference : Reference} {offset : Int64} {value : Value} {rest : List Value}
    {memory : Memory} (among : core.Among handles references)
    (smaller : ∀ value ∈ rest, value ∈ core.stack.values) (present : value ∈ core.stack.values)
    (written : core.memory.write reference offset value = .ok memory) :
    ({ core.withValues rest with memory } : Core).Among handles references := by
  refine ⟨fun other member => among.stack other (smaller other member), ?_⟩
  intro cell member
  rcases Memory.mem_cells_of_write written member with old | rfl
  · exact among.cells cell old
  · exact among.stack cell present

/-- An instruction leaves only handles and references that were there, that the registry issues, or
that it allocates. -/
theorem Allows.among
    (allowed : core.Allows registry maxCallDepth index instruction (.proceed after flow))
    (among : core.Among handles references)
    (issues : ∀ id handle, registry.issue id = .ok handle → handles handle)
    (allocates : ∀ length reference, instruction = .alloc length →
      core.memory.alloc length.toNat = .ok (reference, after.memory) →
      after.stack.values = .ref reference :: core.stack.values → references reference) :
    after.Among handles references := by
  cases allowed
  case nop | jump | finish | halt => exact among
  case push | pushBool | pushUnit => exact among.cons trivial fun _ member => member
  case pop value rest shape =>
    exact among.withValues fun _ member => Or.inl (by simp [shape, member])
  case dup value found room =>
    have old := among.stack value (List.mem_of_getElem? found)
    exact among.cons old fun _ member => member
  case pick depth value found room =>
    have old := among.stack value (List.mem_of_getElem? found)
    exact among.cons old fun _ member => member
  case swap first second rest shape =>
    apply among.withValues
    intro value member
    left
    simpa [shape, or_left_comm] using member
  case binary op first second result rest shape computed =>
    have plain := BinaryOp.isPlain_of_apply computed
    exact among.cons plain.among fun _ member => by simp [shape, member]
  case unary op operand result rest shape computed =>
    have plain := UnaryOp.isPlain_of_apply computed
    exact among.cons plain.among fun _ member => by simp [shape, member]
  case branch condition found target rest shape =>
    exact among.withValues fun _ member => Or.inl (by simp [shape, member])
  case call target shallow => exact ⟨among.stack, among.cells⟩
  case ret origin frames memory called left =>
    refine ⟨among.stack, ?_⟩
    intro value member
    exact among.cells value (Memory.mem_cells_of_leaveFrame left member)
  case alloc length reference memory room allocated =>
    have new : references reference := allocates length reference rfl allocated rfl
    have stacked :
        (core.withValues (.ref reference :: core.stack.values)).Among handles references :=
      among.cons new fun _ member => member
    refine ⟨stacked.stack, ?_⟩
    intro value member
    rcases Memory.mem_cells_of_alloc allocated member with old | rfl
    · exact among.cells value old
    · trivial
  case load offset reference value rest shape found =>
    exact among.cons (among.read found) fun _ member => by simp [shape, member]
  case loadAt offset reference value rest shape found =>
    exact among.cons (among.read found) fun _ member => by simp [shape, member]
  case store offset reference value rest memory shape written =>
    exact among.write (fun _ member => by simp [shape, member]) (by simp [shape]) written
  case storeAt offset reference value rest memory shape written =>
    exact among.write (fun _ member => by simp [shape, member]) (by simp [shape]) written
  case cap id handle room issued =>
    exact among.cons (issues id handle issued) fun _ member => member

end Core

namespace Machine

variable {α ω : Type} [HostAction α ω] {initial machine : Machine α ω}

/-- The next step of the machine is an allocation, and returns the reference. -/
def Allocates (machine : Machine α ω) (reference : Reference) : Prop :=
  ∃ index length, machine.Executes index (.alloc length) ∧
    machine.core.memory.alloc length.toNat = .ok (reference, machine.step.core.memory) ∧
    machine.step.core.stack.values = .ref reference :: machine.core.stack.values

/-- The reference was returned by an allocation on the way from the first machine to the second. -/
def Allocated (initial machine : Machine α ω) (reference : Reference) : Prop :=
  ∃ earlier : Machine α ω, initial.Reaches earlier ∧ earlier.Allocates reference ∧
    earlier.step.Reaches machine

theorem Allocated.step {reference : Reference} (allocated : initial.Allocated machine reference) :
    initial.Allocated machine.step reference := by
  rcases allocated with ⟨earlier, reached, allocates, later⟩
  exact ⟨earlier, reached, allocates, later.step⟩

/-- The registry has the token and the grants that it started with, and the machine holds only
handles that this registry honors and references that were allocated. -/
structure Authentic (initial machine : Machine α ω) : Prop where
  token_eq : machine.registry.token = initial.registry.token
  isGranted_eq : ∀ id, machine.registry.isGranted id = initial.registry.isGranted id
  among : machine.core.Among initial.registry.Honors (initial.Allocated machine)

theorem Authentic.honors_iff (authentic : initial.Authentic machine) (handle : Handle) :
    machine.registry.Honors handle ↔ initial.registry.Honors handle := by
  rw [Registry.Honors, Registry.Honors, authentic.token_eq, authentic.isGranted_eq]

theorem afterInvoking_token (machine : Machine α ω) (handle : Handle) (arguments : List Value) :
    (machine.afterInvoking handle arguments).registry.token = machine.registry.token :=
  Registry.invoke_token _ _ _ _

theorem afterInvoking_isGranted (machine : Machine α ω) (handle : Handle) (arguments : List Value)
    (id : CapabilityId) :
    (machine.afterInvoking handle arguments).registry.isGranted id =
      machine.registry.isGranted id :=
  Registry.invoke_isGranted _ _ _ _ _

/-- A step keeps token and grants, and a reference that is new was allocated by this very step. -/
theorem Authentic.step (authentic : initial.Authentic machine) (reached : initial.Reaches machine)
    (active : machine.Active) : initial.Authentic machine.step := by
  have among := authentic.among.mono fun _ => Allocated.step
  have transition := transition_step active
  generalize stepped : machine.step = after at transition among ⊢
  cases transition with
  | leave outside => exact ⟨authentic.token_eq, authentic.isGranted_eq, among⟩
  | refuse fetched refused => exact ⟨authentic.token_eq, authentic.isGranted_eq, among⟩
  | @proceed instruction core flow fetched asked =>
    have allowed := Core.allows_of_request_eq_ok asked
    constructor
    · rw [follow_registry]
      exact authentic.token_eq
    · rw [follow_registry]
      exact authentic.isGranted_eq
    rw [follow_core]
    apply allowed.among among
    · intro id handle issued
      exact (authentic.honors_iff handle).1 (Registry.honors_of_issue issued)
    · rintro length reference rfl allocated pushed
      refine ⟨machine, reached, ⟨machine.position, length, ⟨active, rfl, fetched⟩, ?_, ?_⟩, ?_⟩
      · rw [stepped, follow_core]
        exact allocated
      · rw [stepped, follow_core]
        exact pushed
      · rw [stepped]
        exact Reaches.refl _
  | reject fetched asked rejected =>
    constructor
    · exact (afterInvoking_token _ _ _).trans authentic.token_eq
    · intro id
      exact (afterInvoking_isGranted _ _ _ id).trans (authentic.isGranted_eq id)
    · exact among
  | @answer instruction handle arguments replaced result fetched asked answered =>
    constructor
    · rw [follow_registry]
      exact (afterInvoking_token _ _ _).trans authentic.token_eq
    · intro id
      rw [follow_registry]
      exact (afterInvoking_isGranted _ _ _ id).trans (authentic.isGranted_eq id)
    · rw [follow_core]
      have plain : result.IsPlain := Registry.isPlain_of_invoke answered
      exact among.cons plain.among fun _ member => List.mem_of_mem_drop member

theorem authentic_of_create {program : Program} {registry : Registry α} {world : ω}
    {settings : Settings} (created : create program registry world settings = .ok initial) :
    initial.Authentic initial := by
  rcases create_eq_ok.1 created with ⟨_, rfl⟩
  refine ⟨rfl, fun _ => rfl, ?_, ?_⟩
  · intro value member
    cases member
  · intro value member
    simp at member

theorem Reaches.authentic (start : initial.Authentic initial) (reached : initial.Reaches machine) :
    initial.Authentic machine := by
  apply reached.induction start
  intro machine reached authentic active
  exact authentic.step reached active

/-- Whatever is invoked, its handle is one that the registry honors. -/
theorem Authentic.honors_of_asked (authentic : initial.Authentic machine)
    {instruction : Instruction} {handle : Handle} {arguments : List Value} {replaced : Nat}
    (asked : machine.request instruction = .ok (.invoke handle arguments replaced)) :
    machine.registry.Honors handle := by
  cases Core.allows_of_request_eq_ok asked with
  | invoke deep room issued => exact Registry.honors_of_issue issued
  | invokeHandle found =>
    exact (authentic.honors_iff handle).2 (authentic.among.stack _ (List.mem_of_getElem? found))

/-- The error of a failing instruction is its own, or one of a capability that was invoked with a
handle that the registry honors, or a denial of the capability that it names. In the last case
nothing was invoked. -/
theorem Authentic.failure_cases (authentic : initial.Authentic machine) {instruction : Instruction}
    {error : RuntimeError} {after : Machine α ω}
    (failure : machine.Failure instruction error after) :
    error.IsLocal ∨ (∃ id, machine.registry.FailsHonored id error) ∨
      ∃ id ∈ instruction.capability?, machine.registry.isGranted id = false ∧
        error = .capabilityDenied id ∧ after = machine.count.fail instruction error := by
  cases failure with
  | refused asked =>
    have refuses := Core.refuses_of_request_eq_error asked
    rcases refuses.isLocal_or_denied with isLocal | ⟨id, names, denied, isDenial⟩
    · exact Or.inl isLocal
    · exact Or.inr (Or.inr ⟨id, names, denied, isDenial, rfl⟩)
  | rejected asked outcome_eq =>
    have honors := authentic.honors_of_asked asked
    exact Or.inr (Or.inl ⟨_, Registry.invoke_error_of_honors honors outcome_eq⟩)

theorem Reaches.fault_ne_unresolved {program : Program} {registry : Registry α} {world : ω}
    {settings : Settings} (created : create program registry world settings = .ok initial)
    (reached : initial.Reaches machine) {termination : Termination} {fault : Fault}
    (terminated : machine.termination? = some termination)
    (isFault : termination.fault? = some fault) (id : CapabilityId) :
    fault.error ≠ .unresolvedCapability id := by
  rcases reached with ⟨count, rfl⟩
  rcases exists_last_step created terminated with ⟨earlier, _, active, ended⟩
  rcases (transition_step active).failure ended isFault with ⟨instruction, _, _, failure⟩
  have authentic := Reaches.authentic (authentic_of_create created) ⟨earlier, rfl⟩
  rcases authentic.failure_cases failure with
    isLocal | ⟨_, fails⟩ | ⟨_, _, _, isDenial, _⟩
  · intro isUnresolved
    rw [isUnresolved] at isLocal
    exact isLocal
  · intro isUnresolved
    rw [isUnresolved] at fails
    cases fails
  · simp [isDenial]

/-- A step that ends in a denial names a capability that is not granted, and has no action
performed. -/
theorem Authentic.of_denied (authentic : initial.Authentic machine) (active : machine.Active)
    (denied : machine.step.status = .denied) :
    ∃ index instruction id, machine.Executes index instruction ∧
      (instruction = .cap id ∨ ∃ argumentCount, instruction = .invoke id argumentCount) ∧
      machine.registry.isGranted id = false ∧
      (∀ handle arguments, ¬machine.Performs instruction handle arguments) ∧
      machine.step = machine.count.fail instruction (.capabilityDenied id) := by
  rcases (transition_step active).exists_failure (Or.inr denied) with
    ⟨instruction, error, fetched, failure⟩
  have isDenial : error.isDenial = true := by
    rw [failure.ended.status_eq, status_ofFault] at denied
    split at denied
    · assumption
    · cases denied
  rcases authentic.failure_cases failure with
    isLocal | ⟨_, fails⟩ | ⟨id, names, refused, isDenied, unchanged⟩
  · cases error <;> first | exact False.elim isLocal | cases isDenial
  · cases fails <;> cases isDenial
  · refine ⟨machine.position, instruction, id, ⟨active, rfl, fetched⟩, ?_, refused, ?_, ?_⟩
    · exact Instruction.capability?_eq_some.1 names
    · rintro handle arguments ⟨calls, _⟩
      cases calls with
      | byId room issued taken =>
        cases names
        rcases Registry.issue_eq_ok.1 issued with ⟨granted, _⟩
        exact Bool.false_ne_true (refused.symm.trans granted)
      | byHandle held taken => cases names
    · rw [unchanged, isDenied]

/-- Handles and references cannot be forged: in every state of a run, handles are those of the run's
registry for capabilities that it grants, and references were returned by earlier allocations. So no
invocation through a handle is refused as unresolved or denied, and a run is denied only at an
instruction that names a capability that is not granted, before any action is performed. -/
theorem nothing_forged {program : Program} {registry : Registry α} {world : ω} {settings : Settings}
    (created : create program registry world settings = .ok initial)
    (reached : initial.Reaches machine) :
    (∀ value, value ∈ machine.core.stack.values ∨ value ∈ machine.core.memory.cells →
      (∀ handle, value = .cap handle →
        handle.token = registry.token ∧ registry.isGranted handle.id = true) ∧
      ∀ reference, value = .ref reference → initial.Allocated machine reference) ∧
    (∀ index argumentCount termination fault, machine.Executes index (.invokeHandle argumentCount) →
      machine.step.termination? = some termination → termination.fault? = some fault →
      ∀ id, fault.error ≠ .unresolvedCapability id ∧ fault.error ≠ .capabilityDenied id) ∧
    (∀ termination fault, machine.termination? = some termination →
      termination.fault? = some fault → ∀ id, fault.error ≠ .unresolvedCapability id) ∧
    (machine.Active → machine.step.status = .denied →
      ∃ index instruction id, machine.Executes index instruction ∧
        (instruction = .cap id ∨ ∃ argumentCount, instruction = .invoke id argumentCount) ∧
        registry.isGranted id = false ∧
        (∀ handle arguments, ¬machine.Performs instruction handle arguments) ∧
        machine.step.registry = machine.registry ∧ machine.step.world = machine.world) := by
  have start := authentic_of_create created
  have authentic := reached.authentic start
  have registry_eq : initial.registry = registry := by rw [(create_eq_ok.1 created).2]
  subst registry_eq
  refine ⟨?_, ?_, ?_, ?_⟩
  · intro value present
    have among : value.Among initial.registry.Honors (initial.Allocated machine) := by
      rcases present with onStack | inMemory
      · exact authentic.among.stack value onStack
      · exact authentic.among.cells value inMemory
    constructor
    · rintro handle rfl
      exact among
    · rintro reference rfl
      exact among
  · intro index argumentCount termination fault executes terminated isFault id
    refine ⟨reached.step.fault_ne_unresolved created terminated isFault id, ?_⟩
    have ended := (reached.step.coherent (coherent_of_create created)).ended terminated
    rcases authentic.failure_cases (executes.failure ended isFault) with
      isLocal | ⟨_, fails⟩ | ⟨_, names, _⟩
    · intro isDenial
      rw [isDenial] at isLocal
      exact isLocal
    · intro isDenial
      rw [isDenial] at fails
      cases fails
    · cases names
  · intro termination fault terminated isFault id
    exact reached.fault_ne_unresolved created terminated isFault id
  · intro active denied
    rcases authentic.of_denied active denied with
      ⟨index, instruction, id, executes, named, refused, unperformed, unchanged⟩
    refine ⟨index, instruction, id, executes, named, ?_, unperformed, ?_, ?_⟩
    · rw [← authentic.isGranted_eq]
      exact refused
    · rw [unchanged]
      rfl
    · rw [unchanged]
      rfl

/-- A run that takes a handle for a clock and allocates a region. -/
theorem nothing_forged_cap_alloc :
    ∃ (program : Program) (registry : Registry Device) (initial : Machine Device World),
      program.instructions = #[.cap ⟨7⟩, .alloc 1, .halt] ∧
      create program registry {} {} = .ok initial ∧
      initial.step.step.core.stack.values = [.ref ⟨0, 0⟩, .cap ⟨⟨7⟩, ⟨0⟩⟩] ∧
      registry.isGranted ⟨7⟩ = true ∧ initial.Allocated initial.step.step ⟨0, 0⟩ := by
  let program : Program := {
    instructions := #[.cap ⟨7⟩, .alloc 1, .halt]
    offsets := #[0, 3, 6]
    entry := 0
    capabilities := [⟨7⟩]
    version := ⟨1, 0⟩ }
  rcases (⟨_, rfl⟩ : ∃ config : HostConfig Device,
    HostConfig.registerGranted {} ⟨7⟩ .monotonicClock = .ok config) with ⟨config, built⟩
  let registry : Registry Device := ⟨⟨0⟩, config⟩
  rcases (⟨_, rfl⟩ : ∃ initial : Machine Device World,
    create program registry {} {} = .ok initial) with ⟨initial, created⟩
  have held : initial.step.step.core.stack.values = [.ref ⟨0, 0⟩, .cap ⟨⟨7⟩, ⟨0⟩⟩] := by
    cases created
    cases built
    rfl
  have authentic := (nothing_forged created (Reaches.refl initial).step.step).1
  rw [held] at authentic
  have handles := authentic (.cap ⟨⟨7⟩, ⟨0⟩⟩) (Or.inl (by simp))
  have references := authentic (.ref ⟨0, 0⟩) (Or.inl (by simp))
  exact ⟨program, registry, initial, rfl, created, held, (handles.1 _ rfl).2, references.2 _ rfl⟩

end Machine

end CapabilityMachine
