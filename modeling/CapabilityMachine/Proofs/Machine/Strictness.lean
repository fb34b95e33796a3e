import CapabilityMachine.Proofs.Host.Gate
import CapabilityMachine.Proofs.Machine.Tokens
import CapabilityMachine.Proofs.Program.Loading
import Mathlib
/-!
# Strict runs

A host honors a program if it knows all capabilities that the program declares and takes as many
arguments for each of them as the program passes. Strict runs are the runs of honored programs, and
apart from refusing all others they are no different.

What is checked when a program is loaded holds all along its run, since no action is performed under
other terms than those that the catalog was made from. So a strict run is never stopped because of
the number of arguments that it passes by id, unless an action has changed its own signature before,
and it is denied only what the host knows and did not grant.
-/

namespace CapabilityMachine

open Outcome

variable {α ω : Type}

/-- The host knows every capability that the program declares, and wherever the program invokes a
capability by its id, it passes as many arguments as the capability was registered to take. -/
structure Program.HonoredBy (program : Program) (config : HostConfig α) : Prop where
  isRegistered : ∀ id ∈ program.capabilities, config.isRegistered id = true
  arity_eq : ∀ index id argumentCount, program.get? index = some (.invoke id argumentCount) →
    ∃ registration, config.registrations.find? id = some registration ∧
      registration.signature.arity = argumentCount.toNat

/-! ### Strict loading -/

section Loading

variable {registry : Registry α} {bytes : List UInt8} {program : Program}

theorem Registry.contains_catalog (registry : Registry α) (id : CapabilityId) :
    registry.catalog.contains id = registry.config.isRegistered id := by
  rw [catalog, IdTable.contains, IdTable.find?_map, Option.isSome_map]
  rfl

theorem Registry.exists_in_catalog_iff (registry : Registry α) (id : CapabilityId) (arity : Nat) :
    (∃ signature, registry.catalog.find? id = some signature ∧ signature.arity = arity) ↔
      ∃ registration, registry.config.registrations.find? id = some registration ∧
        registration.signature.arity = arity := by
  simp only [catalog, IdTable.find?_map, Option.map_eq_some_iff]
  constructor
  · rintro ⟨_, ⟨registration, found, rfl⟩, arity_eq⟩
    exact ⟨registration, found, arity_eq⟩
  · rintro ⟨registration, found, arity_eq⟩
    exact ⟨_, ⟨registration, found, rfl⟩, arity_eq⟩

/-- The programs that are loaded strictly are those that the host honors. -/
theorem load_strict_eq_ok :
    load (Honoring.strict.options registry) bytes = .ok program ↔
      load (Honoring.lenient.options registry) bytes = .ok program ∧
        program.HonoredBy registry.config := by
  have with_catalog := @Load.load_with_catalog_eq_ok bytes program {} registry.catalog
  simp only [Registry.contains_catalog, Registry.exists_in_catalog_iff] at with_catalog
  refine with_catalog.trans (and_congr_right fun _ => ?_)
  exact ⟨fun ⟨isRegistered, arity_eq⟩ => ⟨isRegistered, arity_eq⟩,
    fun honored => ⟨honored.isRegistered, honored.arity_eq⟩⟩

end Loading

/-! ### How runs begin -/

section Start

variable {options : LoadOptions} {honoring : Honoring} {bytes : List UInt8} {registry : Registry α}
  {world : ω} {settings : Settings} {initial : Machine α ω} {fuel : Nat}

theorem Machine.create_eq_error {program : Program} {error : RuntimeError} :
    Machine.create program registry world settings = .error error ↔
      settings.validate = .error error := by
  rw [Machine.create, bind_eq_error]
  simp

theorem start_eq_ok :
    start options bytes registry world settings = .ok initial ↔
      ∃ program, load options bytes = .ok program ∧
        Machine.create program registry world settings = .ok initial := by
  simp only [start, bind_eq_ok, mapError_eq_ok]

theorem start_eq_load_error {error : LoadError} :
    start options bytes registry world settings = .error (.load error) ↔
      load options bytes = .error error := by
  simp [start, bind_eq_error, mapError_eq_error]

/-- The settings are looked at only when there is a program to run. -/
theorem start_eq_settings_error {error : RuntimeError} :
    start options bytes registry world settings = .error (.settings error) ↔
      (∃ program, load options bytes = .ok program) ∧ settings.validate = .error error := by
  simp [start, bind_eq_error, mapError_eq_error, mapError_eq_ok, Machine.create_eq_error]

/-- Where a program is loaded strictly, it is loaded leniently, and then there is no difference. -/
theorem start_strict_eq {program : Program}
    (loaded : load (Honoring.strict.options registry) bytes = .ok program) (world : ω)
    (settings : Settings) :
    start (Honoring.strict.options registry) bytes registry world settings =
      start (Honoring.lenient.options registry) bytes registry world settings := by
  rw [start, start, loaded, (load_strict_eq_ok.1 loaded).1]

variable [HostAction α ω]

theorem runBytes_eq_error {error : StartError} :
    runBytes honoring bytes registry world settings fuel = .error error ↔
      start (honoring.options registry) bytes registry world settings = .error error := by
  rw [runBytes, bind_eq_error]
  simp

/-- The same run on a registry with a token of its own. -/
theorem exists_start_looksLike (ignores : HostAction.IgnoresTokens α)
    (started : start options bytes registry world settings = .ok initial) (token : Token) :
    ∃ other, start options bytes ⟨token, registry.config⟩ world settings = .ok other ∧
      ∀ count, (initial.stepTimes count).LooksLike (other.stepTimes count) := by
  rcases start_eq_ok.1 started with ⟨program, loaded, created⟩
  refine ⟨initial.withToken token,
    start_eq_ok.2 ⟨program, loaded, Machine.create_withToken created token⟩, ?_⟩
  intro count
  rw [Machine.stepTimes_withToken ignores (Machine.authentic_of_create created)]
  exact Machine.looksLike_withToken _ _

end Start

/-! ### What was checked stays true -/

namespace Registry

variable [HostAction α ω] {registry : Registry α} {handle : Handle} {arguments : List Value}
  {world : ω}

/-- An action that keeps its signature leaves its registration faithful. -/
theorem faithful_invoke (faithful : registry.config.Faithful)
    (keeps : ∀ action, registry.resolve handle = .ok action →
      (HostAction.signature action).checkArguments handle.id arguments = .ok () →
      HostAction.signature (HostAction.perform action arguments world).next =
        HostAction.signature action) :
    (registry.invoke handle arguments world).next.config.Faithful := by
  cases resolved : registry.resolve handle with
  | error error =>
    simp only [invoke, resolved]
    exact faithful
  | ok action =>
    cases checked : (HostAction.signature action).checkArguments handle.id arguments with
    | error error =>
      simp only [invoke, resolved, checked]
      exact faithful
    | ok done =>
      have kept := keeps action resolved checked
      rcases exists_registration_of_resolve resolved with ⟨_, registration, found, rfl⟩
      simp only [invoke, resolved, checked, withAction, found]
      apply faithful.insert
      exact (faithful _ _ found).trans kept.symm

end Registry

namespace Machine

variable {initial machine : Machine α ω}

variable [HostAction α ω]

/-- The machine's next step has an action performed, and the action has another signature
afterwards. -/
def AltersSignature (machine : Machine α ω) : Prop :=
  ∃ index instruction handle arguments action, machine.Executes index instruction ∧
    machine.Calls instruction handle arguments ∧ machine.registry.resolve handle = .ok action ∧
    (HostAction.signature action).checkArguments handle.id arguments = .ok () ∧
    HostAction.signature (HostAction.perform action arguments machine.world).next ≠
      HostAction.signature action

/-- The machine's next step invokes a capability by its id, with another number of arguments than
the action behind it takes. -/
def Misapplies (machine : Machine α ω) : Prop :=
  ∃ index id argumentCount handle arguments action,
    machine.Executes index (.invoke id argumentCount) ∧
    machine.Calls (.invoke id argumentCount) handle arguments ∧
    machine.registry.resolve handle = .ok action ∧
    arguments.length ≠ (HostAction.signature action).arity

theorem not_altersSignature [LawfulHostAction α] (machine : Machine α ω) :
    ¬machine.AltersSignature := by
  rintro ⟨_, _, _, arguments, action, _, _, _, _, alters⟩
  exact alters (LawfulHostAction.signature_next action arguments machine.world)

theorem step_offer (machine : Machine α ω) :
    machine.step.registry.offer = machine.registry.offer := by
  rw [(step_surroundings machine).1]
  cases isInvocation : machine.invocation? with
  | none => rw [invoked_of_none isInvocation]
  | some call =>
    rw [invoked_of_some isInvocation]
    exact machine.registry.invoke_offer _ _ _

theorem Reaches.offer_eq (reached : initial.Reaches machine) :
    machine.registry.offer = initial.registry.offer := by
  apply reached.induction
  · rfl
  · intro machine _ same _
    rw [step_offer, same]

theorem faithful_step (faithful : machine.registry.config.Faithful)
    (keeps : ¬machine.AltersSignature) : machine.step.registry.config.Faithful := by
  rw [(step_surroundings machine).1]
  cases isInvocation : machine.invocation? with
  | none =>
    rw [invoked_of_none isInvocation]
    exact faithful
  | some call =>
    rcases call with ⟨handle, arguments⟩
    rcases invocation?_eq_some.1 isInvocation with ⟨instruction, executes, calls⟩
    rw [invoked_of_some isInvocation]
    apply Registry.faithful_invoke faithful
    intro action resolved checked
    by_contra alters
    exact keeps ⟨_, instruction, handle, arguments, action, executes, calls, resolved, checked,
      alters⟩

theorem faithful_stepTimes (faithful : initial.registry.config.Faithful) (count : Nat)
    (keep : ∀ earlier < count, ¬(initial.stepTimes earlier).AltersSignature) :
    (initial.stepTimes count).registry.config.Faithful := by
  induction count with
  | zero => exact faithful
  | succ count ih =>
    rw [stepTimes_succ_eq_step]
    have before := ih fun earlier isEarlier => keep earlier (Nat.lt_succ_of_lt isEarlier)
    exact faithful_step before (keep count (Nat.lt_succ_self count))

/-- Where the program is honored, and registrations show the signatures of their actions, no
invocation by id passes a wrong number of arguments. -/
theorem not_misapplies (reached : initial.Reaches machine)
    (honored : initial.program.HonoredBy initial.registry.config)
    (faithful : machine.registry.config.Faithful) : ¬machine.Misapplies := by
  rintro ⟨index, id, argumentCount, handle, arguments, action, executes, calls, resolved, differs⟩
  cases calls with
  | byId room issued taken =>
    rcases Registry.issue_eq_ok.1 issued with ⟨_, rfl⟩
    have fetched := executes.fetched
    rw [reached.program_eq] at fetched
    rcases honored.arity_eq index id argumentCount fetched with ⟨registration, found, arity_eq⟩
    rcases Registry.exists_registration_of_resolve resolved with ⟨_, current, isCurrent, rfl⟩
    have catalog_eq := congrArg (fun offer => offer.catalog.find? id) reached.offer_eq
    simp only [Registry.find?_catalog_offer, found, isCurrent, Option.map_some,
      Option.some.injEq] at catalog_eq
    rcases Stack.top_eq_ok.1 taken with ⟨deep, rfl⟩
    apply differs
    rw [← faithful id current isCurrent, catalog_eq, arity_eq, List.length_reverse,
      List.length_take]
    exact Nat.min_eq_left deep

/-- A wrong number of arguments is the work of an action that has changed its own signature. -/
theorem exists_altersSignature (honored : initial.program.HonoredBy initial.registry.config)
    (faithful : initial.registry.config.Faithful) {count : Nat}
    (misapplies : (initial.stepTimes count).Misapplies) :
    ∃ earlier < count, (initial.stepTimes earlier).AltersSignature := by
  by_contra keep
  push Not at keep
  exact not_misapplies ⟨count, rfl⟩ honored (faithful_stepTimes faithful count keep) misapplies

/-- A run is denied only a capability that its program names and that was not granted. -/
theorem Reaches.exists_of_denied {program : Program} {registry : Registry α} {world : ω}
    {settings : Settings} (created : create program registry world settings = .ok initial)
    (reached : initial.Reaches machine) {fault : Fault}
    (terminated : machine.termination? = some (.denied fault)) :
    ∃ index instruction id, initial.program.get? index = some instruction ∧
      instruction.capability? = some id ∧ initial.registry.isGranted id = false ∧
      fault.error = .capabilityDenied id := by
  rcases reached with ⟨count, rfl⟩
  rcases exists_last_step created terminated with ⟨earlier, _, active, ended⟩
  have reached : initial.Reaches (initial.stepTimes earlier) := ⟨earlier, rfl⟩
  have authentic := reached.authentic (authentic_of_create created)
  rcases authentic.of_denied active ended.status_eq with
    ⟨index, instruction, id, executes, named, refused, _, step_eq⟩
  refine ⟨index, instruction, id, ?_, Instruction.capability?_eq_some.2 named, ?_, ?_⟩
  · rw [← reached.program_eq]
    exact executes.fetched
  · rw [← authentic.isGranted_eq]
    exact refused
  · rw [step_eq] at ended
    cases ended.termination_eq
    rfl

/-! ### Strict and lenient runs -/

/-- A strict run is a lenient run of a program that the host honors. Strict loading accepts exactly
what lenient loading accepts and the host honors, as the same program, and both report what is wrong
with the bytes before what is wrong with the settings. Honored programs run strictly as they run
leniently, on the same registry as well as on one with a token of its own. In a strict run no
invocation by id passes a wrong number of arguments, unless an action has changed its own signature
before, and if the run is denied a capability, the host knows that capability and did not grant
it. -/
theorem strict_restricts_lenient (changes : List (HostConfig.Change α)) (token : Token) (world : ω)
    (settings : Settings) (bytes : List UInt8) :
    let config : HostConfig α := HostConfig.built changes
    let registry : Registry α := ⟨token, config⟩
    let strict := Honoring.strict.options registry
    let lenient := Honoring.lenient.options registry
    (∀ program, load strict bytes = .ok program ↔
      load lenient bytes = .ok program ∧ program.HonoredBy config) ∧
    (∀ honoring fuel error,
      runBytes honoring bytes registry world settings fuel = .error (.load error) ↔
        load (honoring.options registry) bytes = .error error) ∧
    (∀ honoring fuel error,
      runBytes honoring bytes registry world settings fuel = .error (.settings error) ↔
        (∃ program, load (honoring.options registry) bytes = .ok program) ∧
          settings.validate = .error error) ∧
    ∀ program, load strict bytes = .ok program →
      (∀ fuel, runBytes .strict bytes registry world settings fuel =
        runBytes .lenient bytes registry world settings fuel) ∧
      ∀ initial, start strict bytes registry world settings = .ok initial →
        start lenient bytes registry world settings = .ok initial ∧
        (HostAction.IgnoresTokens α → ∀ otherToken, ∃ other,
          start lenient bytes ⟨otherToken, config⟩ world settings = .ok other ∧
          ∀ count, (initial.stepTimes count).LooksLike (other.stepTimes count)) ∧
        ∀ count,
          (LawfulHostAction α → ¬(initial.stepTimes count).Misapplies) ∧
          ((initial.stepTimes count).Misapplies →
            ∃ earlier < count, (initial.stepTimes earlier).AltersSignature) ∧
          ∀ fault, (initial.stepTimes count).termination? = some (.denied fault) →
            ∃ id ∈ program.capabilities, fault.error = .capabilityDenied id ∧
              config.isRegistered id = true ∧ config.isGranted id = false := by
  intro config registry strict lenient
  refine ⟨fun _ => load_strict_eq_ok, ?_, ?_, ?_⟩
  · intro honoring fuel error
    rw [runBytes_eq_error, start_eq_load_error]
  · intro honoring fuel error
    rw [runBytes_eq_error, start_eq_settings_error]
  intro program loaded
  have honored := (load_strict_eq_ok.1 loaded).2
  have start_eq := start_strict_eq loaded world settings
  refine ⟨fun fuel => by rw [runBytes, start_eq, runBytes], ?_⟩
  intro initial started
  rcases start_eq_ok.1 started with ⟨_, loadedAgain, created⟩
  cases loaded.symm.trans loadedAgain
  rcases create_eq_ok.1 created with ⟨_, initial_eq⟩
  have program_eq : initial.program = program := by rw [initial_eq]
  have registry_eq : initial.registry = registry := by rw [initial_eq]
  have misapplied (count : Nat) (misapplies : (initial.stepTimes count).Misapplies) :
      ∃ earlier < count, (initial.stepTimes earlier).AltersSignature := by
    apply exists_altersSignature _ _ misapplies
    · rw [program_eq, registry_eq]
      exact honored
    · rw [registry_eq]
      exact HostConfig.faithful_built changes
  have startedLeniently := start_eq.symm.trans started
  refine ⟨startedLeniently, fun ignores => exists_start_looksLike ignores startedLeniently,
    fun count => ⟨?_, misapplied count, ?_⟩⟩
  · intro lawful misapplies
    rcases misapplied count misapplies with ⟨earlier, _, alters⟩
    exact not_altersSignature _ alters
  · intro fault terminated
    have reached : initial.Reaches (initial.stepTimes count) := ⟨count, rfl⟩
    rcases reached.exists_of_denied created terminated with
      ⟨index, instruction, id, fetched, names, notGranted, error_eq⟩
    rw [program_eq] at fetched
    rw [registry_eq] at notGranted
    have declared := Load.mem_capabilities_of_load loaded fetched names
    exact ⟨id, declared, error_eq, honored.isRegistered id declared, notGranted⟩

/-- A run that reads a clock and is then denied a console, which the host knows but has not granted.
With an argument for the clock, the program is refused, and that although no machine could be built
with the settings. -/
theorem strict_restricts_lenient_clock :
    let clock : Device := .steppedClock 5 1
    let changes : List (HostConfig.Change Device) :=
      [.registerGranted ⟨7⟩ clock, .register ⟨9⟩ (.console .captured)]
    let registry : Registry Device := ⟨⟨0⟩, HostConfig.built changes⟩
    let bytes (code : List Instruction) : List UInt8 :=
      [0x43, 0x50, 0x53, 0x54, 1, 0, 0, 0, 0, 0, 0, 0, 0, 2, 0, 7, 0, 9, 0, 0, 0, 8] ++
        Code.encode code
    let good := bytes [.invoke ⟨7⟩ 0, .cap ⟨9⟩, .halt]
    let bad := bytes [.invoke ⟨7⟩ 1, .cap ⟨9⟩, .halt]
    runBytes .strict bad registry ({} : World) { maxStackDepth := 0 } 9 =
        .error (.load (.arityMismatch 0 ⟨7⟩ 0 1)) ∧
      ∃ initial other : Machine Device World,
        start (Honoring.strict.options registry) good registry {} {} = .ok initial ∧
        start (Honoring.lenient.options registry) good ⟨⟨1⟩, registry.config⟩ {} {} = .ok other ∧
        (initial.stepTimes 2).LooksLike (other.stepTimes 2) ∧
        ¬initial.Misapplies ∧
        ∃ fault, (initial.stepTimes 2).termination? = some (.denied fault) ∧
          fault.error = .capabilityDenied ⟨9⟩ ∧ registry.config.isRegistered ⟨9⟩ = true ∧
          registry.config.isGranted ⟨9⟩ = false := by
  intro clock changes registry bytes good bad
  let program : Program := {
    instructions := #[.invoke ⟨7⟩ 0, .cap ⟨9⟩, .halt]
    offsets := #[0, 4, 7]
    entry := 0
    capabilities := [⟨7⟩, ⟨9⟩]
    version := ⟨1, 0⟩ }
  have loaded : load (Honoring.strict.options registry) good = .ok program := by cbv
  have refused : load (Honoring.strict.options registry) bad =
      .error (.arityMismatch 0 ⟨7⟩ 0 1) := by cbv
  rcases (⟨_, rfl⟩ : ∃ initial : Machine Device World,
    create program registry {} {} = .ok initial) with ⟨initial, created⟩
  have started := start_eq_ok.2 ⟨program, loaded, created⟩
  let unusable : Settings := { maxStackDepth := 0 }
  have precedence := (strict_restricts_lenient changes ⟨0⟩ ({} : World) unusable bad).2.1
  rcases (strict_restricts_lenient changes ⟨0⟩ ({} : World) {} good).2.2.2 program loaded with
    ⟨_, runs⟩
  rcases runs initial started with ⟨_, otherTokens, states⟩
  rcases otherTokens Device.ignoresTokens ⟨1⟩ with ⟨other, otherStarted, looksLike⟩
  have isDenied : ∃ fault, (initial.stepTimes 2).termination? = some (.denied fault) ∧
      fault.error = .capabilityDenied ⟨9⟩ := by
    cases created
    refine ⟨⟨1, 4, .cap, .capabilityDenied ⟨9⟩, []⟩, ?_, rfl⟩
    decide +kernel
  rcases isDenied with ⟨fault, terminated, error_eq⟩
  rcases (states 2).2.2 fault terminated with ⟨id, _, denied, isRegistered, notGranted⟩
  cases error_eq.symm.trans denied
  exact ⟨(precedence _ _ _).2 refused, initial, other, started, otherStarted, looksLike 2,
    (states 0).1 inferInstance, fault, terminated, error_eq, isRegistered, notGranted⟩

end Machine

end CapabilityMachine
