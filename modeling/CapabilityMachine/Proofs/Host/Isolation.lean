import CapabilityMachine.Proofs.Host.Gate
import CapabilityMachine.Proofs.Host.Manifest
import Mathlib.Data.List.Nodup
/-!
# Capabilities that do not interfere

The capabilities of a registry share nothing but the world. A call changes the registration under
its id and no other, and of the world, standard devices use the captured console and the text of
writers, which none of them reads, and the time, which the monotonic clock alone looks at. A call
that fails changes nothing at all. So what a capability answers depends on the calls to itself that
succeeded, and on no others.
-/

namespace CapabilityMachine

open Outcome

namespace Registration

variable {α ω : Type} [HostAction α ω]

/-- What comes of a call to a granted capability. Nothing of the registry plays a part in it but the
registration of the capability. -/
def call (registration : Registration α) (id : CapabilityId) (arguments : List Value) (world : ω) :
    Response (Registration α) ω :=
  match (HostAction.signature registration.action).checkArguments id arguments with
  | .error error => ⟨.error error, registration, world⟩
  | .ok () =>
    let response := HostAction.perform registration.action arguments world
    ⟨Registry.checkOutcome (HostAction.signature response.next) id response.outcome,
      { registration with action := response.next }, response.world⟩

theorem call_cases (registration : Registration α) (id : CapabilityId) (arguments : List Value)
    (world : ω) :
    (∃ error, registration.call id arguments world = ⟨.error error, registration, world⟩) ∨
      (HostAction.signature registration.action).Fits arguments ∧
        registration.call id arguments world =
          let response := HostAction.perform registration.action arguments world
          ⟨Registry.checkOutcome (HostAction.signature response.next) id response.outcome,
            { registration with action := response.next }, response.world⟩ := by
  unfold call
  cases checked : (HostAction.signature registration.action).checkArguments id arguments with
  | error error => exact Or.inl ⟨error, rfl⟩
  | ok done => exact Or.inr ⟨Signature.checkArguments_eq_ok.1 checked, rfl⟩

end Registration

namespace Registry

variable {α ω : Type} [HostAction α ω] {registry : Registry α} {id : CapabilityId}
  {registration : Registration α} {error : RuntimeError}

/-- The registry with another registration under an id. -/
def withRegistration (registry : Registry α) (id : CapabilityId) (registration : Registration α) :
    Registry α :=
  { registry with
    config := { registry.config with
      registrations := registry.config.registrations.insert id registration } }

theorem withRegistration_eq_self (found : registry.grantedRegistration id = .ok registration) :
    registry.withRegistration id registration = registry := by
  rw [withRegistration, IdTable.insert_eq_self (grantedRegistration_eq_ok.1 found).1]

/-- A capability is granted as before when its registration is another one. -/
theorem grantedRegistration_withRegistration
    (found : registry.grantedRegistration id = .ok registration) (next : Registration α) :
    (registry.withRegistration id next).grantedRegistration id = .ok next :=
  grantedRegistration_eq_ok.2
    ⟨IdTable.find?_insert_self _ _ _, (grantedRegistration_eq_ok.1 found).2⟩

theorem grantedRegistration_withRegistration_of_ne (registry : Registry α) {other : CapabilityId}
    (differs : other ≠ id) (next : Registration α) :
    (registry.withRegistration id next).grantedRegistration other =
      registry.grantedRegistration other := by
  have isGranted_eq :
      (registry.withRegistration id next).isGranted other = registry.isGranted other := rfl
  rw [grantedRegistration, grantedRegistration, isGranted_eq, withRegistration,
    IdTable.find?_insert_of_ne _ _ differs]

theorem invokeId_of_refused (refused : registry.grantedRegistration id = .error error)
    (arguments : List Value) (world : ω) :
    registry.invokeId id arguments world = ⟨.error error, registry, world⟩ := by
  simp only [invokeId_eq, invoke, resolve, if_true, refused, Except.map]

theorem invokeId_of_found (found : registry.grantedRegistration id = .ok registration)
    (arguments : List Value) (world : ω) :
    registry.invokeId id arguments world =
      let response := registration.call id arguments world
      ⟨response.outcome, registry.withRegistration id response.next, response.world⟩ := by
  have isRegistered := (grantedRegistration_eq_ok.1 found).1
  simp only [invokeId_eq, invoke, resolve, if_true, found, Except.map, Registration.call]
  cases (HostAction.signature registration.action).checkArguments id arguments with
  | error error => simp only [withRegistration_eq_self found]
  | ok done => simp only [withAction, isRegistered, withRegistration]

/-- Asks a registry for a result. -/
def ask (state : Registry α × ω) (request : CapabilityId × List Value) :
    Except RuntimeError Value × (Registry α × ω) :=
  let response := state.1.invokeId request.1 request.2 state.2
  (response.outcome, response.next, response.world)

variable {state : Registry α × ω} {request : CapabilityId × List Value}

theorem ask_of_refused (refused : state.1.grantedRegistration request.1 = .error error) :
    ask state request = (.error error, state) := by
  simp only [ask, invokeId_of_refused refused]

theorem ask_of_found (found : state.1.grantedRegistration request.1 = .ok registration) :
    ask state request =
      let response := registration.call request.1 request.2 state.2
      (response.outcome, state.1.withRegistration request.1 response.next, response.world) := by
  simp only [ask, invokeId_of_found found]

theorem exists_registration_of_ask {result : Value}
    (answered : (ask state request).1 = .ok result) :
    ∃ registration, state.1.grantedRegistration request.1 = .ok registration := by
  cases found : state.1.grantedRegistration request.1 with
  | error error =>
    rw [ask_of_refused found] at answered
    cases answered
  | ok registration => exact ⟨registration, rfl⟩

/-- A call leaves all registrations alone but the one under its id. -/
theorem grantedRegistration_ask_of_ne (differs : id ≠ request.1) :
    (ask state request).2.1.grantedRegistration id = state.1.grantedRegistration id := by
  cases found : state.1.grantedRegistration request.1 with
  | error error => rw [ask_of_refused found]
  | ok registration =>
    rw [ask_of_found found]
    exact state.1.grantedRegistration_withRegistration_of_ne differs _

end Registry

/-! ### Standard devices -/

theorem Sink.writeLine_of_error {sink : Sink} {line : String} {world : World}
    {error : RuntimeError} (failed : (sink.writeLine line world).1 = .error error) :
    (sink.writeLine line world).2 = world := by
  cases sink with
  | captured | writer => cases failed
  | failingWrite reason | failingFlush reason => rfl

namespace Device

variable {device : Device} {arguments : List Value} {world : World} {error : RuntimeError}
  {result : Value} {stream : ChaCha.Stream}

/-- The device writes lines, wherever they go. -/
def IsConsole : Device → Prop
  | console _ => True
  | _ => False

theorem drawBetween_of_error (failed : (drawBetween stream arguments).1 = .error error) :
    (drawBetween stream arguments).2 = stream := by
  unfold drawBetween at failed ⊢
  split
  · split
    · simp_all
    · rfl
  · rfl

theorem exists_int_of_drawBetween (answered : (drawBetween stream arguments).1 = .ok result) :
    ∃ n, result = .int n := by
  unfold drawBetween at answered
  split at answered
  · split at answered
    · cases answered
      exact ⟨_, rfl⟩
    · cases answered
  · cases answered

/-- A device that fails stays as it is, and so does the world. -/
theorem perform_of_error (failed : (device.perform arguments world).outcome = .error error) :
    (device.perform arguments world).next = device ∧
      (device.perform arguments world).world = world := by
  cases device with
  | console sink => exact ⟨rfl, Sink.writeLine_of_error (map_eq_error.1 failed)⟩
  | monotonicClock | steppedClock now step | seededRandom stream => cases failed
  | seededRange stream => exact ⟨congrArg seededRange (drawBetween_of_error failed), rfl⟩

/-- A device keeps to what its signature says about results. -/
theorem admits_of_perform (answered : (device.perform arguments world).outcome = .ok result) :
    result.IsPlain ∧ device.signature.returns.Admits result := by
  cases device with
  | console sink =>
    rcases map_eq_ok.1 answered with ⟨_, _, rfl⟩
    exact ⟨⟨nofun, nofun⟩, rfl⟩
  | monotonicClock | steppedClock now step | seededRandom stream =>
    cases answered
    exact ⟨⟨nofun, nofun⟩, rfl⟩
  | seededRange stream =>
    rcases exists_int_of_drawBetween answered with ⟨n, rfl⟩
    exact ⟨⟨nofun, nofun⟩, rfl⟩

/-- Only the monotonic clock looks at the world. -/
theorem perform_congr (notMonotonic : device ≠ monotonicClock) (arguments : List Value)
    (world other : World) :
    (device.perform arguments world).outcome = (device.perform arguments other).outcome ∧
      (device.perform arguments world).next = (device.perform arguments other).next ∧
      (device.perform arguments world).next ≠ monotonicClock := by
  cases device with
  | console sink => cases sink <;> exact ⟨rfl, rfl, nofun⟩
  | monotonicClock => exact absurd rfl notMonotonic
  | steppedClock now step | seededRandom stream | seededRange stream => exact ⟨rfl, rfl, nofun⟩

/-- What is not a console writes on none. -/
theorem console_perform (notConsole : ¬device.IsConsole) (arguments : List Value) (world : World) :
    ¬(device.perform arguments world).next.IsConsole ∧
      (device.perform arguments world).world.console = world.console := by
  cases device with
  | console sink => exact absurd trivial notConsole
  | monotonicClock | steppedClock now step | seededRandom stream | seededRange stream =>
    exact ⟨id, rfl⟩

end Device

theorem StandardAction.toDevice_ne_monotonicClock {action : StandardAction}
    (notMonotonic : action ≠ .monotonicClock) (sink : Sink) (seed : UInt64) :
    action.toDevice sink seed ≠ .monotonicClock := by
  cases action with
  | monotonicClock => exact absurd rfl notMonotonic
  | consoleWriteLine | steppedClock start step | seededRandom | seededRange => exact nofun

namespace Registration

variable {registration : Registration Device} {id : CapabilityId} {arguments : List Value}
  {world : World} {error : RuntimeError} {result : Value}

/-- A call that fails changes neither the registration nor the world. -/
theorem call_of_error (failed : (registration.call id arguments world).outcome = .error error) :
    (registration.call id arguments world).next = registration ∧
      (registration.call id arguments world).world = world := by
  rcases registration.call_cases id arguments world with ⟨cause, refused⟩ | ⟨_, performed⟩
  · rw [refused]
    exact ⟨rfl, rfl⟩
  · rw [performed] at failed ⊢
    cases outcome : (HostAction.perform registration.action arguments world).outcome with
    | ok result =>
      have allowed := Device.admits_of_perform outcome
      dsimp only at failed
      rw [outcome, LawfulHostAction.signature_next] at failed
      cases failed.symm.trans (Registry.checkOutcome_eq_ok.2 ⟨rfl, allowed⟩)
    | error cause =>
      rcases Device.perform_of_error outcome with ⟨next_eq, world_eq⟩
      exact ⟨congrArg (fun action => { registration with action }) next_eq, world_eq⟩

/-- What comes of a call does not depend on the world, unless it is one to the monotonic clock. -/
theorem call_congr (notMonotonic : registration.action ≠ .monotonicClock) (id : CapabilityId)
    (arguments : List Value) (world other : World) :
    (registration.call id arguments world).outcome =
        (registration.call id arguments other).outcome ∧
      (registration.call id arguments world).next = (registration.call id arguments other).next ∧
      (registration.call id arguments world).next.action ≠ .monotonicClock := by
  rcases Device.perform_congr notMonotonic arguments world other with
    ⟨outcome_eq, next_eq, stillNot⟩
  unfold call
  split
  · exact ⟨rfl, rfl, notMonotonic⟩
  · refine ⟨?_, congrArg (fun action => { registration with action }) next_eq, stillNot⟩
    change Registry.checkOutcome (registration.action.perform arguments world).next.signature id
      (registration.action.perform arguments world).outcome = _
    rw [next_eq, outcome_eq]
    rfl

/-- A call to a console that captures its lines succeeds with one argument, and writes it. -/
theorem call_console (isConsole : registration.action = .console .captured)
    (answered : (registration.call id arguments world).outcome = .ok result) :
    (registration.call id arguments world).next = registration ∧
      (registration.call id arguments world).world.console.toList =
        world.console.toList ++ arguments.map toString := by
  rcases registration.call_cases id arguments world with ⟨cause, refused⟩ | ⟨fits, performed⟩
  · rw [refused] at answered
    cases answered
  · rw [performed]
    rcases registration with ⟨action, signature⟩
    subst isConsole
    rcases List.length_eq_one_iff.1 fits.1 with ⟨argument, rfl⟩
    exact ⟨rfl, Array.toList_push⟩

/-- A call to anything else writes nothing. -/
theorem call_of_not_console (notConsole : ¬registration.action.IsConsole) (id : CapabilityId)
    (arguments : List Value) (world : World) :
    ¬(registration.call id arguments world).next.action.IsConsole ∧
      (registration.call id arguments world).world.console = world.console := by
  rcases registration.call_cases id arguments world with ⟨cause, refused⟩ | ⟨_, performed⟩
  · rw [refused]
    exact ⟨notConsole, rfl⟩
  · rw [performed]
    exact Device.console_perform notConsole arguments world

end Registration

namespace Registry

variable {state : Registry Device × World} {request : CapabilityId × List Value}
  {error : RuntimeError} {id : CapabilityId} {consoles : List CapabilityId}

/-- A call that fails changes nothing. -/
theorem ask_of_error (failed : (ask state request).1 = .error error) :
    (ask state request).2 = state := by
  cases found : state.1.grantedRegistration request.1 with
  | error cause => rw [ask_of_refused found]
  | ok registration =>
    rw [ask_of_found found] at failed ⊢
    rcases Registration.call_of_error failed with ⟨next_eq, world_eq⟩
    dsimp only
    rw [next_eq, world_eq, withRegistration_eq_self found]

/-- The two registries grant the same under the id, and it is not a monotonic clock. -/
def SameUnder (id : CapabilityId) (state otherState : Registry Device × World) : Prop :=
  state.1.grantedRegistration id = otherState.1.grantedRegistration id ∧
    ∀ registration, state.1.grantedRegistration id = .ok registration →
      registration.action ≠ .monotonicClock

/-- What is the same under an id answers alike, and stays the same. -/
theorem SameUnder.ask {otherState : Registry Device × World} {result : Value}
    (same : SameUnder request.1 state otherState) (answered : (ask state request).1 = .ok result) :
    (Registry.ask otherState request).1 = .ok result ∧
      SameUnder request.1 (Registry.ask state request).2 (Registry.ask otherState request).2 := by
  rcases same with ⟨granted_eq, timeless⟩
  rcases exists_registration_of_ask answered with ⟨registration, found⟩
  have otherFound := granted_eq.symm.trans found
  rcases Registration.call_congr (timeless registration found) request.1 request.2 state.2
    otherState.2 with ⟨outcome_eq, next_eq, stillTimeless⟩
  rw [ask_of_found found] at answered ⊢
  rw [ask_of_found otherFound]
  refine ⟨outcome_eq.symm.trans answered, ?_, ?_⟩
  · dsimp only
    rw [grantedRegistration_withRegistration found,
      grantedRegistration_withRegistration otherFound, next_eq]
  · intro later isLater
    dsimp only at isLater
    rw [grantedRegistration_withRegistration found, Except.ok.injEq] at isLater
    rw [← isLater]
    exact stillTimeless

theorem SameUnder.ask_other {otherState : Registry Device × World}
    (same : SameUnder id state otherState) (differs : id ≠ request.1) :
    SameUnder id (Registry.ask state request).2 otherState := by
  rw [SameUnder, grantedRegistration_ask_of_ne differs]
  exact same

/-- The consoles are under the given ids, and all of them capture their lines. -/
def HasConsoles (consoles : List CapabilityId) (registry : Registry Device) : Prop :=
  ∀ id registration, registry.config.registrations.find? id = some registration →
    (id ∈ consoles → registration.action = .console .captured) ∧
      (id ∉ consoles → ¬registration.action.IsConsole)

/-- The lines that successful calls write to the consoles. -/
def lines (consoles : List CapabilityId)
    (calls : List ((CapabilityId × List Value) × Value)) : List String :=
  (calls.filter (·.1.1 ∈ consoles)).flatMap fun call => call.1.2.map toString

theorem lines_cons (call : (CapabilityId × List Value) × Value)
    (calls : List ((CapabilityId × List Value) × Value)) :
    lines consoles (call :: calls) = lines consoles [call] ++ lines consoles calls := by
  rw [lines, ← List.singleton_append, List.filter_append, List.flatMap_append]
  rfl

theorem HasConsoles.withRegistration {registry : Registry Device}
    {registration : Registration Device} (has : HasConsoles consoles registry)
    (kind : (id ∈ consoles → registration.action = .console .captured) ∧
      (id ∉ consoles → ¬registration.action.IsConsole)) :
    HasConsoles consoles (registry.withRegistration id registration) := by
  intro other found isFound
  by_cases same : other = id
  · subst same
    rw [Registry.withRegistration, IdTable.find?_insert_self] at isFound
    cases isFound
    exact kind
  · rw [Registry.withRegistration, IdTable.find?_insert_of_ne _ _ same] at isFound
    exact has other found isFound

theorem HasConsoles.ask {result : Value} (has : HasConsoles consoles state.1)
    (answered : (ask state request).1 = .ok result) :
    HasConsoles consoles (Registry.ask state request).2.1 ∧
      (Registry.ask state request).2.2.console.toList =
        state.2.console.toList ++ lines consoles [(request, result)] := by
  rcases exists_registration_of_ask answered with ⟨registration, found⟩
  rcases has request.1 registration (grantedRegistration_eq_ok.1 found).1 with ⟨console, other⟩
  rw [ask_of_found found] at answered ⊢
  by_cases isConsole : request.1 ∈ consoles
  · rcases Registration.call_console (console isConsole) answered with ⟨next_eq, written⟩
    dsimp only
    rw [next_eq, withRegistration_eq_self found, written]
    exact ⟨has, by simp [lines, isConsole]⟩
  · rcases Registration.call_of_not_console (other isConsole) request.1 request.2 state.2 with
      ⟨notConsole, console_eq⟩
    refine ⟨has.withRegistration ⟨fun member => absurd member isConsole, fun _ => notConsole⟩, ?_⟩
    dsimp only
    rw [console_eq]
    simp [lines, isConsole]

/-- All consoles write to the one buffer, in the order of their calls. -/
theorem HasConsoles.console_run (has : HasConsoles consoles state.1)
    (requests : List (CapabilityId × List Value)) :
    (Session.run Registry.ask state requests).2.2.console.toList =
      state.2.console.toList ++
        lines consoles (Session.successes requests (Session.run Registry.ask state requests).1) := by
  induction requests generalizing state with
  | nil => simp [Session.run, Session.successes, lines]
  | cons request rest ih =>
    rw [Session.run_cons]
    cases answered : (Registry.ask state request).1 with
    | error error =>
      rw [ask_of_error answered]
      exact ih has
    | ok result =>
      rcases has.ask answered with ⟨stillHas, written⟩
      rw [ih stillHas, written, List.append_assoc, Session.successes, ← lines_cons]

end Registry

namespace Manifest

variable {manifest : Manifest} {config : HostConfig Device}

/-- The ids under which the manifest selects consoles. -/
def consoles (manifest : Manifest) : List CapabilityId :=
  (manifest.entries.filter (·.action = .consoleWriteLine)).map ManifestEntry.id

theorem mem_consoles_iff (distinct : manifest.ids.Nodup) {entry : ManifestEntry}
    (member : entry ∈ manifest.entries) :
    entry.id ∈ manifest.consoles ↔ entry.action = .consoleWriteLine := by
  simp only [consoles, List.mem_map, List.mem_filter, decide_eq_true_eq]
  constructor
  · rintro ⟨other, ⟨otherMember, isConsole⟩, same⟩
    rw [← List.inj_on_of_nodup_map distinct otherMember member same]
    exact isConsole
  · intro isConsole
    exact ⟨entry, ⟨member, isConsole⟩, rfl⟩

theorem Provides.hasConsoles (provides : manifest.Provides .captured config)
    (distinct : manifest.ids.Nodup) (token : Token) :
    Registry.HasConsoles manifest.consoles ⟨token, config⟩ := by
  intro id registration found
  rcases provides.exists_entry found with ⟨entry, member, rfl, rfl⟩
  rw [mem_consoles_iff distinct member]
  constructor
  · intro isConsole
    simp only [registration, isConsole, StandardAction.toDevice]
  · intro notConsole
    cases action : entry.action with
    | consoleWriteLine => exact absurd action notConsole
    | monotonicClock | steppedClock start step | seededRandom | seededRange =>
      simp [registration, action, StandardAction.toDevice, Device.IsConsole]

theorem Provides.not_monotonic {sink : Sink} (provides : manifest.Provides sink config)
    (timeless : ∀ entry ∈ manifest.entries, entry.action ≠ .monotonicClock) {id : CapabilityId}
    {registration : Registration Device}
    (found : config.registrations.find? id = some registration) :
    registration.action ≠ .monotonicClock := by
  rcases provides.exists_entry found with ⟨entry, member, rfl, rfl⟩
  exact StandardAction.toDevice_ne_monotonicClock (timeless entry member) _ _

/-- The capabilities of a manifest do not interfere, unless one of them is the monotonic clock.
Whatever is asked of a registry in whatever order: when the calls to one id that succeeded are made
again, alone and in the same order, on a fresh registry, whatever its token and its world, they all
succeed with the same results. So calls to other ids and calls that fail move no clock on and draw
from no stream. And the captured console holds the texts of the arguments of all successful calls
to consoles, in the order of the calls. -/
theorem capabilities_isolated (distinct : manifest.ids.Nodup)
    (timeless : ∀ entry ∈ manifest.entries, entry.action ≠ .monotonicClock) :
    ∃ config, manifest.toConfig .captured = .ok config ∧
      ∀ (token : Token) (world : World) (requests : List (CapabilityId × List Value)),
        let run := Session.run Registry.ask (⟨token, config⟩, world) requests
        let succeeded := Session.successes requests run.1
        (∀ (id : CapabilityId) (otherToken : Token) (otherWorld : World),
          let own := succeeded.filter (·.1.1 = id)
          (Session.run Registry.ask (⟨otherToken, config⟩, otherWorld) (own.map Prod.fst)).1 =
            own.map (.ok ·.2)) ∧
        run.2.2.console.toList =
          world.console.toList ++ Registry.lines manifest.consoles succeeded := by
  rcases exists_toConfig distinct .captured with ⟨config, built, provides⟩
  refine ⟨config, built, ?_⟩
  intro token world requests
  constructor
  · intro id otherToken otherWorld
    have start : Registry.SameUnder id (⟨token, config⟩, world)
        (⟨otherToken, config⟩, otherWorld) :=
      ⟨rfl, fun registration found =>
        provides.not_monotonic timeless (Registry.grantedRegistration_eq_ok.1 found).1⟩
    refine Session.run_successes (Registry.SameUnder id) (·.1 = id) start ?_ ?_ ?_ requests
    · intro state otherState request result same isOwn answered
      cases of_decide_eq_true isOwn
      exact same.ask answered
    · intro state otherState request same isOther
      exact same.ask_other (Ne.symm (of_decide_eq_false isOther))
    · intro state otherState request error same failed
      rw [Registry.ask_of_error failed]
      exact same
  · exact (provides.hasConsoles distinct token).console_run requests

/-- Two consoles, a clock and a random source. One of the consoles may not be used. -/
def desk : Manifest where
  seed := 7
  entries := [⟨⟨1⟩, .consoleWriteLine, true⟩, ⟨⟨2⟩, .steppedClock 40 2, true⟩,
    ⟨⟨3⟩, .seededRange, true⟩, ⟨⟨4⟩, .consoleWriteLine, false⟩]

/-- Between the two looks at the time, all sorts of things go wrong. -/
def deskRequests : List (CapabilityId × List Value) :=
  [(⟨2⟩, []), (⟨1⟩, [.bool true]), (⟨2⟩, [.unit]), (⟨3⟩, [.int 5, .int 5]), (⟨4⟩, [.bool false]),
    (⟨1⟩, []), (⟨2⟩, []), (⟨1⟩, [.unit])]

theorem capabilities_isolated_desk :
    ∃ config, desk.toConfig .captured = .ok config ∧
      (Session.run Registry.ask (⟨⟨1⟩, config⟩, ({} : World)) [(⟨2⟩, []), (⟨2⟩, [])]).1 =
        [.ok (.int 40), .ok (.int 42)] ∧
      (Session.run Registry.ask (⟨⟨0⟩, config⟩, ({} : World)) deskRequests).2.2.console.toList =
        ["true", "()"] := by
  have distinct : desk.ids.Nodup := by decide
  have timeless : ∀ entry ∈ desk.entries, entry.action ≠ .monotonicClock := by decide
  rcases capabilities_isolated distinct timeless with ⟨config, built, isolated⟩
  rcases isolated ⟨0⟩ {} deskRequests with ⟨replayed, written⟩
  have succeeded : Session.successes deskRequests
      (Session.run Registry.ask (⟨⟨0⟩, config⟩, ({} : World)) deskRequests).1 =
      [((⟨2⟩, []), .int 40), ((⟨1⟩, [.bool true]), .unit), ((⟨2⟩, []), .int 42),
        ((⟨1⟩, [.unit]), .unit)] := by
    cases built
    rfl
  have clock := replayed ⟨2⟩ ⟨1⟩ {}
  rw [succeeded] at clock written
  exact ⟨config, built, clock, written⟩

end Manifest

end CapabilityMachine
