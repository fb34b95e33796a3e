import CapabilityMachine.Proofs.Host.Isolation
/-!
# Clocks that stop at the ends of the range

A stepped clock adds its step to the time at every look, and clamps every sum. That comes to the
same as clamping once. All steps of a clock lead in one direction, so a sum that had to be clamped
on the way would have to be clamped in the end as well, to the same end of the range. What a clock
reads is therefore known from the number of looks so far: it is the exact sum of the start and all
steps, clamped to the range of integers.

A clock may start at one end of the range and move away from it. The other end is the only one that
it gets to, and there it stays.
-/

namespace CapabilityMachine

theorem clampInt64_toInt (n : Int64) : clampInt64 n.toInt = n := by
  have bounds := And.intro n.le_toInt n.toInt_lt
  rw [← Int64.toInt_inj, toInt_clampInt64, minInt64, maxInt64]
  omega

theorem clampInt64_le_clampInt64 {m n : Int} (le : m ≤ n) : clampInt64 m ≤ clampInt64 n := by
  rw [Int64.le_iff_toInt_le, toInt_clampInt64, toInt_clampInt64]
  omega

/-- It makes no difference to clamp a sum before something is added that leads further in the same
direction. -/
theorem clampInt64_clampInt64_add (start : Int64) {moved step : Int}
    (oneWay : 0 ≤ moved ∧ 0 ≤ step ∨ moved ≤ 0 ∧ step ≤ 0) :
    clampInt64 ((clampInt64 (start.toInt + moved)).toInt + step) =
      clampInt64 (start.toInt + moved + step) := by
  have bounds := And.intro start.le_toInt start.toInt_lt
  simp only [← Int64.toInt_inj, toInt_clampInt64, minInt64, maxInt64]
  omega

namespace Device

/-- Asks a device for a result, in a world that may have changed since it was asked before. -/
def answer (device : Device) (request : List Value × World) :
    Except RuntimeError Value × Device :=
  let response := device.perform request.1 request.2
  (response.outcome, response.next)

/-- What a clock tells after so many looks: the sum of its start and as many steps, clamped once. -/
def reading (start step : Int64) (looks : Nat) : Int64 :=
  clampInt64 (start.toInt + looks * step.toInt)

/-- The clock stands at the end of the range that its step leads to. -/
def Arrived (step now : Int64) : Prop :=
  0 ≤ step ∧ now = Int64.maxValue ∨ step ≤ 0 ∧ now = Int64.minValue

variable {start step : Int64} {m n : Nat}

theorem toInt_reading (start step : Int64) (n : Nat) :
    (reading start step n).toInt = max minInt64 (min maxInt64 (start.toInt + n * step.toInt)) :=
  toInt_clampInt64 _

theorem reading_zero (start step : Int64) : reading start step 0 = start := by
  rw [reading, Int.natCast_zero, Int.zero_mul, Int.add_zero, clampInt64_toInt]

theorem reading_succ (start step : Int64) (n : Nat) :
    clampInt64 ((reading start step n).toInt + step.toInt) = reading start step (n + 1) := by
  have oneWay : 0 ≤ n * step.toInt ∧ 0 ≤ step.toInt ∨ n * step.toInt ≤ 0 ∧ step.toInt ≤ 0 := by
    rcases Int.le_total 0 step.toInt with forward | backward
    · exact Or.inl ⟨Int.mul_nonneg (Int.natCast_nonneg n) forward, forward⟩
    · exact Or.inr ⟨Int.mul_nonpos_of_nonneg_of_nonpos (Int.natCast_nonneg n) backward, backward⟩
  rw [reading, clampInt64_clampInt64_add start oneWay, reading, Int.natCast_succ, Int.add_mul,
    Int.one_mul, Int.add_assoc]

/-- Whatever a clock is given, a look at it tells its reading and moves it on to the next one. -/
theorem perform_steppedClock (start step : Int64) (n : Nat) (arguments : List Value)
    (world : World) :
    (steppedClock (reading start step n) step).perform arguments world =
      ⟨.ok (.int (reading start step n)), steppedClock (reading start step (n + 1)) step,
        world⟩ := by
  rw [perform, reading_succ]

theorem run_steppedClock (start step : Int64) (n : Nat) (requests : List (List Value × World)) :
    (Session.run answer (steppedClock (reading start step n) step) requests).2 =
      steppedClock (reading start step (n + requests.length)) step := by
  induction requests generalizing n with
  | nil => rfl
  | cons request rest ih =>
    rw [Session.run_cons, answer, perform_steppedClock, ih, List.length_cons, Nat.add_assoc,
      Nat.add_comm 1]

/-! ### The course of the readings -/

theorem reading_le_of_forward (start : Int64) (forward : 0 ≤ step) (later : n ≤ m) :
    reading start step n ≤ reading start step m := by
  have moved : n * step.toInt ≤ m * step.toInt :=
    Int.mul_le_mul_of_nonneg_right (Int.ofNat_le.2 later) (Int64.le_iff_toInt_le.1 forward)
  exact clampInt64_le_clampInt64 (Int.add_le_add_left moved _)

theorem reading_le_of_backward (start : Int64) (backward : step ≤ 0) (later : n ≤ m) :
    reading start step m ≤ reading start step n := by
  have moved : m * step.toInt ≤ n * step.toInt :=
    Int.mul_le_mul_of_nonpos_right (Int.ofNat_le.2 later) (Int64.le_iff_toInt_le.1 backward)
  exact clampInt64_le_clampInt64 (Int.add_le_add_left moved _)

theorem reading_of_arrived (arrived : Arrived step (reading start step n)) (later : n ≤ m) :
    reading start step m = reading start step n := by
  rcases arrived with ⟨forward, atEnd⟩ | ⟨backward, atEnd⟩
  · have notBelow := reading_le_of_forward start forward later
    rw [atEnd] at notBelow ⊢
    exact Int64.le_antisymm (Int64.le_maxValue _) notBelow
  · have notAbove := reading_le_of_backward start backward later
    rw [atEnd] at notAbove ⊢
    exact Int64.le_antisymm notAbove (Int64.minValue_le _)

theorem minValue_lt_reading (forward : 0 < step) (moved : 0 < n) :
    Int64.minValue < reading start step n := by
  have first := toInt_reading start step 1
  have onward : reading start step 1 ≤ reading start step n :=
    reading_le_of_forward start (Int64.le_of_lt forward) moved
  have bound := start.le_toInt
  rw [Int64.lt_iff_toInt_lt, Int64.toInt_zero] at forward
  rw [Int64.le_iff_toInt_le, first, Int.natCast_one, Int.one_mul, minInt64, maxInt64] at onward
  rw [Int64.lt_iff_toInt_lt, Int64.toInt_minValue]
  omega

theorem reading_lt_maxValue (backward : step < 0) (moved : 0 < n) :
    reading start step n < Int64.maxValue := by
  have first := toInt_reading start step 1
  have onward : reading start step n ≤ reading start step 1 :=
    reading_le_of_backward start (Int64.le_of_lt backward) moved
  have bound := start.toInt_lt
  rw [Int64.lt_iff_toInt_lt, Int64.toInt_zero] at backward
  rw [Int64.le_iff_toInt_le, first, Int.natCast_one, Int.one_mul, minInt64, maxInt64] at onward
  rw [Int64.lt_iff_toInt_lt, Int64.toInt_maxValue]
  omega

/-- A clock that has moved is at neither end of the range but the one that its step leads to. -/
theorem arrived_of_moved (moved : 0 < n)
    (atEnd : reading start step n = Int64.minValue ∨ reading start step n = Int64.maxValue) :
    Arrived step (reading start step n) := by
  rcases atEnd with atLeast | atMost
  · refine Or.inr ⟨Int64.not_lt.1 ?_, atLeast⟩
    intro forward
    exact Int64.ne_of_lt (minValue_lt_reading forward moved) atLeast.symm
  · refine Or.inl ⟨Int64.not_lt.1 ?_, atMost⟩
    intro backward
    exact Int64.ne_of_lt (reading_lt_maxValue backward moved) atMost

end Device

namespace Registration

variable {registration : Registration Device} {now step : Int64}

theorem call_steppedClock (isClock : registration.action = .steppedClock now step)
    (id : CapabilityId) (world : World) :
    registration.call id [] world =
      ⟨.ok (.int now),
        { registration with action := .steppedClock (clampInt64 (now.toInt + step.toInt)) step },
        world⟩ := by
  rcases registration with ⟨action, signature⟩
  subst isClock
  rfl

theorem call_steppedClock_of_ne_nil (isClock : registration.action = .steppedClock now step)
    (id : CapabilityId) {arguments : List Value} (given : arguments ≠ []) (world : World) :
    ∃ error, registration.call id arguments world = ⟨.error error, registration, world⟩ := by
  rcases registration.call_cases id arguments world with refused | ⟨fits, _⟩
  · exact refused
  · rw [isClock] at fits
    exact absurd (List.length_eq_zero_iff.1 fits.1) given

end Registration

namespace Registry

variable {state : Registry Device × World} {request : CapabilityId × List Value}
  {id : CapabilityId} {start step : Int64} {n : Nat}

/-- The device is under the id, and may be used. -/
def Grants (registry : Registry Device) (id : CapabilityId) (device : Device) : Prop :=
  registry.isGranted id = true ∧
    ∃ registration, registry.config.registrations.find? id = some registration ∧
      registration.action = device

open Device

theorem grants_iff {registry : Registry Device} {device : Device} :
    registry.Grants id device ↔
      ∃ registration, registry.grantedRegistration id = .ok registration ∧
        registration.action = device := by
  simp only [Grants, grantedRegistration_eq_ok, ← exists_and_left, and_left_comm, and_assoc]

theorem Grants.ask_steppedClock
    (grants : state.1.Grants id (steppedClock (reading start step n) step)) :
    (ask state (id, [])).1 = .ok (.int (reading start step n)) ∧
      (ask state (id, [])).2.1.Grants id (steppedClock (reading start step (n + 1)) step) := by
  rcases grants_iff.1 grants with ⟨registration, found, isClock⟩
  rw [ask_of_found found, Registration.call_steppedClock isClock, reading_succ, grants_iff]
  exact ⟨rfl, _, grantedRegistration_withRegistration found _, rfl⟩

/-- Neither calls to other capabilities nor calls that fail move a clock on. -/
theorem Grants.ask_of_ne (grants : state.1.Grants id (steppedClock (reading start step n) step))
    (differs : request ≠ (id, [])) :
    (ask state request).2.1.Grants id (steppedClock (reading start step n) step) := by
  rw [grants_iff] at grants ⊢
  rcases grants with ⟨registration, found, isClock⟩
  by_cases same : id = request.1
  · subst same
    have given : request.2 ≠ [] := fun nothing => differs (Prod.ext rfl nothing)
    rcases Registration.call_steppedClock_of_ne_nil isClock request.1 given state.2 with
      ⟨error, refused⟩
    rw [ask_of_found found, refused]
    exact ⟨registration, grantedRegistration_withRegistration found _, isClock⟩
  · exact ⟨registration, (grantedRegistration_ask_of_ne same).trans found, isClock⟩

theorem Grants.run_ask (grants : state.1.Grants id (steppedClock (reading start step n) step))
    (requests : List (CapabilityId × List Value)) :
    (Session.run ask state requests).2.1.Grants id
      (steppedClock (reading start step (n + requests.count (id, []))) step) := by
  induction requests generalizing state n with
  | nil => exact grants
  | cons request rest ih =>
    rw [Session.run_cons]
    by_cases isLook : request = (id, [])
    · subst isLook
      have looked := ih grants.ask_steppedClock.2
      rwa [Nat.add_assoc, Nat.add_comm 1, ← List.count_cons_self] at looked
    · rw [List.count_cons_of_ne isLook]
      exact ih (grants.ask_of_ne isLook)

end Registry

namespace Device

/-- A stepped clock has a closed form. Whatever it is given and whatever the world is like, a look
at it tells the exact sum of the start and as many steps as there were looks before, clamped to the
range of integers. So the readings never wrap around, and follow the direction of the step. When a
clock has moved to an end of the range, it stays there for good. If it starts at the end that its
step leads to, it never leaves it. In a registry that grants the clock, nothing else that is asked
of the registry makes a difference: what counts is the number of calls to the clock without
arguments. -/
theorem steppedClock_reads_clamped_sum (start step : Int64) :
    (∀ (earlier : List (List Value × World)) (arguments : List Value) (world : World),
      ((Session.run answer (steppedClock start step) earlier).2.perform arguments world).outcome =
        .ok (.int (reading start step earlier.length))) ∧
    (∀ n, (reading start step n).toInt =
      max minInt64 (min maxInt64 (start.toInt + n * step.toInt))) ∧
    (∀ n m, n ≤ m →
      (0 ≤ step → reading start step n ≤ reading start step m) ∧
      (step ≤ 0 → reading start step m ≤ reading start step n)) ∧
    (∀ n m, 0 < n → n ≤ m →
      reading start step n = Int64.minValue ∨ reading start step n = Int64.maxValue →
        reading start step m = reading start step n) ∧
    (Arrived step start → ∀ n, reading start step n = start) ∧
    (∀ (registry : Registry Device) (id : CapabilityId) (world : World)
        (earlier : List (CapabilityId × List Value)),
      registry.Grants id (steppedClock start step) →
        (Registry.ask (Session.run Registry.ask (registry, world) earlier).2 (id, [])).1 =
          .ok (.int (reading start step (earlier.count (id, []))))) := by
  have initial : steppedClock start step = steppedClock (reading start step 0) step := by
    rw [reading_zero]
  refine ⟨?_, toInt_reading start step, ?_, ?_, ?_, ?_⟩
  · intro earlier arguments world
    rw [initial, run_steppedClock, perform_steppedClock, Nat.zero_add]
  · intro n m later
    exact ⟨fun forward => reading_le_of_forward start forward later,
      fun backward => reading_le_of_backward start backward later⟩
  · intro n m moved later atEnd
    exact reading_of_arrived (arrived_of_moved moved atEnd) later
  · intro arrived n
    rw [← reading_zero start step] at arrived
    rw [reading_of_arrived arrived n.zero_le, reading_zero]
  · intro registry id world earlier grants
    rw [initial] at grants
    have looked : (Session.run Registry.ask (registry, world) earlier).2.1.Grants id
        (steppedClock (reading start step (0 + earlier.count (id, []))) step) :=
      Registry.Grants.run_ask grants earlier
    rw [Nat.zero_add] at looked
    exact looked.ask_steppedClock.1

/-- A clock that runs down to the least integer, past which its third step would lead. Of the calls
before, one has an argument and one is to a capability that is not there. -/
theorem steppedClock_reads_clamped_sum_downward :
    ∃ config : HostConfig Device,
      HostConfig.registerGranted {} ⟨2⟩ (steppedClock (Int64.minValue + 7) (-3)) = .ok config ∧
      (Registry.ask (Session.run Registry.ask (⟨⟨0⟩, config⟩, ({} : World))
        [(⟨2⟩, []), (⟨2⟩, [.unit]), (⟨2⟩, []), (⟨3⟩, []), (⟨2⟩, [])]).2 (⟨2⟩, [])).1 =
          .ok (.int Int64.minValue) ∧
      ∀ later, 3 ≤ later → reading (Int64.minValue + 7) (-3) later = Int64.minValue := by
  rcases steppedClock_reads_clamped_sum (Int64.minValue + 7) (-3) with
    ⟨_, _, _, constant, _, granted⟩
  have lowest : reading (Int64.minValue + 7) (-3) 3 = Int64.minValue := by decide
  refine ⟨_, rfl, ?_, ?_⟩
  · rw [granted]
    · exact congrArg _ (congrArg _ lowest)
    · exact ⟨rfl, _, rfl, rfl⟩
  · intro later le
    rw [constant 3 later (by decide) le (Or.inl lowest), lowest]

end Device

end CapabilityMachine
