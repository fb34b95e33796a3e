import CapabilityMachine.RuntimeError
/-!
# Sequences of operations that may fail

Operations in sequence succeed when each of them does, and fail with the error of the first one that
fails. The lemmas of this file take such a sequence apart.
-/

namespace CapabilityMachine.Outcome

variable {ε β γ : Type}

theorem bind_eq_ok {outcome : Except ε β} {next : β → Except ε γ} {result : γ} :
    (outcome >>= next) = .ok result ↔ ∃ value, outcome = .ok value ∧ next value = .ok result := by
  cases outcome <;> simp [bind, Except.bind]

theorem check_bind_eq_ok {outcome : Except ε Unit} {next : Unit → Except ε γ} {result : γ} :
    (outcome >>= next) = .ok result ↔ outcome = .ok () ∧ next () = .ok result := by
  cases outcome <;> simp [bind, Except.bind]

theorem bind_eq_error {outcome : Except ε β} {next : β → Except ε γ} {error : ε} :
    (outcome >>= next) = .error error ↔
      outcome = .error error ∨ ∃ value, outcome = .ok value ∧ next value = .error error := by
  cases outcome <;> simp [bind, Except.bind]

theorem map_eq_ok {change : β → γ} {outcome : Except ε β} {result : γ} :
    outcome.map change = .ok result ↔ ∃ value, outcome = .ok value ∧ change value = result := by
  cases outcome <;> simp [Except.map]

theorem map_eq_error {change : β → γ} {outcome : Except ε β} {error : ε} :
    outcome.map change = .error error ↔ outcome = .error error := by
  cases outcome <;> simp [Except.map]

theorem mapError_eq_ok {δ : Type} {change : ε → δ} {outcome : Except ε β} {result : β} :
    outcome.mapError change = .ok result ↔ outcome = .ok result := by
  cases outcome with
  | ok value =>
    show (Except.ok value : Except δ β) = .ok result ↔ _
    rw [Except.ok.injEq, Except.ok.injEq]
  | error cause => exact ⟨nofun, nofun⟩

theorem mapError_eq_error {δ : Type} {change : ε → δ} {outcome : Except ε β} {error : δ} :
    outcome.mapError change = .error error ↔
      ∃ cause, outcome = .error cause ∧ change cause = error := by
  cases outcome with
  | ok value => exact ⟨nofun, nofun⟩
  | error cause =>
    constructor
    · intro changed
      exact ⟨cause, rfl, Except.error.inj changed⟩
    · rintro ⟨_, ⟨⟩, rfl⟩
      rfl

@[simp]
theorem ok_bind (value : β) (next : β → Except ε γ) : (Except.ok value >>= next) = next value :=
  rfl

@[simp]
theorem error_bind (error : ε) (next : β → Except ε γ) :
    ((Except.error error : Except ε β) >>= next) = .error error :=
  rfl

@[simp]
theorem pure_eq_ok {value result : β} :
    (pure value : Except ε β) = .ok result ↔ result = value := by
  simp [pure, Except.pure, eq_comm]

@[simp]
theorem pure_ne_error {value : β} {error : ε} : (pure value : Except ε β) ≠ .error error := by
  simp [pure, Except.pure]

theorem ite_error_eq_ok {condition : Prop} [Decidable condition] {error : ε}
    {otherwise : Except ε β} {result : β} :
    (if condition then .error error else otherwise) = .ok result ↔
      ¬condition ∧ otherwise = .ok result := by
  split <;> simp_all

theorem ite_error_eq_error {condition : Prop} [Decidable condition] {error found : ε}
    {otherwise : Except ε β} :
    (if condition then .error error else otherwise) = .error found ↔
      condition ∧ error = found ∨ ¬condition ∧ otherwise = .error found := by
  split <;> simp_all

/-- If the operation fails, then with an expected error. -/
def FailsOnly (expected : ε → Prop) (outcome : Except ε β) : Prop :=
  ∀ error, outcome = .error error → expected error

section FailsOnly

variable {expected : ε → Prop} {outcome : Except ε β} {next : β → Except ε γ}

theorem failsOnly_ok (value : β) : FailsOnly expected (.ok value) := by
  intro error failed
  cases failed

theorem failsOnly_error {error : ε} (isExpected : expected error) :
    FailsOnly expected (.error error : Except ε β) := by
  intro found failed
  cases failed
  exact isExpected

theorem FailsOnly.bind (first : FailsOnly expected outcome)
    (later : ∀ value, FailsOnly expected (next value)) : FailsOnly expected (outcome >>= next) := by
  intro error failed
  rcases bind_eq_error.1 failed with failed | ⟨value, _, failed⟩
  · exact first error failed
  · exact later value error failed

theorem failsOnly_ite {condition : Prop} [Decidable condition] {otherwise : Except ε β}
    (first : FailsOnly expected outcome) (second : FailsOnly expected otherwise) :
    FailsOnly expected (if condition then outcome else otherwise) := by
  split
  · exact first
  · exact second

end FailsOnly

/-- A condition that holds lets an optional sequence go on. -/
theorem guard_bind {condition : Prop} [Decidable condition] (holds : condition)
    (next : Unit → Option γ) : (guard condition >>= next) = next () := by
  have passed : guard condition = some () := if_pos holds
  rw [passed]
  rfl

end CapabilityMachine.Outcome
