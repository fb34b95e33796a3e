/-!
# Sequences of calls

Something that is called again and again answers each call and goes on in the state that the call
left behind. What every single call keeps is kept by all calls in sequence, and two such things that
answer each call alike answer all sequences of calls alike.
-/

namespace CapabilityMachine.Session

variable {σ τ ι ο ε : Type}

/-- The answers to the calls, in their order, and the state behind the last call. -/
def run (call : σ → ι → ο × σ) (state : σ) : List ι → List ο × σ
  | [] => ([], state)
  | input :: rest =>
    let (answer, next) := call state input
    let (answers, last) := run call next rest
    (answer :: answers, last)

/-- A call that fails leaves the state as it was. -/
def settle (state : σ) : Except ε (ο × σ) → Except ε ο × σ
  | .ok (answer, next) => (.ok answer, next)
  | .error error => (.error error, state)

variable {call : σ → ι → ο × σ} {other : τ → ι → ο × τ} {state : σ} {otherState : τ}

theorem run_cons (input : ι) (rest : List ι) :
    run call state (input :: rest) =
      ((call state input).1 :: (run call (call state input).2 rest).1,
        (run call (call state input).2 rest).2) :=
  rfl

theorem run_append (front back : List ι) :
    run call state (front ++ back) =
      ((run call state front).1 ++ (run call (run call state front).2 back).1,
        (run call (run call state front).2 back).2) := by
  induction front generalizing state with
  | nil => rfl
  | cons input rest ih => simp only [List.cons_append, run, ih]

/-- What holds in the beginning and is kept by every call holds behind all of them. -/
theorem run_induction (holds : σ → Prop) (start : holds state)
    (step : ∀ state input, holds state → holds (call state input).2) (inputs : List ι) :
    holds (run call state inputs).2 := by
  induction inputs generalizing state with
  | nil => exact start
  | cons input rest ih => exact ih (step state input start)

/-- States that are related answer alike, if each of the calls does and leaves related states. -/
theorem run_related_of_mem (related : σ → τ → Prop) (start : related state otherState)
    (inputs : List ι)
    (step : ∀ state otherState, ∀ input ∈ inputs, related state otherState →
      (call state input).1 = (other otherState input).1 ∧
        related (call state input).2 (other otherState input).2) :
    (run call state inputs).1 = (run other otherState inputs).1 ∧
      related (run call state inputs).2 (run other otherState inputs).2 := by
  induction inputs generalizing state otherState with
  | nil => exact ⟨rfl, start⟩
  | cons input rest ih =>
    rcases step state otherState input List.mem_cons_self start with ⟨same, later⟩
    rcases ih later fun state otherState input member =>
      step state otherState input (List.mem_cons_of_mem _ member) with ⟨rest_same, last⟩
    exact ⟨by simp only [run, same, rest_same], last⟩

/-- States that are related answer alike, if every call does and leaves related states. -/
theorem run_related (related : σ → τ → Prop) (start : related state otherState)
    (step : ∀ state otherState input, related state otherState →
      (call state input).1 = (other otherState input).1 ∧
        related (call state input).2 (other otherState input).2) (inputs : List ι) :
    (run call state inputs).1 = (run other otherState inputs).1 ∧
      related (run call state inputs).2 (run other otherState inputs).2 :=
  run_related_of_mem related start inputs fun state otherState input _ =>
    step state otherState input

/-! ### Calls that may fail -/

/-- The calls that succeeded, with their results. -/
def successes : List ι → List (Except ε ο) → List (ι × ο)
  | input :: inputs, .ok result :: answers => (input, result) :: successes inputs answers
  | _ :: inputs, .error _ :: answers => successes inputs answers
  | _, _ => []

/-- Some of the calls that succeeded are made again from another state, and no others are. They come
to the same results if each of them does in related states, and leaves related states, while all
other calls leave the first state related to the second one. -/
theorem run_successes {call : σ → ι → Except ε ο × σ} {other : τ → ι → Except ε ο × τ}
    (related : σ → τ → Prop) (repeated : ι → Bool) (start : related state otherState)
    (again : ∀ state otherState input result, related state otherState → repeated input = true →
      (call state input).1 = .ok result →
        (other otherState input).1 = .ok result ∧
          related (call state input).2 (other otherState input).2)
    (left : ∀ state otherState input, related state otherState → repeated input = false →
      related (call state input).2 otherState)
    (failed : ∀ state otherState input error, related state otherState →
      (call state input).1 = .error error → related (call state input).2 otherState)
    (inputs : List ι) :
    let own := (successes inputs (run call state inputs).1).filter (repeated ·.1)
    (run other otherState (own.map Prod.fst)).1 = own.map (.ok ·.2) := by
  induction inputs generalizing state otherState with
  | nil => rfl
  | cons input rest ih =>
    rw [run_cons]
    cases answered : (call state input).1 with
    | error error => exact ih (failed state otherState input error start answered)
    | ok result =>
      cases isRepeated : repeated input with
      | false =>
        simp only [successes, List.filter_cons, isRepeated, Bool.false_eq_true, if_false]
        exact ih (left state otherState input start isRepeated)
      | true =>
        rcases again state otherState input result start isRepeated answered with ⟨same, later⟩
        simp only [successes, List.filter_cons, isRepeated, if_true, List.map_cons, run, same]
        exact congrArg _ (ih later)

end CapabilityMachine.Session
