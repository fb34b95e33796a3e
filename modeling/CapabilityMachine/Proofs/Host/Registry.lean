import CapabilityMachine.Host.Registry
import CapabilityMachine.Proofs.Outcome
/-!
# What registries keep

Performing actions changes neither the token of a registry nor its grants, so a handle that was
valid once stays valid. As long as every granted id has an action, which performing actions does not
change either, an invocation with a valid handle can fail only on behalf of the capability itself.
Its result is never a handle or a reference.
-/

namespace CapabilityMachine

open Outcome

namespace IdTable

variable {α : Type} (table : IdTable α) (id other : CapabilityId) (value : α)

theorem find?_insert_self : (table.insert id value).find? id = some value := by
  simp only [find?, insert]
  induction table.entries with
  | nil => simp [insertEntry]
  | cons entry rest ih =>
    rcases entry with ⟨key, present⟩
    rw [insertEntry]
    split
    · simp
    · rename_i differs
      split
      · simp
      · simp only [List.lookup_cons, beq_false_of_ne differs]
        exact ih

theorem find?_insert_of_ne {id other : CapabilityId} (differs : other ≠ id) :
    (table.insert id value).find? other = table.find? other := by
  simp only [find?, insert]
  induction table.entries with
  | nil => simp [insertEntry, List.lookup_cons, beq_false_of_ne differs]
  | cons entry rest ih =>
    rcases entry with ⟨key, present⟩
    rw [insertEntry]
    split
    · rename_i same
      subst same
      simp [List.lookup_cons, beq_false_of_ne differs]
    · split
      · simp [List.lookup_cons, beq_false_of_ne differs]
      · simp only [List.lookup_cons]
        cases other == key <;> simp [ih]

theorem contains_insert {table : IdTable α} {id other : CapabilityId} {value : α} :
    (table.insert id value).contains other = true ↔ other = id ∨ table.contains other = true := by
  by_cases same : other = id
  · subst same
    simp [contains, find?_insert_self]
  · simp [contains, find?_insert_of_ne _ _ same, same]

theorem contains_iff {table : IdTable α} {id : CapabilityId} :
    table.contains id = true ↔ ∃ value, table.find? id = some value :=
  Option.isSome_iff_exists

end IdTable

/-- Every id that is granted has an action. -/
def HostConfig.Supplied {α : Type} (config : HostConfig α) : Prop :=
  ∀ id, config.isGranted id = true → config.isRegistered id = true

/-- The value is neither a handle nor a reference. -/
def Value.IsPlain (value : Value) : Prop :=
  value.kind ≠ .cap ∧ value.kind ≠ .ref

namespace Signature

variable {signature : Signature} {id : CapabilityId} {error : RuntimeError}

theorem checkArguments_error {arguments : List Value}
    (refused : signature.checkArguments id arguments = .error error) :
    ∃ reason, error = .capabilityError id reason := by
  simp only [checkArguments] at refused
  split at refused
  · exact ⟨_, (Except.error.inj refused).symm⟩
  · split at refused
    · cases refused
    · exact ⟨_, (Except.error.inj refused).symm⟩

theorem checkResult_error {result : Value}
    (refused : signature.checkResult id result = .error error) :
    ∃ reason, error = .capabilityError id reason := by
  simp only [checkResult] at refused
  split at refused
  · exact ⟨_, (Except.error.inj refused).symm⟩
  · exact ⟨_, (Except.error.inj refused).symm⟩
  · split at refused
    · cases refused
    · exact ⟨_, (Except.error.inj refused).symm⟩

theorem isPlain_of_checkResult {result : Value}
    (accepted : signature.checkResult id result = .ok ()) : result.IsPlain := by
  simp only [checkResult] at accepted
  split at accepted
  · cases accepted
  · cases accepted
  · rename_i notCap notRef
    exact ⟨notCap, notRef⟩

end Signature

namespace Registry

variable {α ω : Type} {registry : Registry α} {id : CapabilityId} {handle : Handle}
  {error : RuntimeError}

/-- The registry has issued the handle, and the run may use its capability. -/
def Honors (registry : Registry α) (handle : Handle) : Prop :=
  handle.token = registry.token ∧ registry.isGranted handle.id = true

theorem grantedRegistration_eq_ok {registration : Registration α} :
    registry.grantedRegistration id = .ok registration ↔
      registry.config.registrations.find? id = some registration ∧
        registry.isGranted id = true := by
  rw [grantedRegistration]
  by_cases granted : registry.isGranted id = true
  · rw [if_pos granted, and_iff_left granted]
    cases registry.config.registrations.find? id <;> simp
  · rw [if_neg granted, iff_false_right (fun found => granted found.2)]
    exact nofun

/-- The errors for a capability that is not granted, or that is granted without having an action. -/
inductive Withholds (registry : Registry α) (id : CapabilityId) : RuntimeError → Prop
  | denied (ungranted : registry.isGranted id = false) :
    Withholds registry id (.capabilityDenied id)
  | unsupplied (granted : registry.isGranted id = true)
    (absent : registry.config.isRegistered id = false) :
    Withholds registry id (.internal s!"granted {id} has no action")

theorem grantedRegistration_error (refused : registry.grantedRegistration id = .error error) :
    registry.Withholds id error := by
  rw [grantedRegistration] at refused
  split at refused
  · rename_i granted
    split at refused
    · cases refused
    · rename_i absent
      cases refused
      exact .unsupplied granted (by rw [HostConfig.isRegistered, IdTable.contains, absent]; rfl)
  · rename_i ungranted
    cases refused
    exact .denied (Bool.eq_false_iff.2 ungranted)

theorem Withholds.denied_of_supplied (withholds : registry.Withholds id error)
    (supplied : registry.config.Supplied) :
    registry.isGranted id = false ∧ error = .capabilityDenied id := by
  cases withholds with
  | denied ungranted => exact ⟨ungranted, rfl⟩
  | unsupplied granted absent => exact absurd (supplied id granted) (Bool.eq_false_iff.1 absent)

/-- The signature of a capability is withheld only if the capability is not granted. -/
theorem signature_error_of_supplied (supplied : registry.config.Supplied)
    (refused : registry.signature id = .error error) :
    registry.isGranted id = false ∧ error = .capabilityDenied id := by
  rw [signature] at refused
  cases found : registry.grantedRegistration id with
  | ok registration =>
    rw [found] at refused
    cases refused
  | error cause =>
    rw [found] at refused
    cases refused
    exact (grantedRegistration_error found).denied_of_supplied supplied

theorem issue_eq_ok :
    registry.issue id = .ok handle ↔
      registry.isGranted id = true ∧ handle = ⟨id, registry.token⟩ := by
  rw [issue]
  split
  · rename_i granted
    rw [Except.ok.injEq, and_iff_right granted, eq_comm]
  · rename_i ungranted
    exact ⟨nofun, fun issued => absurd issued.1 ungranted⟩

theorem issue_error (refused : registry.issue id = .error error) :
    registry.isGranted id = false ∧ error = .capabilityDenied id := by
  rw [issue] at refused
  split at refused
  · cases refused
  · rename_i ungranted
    cases refused
    exact ⟨Bool.eq_false_iff.2 ungranted, rfl⟩

theorem honors_of_issue (issued : registry.issue id = .ok handle) : registry.Honors handle := by
  rcases issue_eq_ok.1 issued with ⟨granted, rfl⟩
  exact ⟨rfl, granted⟩

theorem resolve_of_found (honors : registry.Honors handle) {registration : Registration α}
    (found : registry.config.registrations.find? handle.id = some registration) :
    registry.resolve handle = .ok registration.action := by
  rw [resolve, if_pos honors.1, grantedRegistration_eq_ok.2 ⟨found, honors.2⟩]
  rfl

theorem resolve_of_absent (honors : registry.Honors handle)
    (absent : registry.config.registrations.find? handle.id = none) :
    registry.resolve handle = .error (.internal s!"granted {handle.id} has no action") := by
  rw [resolve, if_pos honors.1, grantedRegistration, if_pos honors.2, absent]
  rfl

theorem resolve_error_of_honors (honors : registry.Honors handle)
    (refused : registry.resolve handle = .error error) :
    registry.config.isRegistered handle.id = false ∧
      error = .internal s!"granted {handle.id} has no action" := by
  cases found : registry.config.registrations.find? handle.id with
  | some registration => cases refused.symm.trans (resolve_of_found honors found)
  | none =>
    cases refused.symm.trans (resolve_of_absent honors found)
    exact ⟨by rw [HostConfig.isRegistered, IdTable.contains, found]; rfl, rfl⟩

/-- A handle is not resolved if it is another registry's, or if its capability is withheld. -/
theorem resolve_error (refused : registry.resolve handle = .error error) :
    (handle.token ≠ registry.token ∧ error = .unresolvedCapability handle.id) ∨
      (handle.token = registry.token ∧ registry.Withholds handle.id error) := by
  rw [resolve] at refused
  split at refused
  · rename_i own
    cases found : registry.grantedRegistration handle.id with
    | ok registration =>
      rw [found] at refused
      cases refused
    | error cause =>
      rw [found] at refused
      cases refused
      exact Or.inr ⟨own, grantedRegistration_error found⟩
  · rename_i foreign
    cases refused
    exact Or.inl ⟨foreign, rfl⟩

theorem withAction_token (registry : Registry α) (id : CapabilityId) (action : α) :
    (registry.withAction id action).token = registry.token := by
  rw [withAction]
  split <;> rfl

theorem withAction_isGranted (registry : Registry α) (id : CapabilityId) (action : α)
    (other : CapabilityId) :
    (registry.withAction id action).isGranted other = registry.isGranted other := by
  rw [withAction]
  split <;> rfl

theorem withAction_isRegistered (registry : Registry α) (id : CapabilityId) (action : α)
    (other : CapabilityId) :
    (registry.withAction id action).config.isRegistered other =
      registry.config.isRegistered other := by
  rw [withAction]
  split
  · rename_i registration found
    rw [Bool.eq_iff_iff, HostConfig.isRegistered, IdTable.contains_insert]
    refine or_iff_right_of_imp ?_
    rintro rfl
    exact IdTable.contains_iff.2 ⟨registration, found⟩
  · rfl

variable [HostAction α ω] {arguments : List Value} {world : ω}

/-- The registry performs an action for the handle and the arguments: it honors the handle, and the
signature of the action admits the arguments. -/
def Permits (registry : Registry α) (handle : Handle) (arguments : List Value) : Prop :=
  ∃ action, registry.resolve handle = .ok action ∧
    (HostAction.signature action).checkArguments handle.id arguments = .ok ()

instance (registry : Registry α) (handle : Handle) (arguments : List Value) :
    Decidable (registry.Permits handle arguments) :=
  match resolved : registry.resolve handle with
  | .error _ => .isFalse fun ⟨_, found, _⟩ => nomatch resolved.symm.trans found
  | .ok action =>
    match checked : (HostAction.signature action).checkArguments handle.id arguments with
    | .ok () => .isTrue ⟨action, resolved, checked⟩
    | .error _ => .isFalse fun ⟨_, found, accepted⟩ => by
      cases resolved.symm.trans found
      cases checked.symm.trans accepted

/-- An invocation is refused and changes nothing, or it is permitted and an action is performed. -/
theorem invoke_cases (registry : Registry α) (handle : Handle) (arguments : List Value)
    (world : ω) :
    (∃ error, registry.invoke handle arguments world = ⟨.error error, registry, world⟩ ∧
      (registry.resolve handle = .error error ∨
        ∃ reason, error = .capabilityError handle.id reason)) ∨
    registry.Permits handle arguments ∧
      ∃ action signature, ∃ response : Response α ω, registry.invoke handle arguments world =
        ⟨checkOutcome signature handle.id response.outcome,
          registry.withAction handle.id action, response.world⟩ := by
  rw [invoke]
  cases resolved : registry.resolve handle with
  | error error => exact Or.inl ⟨error, rfl, Or.inl rfl⟩
  | ok action =>
    dsimp only
    cases checked : (HostAction.signature action).checkArguments handle.id arguments with
    | error error => exact Or.inl ⟨error, rfl, Or.inr (Signature.checkArguments_error checked)⟩
    | ok done => exact Or.inr ⟨⟨action, resolved, checked⟩, _, _, _, rfl⟩

theorem checkOutcome_error {signature : Signature} {outcome : Except RuntimeError Value}
    (failed : checkOutcome signature id outcome = .error error) :
    ∃ blamed reason, error = .capabilityError blamed reason := by
  cases outcome with
  | error cause =>
    simp only [checkOutcome, Except.error.injEq] at failed
    subst failed
    cases cause <;> exact ⟨_, _, rfl⟩
  | ok result =>
    simp only [checkOutcome, bind_eq_error, pure_ne_error, and_false, exists_false,
      or_false] at failed
    rcases Signature.checkResult_error failed with ⟨reason, rfl⟩
    exact ⟨id, reason, rfl⟩

theorem isPlain_of_checkOutcome {signature : Signature} {outcome : Except RuntimeError Value}
    {result : Value} (accepted : checkOutcome signature id outcome = .ok result) :
    result.IsPlain := by
  cases outcome with
  | error cause => cases accepted
  | ok value =>
    simp only [checkOutcome, check_bind_eq_ok, pure_eq_ok] at accepted
    rcases accepted with ⟨checked, rfl⟩
    exact Signature.isPlain_of_checkResult checked

theorem invoke_token (registry : Registry α) (handle : Handle) (arguments : List Value)
    (world : ω) :
    (registry.invoke handle arguments world).next.token = registry.token := by
  rcases registry.invoke_cases handle arguments world with
    ⟨error, same, _⟩ | ⟨_, action, signature, response, performed⟩
  · rw [same]
  · rw [performed]
    exact withAction_token _ _ _

theorem invoke_isGranted (registry : Registry α) (handle : Handle) (arguments : List Value)
    (world : ω) (other : CapabilityId) :
    (registry.invoke handle arguments world).next.isGranted other = registry.isGranted other := by
  rcases registry.invoke_cases handle arguments world with
    ⟨error, same, _⟩ | ⟨_, action, signature, response, performed⟩
  · rw [same]
  · rw [performed]
    exact withAction_isGranted _ _ _ _

theorem invoke_isRegistered (registry : Registry α) (handle : Handle) (arguments : List Value)
    (world : ω) (other : CapabilityId) :
    (registry.invoke handle arguments world).next.config.isRegistered other =
      registry.config.isRegistered other := by
  rcases registry.invoke_cases handle arguments world with
    ⟨error, same, _⟩ | ⟨_, action, signature, response, performed⟩
  · rw [same]
  · rw [performed]
    exact withAction_isRegistered _ _ _ _

/-- An invocation leaves no granted id without an action. -/
theorem invoke_supplied (supplied : registry.config.Supplied) :
    (registry.invoke handle arguments world).next.config.Supplied := by
  intro id granted
  rw [invoke_isRegistered]
  exact supplied id ((registry.invoke_isGranted handle arguments world id).symm.trans granted)

theorem isPlain_of_invoke {result : Value}
    (answered : (registry.invoke handle arguments world).outcome = .ok result) :
    result.IsPlain := by
  rcases registry.invoke_cases handle arguments world with
    ⟨error, same, _⟩ | ⟨_, action, signature, response, performed⟩
  · rw [same] at answered
    cases answered
  · rw [performed] at answered
    exact isPlain_of_checkOutcome answered

/-- The errors for an honored handle: those on behalf of a capability, and that of a granted id
without an action. -/
inductive FailsHonored (registry : Registry α) (id : CapabilityId) : RuntimeError → Prop
  | capability (blamed : CapabilityId) (reason : String) :
    FailsHonored registry id (.capabilityError blamed reason)
  | unsupplied (absent : registry.config.isRegistered id = false) :
    FailsHonored registry id (.internal s!"granted {id} has no action")

/-- A handle that the registry honors is never the reason for a failure. -/
theorem invoke_error_of_honors (honors : registry.Honors handle)
    (failed : (registry.invoke handle arguments world).outcome = .error error) :
    registry.FailsHonored handle.id error := by
  rcases registry.invoke_cases handle arguments world with
    ⟨other, same, cause⟩ | ⟨_, action, signature, response, performed⟩
  · rw [same] at failed
    cases failed
    rcases cause with unresolved | ⟨reason, rfl⟩
    · rcases resolve_error_of_honors honors unresolved with ⟨absent, rfl⟩
      exact .unsupplied absent
    · exact .capability handle.id reason
  · rw [performed] at failed
    rcases checkOutcome_error failed with ⟨blamed, reason, rfl⟩
    exact .capability blamed reason

theorem invoke_of_not_permits (refused : ¬registry.Permits handle arguments) :
    (registry.invoke handle arguments world).next = registry ∧
      (registry.invoke handle arguments world).world = world := by
  rcases registry.invoke_cases handle arguments world with ⟨error, same, _⟩ | ⟨permits, _⟩
  · rw [same]
    exact ⟨rfl, rfl⟩
  · exact absurd permits refused

end Registry

end CapabilityMachine
