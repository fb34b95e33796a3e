import CapabilityMachine.Proofs.Host.Agreement
/-!
# What a registry offers

The terms on which a registry has actions performed: its token, the capabilities it grants, and the
signatures in its catalog. They decide which calls are admitted, and what becomes of the others.
Actions that are performed change, but they do so under the same terms.
-/

namespace CapabilityMachine

open Outcome

namespace IdTable

variable {α β : Type} {table : IdTable α} {id : CapabilityId} {value : α}

/-- The table with every value replaced by another one, which may depend on its id. -/
def mapEntries (change : CapabilityId → α → β) (table : IdTable α) : IdTable β where
  entries := table.entries.map fun (id, value) => (id, change id value)
  ascending := List.pairwise_map.2 table.ascending

theorem find?_mapEntries (change : CapabilityId → α → β) (table : IdTable α) (id : CapabilityId) :
    (table.mapEntries change).find? id = (table.find? id).map (change id) := by
  simp only [find?, mapEntries]
  induction table.entries with
  | nil => rfl
  | cons entry rest ih =>
    rcases entry with ⟨key, present⟩
    rw [List.map_cons, List.lookup_cons, List.lookup_cons]
    cases same : id == key with
    | true =>
      rw [eq_of_beq same]
      rfl
    | false => exact ih

theorem mapEntries_insert (change : CapabilityId → α → β) (table : IdTable α) (id : CapabilityId)
    (value : α) :
    (table.insert id value).mapEntries change =
      (table.mapEntries change).insert id (change id value) := by
  simp only [mapEntries, insert, mk.injEq]
  induction table.entries with
  | nil => rfl
  | cons entry rest ih =>
    rcases entry with ⟨key, present⟩
    simp only [insertEntry, List.map_cons]
    split
    · rfl
    · split
      · rfl
      · rw [List.map_cons, ih]

theorem find?_map (change : α → β) (table : IdTable α) (id : CapabilityId) :
    (table.map change).find? id = (table.find? id).map change :=
  table.find?_mapEntries (fun _ => change) id

theorem map_insert (change : α → β) (table : IdTable α) (id : CapabilityId) (value : α) :
    (table.insert id value).map change = (table.map change).insert id (change value) :=
  table.mapEntries_insert (fun _ => change) id value

theorem mem_ids : id ∈ table.ids ↔ ∃ value, table.find? id = some value := by
  rw [← Option.isSome_iff_exists, find?, List.lookup_isSome_iff, ids, List.mem_map]
  simp only [beq_iff_eq, eq_comm (a := id)]

/-- To insert what the table holds already changes nothing. -/
theorem insert_eq_self (found : table.find? id = some value) : table.insert id value = table := by
  rcases table with ⟨entries, ascending⟩
  simp only [find?] at found
  simp only [insert, mk.injEq]
  induction entries with
  | nil => cases found
  | cons entry rest ih =>
    rcases entry with ⟨key, present⟩
    rcases List.pairwise_cons.1 ascending with ⟨before, ascending⟩
    rw [List.lookup_cons] at found
    rw [insertEntry]
    cases same : id == key with
    | true =>
      rw [same] at found
      cases found
      rw [if_pos (eq_of_beq same), eq_of_beq same]
    | false =>
      rw [same] at found
      rcases List.lookup_eq_some_iff.1 found with ⟨front, back, rest_eq, _⟩
      have precedes : key.number < id.number := before (id, value) (by simp [rest_eq])
      have behind : ¬id.number < key.number := UInt16.not_lt.2 (UInt16.le_of_lt precedes)
      rw [if_neg (ne_of_beq_false same), if_neg behind, ih ascending found]

/-- A value can be replaced without a trace in what is made of the values. -/
theorem map_insert_eq_map {change : α → β} {present : α} (found : table.find? id = some present)
    (same : change value = change present) :
    (table.insert id value).map change = table.map change := by
  rw [map_insert, same]
  apply insert_eq_self
  rw [find?_map, found]
  rfl

end IdTable

namespace Signature

variable {signature : Signature} {id : CapabilityId}

/-- There are as many arguments as parameters, and each parameter admits its argument. -/
def Fits (signature : Signature) (arguments : List Value) : Prop :=
  arguments.length = signature.arity ∧
    ∀ entry ∈ signature.params.zip arguments, entry.1.Admits entry.2

instance (signature : Signature) (arguments : List Value) : Decidable (signature.Fits arguments) :=
  inferInstanceAs (Decidable (_ ∧ _))

theorem checkArguments_eq_ok {arguments : List Value} :
    signature.checkArguments id arguments = .ok () ↔ signature.Fits arguments := by
  have admits_iff : (∀ entry ∈ signature.params.zip arguments, entry.1.Admits entry.2) ↔
      (signature.params.zip arguments).zipIdx.find?
        (fun entry => ¬entry.1.1.Admits entry.1.2) = none := by
    rw [List.find?_eq_none, ← List.zipIdx_map_fst 0 (signature.params.zip arguments),
      List.forall_mem_map]
    simp
  rw [Fits, arity, admits_iff, checkArguments, ite_error_eq_ok, Decidable.not_not]
  apply and_congr_right
  intro _
  cases (signature.params.zip arguments).zipIdx.find? _ with
  | none => simp
  | some entry => simp

theorem checkResult_eq_ok {result : Value} :
    signature.checkResult id result = .ok () ↔
      result.IsPlain ∧ signature.returns.Admits result := by
  rw [checkResult, Value.IsPlain]
  split
  · rename_i isCap
    simp [isCap]
  · rename_i isRef
    simp [isRef]
  · rename_i notCap notRef
    split
    · rename_i admits
      have plain : result.kind ≠ .cap ∧ result.kind ≠ .ref := ⟨notCap, notRef⟩
      simp [plain, admits]
    · rename_i refused
      simp [refused]

end Signature

/-- The terms on which a registry has actions performed. -/
structure Offer where
  token : Token
  granted : List CapabilityId
  catalog : Catalog
deriving DecidableEq

namespace Offer

variable {offer : Offer} {handle : Handle} {arguments : List Value} {error : RuntimeError}

/-- The handle is one of the registry's own, for a capability that is granted. -/
def Honors (offer : Offer) (handle : Handle) : Prop :=
  handle.token = offer.token ∧ handle.id ∈ offer.granted

/-- The registry honors the handle, and the signature of its capability fits the arguments. -/
def Admits (offer : Offer) (handle : Handle) (arguments : List Value) : Prop :=
  offer.Honors handle ∧
    ∃ signature ∈ offer.catalog.find? handle.id, signature.Fits arguments

instance (offer : Offer) (handle : Handle) : Decidable (offer.Honors handle) :=
  inferInstanceAs (Decidable (_ ∧ _))

instance (offer : Offer) (handle : Handle) (arguments : List Value) :
    Decidable (offer.Admits handle arguments) :=
  inferInstanceAs (Decidable (_ ∧ _))

/-- The error for a handle that the registry does not honor. The token is checked first. -/
inductive Rejects (offer : Offer) (handle : Handle) : RuntimeError → Prop where
  | foreign (differs : handle.token ≠ offer.token) :
    Rejects offer handle (.unresolvedCapability handle.id)
  | denied (same : handle.token = offer.token) (notGranted : handle.id ∉ offer.granted) :
    Rejects offer handle (.capabilityDenied handle.id)

/-- The error for a call that is not admitted. The handle is checked before the arguments. -/
inductive Refuses (offer : Offer) (handle : Handle) (arguments : List Value) :
    RuntimeError → Prop where
  | handle {error : RuntimeError} (rejects : offer.Rejects handle error) :
    Refuses offer handle arguments error
  | arguments {signature : Signature} (honors : offer.Honors handle)
    (found : offer.catalog.find? handle.id = some signature) (misfit : ¬signature.Fits arguments)
    (reason : String) : Refuses offer handle arguments (.capabilityError handle.id reason)

end Offer

namespace Registry

variable {α ω : Type} {registry : Registry α} {handle : Handle} {arguments : List Value}
  {error : RuntimeError}

/-- The terms of the registry. -/
def offer (registry : Registry α) : Offer where
  token := registry.token
  granted := registry.grantedIds
  catalog := registry.catalog

theorem mem_grantedIds {id : CapabilityId} :
    id ∈ registry.grantedIds ↔ registry.isGranted id = true := by
  rw [grantedIds, HostConfig.grantedIds, IdTable.mem_ids, isGranted, HostConfig.isGranted,
    IdTable.contains_iff]

theorem not_mem_granted_offer {id : CapabilityId} (notGranted : registry.isGranted id = false) :
    id ∉ registry.offer.granted := by
  rw [offer, mem_grantedIds, notGranted]
  exact Bool.false_ne_true

theorem find?_catalog_offer (registry : Registry α) (id : CapabilityId) :
    registry.offer.catalog.find? id =
      (registry.config.registrations.find? id).map Registration.signature :=
  IdTable.find?_map _ _ _

theorem offer_honors : registry.offer.Honors handle ↔ registry.Honors handle := by
  rw [Offer.Honors, Honors]
  exact and_congr_right fun _ => mem_grantedIds

/-- A handle that is resolved is honored, and leads to the action under its id. -/
theorem exists_registration_of_resolve {action : α}
    (resolved : registry.resolve handle = .ok action) :
    registry.offer.Honors handle ∧ ∃ registration,
      registry.config.registrations.find? handle.id = some registration ∧
        registration.action = action := by
  rcases resolve_eq_ok.1 resolved with ⟨own, registration, isFound, isAction⟩
  rcases grantedRegistration_eq_ok.1 isFound with ⟨found, granted⟩
  exact ⟨offer_honors.2 ⟨own, granted⟩, registration, found, isAction⟩

/-- A performed action is registered under the same terms as before. -/
theorem offer_withAction (registry : Registry α) (id : CapabilityId) (action : α) :
    (registry.withAction id action).offer = registry.offer := by
  rw [withAction]
  split
  · rename_i registration found
    simp only [offer, Offer.mk.injEq]
    exact ⟨trivial, rfl, IdTable.map_insert_eq_map found rfl⟩
  · rfl

theorem resolve_rejects (supplied : registry.config.Supplied)
    (refused : registry.resolve handle = .error error) : registry.offer.Rejects handle error := by
  rcases resolve_error refused with ⟨foreign, rfl⟩ | ⟨own, withholds⟩
  · exact Offer.Rejects.foreign foreign
  · rcases withholds.denied_of_supplied supplied with ⟨ungranted, rfl⟩
    exact Offer.Rejects.denied own (not_mem_granted_offer ungranted)

end Registry

variable {α ω : Type} [HostAction α ω]

/-- Every registration shows the signature that its action has. -/
def HostConfig.Faithful (config : HostConfig α) : Prop :=
  ∀ id registration, config.registrations.find? id = some registration →
    registration.signature = HostAction.signature registration.action

theorem HostConfig.Faithful.insert {config : HostConfig α} (faithful : config.Faithful)
    (id : CapabilityId) {registration : Registration α}
    (same : registration.signature = HostAction.signature registration.action) :
    HostConfig.Faithful
      { config with registrations := config.registrations.insert id registration } := by
  intro found other isRegistered
  by_cases new : found = id
  · subst new
    rw [IdTable.find?_insert_self] at isRegistered
    cases isRegistered
    exact same
  · rw [IdTable.find?_insert_of_ne _ _ new] at isRegistered
    exact faithful found other isRegistered

namespace Registry

variable {registry : Registry α} {handle : Handle} {arguments : List Value} {world : ω}

/-- The registry admits the calls for which it performs an action. -/
theorem admits_iff_permits (faithful : registry.config.Faithful) :
    registry.offer.Admits handle arguments ↔ registry.Permits handle arguments := by
  simp only [Offer.Admits, Permits, Signature.checkArguments_eq_ok, find?_catalog_offer,
    Option.mem_def, Option.map_eq_some_iff]
  constructor
  · rintro ⟨honors, signature, ⟨registration, found, rfl⟩, fits⟩
    rw [faithful _ _ found] at fits
    exact ⟨registration.action, resolve_of_found (offer_honors.1 honors) found, fits⟩
  · rintro ⟨action, resolved, fits⟩
    rcases exists_registration_of_resolve resolved with ⟨honors, registration, found, rfl⟩
    rw [← faithful _ _ found] at fits
    exact ⟨honors, registration.signature, ⟨registration, found, rfl⟩, fits⟩

end Registry

end CapabilityMachine
