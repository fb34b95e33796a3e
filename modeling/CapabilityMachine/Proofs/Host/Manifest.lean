import CapabilityMachine.Host.Manifest
import CapabilityMachine.Proofs.Host.Registry
/-!
# What manifests select

A manifest without repeated ids can be turned into an offer of capabilities, and under each id the
offer holds what the entry with that id selects.
-/

namespace CapabilityMachine

open Outcome

namespace HostConfig

variable {α ω : Type} [HostAction α ω] {config : HostConfig α} {id : CapabilityId}

theorem isRegistered_eq_false (new : config.registrations.find? id = none) :
    config.isRegistered id = false := by
  rw [isRegistered, IdTable.contains, new]
  rfl

theorem register_of_new (action : α) (new : config.registrations.find? id = none) :
    config.register id action =
      .ok { config with
        registrations :=
          config.registrations.insert id { action, signature := HostAction.signature action } } := by
  rw [register, isRegistered_eq_false new]
  rfl

theorem registerGranted_of_new (action : α) (new : config.registrations.find? id = none) :
    config.registerGranted id action =
      .ok {
        registrations :=
          config.registrations.insert id { action, signature := HostAction.signature action }
        grants := config.grants.insert id () } := by
  simp only [registerGranted, register_of_new action new, ok_bind]
  rw [grant, isRegistered, if_pos (IdTable.contains_insert.2 (Or.inl rfl))]

end HostConfig

namespace Manifest

variable {manifest : Manifest} {sink : Sink} {config : HostConfig Device} {entry : ManifestEntry}

/-- What is registered for an entry. -/
def registration (manifest : Manifest) (sink : Sink) (entry : ManifestEntry) :
    Registration Device :=
  let device := entry.action.toDevice sink (manifest.seed + entry.id.number.toUInt64)
  { action := device, signature := device.signature }

/-- The ids of the entries, in the order of their registration. -/
def ids (manifest : Manifest) : List CapabilityId :=
  manifest.entries.map ManifestEntry.id

/-- One entry after the other has been added to an offer, which holds what it held before apart from
what the entries select. -/
structure Adds (manifest : Manifest) (sink : Sink) (entries : List ManifestEntry)
    (config next : HostConfig Device) : Prop where
  selected : ∀ entry ∈ entries,
    next.registrations.find? entry.id = some (manifest.registration sink entry)
  unselected : ∀ id, id ∉ entries.map ManifestEntry.id →
    next.registrations.find? id = config.registrations.find? id
  granted : ∀ id, next.isGranted id = true ↔
    (∃ entry ∈ entries, entry.id = id ∧ entry.granted = true) ∨ config.isGranted id = true

theorem addEntry_of_new (manifest : Manifest) (sink : Sink)
    (new : config.registrations.find? entry.id = none) :
    ∃ next, manifest.addEntry sink config entry = .ok next ∧
      manifest.Adds sink [entry] config next := by
  have selected (found : ManifestEntry) (member : found ∈ [entry]) :
      (config.registrations.insert entry.id (manifest.registration sink entry)).find? found.id =
        some (manifest.registration sink found) := by
    rw [List.mem_singleton.1 member, IdTable.find?_insert_self]
  have unselected (id : CapabilityId) (absent : id ∉ [entry].map ManifestEntry.id) :
      (config.registrations.insert entry.id (manifest.registration sink entry)).find? id =
        config.registrations.find? id :=
    IdTable.find?_insert_of_ne _ _ fun same => absent (List.mem_singleton.2 same)
  cases granted : entry.granted with
  | true =>
    simp only [addEntry, granted, if_true, HostConfig.registerGranted_of_new _ new]
    refine ⟨_, rfl, selected, unselected, fun id => ?_⟩
    rw [HostConfig.isGranted, IdTable.contains_insert, eq_comm (a := id)]
    simp [granted, HostConfig.isGranted]
  | false =>
    simp only [addEntry, granted, Bool.false_eq_true, if_false, HostConfig.register_of_new _ new]
    refine ⟨_, rfl, selected, unselected, fun id => ?_⟩
    simp [granted, HostConfig.isGranted]

theorem foldlM_addEntry_of_new {entries : List ManifestEntry}
    (distinct : (entries.map ManifestEntry.id).Nodup)
    (new : ∀ entry ∈ entries, config.registrations.find? entry.id = none) :
    ∃ next, entries.foldlM (manifest.addEntry sink) config = .ok next ∧
      manifest.Adds sink entries config next := by
  induction entries generalizing config with
  | nil => exact ⟨config, rfl, nofun, fun id _ => rfl, by simp⟩
  | cons first rest ih =>
    rcases List.nodup_cons.1 distinct with ⟨once, restDistinct⟩
    rcases addEntry_of_new manifest sink (new first List.mem_cons_self) with ⟨middle, added, adds⟩
    have stillNew : ∀ entry ∈ rest, middle.registrations.find? entry.id = none := by
      intro entry member
      rw [adds.unselected]
      · exact new entry (List.mem_cons_of_mem _ member)
      · rintro same
        rw [List.map_singleton, List.mem_singleton] at same
        exact once (List.mem_map.2 ⟨entry, member, same⟩)
    rcases ih restDistinct stillNew with ⟨next, folded, addsRest⟩
    refine ⟨next, ?_, ?_, ?_, ?_⟩
    · rw [List.foldlM_cons, added, ok_bind, folded]
    · intro entry member
      rcases List.mem_cons.1 member with rfl | member
      · rw [addsRest.unselected _ once, adds.selected _ List.mem_cons_self]
      · exact addsRest.selected entry member
    · intro id absent
      rw [List.map_cons, List.mem_cons, not_or] at absent
      rw [addsRest.unselected id absent.2, adds.unselected id]
      simpa using absent.1
    · intro id
      rw [addsRest.granted, adds.granted]
      simp [or_left_comm, or_assoc, or_and_right, exists_or]

/-- The offer holds what the entries of the manifest select, and nothing else. -/
structure Provides (manifest : Manifest) (sink : Sink) (config : HostConfig Device) : Prop where
  selected : ∀ entry ∈ manifest.entries,
    config.registrations.find? entry.id = some (manifest.registration sink entry)
  unselected : ∀ id, id ∉ manifest.ids → config.registrations.find? id = none
  granted : ∀ id, config.isGranted id = true ↔
    ∃ entry ∈ manifest.entries, entry.id = id ∧ entry.granted = true

theorem exists_toConfig (distinct : manifest.ids.Nodup) (sink : Sink) :
    ∃ config, manifest.toConfig sink = .ok config ∧ manifest.Provides sink config := by
  have new (entry : ManifestEntry) (_ : entry ∈ manifest.entries) :
      ({} : HostConfig Device).registrations.find? entry.id = none := rfl
  rcases foldlM_addEntry_of_new distinct new with ⟨config, built, adds⟩
  refine ⟨config, built, adds.selected, adds.unselected, fun id => ?_⟩
  rw [adds.granted]
  exact or_iff_left nofun

theorem Provides.exists_entry (provides : manifest.Provides sink config) {id : CapabilityId}
    {registration : Registration Device}
    (found : config.registrations.find? id = some registration) :
    ∃ entry ∈ manifest.entries, entry.id = id ∧
      registration = manifest.registration sink entry := by
  by_cases isSelected : id ∈ manifest.ids
  · rcases List.mem_map.1 isSelected with ⟨entry, member, rfl⟩
    cases found.symm.trans (provides.selected entry member)
    exact ⟨entry, member, rfl, rfl⟩
  · cases found.symm.trans (provides.unselected id isSelected)

end Manifest

end CapabilityMachine
