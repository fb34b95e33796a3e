import CapabilityMachine.Proofs.Host.Isolation
import Mathlib.Data.List.Induction
/-!
# Manifests as sets of selections

A manifest lists its selections, but nothing depends on their order. The table of registrations that
it is turned into is kept in the order of the ids, and what an entry puts there is made from the
entry and the seed alone, so two manifests with the same seed and the same entries come to the same
table. Only a manifest that selects an id twice is refused, on account of the first entry that comes
too late.
-/

namespace CapabilityMachine

open Outcome

namespace IdTable

variable {α : Type} {table first second : IdTable α} {id : CapabilityId} {value : α}

theorem mem_entries : (id, value) ∈ table.entries ↔ table.find? id = some value := by
  rw [find?, List.lookup_eq_some_iff]
  constructor
  · intro member
    rcases List.append_of_mem member with ⟨front, back, entries_eq⟩
    refine ⟨front, back, entries_eq, fun entry inFront => ?_⟩
    have ascending := table.ascending
    rw [entries_eq] at ascending
    have precedes : entry.1.number < id.number :=
      (List.pairwise_append.1 ascending).2.2 entry inFront _ List.mem_cons_self
    rw [bne_iff_ne]
    rintro rfl
    exact UInt16.lt_irrefl _ precedes
  · rintro ⟨front, back, entries_eq, _⟩
    rw [entries_eq]
    exact List.mem_append_right _ List.mem_cons_self

/-- A table is what can be found in it. -/
theorem eq_of_find?_eq (same : ∀ id, first.find? id = second.find? id) : first = second := by
  have distinct (table : IdTable α) : table.entries.Nodup := by
    refine table.ascending.imp fun precedes same => ?_
    subst same
    exact UInt16.lt_irrefl _ precedes
  have same_entries : first.entries.Perm second.entries := by
    rw [List.perm_ext_iff_of_nodup (distinct first) (distinct second)]
    rintro ⟨id, value⟩
    rw [mem_entries, mem_entries, same]
  have entries_eq : first.entries = second.entries := by
    refine List.Perm.eq_of_pairwise ?_ first.ascending second.ascending same_entries
    intro entry other _ _ before after
    exact absurd (UInt16.lt_trans before after) (UInt16.lt_irrefl _)
  cases first
  cases second
  cases entries_eq
  rfl

end IdTable

/-! ### What is written -/

/-- The same has been written so far, on the captured console and by writers. -/
def World.SameOutput (world other : World) : Prop :=
  world.console = other.console ∧ world.written = other.written

section SameOutput

variable {world other : World} {registration : Registration Device}

/-- What a device writes does not depend on the world. -/
theorem Device.sameOutput_perform (same : world.SameOutput other) (device : Device)
    (arguments : List Value) :
    (device.perform arguments world).world.SameOutput (device.perform arguments other).world := by
  rcases same with ⟨console_eq, written_eq⟩
  cases device with
  | console sink =>
    cases sink with
    | captured => exact ⟨congrArg (Array.push · _) console_eq, written_eq⟩
    | writer => exact ⟨console_eq, congrArg (· ++ _ ++ "\n") written_eq⟩
    | failingWrite reason | failingFlush reason => exact ⟨console_eq, written_eq⟩
  | monotonicClock | steppedClock now step | seededRandom stream | seededRange stream =>
    exact ⟨console_eq, written_eq⟩

theorem Registration.sameOutput_call (same : world.SameOutput other) (id : CapabilityId)
    (arguments : List Value) :
    (registration.call id arguments world).world.SameOutput
      (registration.call id arguments other).world := by
  unfold call
  split
  · exact same
  · exact Device.sameOutput_perform same _ _

end SameOutput

namespace Registry

variable {state otherState : Registry Device × World} {request : CapabilityId × List Value}

/-- The two registries offer the same, and nothing that is asked for is a monotonic clock. The
worlds may differ in everything but what has been written. -/
structure Alike (asked : CapabilityId → Prop) (state otherState : Registry Device × World) :
    Prop where
  config_eq : otherState.1.config = state.1.config
  output : otherState.2.SameOutput state.2
  timeless : ∀ id, asked id → ∀ registration,
    state.1.config.registrations.find? id = some registration →
      registration.action ≠ .monotonicClock

/-- Registries that are alike answer alike, and stay alike. -/
theorem Alike.ask {asked : CapabilityId → Prop} (alike : Alike asked state otherState)
    (isAsked : asked request.1) :
    (Registry.ask otherState request).1 = (Registry.ask state request).1 ∧
      Alike asked (Registry.ask state request).2 (Registry.ask otherState request).2 := by
  rcases alike with ⟨config_eq, output, timeless⟩
  have granted_eq : otherState.1.grantedRegistration request.1 =
      state.1.grantedRegistration request.1 := by
    rw [grantedRegistration, grantedRegistration, isGranted, isGranted, config_eq]
  cases found : state.1.grantedRegistration request.1 with
  | error error =>
    rw [ask_of_refused found, ask_of_refused (granted_eq.trans found)]
    exact ⟨rfl, config_eq, output, timeless⟩
  | ok registration =>
    have otherFound := granted_eq.trans found
    have isRegistered := (grantedRegistration_eq_ok.1 found).1
    rcases Registration.call_congr (timeless _ isAsked _ isRegistered) request.1 request.2
      otherState.2 state.2 with ⟨outcome_eq, next_eq, stillTimeless⟩
    rw [ask_of_found found, ask_of_found otherFound]
    refine ⟨outcome_eq, ?_, Registration.sameOutput_call output _ _, ?_⟩
    · simp only [withRegistration, config_eq, next_eq]
    · intro id alsoAsked later isLater
      by_cases same : id = request.1
      · subst same
        simp only [withRegistration, IdTable.find?_insert_self, Option.some.injEq] at isLater
        rw [← isLater, ← next_eq]
        exact stillTimeless
      · simp only [withRegistration, IdTable.find?_insert_of_ne _ _ same] at isLater
        exact timeless id alsoAsked later isLater

theorem Alike.run {requests : List (CapabilityId × List Value)}
    (alike : Alike (· ∈ requests.map Prod.fst) state otherState) :
    (Session.run Registry.ask otherState requests).1 =
        (Session.run Registry.ask state requests).1 ∧
      Alike (· ∈ requests.map Prod.fst) (Session.run Registry.ask state requests).2
        (Session.run Registry.ask otherState requests).2 := by
  refine Session.run_related_of_mem
    (fun otherState state => Alike (· ∈ requests.map Prod.fst) state otherState) alike requests ?_
  intro otherState state request member alike
  exact alike.ask (List.mem_map_of_mem member)

end Registry

namespace Manifest

variable {manifest : Manifest} {sink : Sink} {config other : HostConfig Device}
  {entry : ManifestEntry} {id : CapabilityId}

/-! ### Refused manifests -/

theorem addEntry_of_found {registration : Registration Device}
    (found : config.registrations.find? entry.id = some registration) :
    manifest.addEntry sink config entry =
      .error (.config s!"{entry.id} registered twice") := by
  have isRegistered : config.isRegistered entry.id = true := by
    rw [HostConfig.isRegistered, IdTable.contains, found]
    rfl
  rw [addEntry, HostConfig.registerGranted, HostConfig.register, if_pos isRegistered]
  split <;> rfl

/-- The entry is the first one whose id has occurred before. -/
def FirstRepeated (manifest : Manifest) (entry : ManifestEntry) : Prop :=
  ∃ front back, manifest.entries = front ++ entry :: back ∧
    (front.map ManifestEntry.id).Nodup ∧ entry.id ∈ front.map ManifestEntry.id

theorem exists_firstRepeated (repeated : ¬manifest.ids.Nodup) :
    ∃ entry, manifest.FirstRepeated entry := by
  rcases manifest with ⟨seed, entries⟩
  simp only [ids, FirstRepeated] at repeated ⊢
  induction entries using List.reverseRecOn with
  | nil => exact absurd List.nodup_nil repeated
  | append_singleton entries last ih =>
    by_cases distinct : (entries.map ManifestEntry.id).Nodup
    · refine ⟨last, entries, [], rfl, distinct, ?_⟩
      simpa [List.nodup_append, distinct] using repeated
    · rcases ih distinct with ⟨entry, front, back, entries_eq, before⟩
      exact ⟨entry, front, back ++ [last], by rw [entries_eq]; simp, before⟩

theorem FirstRepeated.toConfig (repeated : manifest.FirstRepeated entry) (sink : Sink) :
    manifest.toConfig sink = .error (.config s!"{entry.id} registered twice") := by
  rcases repeated with ⟨front, back, entries_eq, distinct, occurred⟩
  have frontDistinct : ({ manifest with entries := front } : Manifest).ids.Nodup := distinct
  rcases exists_toConfig frontDistinct sink with ⟨config, built, provides⟩
  rcases List.mem_map.1 occurred with ⟨earlier, member, same⟩
  have found := provides.selected earlier member
  rw [same] at found
  have folded : front.foldlM (manifest.addEntry sink) {} = .ok config := built
  rw [Manifest.toConfig, entries_eq, List.foldlM_append, folded, ok_bind, List.foldlM_cons,
    addEntry_of_found found, error_bind]

theorem toConfig_eq_error {error : RuntimeError} :
    manifest.toConfig sink = .error error ↔
      ∃ entry, manifest.FirstRepeated entry ∧ error = .config s!"{entry.id} registered twice" := by
  constructor
  · intro failed
    by_cases distinct : manifest.ids.Nodup
    · rcases exists_toConfig distinct sink with ⟨config, built, _⟩
      cases failed.symm.trans built
    · rcases exists_firstRepeated distinct with ⟨entry, repeated⟩
      rw [repeated.toConfig sink] at failed
      exact ⟨entry, repeated, (Except.error.inj failed).symm⟩
  · rintro ⟨entry, repeated, rfl⟩
    exact repeated.toConfig sink

/-! ### Accepted manifests -/

theorem Provides.unique (provides : manifest.Provides sink config)
    (alsoProvides : manifest.Provides sink other) : config = other := by
  have same_registrations : config.registrations = other.registrations := by
    apply IdTable.eq_of_find?_eq
    intro id
    by_cases isSelected : id ∈ manifest.ids
    · rcases List.mem_map.1 isSelected with ⟨entry, member, rfl⟩
      rw [provides.selected entry member, alsoProvides.selected entry member]
    · rw [provides.unselected id isSelected, alsoProvides.unselected id isSelected]
  have same_grants : config.grants = other.grants := by
    apply IdTable.eq_of_find?_eq
    intro id
    have granted_iff := (provides.granted id).trans (alsoProvides.granted id).symm
    rw [HostConfig.isGranted, HostConfig.isGranted, IdTable.contains_iff,
      IdTable.contains_iff] at granted_iff
    ext ⟨⟩
    rwa [Unique.exists_iff, Unique.exists_iff] at granted_iff
  cases config
  cases other
  cases same_registrations
  cases same_grants
  rfl

/-- Repeated ids apart, a manifest succeeds with the one offer that holds what it selects. -/
theorem toConfig_eq_ok :
    manifest.toConfig sink = .ok config ↔ manifest.ids.Nodup ∧ manifest.Provides sink config := by
  constructor
  · intro succeeded
    by_cases distinct : manifest.ids.Nodup
    · rcases exists_toConfig distinct sink with ⟨built, built_eq, provides⟩
      cases succeeded.symm.trans built_eq
      exact ⟨distinct, provides⟩
    · rcases exists_firstRepeated distinct with ⟨entry, repeated⟩
      cases succeeded.symm.trans (repeated.toConfig sink)
  · rintro ⟨distinct, provides⟩
    rcases exists_toConfig distinct sink with ⟨built, built_eq, alsoProvides⟩
    rw [built_eq, alsoProvides.unique provides]

/-- The selections in another order come to the same. -/
theorem toConfig_of_perm {entries : List ManifestEntry} (permuted : entries.Perm manifest.entries)
    (succeeded : manifest.toConfig sink = .ok config) :
    ({ manifest with entries } : Manifest).toConfig sink = .ok config := by
  rw [toConfig_eq_ok] at succeeded ⊢
  rcases succeeded with ⟨distinct, provides⟩
  have same_ids : ({ manifest with entries } : Manifest).ids.Perm manifest.ids := permuted.map _
  refine ⟨same_ids.nodup_iff.2 distinct, fun entry member => ?_, fun id absent => ?_,
    fun id => ?_⟩
  · exact provides.selected entry (permuted.mem_iff.1 member)
  · exact provides.unselected id (mt same_ids.mem_iff.2 absent)
  · simp only [permuted.mem_iff]
    exact provides.granted id

theorem Provides.isRegistered_iff (provides : manifest.Provides sink config) :
    config.isRegistered id = true ↔ id ∈ manifest.ids := by
  rw [HostConfig.isRegistered, IdTable.contains, Option.isSome_iff_exists]
  constructor
  · rintro ⟨registration, found⟩
    rcases provides.exists_entry found with ⟨entry, member, rfl, _⟩
    exact List.mem_map.2 ⟨entry, member, rfl⟩
  · intro isSelected
    rcases List.mem_map.1 isSelected with ⟨entry, member, rfl⟩
    exact ⟨_, provides.selected entry member⟩

/-- The device that a selected action stands for, where consoles write to the sink and random
sources start with the seed. -/
inductive Selects (sink : Sink) (seed : UInt64) : StandardAction → Device → Prop
  | consoleWriteLine : Selects sink seed .consoleWriteLine (.console sink)
  | monotonicClock : Selects sink seed .monotonicClock .monotonicClock
  | steppedClock (start step : Int64) :
    Selects sink seed (.steppedClock start step) (.steppedClock start step)
  | seededRandom : Selects sink seed .seededRandom (.seededRandom (.ofSeed seed))
  | seededRange : Selects sink seed .seededRange (.seededRange (.ofSeed seed))

/-- What is registered for an entry is the action that it selects, with the sum of the manifest's
seed and the id as its seed. -/
theorem selects_registration (manifest : Manifest) (sink : Sink) (entry : ManifestEntry) :
    Selects sink (.ofNat ((manifest.seed.toNat + entry.id.number.toNat) % UInt64.size)) entry.action
      (manifest.registration sink entry).action := by
  have seed_eq : UInt64.ofNat ((manifest.seed.toNat + entry.id.number.toNat) % UInt64.size) =
      manifest.seed + entry.id.number.toUInt64 := by
    apply UInt64.toNat_inj.1
    simp
  rw [seed_eq, registration]
  cases entry.action <;> constructor

theorem Provides.alike {requests : List (CapabilityId × List Value)}
    (provides : manifest.Provides sink config)
    (timeless : ∀ request ∈ requests, ∀ entry ∈ manifest.entries, entry.id = request.1 →
      entry.action ≠ .monotonicClock) (token otherToken : Token) {world otherWorld : World}
    (output : otherWorld.SameOutput world) :
    Registry.Alike (· ∈ requests.map Prod.fst) (⟨token, config⟩, world)
      (⟨otherToken, config⟩, otherWorld) := by
  refine ⟨rfl, output, ?_⟩
  intro id isAsked registration found
  rcases List.mem_map.1 isAsked with ⟨request, member, rfl⟩
  rcases provides.exists_entry found with ⟨entry, isSelected, same, rfl⟩
  have notMonotonic := timeless request member entry isSelected same
  exact StandardAction.toDevice_ne_monotonicClock notMonotonic _ _

/-- A manifest means its set of selections, wherever its consoles write to:

* it is accepted exactly if no id is selected twice, and otherwise refused on account of the first
  entry whose id has occurred before;
* what is registered are the ids of its entries, and of these, the ones of entries that say so are
  granted;
* under the id of an entry is the device for the selected action: a console that writes to the
  sink, a clock with the given start and step, or a random source that starts with the sum of the
  manifest's seed and the id, modulo 2^64;
* the entries in any other order come to the same offer. A registry made from it has the same
  catalog and grants, whatever its token, and gives the same results and writes the same, whatever
  it is asked and however much time has passed, as long as no monotonic clock is looked at. -/
theorem manifest_means_selections (manifest : Manifest) (sink : Sink) :
    ((∃ config, manifest.toConfig sink = .ok config) ↔ manifest.ids.Nodup) ∧
    (∀ error, manifest.toConfig sink = .error error ↔
      ∃ entry, manifest.FirstRepeated entry ∧
        error = .config s!"{entry.id} registered twice") ∧
    ∀ config, manifest.toConfig sink = .ok config →
      (∀ id, config.isRegistered id = true ↔ id ∈ manifest.ids) ∧
      (∀ id, config.isGranted id = true ↔
        ∃ entry ∈ manifest.entries, entry.id = id ∧ entry.granted = true) ∧
      (∀ entry ∈ manifest.entries, ∃ registration,
        config.registrations.find? entry.id = some registration ∧
          Selects sink (.ofNat ((manifest.seed.toNat + entry.id.number.toNat) % UInt64.size))
            entry.action registration.action) ∧
      ∀ entries : List ManifestEntry, entries.Perm manifest.entries →
        ∃ other, ({ manifest with entries } : Manifest).toConfig sink = .ok other ∧
        ∀ token otherToken,
          let registry : Registry Device := ⟨token, config⟩
          let otherRegistry : Registry Device := ⟨otherToken, other⟩
          otherRegistry.catalog = registry.catalog ∧
          otherRegistry.grantedIds = registry.grantedIds ∧
          ∀ (world otherWorld : World) (requests : List (CapabilityId × List Value)),
            otherWorld.SameOutput world →
            (∀ request ∈ requests, ∀ entry ∈ manifest.entries, entry.id = request.1 →
              entry.action ≠ .monotonicClock) →
            let run := Session.run Registry.ask (registry, world) requests
            let otherRun := Session.run Registry.ask (otherRegistry, otherWorld) requests
            otherRun.1 = run.1 ∧ otherRun.2.2.SameOutput run.2.2 := by
  refine ⟨?_, fun error => toConfig_eq_error, ?_⟩
  · constructor
    · rintro ⟨config, succeeded⟩
      exact (toConfig_eq_ok.1 succeeded).1
    · intro distinct
      rcases exists_toConfig distinct sink with ⟨config, built, _⟩
      exact ⟨config, built⟩
  · intro config succeeded
    have provides := (toConfig_eq_ok.1 succeeded).2
    refine ⟨fun id => provides.isRegistered_iff, provides.granted, ?_, ?_⟩
    · intro entry member
      exact ⟨_, provides.selected entry member, manifest.selects_registration sink entry⟩
    · intro entries permuted
      refine ⟨config, toConfig_of_perm permuted succeeded, ?_⟩
      intro token otherToken
      refine ⟨rfl, rfl, ?_⟩
      intro world otherWorld requests output timeless
      rcases (provides.alike timeless token otherToken output).run with ⟨same_answers, still⟩
      exact ⟨same_answers, still.output⟩

/-- The selections of the desk in the opposite order, for a run that begins later. -/
theorem manifest_means_selections_desk :
    ∃ config other, desk.toConfig .captured = .ok config ∧
      ({ desk with entries := desk.entries.reverse } : Manifest).toConfig .captured = .ok other ∧
      let run := Session.run Registry.ask (⟨⟨0⟩, config⟩, ({} : World)) deskRequests
      let otherRun :=
        Session.run Registry.ask (⟨⟨1⟩, other⟩, ({ elapsed := 5 } : World)) deskRequests
      otherRun.1 = run.1 ∧ otherRun.2.2.console = #["true", "()"] := by
  rcases manifest_means_selections desk .captured with ⟨accepted, _, means⟩
  rcases accepted.2 (by decide) with ⟨config, built⟩
  rcases means config built with ⟨_, _, _, permuted⟩
  rcases permuted desk.entries.reverse (List.reverse_perm _) with ⟨other, otherBuilt, same⟩
  have timeless : ∀ request ∈ deskRequests, ∀ entry ∈ desk.entries, entry.id = request.1 →
      entry.action ≠ .monotonicClock := by decide
  rcases (same ⟨0⟩ ⟨1⟩).2.2 {} { elapsed := 5 } deskRequests ⟨rfl, rfl⟩ timeless with
    ⟨same_answers, console_eq, _⟩
  refine ⟨config, other, built, otherBuilt, same_answers, console_eq.trans ?_⟩
  cases built
  rfl

end Manifest

end CapabilityMachine
