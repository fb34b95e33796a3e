import CapabilityMachine.Document.Representation
import CapabilityMachine.Proofs.Document.Json
import CapabilityMachine.Proofs.Document.MessagePack
/-!
# Stored values are read back

A value can be told from the datum that represents it, and the datum is one that JSON keeps. In
MessagePack it is kept as well if it has a form there, which a manifest has unless it makes more
selections than 32 bits can count. So what a host stored is what it reads.
-/

namespace CapabilityMachine

open Representable

/-- Representations from which the value can be told, also if the datum was stored as text. -/
class LawfulRepresentable (α : Type) [Representable α] : Prop where
  ofDatum?_toDatum : ∀ value : α, ofDatum? (toDatum value) = some value
  faithful : ∀ value : α, Json.Faithful (toDatum value)

open LawfulRepresentable

/-! ### Numbers, lists and truth values -/

instance : LawfulRepresentable Bool where
  ofDatum?_toDatum _ := rfl
  faithful := .bool

theorem Datum.intBetween?_eq {low high n : Int} (lower : low ≤ n) (upper : n ≤ high) :
    (Datum.int n).intBetween? low high = some n :=
  if_pos ⟨lower, upper⟩

instance : LawfulRepresentable Int64 where
  ofDatum?_toDatum n := by
    have lower := n.le_toInt
    have upper := n.toInt_lt
    simp only [toDatum, ofDatum?]
    rw [Datum.intBetween?_eq (by simpa [minInt64] using lower) (by simp [maxInt64]; omega)]
    simp
  faithful n := by
    have lower := n.le_toInt
    have upper := n.toInt_lt
    refine .int ?_
    rw [UInt64.size]
    omega

instance : LawfulRepresentable UInt64 where
  ofDatum?_toDatum n := by
    have upper := n.toNat_lt
    simp only [toDatum, ofDatum?]
    rw [Datum.intBetween?_eq (by omega) (by omega)]
    simp
  faithful n := .int n.toNat_lt

instance : LawfulRepresentable CapabilityId where
  ofDatum?_toDatum id := by
    have upper := id.number.toNat_lt
    simp only [toDatum, ofDatum?]
    rw [Datum.intBetween?_eq (by omega) (by omega)]
    simp
  faithful id := .int (Nat.lt_trans id.number.toNat_lt (by decide))

instance {α : Type} [Representable α] [LawfulRepresentable α] : LawfulRepresentable (List α) where
  ofDatum?_toDatum values := by
    simp only [toDatum, ofDatum?, Datum.items?, Option.bind_some]
    induction values with
    | nil => rfl
    | cons value values ih => simp [List.mapM_cons, ofDatum?_toDatum, ih]
  faithful values := by
    refine .list ?_
    intro item member
    rcases List.mem_map.1 member with ⟨value, _, rfl⟩
    exact faithful value

/-! ### Manifests -/

theorem StandardAction.faithful_parameters (action : StandardAction) :
    ∀ field ∈ action.parameters, Json.Faithful field.2 := by
  cases action with
  | steppedClock start step => simp [parameters, faithful start, faithful step]
  | _ => simp [parameters]

instance : LawfulRepresentable StandardAction where
  ofDatum?_toDatum action := by
    cases action with
    | steppedClock start step =>
      have read : ofDatum? (toDatum (StandardAction.steppedClock start step)) = do
          let start ← ofDatum? (toDatum start)
          let step ← ofDatum? (toDatum step)
          return StandardAction.steppedClock start step := rfl
      rw [read, ofDatum?_toDatum, ofDatum?_toDatum]
      rfl
    | _ => rfl
  faithful action := by
    refine .record ?_
    rw [List.forall_mem_cons]
    exact ⟨.text _, action.faithful_parameters⟩

theorem ManifestEntry.actionOfDatum?_toDatum (action : StandardAction) :
    actionOfDatum? (toDatum action) = some action := by
  have readable : (toDatum action).isReadable (127 - 3) = true := by cases action <;> rfl
  rw [actionOfDatum?, readable, ofDatum?_toDatum]
  rfl

instance : LawfulRepresentable ManifestEntry where
  ofDatum?_toDatum entry := by
    have read : ofDatum? (toDatum entry) = do
        let id ← ofDatum? (toDatum entry.id)
        let action ← ManifestEntry.actionOfDatum? (toDatum entry.action)
        let granted ← ofDatum? (toDatum entry.granted)
        return ManifestEntry.mk id action granted := rfl
    rw [read, ofDatum?_toDatum, ManifestEntry.actionOfDatum?_toDatum, ofDatum?_toDatum]
    rfl
  faithful entry := by
    refine .record ?_
    simp [faithful entry.id, faithful entry.action, faithful entry.granted]

instance : LawfulRepresentable Manifest where
  ofDatum?_toDatum manifest := by
    have read : ofDatum? (toDatum manifest) = do
        let seed ← ofDatum? (toDatum manifest.seed)
        let entries ← ofDatum? (toDatum manifest.entries)
        return Manifest.mk seed entries := rfl
    rw [read, ofDatum?_toDatum, ofDatum?_toDatum]
    rfl
  faithful manifest := by
    refine .record ?_
    simp [faithful manifest.seed, faithful manifest.entries]

/-! ### Both formats -/

section Formats

variable {α : Type} [Representable α] [LawfulRepresentable α] {value : α} {bytes : List UInt8}

theorem ofJson?_toJson (value : α) : ofJson? (toJson value) = some value := by
  rw [ofJson?, toJson, Json.decode?_encode (faithful value), Option.bind_some, ofDatum?_toDatum]

theorem ofMessagePack?_of_toMessagePack? (stored : toMessagePack? value = some bytes) :
    ofMessagePack? bytes = some value := by
  rw [ofMessagePack?, MessagePack.decode?_of_encode? stored, Option.bind_some, ofDatum?_toDatum]

end Formats

/-! ### The form of a manifest -/

open MessagePack

theorem packable_int64 (n : Int64) : Packable (toDatum n) := by
  have lower := n.le_toInt
  have upper := n.toInt_lt
  exact .int (by simpa using lower) (by omega)

theorem StandardAction.packable (action : StandardAction) : Packable (toDatum action) := by
  have few : (("action", Datum.text action.name) :: action.parameters).length ≤ 3 := by
    cases action <;> simp [parameters]
  refine .record (Nat.lt_of_le_of_lt few (by decide)) ?_ ?_
  · cases action <;> simp [parameters] <;> decide
  · rw [List.forall_mem_cons]
    refine ⟨.text (by cases action <;> simp only [name] <;> decide), ?_⟩
    cases action with
    | steppedClock start step => simp [parameters, packable_int64]
    | _ => simp [parameters]

theorem ManifestEntry.packable (entry : ManifestEntry) : Packable (toDatum entry) := by
  have id_lt := entry.id.number.toNat_lt
  refine .record (show 3 < BigEndian.capacity 4 by decide) ?_ ?_
  · simp only [List.forall_mem_cons]
    exact ⟨by decide, by decide, by decide, by simp⟩
  · simp only [List.forall_mem_cons]
    exact ⟨.int (by omega) (by omega), entry.action.packable, .bool _, by simp⟩

namespace Manifest

theorem exists_head_of_toMessagePack? {manifest : Manifest} {bytes : List UInt8}
    (stored : toMessagePack? manifest = some bytes) :
    ∃ head, (Head.list manifest.entries.length).encode? = some head := by
  rcases encode?_record_eq_some.1 stored with ⟨_, _, _, fields, _⟩
  rcases encodeFields?_cons_eq_some.1 fields with ⟨_, _, _, _, _, fields, _⟩
  rcases encodeFields?_cons_eq_some.1 fields with ⟨_, _, _, _, entries, _, _⟩
  rcases encode?_list_eq_some.1 entries with ⟨head, _, headed, _, _⟩
  rw [List.length_map] at headed
  exact ⟨head, headed⟩

theorem packable {manifest : Manifest} (few : manifest.entries.length < BigEndian.capacity 4) :
    Packable (toDatum manifest) := by
  have seed_lt := manifest.seed.toNat_lt
  refine .record (show 2 < BigEndian.capacity 4 by decide) ?_ ?_
  · simp only [List.forall_mem_cons]
    exact ⟨by decide, by decide, by simp⟩
  · simp only [List.forall_mem_cons]
    refine ⟨.int (by omega) (by omega), .list (by rwa [List.length_map]) ?_, by simp⟩
    intro item member
    rcases List.mem_map.1 member with ⟨entry, _, rfl⟩
    exact entry.packable

/-- A manifest has a form in MessagePack unless 32 bits cannot count its selections. -/
theorem exists_toMessagePack?_iff (manifest : Manifest) :
    (∃ bytes, toMessagePack? manifest = some bytes) ↔
      manifest.entries.length < BigEndian.capacity 4 := by
  constructor
  · rintro ⟨bytes, stored⟩
    exact Head.exists_list_iff.1 (exists_head_of_toMessagePack? stored)
  · intro few
    exact (packable few).exists_encode?

/-- A manifest that was stored is read back unchanged, from JSON and from MessagePack, so manifests
that are stored alike are the same. In MessagePack a list has no form if 32 bits cannot count its
items, and a manifest with so many selections is not stored. -/
theorem stored_is_read_back (manifest : Manifest) :
    ofJson? (toJson manifest) = some manifest ∧
    (manifest.entries.length < 0x100000000 ∧
        (∃ bytes, toMessagePack? manifest = some bytes ∧ ofMessagePack? bytes = some manifest) ∨
      0x100000000 ≤ manifest.entries.length ∧ toMessagePack? manifest = none) ∧
    ∀ other : Manifest,
      (toJson manifest = toJson other → manifest = other) ∧
      ∀ bytes, toMessagePack? manifest = some bytes → toMessagePack? other = some bytes →
        manifest = other := by
  have capacity_eq : BigEndian.capacity 4 = 0x100000000 := by decide
  refine ⟨ofJson?_toJson manifest, ?_, ?_⟩
  · rw [← capacity_eq]
    rcases Nat.lt_or_ge manifest.entries.length (BigEndian.capacity 4) with few | many
    · rcases manifest.exists_toMessagePack?_iff.2 few with ⟨bytes, stored⟩
      exact .inl ⟨few, bytes, stored, ofMessagePack?_of_toMessagePack? stored⟩
    · refine .inr ⟨many, ?_⟩
      rw [Option.eq_none_iff_forall_ne_some]
      intro bytes stored
      exact absurd (manifest.exists_toMessagePack?_iff.1 ⟨bytes, stored⟩) (Nat.not_lt.2 many)
  · intro other
    constructor
    · intro same
      have read := ofJson?_toJson manifest
      rw [same, ofJson?_toJson other] at read
      exact (Option.some.inj read).symm
    · intro bytes stored otherStored
      have read := ofMessagePack?_of_toMessagePack? stored
      rw [ofMessagePack?_of_toMessagePack? otherStored] at read
      exact (Option.some.inj read).symm

end Manifest

end CapabilityMachine
