import CapabilityMachine.Document.Json
import CapabilityMachine.Document.MessagePack
import CapabilityMachine.Host.Manifest
import CapabilityMachine.Machine.Settings
/-!
# Stored forms

What a host stores: manifests and settings, with the names of kinds and the numbers of capabilities
in them, each represented as a datum. A structure is a record of its fields. Reading ignores fields
it does not know, in whatever order they come, and refuses numbers out of range. An action is a
record whose field `action` names it and whose other fields are its parameters. What is ignored
need not be readable, but in an action it has to be.
-/

namespace CapabilityMachine

/-- Types whose values are represented as data. -/
class Representable (α : Type) where
  toDatum : α → Datum
  ofDatum? : Datum → Option α

namespace Representable

variable {α : Type}

/-- The value in JSON. -/
def toJson [Representable α] (value : α) : String :=
  Json.encode (toDatum value)

/-- The value that a text in JSON stands for. -/
def ofJson? [Representable α] (text : String) : Option α :=
  (Json.decode? text).bind ofDatum?

/-- The value in MessagePack, unless a list in it is too long. -/
def toMessagePack? [Representable α] (value : α) : Option (List UInt8) :=
  MessagePack.encode? (toDatum value)

/-- The value that bytes in MessagePack stand for. -/
def ofMessagePack? [Representable α] (bytes : List UInt8) : Option α :=
  (MessagePack.decode? bytes).bind ofDatum?

instance : Representable Bool where
  toDatum := .bool
  ofDatum? := Datum.bool?

instance : Representable Int64 where
  toDatum n := .int n.toInt
  ofDatum? datum := (datum.intBetween? minInt64 maxInt64).map Int64.ofInt

instance : Representable UInt64 where
  toDatum n := .int n.toNat
  ofDatum? datum := (datum.intBetween? 0 0xFFFFFFFFFFFFFFFF).map fun n => UInt64.ofNat n.toNat

instance : Representable CapabilityId where
  toDatum id := .int id.number.toNat
  ofDatum? datum := (datum.intBetween? 0 0xFFFF).map fun n => ⟨UInt16.ofNat n.toNat⟩

/-- The kind that a datum represents, which is its name or a record with nothing under that name. -/
def kindOfDatum? : Datum → Option Kind
  | .text name => Kind.ofName? name
  | .record [(name, .null)] => Kind.ofName? name
  | _ => none

instance : Representable Kind where
  toDatum kind := .text kind.name
  ofDatum? := kindOfDatum?

instance [Representable α] : Representable (List α) where
  toDatum values := .list (values.map toDatum)
  ofDatum? datum := datum.items?.bind fun items => items.mapM ofDatum?

end Representable

open Representable

namespace Settings

/-- The limit that a datum represents. Limits have 64 bits. -/
def limitOfDatum? (datum : Datum) : Option Nat :=
  (datum.intBetween? 0 0xFFFFFFFFFFFFFFFF).map Int.toNat

/-- The settings that the fields represent. Missing fields have their usual values. -/
def ofFields? (fields : Fields) : Option Settings := do
  let usual : Settings := {}
  return {
    maxStackDepth := ← fields.optional "max_stack_depth" usual.maxStackDepth limitOfDatum?
    memoryCells := ← fields.optional "memory_cells" usual.memoryCells limitOfDatum?
    maxCallDepth := ← fields.optional "max_call_depth" usual.maxCallDepth limitOfDatum?
    traceCapabilities := ← fields.optional "trace_capabilities" usual.traceCapabilities ofDatum?
    traceLimit := ← fields.optional "trace_limit" usual.traceLimit limitOfDatum?
  }

instance : Representable Settings where
  toDatum settings := .record [
    ("max_stack_depth", .int settings.maxStackDepth),
    ("memory_cells", .int settings.memoryCells),
    ("max_call_depth", .int settings.maxCallDepth),
    ("trace_capabilities", .bool settings.traceCapabilities),
    ("trace_limit", .int settings.traceLimit)]
  ofDatum? datum := datum.fields?.bind ofFields?

end Settings

namespace StandardAction

/-- The name of the action in the field `action`. -/
def name : StandardAction → String
  | consoleWriteLine => "console_write_line"
  | monotonicClock => "monotonic_clock"
  | steppedClock _ _ => "stepped_clock"
  | seededRandom => "seeded_random"
  | seededRange => "seeded_range"

/-- The fields for the parameters of the action. -/
def parameters : StandardAction → Fields
  | steppedClock start step => [("start", toDatum start), ("step", toDatum step)]
  | _ => []

/-- The action that the fields represent. -/
def ofFields? (fields : Fields) : Option StandardAction := do
  match ← fields.required "action" Datum.text? with
  | "console_write_line" => return consoleWriteLine
  | "monotonic_clock" => return monotonicClock
  | "stepped_clock" =>
    let start ← fields.required "start" ofDatum?
    let step ← fields.required "step" ofDatum?
    return steppedClock start step
  | "seeded_random" => return seededRandom
  | "seeded_range" => return seededRange
  | _ => none

instance : Representable StandardAction where
  toDatum action := .record (("action", .text action.name) :: action.parameters)
  ofDatum? datum := datum.fields?.bind ofFields?

end StandardAction

namespace ManifestEntry

/-- The action that a datum in an entry represents. All of the datum has to be readable. A manifest
may be nested 127 levels deep there, of which the manifest, its list of entries and the entry itself
are three. -/
def actionOfDatum? (datum : Datum) : Option StandardAction := do
  guard (datum.isReadable (127 - 3))
  ofDatum? datum

/-- The entry that the fields of a record stand for. -/
def ofFields? (fields : Fields) : Option ManifestEntry := do
  return {
    id := ← fields.required "id" ofDatum?
    action := ← fields.required "action" actionOfDatum?
    granted := ← fields.required "granted" ofDatum?
  }

instance : Representable ManifestEntry where
  toDatum entry := .record [
    ("id", toDatum entry.id),
    ("action", toDatum entry.action),
    ("granted", toDatum entry.granted)]
  ofDatum? datum := datum.fields?.bind ofFields?

end ManifestEntry

/-- The manifest that the fields of a record stand for. -/
def Manifest.ofFields? (fields : Fields) : Option Manifest := do
  return {
    seed := ← fields.required "seed" ofDatum?
    entries := ← fields.required "entries" ofDatum?
  }

instance : Representable Manifest where
  toDatum manifest := .record [
    ("seed", toDatum manifest.seed),
    ("entries", toDatum manifest.entries)]
  ofDatum? datum := datum.fields?.bind Manifest.ofFields?

end CapabilityMachine
