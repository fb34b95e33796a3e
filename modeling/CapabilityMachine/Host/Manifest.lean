import CapabilityMachine.Host.Device
import CapabilityMachine.Host.Registry
/-!
# Manifests

A manifest selects standard actions: under which ids a host registers them, which of them a run may
use, and the seed of all random streams. The stream of a random source is seeded with the sum of the
seed and the source's id, so that it does not depend on what else the manifest selects.
-/

namespace CapabilityMachine

/-- The actions that a manifest can select. -/
inductive StandardAction where
  | consoleWriteLine
  | monotonicClock
  | steppedClock (start step : Int64)
  | seededRandom
  | seededRange
deriving DecidableEq, Repr

/-- The device for a selected action, with the sink for the lines of a console and the seed for a
random source. -/
def StandardAction.toDevice (action : StandardAction) (sink : Sink) (seed : UInt64) : Device :=
  match action with
  | consoleWriteLine => .console sink
  | monotonicClock => .monotonicClock
  | steppedClock start step => .steppedClock start step
  | seededRandom => .seededRandom (.ofSeed seed)
  | seededRange => .seededRange (.ofSeed seed)

/-- One selection: an action under an id, which a run may use if it is granted. -/
structure ManifestEntry where
  id : CapabilityId
  action : StandardAction
  granted : Bool
deriving DecidableEq, Repr

/-- What a host offers, as data. -/
structure Manifest where
  seed : UInt64
  /-- The selections, in the order of their registration. -/
  entries : List ManifestEntry := []
deriving DecidableEq, Repr

namespace Manifest

/-- Registers what an entry selects, and grants it if the entry says so. -/
def addEntry (manifest : Manifest) (sink : Sink) (config : HostConfig Device)
    (entry : ManifestEntry) : Except RuntimeError (HostConfig Device) :=
  let device := entry.action.toDevice sink (manifest.seed + entry.id.number.toUInt64)
  if entry.granted then config.registerGranted entry.id device
  else config.register entry.id device

/-- The capabilities that the manifest selects, with all consoles writing to the same sink. No id
may be selected twice. -/
def toConfig (manifest : Manifest) (sink : Sink) : Except RuntimeError (HostConfig Device) :=
  manifest.entries.foldlM (manifest.addEntry sink) {}

end Manifest

end CapabilityMachine
