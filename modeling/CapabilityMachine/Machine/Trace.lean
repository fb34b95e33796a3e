import CapabilityMachine.RuntimeError
/-!
# The trace of invocations

A record of the capabilities that a run has invoked, bounded in length: when it is full, every new
record displaces the oldest one. How many were displaced is counted.
-/

namespace CapabilityMachine

/-- One invocation of a capability. -/
structure InvocationRecord where
  step : Nat
  instruction : Nat
  id : CapabilityId
  /-- The arguments, in the order in which they were pushed. -/
  arguments : List Value
  outcome : Except RuntimeError Value

namespace InvocationRecord

instance : ToString InvocationRecord where
  toString record :=
    let arguments := ", ".intercalate (record.arguments.map toString)
    let outcome :=
      match record.outcome with
      | .ok value => s!"-> {value}"
      | .error error => s!"!! {error}"
    s!"[{record.step}] #{record.instruction} {record.id}({arguments}) {outcome}"

end InvocationRecord

/-- The most recent invocation records of a run. -/
structure Trace where
  /-- The largest number of records that are kept. -/
  limit : Nat
  /-- The records, newest first. -/
  newest : List InvocationRecord := []
  /-- The number of records that are no longer kept. -/
  dropped : Nat := 0

namespace Trace

/-- The number of records kept. -/
def size (trace : Trace) : Nat :=
  trace.newest.length

/-- The records kept, oldest first. -/
def toList (trace : Trace) : List InvocationRecord :=
  trace.newest.reverse

/-- Adds a record, in place of the oldest one if the trace is full. -/
def push (trace : Trace) (record : InvocationRecord) : Trace :=
  let records := record :: trace.newest
  { trace with
    newest := records.take trace.limit
    dropped := trace.dropped + (records.length - trace.limit) }

/-- The `count` newest records, oldest first. -/
def recent (trace : Trace) (count : Nat) : List InvocationRecord :=
  (trace.newest.take count).reverse

/-- The records of one capability, oldest first. -/
def forCapability (trace : Trace) (id : CapabilityId) : List InvocationRecord :=
  trace.toList.filter (·.id = id)

end Trace

end CapabilityMachine
