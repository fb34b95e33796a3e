/-!
# Values

The values that programs compute with. Two of the five kinds stand for something outside the value
itself: a `Reference` names a region of machine memory, and a `Handle` names a capability that a
registry has issued. Both carry a stamp, the generation of the region's slot and the token of the
registry, so that a stale reference and a handle from elsewhere are told apart from valid ones.
-/

namespace CapabilityMachine

/-- The number by which programs name a capability. -/
structure CapabilityId where
  number : UInt16
deriving DecidableEq, Repr, Inhabited

instance : ToString CapabilityId where
  toString id := s!"cap:{id.number}"

/-- The identity of one registry. Tokens mean nothing beyond being equal or different. -/
structure Token where
  serial : Nat
deriving DecidableEq, Repr, Inhabited

/-- A capability as a value: its id, stamped with the token of the registry that issued it. -/
structure Handle where
  id : CapabilityId
  token : Token
deriving DecidableEq, Repr, Inhabited

instance : ToString Handle where
  toString handle := s!"<{handle.id}>"

/-- A region of machine memory: the slot it occupies and the slot's generation when it was
allocated. -/
structure Reference where
  slot : UInt32
  generation : UInt32
deriving DecidableEq, Repr, Inhabited

instance : ToString Reference where
  toString reference := s!"ref#{reference.slot}"

/-- The reference with its generation, as messages about dangling references show it. -/
def Reference.detail (reference : Reference) : String :=
  s!"Reference({reference.slot}v{reference.generation})"

/-- The kinds of values. -/
inductive Kind where
  | int
  | bool
  | ref
  | cap
  | unit
deriving DecidableEq, Repr, Inhabited

namespace Kind

/-- All kinds of values. -/
def all : List Kind := [.int, .bool, .ref, .cap, .unit]

/-- The name by which messages and signatures call the kind. -/
def name : Kind → String
  | int => "int"
  | bool => "bool"
  | ref => "ref"
  | cap => "cap"
  | unit => "unit"

instance : ToString Kind := ⟨name⟩

/-- The kind with the name. -/
def ofName? (name : String) : Option Kind :=
  all.find? (·.name = name)

end Kind

/-- A value on the operand stack or in a memory cell. -/
inductive Value where
  | int (n : Int64)
  | bool (b : Bool)
  | ref (reference : Reference)
  | cap (handle : Handle)
  | unit
deriving DecidableEq, Repr

namespace Value

instance : Inhabited Value := ⟨unit⟩

/-- The kind of the value. -/
def kind : Value → Kind
  | int _ => .int
  | bool _ => .bool
  | ref _ => .ref
  | cap _ => .cap
  | unit => .unit

/-- The integer that the value is, if it is one. -/
def int? : Value → Option Int64
  | int n => some n
  | _ => none

/-- The truth value that the value is, if it is one. -/
def bool? : Value → Option Bool
  | bool b => some b
  | _ => none

/-- The reference that the value is, if it is one. -/
def ref? : Value → Option Reference
  | ref reference => some reference
  | _ => none

/-- The handle that the value is, if it is one. -/
def cap? : Value → Option Handle
  | cap handle => some handle
  | _ => none

instance : ToString Value where
  toString
    | int n => s!"{n}"
    | bool b => s!"{b}"
    | ref reference => s!"{reference}"
    | cap handle => s!"{handle}"
    | unit => "()"

/-- Two values look the same from outside a run: handles need only name the same capability, since
each run's registry has a token of its own, and all other values have to be equal. -/
def ObservablyEq : Value → Value → Prop
  | cap first, cap second => first.id = second.id
  | first, second => first = second

instance (first second : Value) : Decidable (first.ObservablyEq second) := by
  unfold ObservablyEq
  split <;> infer_instance

end Value

end CapabilityMachine
