/-!
# Data

Data without a fixed written form: nothing, truth values, numbers, texts, and lists and records of
data. The textual format JSON and the binary format MessagePack both write and read data, so that
whatever is represented as a datum can be stored in either of them.

Something may be well formed in a format and yet stand for none of these, such as a number out of
range. Reading takes it for an unreadable datum, which does no harm where it is ignored.
-/

namespace CapabilityMachine

/-- What a document may hold, in whatever form it is written. -/
inductive Datum where
  | null
  | bool (b : Bool)
  | int (n : Int)
  /-- The number `coefficient * 10 ^ exponent`, written as such and not as an integer. -/
  | decimal (coefficient exponent : Int)
  | text (s : String)
  | list (items : List Datum)
  /-- Named fields, in the order in which they are written. A name may come more than once. -/
  | record (fields : List (String × Datum))
  /-- Something well formed that has no meaning. -/
  | unreadable
deriving Repr, Inhabited

namespace Datum

/-- The truth value, if the datum is one. -/
def bool? : Datum → Option Bool
  | bool b => some b
  | _ => none

/-- The integer, if the datum is one between `low` and `high`. -/
def intBetween? (low high : Int) : Datum → Option Int
  | int n => if low ≤ n ∧ n ≤ high then some n else none
  | _ => none

/-- The text, if the datum is one. -/
def text? : Datum → Option String
  | text s => some s
  | _ => none

/-- The items, if the datum is a list. -/
def items? : Datum → Option (List Datum)
  | list items => some items
  | _ => none

/-- The fields, if the datum is a record. -/
def fields? : Datum → Option (List (String × Datum))
  | record fields => some fields
  | _ => none

mutual

/-- There is nothing unreadable in the datum, and lists and records in it are nested at most
`levels` deep. -/
def isReadable (levels : Nat) : Datum → Bool
  | null | bool _ | int _ | decimal _ _ | text _ => true
  | list items =>
    match levels with
    | 0 => false
    | levels + 1 => itemsAreReadable levels items
  | record fields =>
    match levels with
    | 0 => false
    | levels + 1 => fieldsAreReadable levels fields
  | unreadable => false

/-- The items are readable at the level. -/
def itemsAreReadable (levels : Nat) : List Datum → Bool
  | [] => true
  | item :: items => isReadable levels item && itemsAreReadable levels items

/-- What the fields hold is readable at the level. -/
def fieldsAreReadable (levels : Nat) : List (String × Datum) → Bool
  | [] => true
  | (_, datum) :: fields => isReadable levels datum && fieldsAreReadable levels fields

end

end Datum

/-- The fields of a record, in the order in which they are written. -/
abbrev Fields := List (String × Datum)

namespace Fields

/-- What the fields hold under the name. -/
def named (fields : Fields) (name : String) : List Datum :=
  fields.filterMap fun (key, datum) => if key = name then some datum else none

/-- What `read` makes of the field with the name, which has to be there exactly once. -/
def required {α : Type} (fields : Fields) (name : String) (read : Datum → Option α) : Option α :=
  match fields.named name with
  | [datum] => read datum
  | _ => none

/-- What `read` makes of the field with the name, or the default if there is none. The field may not
be there twice. -/
def optional {α : Type} (fields : Fields) (name : String) (default : α)
    (read : Datum → Option α) : Option α :=
  match fields.named name with
  | [] => some default
  | [datum] => read datum
  | _ => none

end Fields

end CapabilityMachine
