import CapabilityMachine.Random.ChaCha
/-!
# Uniform numbers from a range

A 64-bit draw `v` is turned into a number below `range` by taking the upper half of the 128-bit
product `v * range`. The draws that belong to one number are nearly, but not exactly, equally many.
To make them so, a draw is rejected if the lower half of its product is too large, and another one
is made.
-/

namespace CapabilityMachine.Uniform

/-- The number of values of a 64-bit draw. -/
def draws : Nat := UInt64.size

/-- The bound below which the lower half of a product has to be: `range`, moved left as far as 64
bits allow. -/
def acceptanceBound (range : Nat) : Nat :=
  range <<< (63 - range.log2)

/-- The draw is not rejected. -/
def Accepted (range draw : Nat) : Prop :=
  draw * range % draws < acceptanceBound range

instance (range draw : Nat) : Decidable (Accepted range draw) :=
  inferInstanceAs (Decidable (_ < _))

/-- The number below `range` that the draw stands for. -/
def scaled (range draw : Nat) : Nat :=
  draw * range / draws

/-- The number of draws after which a stream repeats. If so many draws in a row are rejected, all
further ones are. -/
def period : Nat := 1 <<< 67

/-- A number below `range`, from the first draw of the stream that is not rejected or, failing that,
from the draw after `attempts` others. -/
def below (range : Nat) (attempts : Nat) (stream : ChaCha.Stream) : Nat × ChaCha.Stream :=
  let (draw, rest) := stream.nextLong
  match attempts with
  | 0 => (scaled range draw, rest)
  | attempts + 1 =>
    if Accepted range draw then (scaled range draw, rest) else below range attempts rest

/-- A number from `low` up to but not including `high`, which has to be larger. -/
def between (low high : Int) (stream : ChaCha.Stream) : Int × ChaCha.Stream :=
  let (number, rest) := below (high - low).toNat period stream
  (low + number, rest)

end CapabilityMachine.Uniform
