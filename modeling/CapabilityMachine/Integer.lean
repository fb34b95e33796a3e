/-!
# The range of machine integers

Integers of programs have 64 bits. Results are computed exactly and then checked against, or brought
into, the range of these integers.
-/

namespace CapabilityMachine

/-- The least integer that 64 bits can hold. -/
def minInt64 : Int := -0x8000000000000000

/-- The greatest integer that 64 bits can hold. -/
def maxInt64 : Int := 0x7FFFFFFFFFFFFFFF

/-- The integer can be held in 64 bits. -/
def FitsInt64 (n : Int) : Prop :=
  minInt64 ≤ n ∧ n ≤ maxInt64

instance (n : Int) : Decidable (FitsInt64 n) :=
  inferInstanceAs (Decidable (_ ∧ _))

/-- The 64-bit integer nearest to `n`. -/
def clampInt64 (n : Int) : Int64 :=
  Int64.ofInt (max minInt64 (min maxInt64 n))

/-- Integers outside the range are clamped to its ends. -/
theorem toInt_clampInt64 (n : Int) : (clampInt64 n).toInt = max minInt64 (min maxInt64 n) := by
  unfold clampInt64
  apply Int64.toInt_ofInt_of_le <;> unfold minInt64 maxInt64 <;> omega

end CapabilityMachine
