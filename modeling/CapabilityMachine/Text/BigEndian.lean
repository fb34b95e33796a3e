/-!
# Big-endian numbers

Natural numbers as byte strings of a fixed width, most significant byte first. Every number of the
container format is written this way.

Main statements: `decode_encode` and `encode_decode`, by which a byte string of width `w` and a
number below `capacity w` determine each other.
-/

namespace CapabilityMachine.BigEndian

/-- The number of numbers that `width` bytes tell apart. -/
def capacity : Nat → Nat
  | 0 => 1
  | width + 1 => 256 * capacity width

/-- The last `width` base-256 digits of `n`, most significant first. -/
def encode : (width n : Nat) → List UInt8
  | 0, _ => []
  | width + 1, n => encode width (n / 256) ++ [UInt8.ofNat n]

/-- The number whose base-256 digits are the bytes, most significant first. -/
def decode (bytes : List UInt8) : Nat :=
  bytes.foldl (fun n byte => 256 * n + byte.toNat) 0

@[simp]
theorem length_encode (width n : Nat) : (encode width n).length = width := by
  induction width generalizing n with
  | zero => rfl
  | succ width ih => simp [encode, ih]

@[simp]
theorem decode_nil : decode [] = 0 := rfl

@[simp]
theorem decode_concat (bytes : List UInt8) (byte : UInt8) :
    decode (bytes ++ [byte]) = 256 * decode bytes + byte.toNat := by
  simp [decode]

theorem decode_encode {width n : Nat} (fits : n < capacity width) :
    decode (encode width n) = n := by
  induction width generalizing n with
  | zero => simp [capacity] at fits; simp [encode, fits]
  | succ width ih =>
    have quotientFits : n / 256 < capacity width := Nat.div_lt_of_lt_mul fits
    rw [encode, decode_concat, ih quotientFits, UInt8.toNat_ofNat', Nat.div_add_mod]

theorem decode_lt (bytes : List UInt8) : decode bytes < capacity bytes.length := by
  rw [← bytes.reverse_reverse]
  induction bytes.reverse with
  | nil => simp [capacity]
  | cons byte rest ih =>
    have := byte.toNat_lt
    rw [List.reverse_cons, decode_concat, List.length_append, List.length_singleton, capacity]
    omega

theorem encode_decode (bytes : List UInt8) : encode bytes.length (decode bytes) = bytes := by
  rw [← bytes.reverse_reverse]
  induction bytes.reverse with
  | nil => rfl
  | cons byte rest ih =>
    have byteLt := byte.toNat_lt
    have quotient : (256 * decode rest.reverse + byte.toNat) / 256 = decode rest.reverse := by
      omega
    have lastByte : UInt8.ofNat (256 * decode rest.reverse + byte.toNat) = byte := by
      apply UInt8.toNat_inj.1
      rw [UInt8.toNat_ofNat']
      omega
    rw [List.reverse_cons, decode_concat, List.length_append, List.length_singleton, encode,
      quotient, lastByte, ih]

end CapabilityMachine.BigEndian
