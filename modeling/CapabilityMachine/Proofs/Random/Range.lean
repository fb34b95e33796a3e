import CapabilityMachine.Host.Device
import CapabilityMachine.Proofs.Random.Uniform
import Mathlib.Data.Set.Card
/-!
# Unbiased numbers between two integers

A machine computes a number between two integers on 64-bit words. The difference of the integers and
the sum of the lower one and the drawn number may both run over, since a range may be wider than any
positive integer. That does not matter: the difference, taken as a word without a sign, is the width
of the range, and the sum is back in the range.

So the numbers are what draws on words say, every number of the range belongs to the same number of
draws, and at least every second draw is accepted.
-/

namespace CapabilityMachine

namespace Uniform.Word

/-- The number of integers from `low` up to but not including `high`. -/
def width (low high : Int64) : UInt64 :=
  (high - low).toUInt64

/-- The number of zeros in front of the first one of the word. -/
def leadingZeros (word : UInt64) : UInt64 :=
  ⟨word.toBitVec.clz⟩

/-- The largest lower half of a product with which a draw is accepted. -/
def zone (range : UInt64) : UInt64 :=
  range <<< leadingZeros range - 1

/-- The draw is accepted: the lower half of its product with the range is in the zone. -/
def Accepts (range draw : UInt64) : Prop :=
  draw * range ≤ zone range

/-- The upper half of the product of a draw with the range. -/
def upperHalf (range draw : UInt64) : UInt64 :=
  UInt64.ofNat (draw.toNat * range.toNat / 2 ^ 64)

/-- The number that a draw stands for. -/
def number (low high : Int64) (draw : UInt64) : Int64 :=
  low + (upperHalf (width low high) draw).toInt64

instance (range draw : UInt64) : Decidable (Accepts range draw) :=
  inferInstanceAs (Decidable (_ ≤ _))

variable {low high : Int64} {range draw : UInt64}

/-- The difference of the integers is right as a word without a sign, also where it runs over as an
integer. -/
theorem toNat_width (ascending : low < high) :
    ((width low high).toNat : Int) = high.toInt - low.toInt := by
  have unsigned (n : Int64) : (n.toUInt64.toNat : Int) = n.toInt % (2 ^ 64 : Nat) := by
    rw [← Int64.toInt_toBitVec, BitVec.toInt_eq_toNat_bmod, Int.bmod_emod]
    exact (Int.emod_eq_of_lt (Int.natCast_nonneg _) (Int.ofNat_lt.2 n.toBitVec.isLt)).symm
  have bounds := And.intro low.le_toInt high.toInt_lt
  rw [Int64.lt_iff_toInt_lt] at ascending
  rw [width, unsigned, Int64.toInt_sub, Int.bmod_emod]
  apply Int.emod_eq_of_lt <;> omega

theorem toNat_leadingZeros (positive : 0 < range.toNat) :
    (leadingZeros range).toNat = 63 - range.toNat.log2 := by
  have nonzero : range.toBitVec ≠ 0#64 := by
    intro zero
    rw [← UInt64.toNat_toBitVec, zero] at positive
    cases positive
  have least : 2 ^ (63 - (leadingZeros range).toNat) ≤ range.toNat :=
    BitVec.two_pow_sub_clz_le_toNat_of_ne_zero (by decide) nonzero
  have greatest : range.toNat < 2 ^ (64 - (leadingZeros range).toNat) :=
    BitVec.toNat_lt_two_pow_sub_clz
  have log2_lt := (Nat.log2_lt positive.ne').2 greatest
  have le_log2 := (Nat.le_log2 positive.ne').2 least
  omega

theorem share_eq (positive : 0 < range.toNat) :
    share range.toNat = 2 ^ (leadingZeros range).toNat := by
  rw [share, toNat_leadingZeros positive]

theorem toNat_zone (positive : 0 < range.toNat) :
    (zone range).toNat + 1 = acceptanceBound range.toNat := by
  have bound_lt : acceptanceBound range.toNat < 2 ^ 64 := acceptanceBound_lt positive range.toNat_lt
  have bound_pos : 0 < acceptanceBound range.toNat := by
    rw [acceptanceBound_eq]
    exact Nat.mul_pos positive (Nat.two_pow_pos _)
  have shifted : (range <<< leadingZeros range).toNat = acceptanceBound range.toNat := by
    have zeros_lt : (leadingZeros range).toNat < 64 := by
      rw [toNat_leadingZeros positive]
      omega
    rw [UInt64.toNat_shiftLeft, Nat.mod_eq_of_lt zeros_lt, toNat_leadingZeros positive]
    exact Nat.mod_eq_of_lt bound_lt
  have one_le : 1 ≤ range <<< leadingZeros range := by
    rw [UInt64.le_iff_toNat_le, shifted]
    exact bound_pos
  rw [zone, UInt64.toNat_sub_of_le _ _ one_le, shifted]
  exact Nat.sub_add_cancel bound_pos

theorem accepts_iff (positive : 0 < range.toNat) :
    Accepts range draw ↔ Accepted range.toNat draw.toNat := by
  have zone_eq := toNat_zone positive
  rw [Accepts, UInt64.le_iff_toNat_le, UInt64.toNat_mul, Accepted, ← zone_eq]
  exact Nat.lt_succ_iff.symm

theorem number_eq (low high : Int64) (draw : UInt64) :
    number low high draw =
      Int64.ofInt (low.toInt + scaled (width low high).toNat draw.toNat) := by
  rw [Int64.ofInt_add, Int64.ofInt_toInt]
  rfl

/-- The number is in the range, although the sum that it is made of may run over. -/
theorem toInt_number (ascending : low < high) (draw : UInt64) :
    (number low high draw).toInt = low.toInt + scaled (width low high).toNat draw.toNat ∧
      scaled (width low high).toNat draw.toNat < (width low high).toNat := by
  have width_eq := toNat_width ascending
  rw [Int64.lt_iff_toInt_lt] at ascending
  have within : scaled (width low high).toNat draw.toNat < (width low high).toNat :=
    scaled_lt draw.toNat_lt (by omega)
  have bounds := And.intro low.le_toInt high.toInt_lt
  refine ⟨?_, within⟩
  rw [number_eq]
  apply Int64.toInt_ofInt_of_le <;> omega

/-- Draws are counted as words or as natural numbers. -/
theorem ncard_words (isCounted : Nat → Prop) [DecidablePred isCounted] :
    {draw : UInt64 | isCounted draw.toNat}.ncard =
      ((Finset.range draws).filter isCounted).card := by
  have injective : Function.Injective UInt64.toNat := fun _ _ => UInt64.toNat_inj.1
  have image_eq : UInt64.toNat '' {draw : UInt64 | isCounted draw.toNat} =
      ((Finset.range draws).filter isCounted : Finset Nat) := by
    ext draw
    simp only [Set.mem_image, Set.mem_ofPred_eq, Finset.coe_filter, Finset.mem_range]
    constructor
    · rintro ⟨word, counted, rfl⟩
      exact ⟨word.toNat_lt, counted⟩
    · rintro ⟨isDraw, counted⟩
      have toNat_eq := UInt64.toNat_ofNat_of_lt' isDraw
      exact ⟨UInt64.ofNat draw, by rwa [toNat_eq], toNat_eq⟩
  rw [← Set.ncard_image_of_injective _ injective, image_eq, Set.ncard_coe_finset]

theorem ncard_number (ascending : low < high) {drawn : Int64} (low_le : low ≤ drawn)
    (lt_high : drawn < high) :
    {draw | Accepts (width low high) draw ∧ number low high draw = drawn}.ncard =
      2 ^ (leadingZeros (width low high)).toNat := by
  have width_eq := toNat_width ascending
  have isNumber (draw : UInt64) : number low high draw = drawn ↔
      scaled (width low high).toNat draw.toNat = (drawn.toInt - low.toInt).toNat := by
    have number_eq := (toInt_number ascending draw).1
    rw [Int64.le_iff_toInt_le] at low_le
    rw [← Int64.toInt_inj, number_eq]
    omega
  rw [Int64.lt_iff_toInt_lt] at ascending lt_high
  have positive : 0 < (width low high).toNat := by omega
  simp only [accepts_iff positive, isNumber]
  refine (ncard_words fun draw => Accepted (width low high).toNat draw ∧
    scaled (width low high).toNat draw = (drawn.toInt - low.toInt).toNat).trans ?_
  rw [card_accepted_for positive (width low high).toNat_lt (by omega), share_eq positive]

theorem ncard_accepts (ascending : low < high) :
    2 ^ 64 ≤ 2 * {draw | Accepts (width low high) draw}.ncard := by
  have width_eq := toNat_width ascending
  rw [Int64.lt_iff_toInt_lt] at ascending
  have positive : 0 < (width low high).toNat := by omega
  simp only [accepts_iff positive]
  rw [ncard_words, card_accepted positive (width low high).toNat_lt]
  exact draws_le_two_mul_acceptanceBound positive (width low high).toNat_lt

end Uniform.Word

namespace Device

open CapabilityMachine.Uniform

variable {stream : ChaCha.Stream} {low high : Int64}

theorem drawBetween_of_not_ascending (descending : high ≤ low) (stream : ChaCha.Stream) :
    drawBetween stream [.int low, .int high] =
      (.error (.hostFailure s!"random.range: empty range [{low}, {high})"), stream) := by
  rw [drawBetween, if_neg (Int64.not_lt.2 descending)]

/-- The number that is drawn is that of the first draw that is accepted. -/
theorem drawBetween_of_first (ascending : low < high) {index : Nat}
    (accepted : Word.Accepts (Word.width low high) (stream.draw index))
    (rejected : ∀ earlier < index,
      ¬Word.Accepts (Word.width low high) (stream.draw earlier)) :
    drawBetween stream [.int low, .int high] =
      (.ok (.int (Word.number low high (stream.draw index))), stream.skip (index + 1)) := by
  have width_eq := Word.toNat_width ascending
  have range_eq : (high.toInt - low.toInt).toNat = (Word.width low high).toNat := by omega
  have positive : 0 < (Word.width low high).toNat := by
    rw [Int64.lt_iff_toInt_lt] at ascending
    omega
  simp only [Word.accepts_iff positive] at accepted rejected
  simp only [drawBetween, if_pos ascending, between, range_eq,
    below_eq_of_first accepted rejected, Word.number_eq]

/-- Even if the stream had no draw that is accepted, the number would be one of a draw. -/
theorem exists_drawBetween_eq (ascending : low < high) (stream : ChaCha.Stream) :
    ∃ index, drawBetween stream [.int low, .int high] =
      (.ok (.int (Word.number low high (stream.draw index))), stream.skip (index + 1)) := by
  have width_eq := Word.toNat_width ascending
  have range_eq : (high.toInt - low.toInt).toNat = (Word.width low high).toNat := by omega
  rcases exists_below_eq (Word.width low high).toNat period stream with ⟨index, below_eq, _⟩
  refine ⟨index, ?_⟩
  simp only [drawBetween, if_pos ascending, between, range_eq, below_eq, Word.number_eq]

/-- A random number between two integers is in range and unbiased, however wide the range is. The
device fails, and leaves its stream as it is, exactly if the range is empty. Otherwise its answer is
in the range. It is the number of the first draw of the stream that is accepted. Every number of the
range is that of equally many of the 2 ^ 64 draws, and at least half of all draws are accepted. -/
theorem seededRange_unbiased (stream : ChaCha.Stream) (low high : Int64) (world : World) :
    let response := (seededRange stream).perform [.int low, .int high] world
    let range := Word.width low high
    ((∃ error, response = ⟨.error error, seededRange stream, world⟩) ↔ high ≤ low) ∧
    (low < high →
      (∃ drawn rest, response = ⟨.ok (.int drawn), seededRange rest, world⟩ ∧
        low ≤ drawn ∧ drawn < high) ∧
      (∀ index, Word.Accepts range (stream.draw index) →
        (∀ earlier < index, ¬Word.Accepts range (stream.draw earlier)) →
        response = ⟨.ok (.int (Word.number low high (stream.draw index))),
          seededRange (stream.skip (index + 1)), world⟩) ∧
      (∀ drawn, low ≤ drawn → drawn < high →
        {draw | Word.Accepts range draw ∧ Word.number low high draw = drawn}.ncard =
          2 ^ (Word.leadingZeros range).toNat) ∧
      2 ^ 64 ≤ 2 * {draw | Word.Accepts range draw}.ncard) := by
  intro response range
  have response_eq : response =
      ⟨(drawBetween stream [.int low, .int high]).1,
        seededRange (drawBetween stream [.int low, .int high]).2, world⟩ := rfl
  constructor
  · constructor
    · rintro ⟨error, failed⟩
      by_contra ascending
      rcases exists_drawBetween_eq (Int64.not_le.1 ascending) stream with ⟨index, drawn_eq⟩
      rw [response_eq, drawn_eq] at failed
      cases failed
    · intro descending
      rw [response_eq, drawBetween_of_not_ascending descending stream]
      exact ⟨_, rfl⟩
  · intro ascending
    refine ⟨?_, ?_, fun drawn => Word.ncard_number ascending, Word.ncard_accepts ascending⟩
    · rcases exists_drawBetween_eq ascending stream with ⟨index, drawn_eq⟩
      have width_eq := Word.toNat_width ascending
      have number_eq := Word.toInt_number ascending (stream.draw index)
      refine ⟨_, _, by rw [response_eq, drawn_eq], ?_⟩
      rw [Int64.le_iff_toInt_le, Int64.lt_iff_toInt_lt]
      omega
    · intro index accepted rejected
      rw [response_eq, drawBetween_of_first ascending accepted rejected]

/-- A range across zero that is wider than any positive integer. The first draw of the stream is
rejected. -/
theorem seededRange_unbiased_wide :
    let stream := ChaCha.Stream.ofSeed 4
    let range := Word.width Int64.minValue 1
    Int64.minValue < 1 ∧ ¬Word.Accepts range (stream.draw 0) ∧
      (seededRange stream).perform [.int Int64.minValue, .int 1] {} =
        ⟨.ok (.int (-8579415988066265256)), seededRange (stream.skip 2), {}⟩ ∧
      {draw | Word.Accepts range draw ∧ Word.number Int64.minValue 1 draw = 0}.ncard = 1 := by
  intro stream range
  have ascending : Int64.minValue < 1 := by decide
  have first_draw : stream.draw 0 = 13397615786452766498 := by decide +kernel
  have second_draw : stream.draw 1 = 1287912097577021104 := by decide +kernel
  have rejected : ¬Word.Accepts range (stream.draw 0) := by
    rw [first_draw]
    decide +kernel
  have accepted : Word.Accepts range (stream.draw 1) := by
    rw [second_draw]
    decide +kernel
  have number_eq : Word.number Int64.minValue 1 (stream.draw 1) = -8579415988066265256 := by
    rw [second_draw]
    decide +kernel
  rcases (seededRange_unbiased stream Int64.minValue 1 {}).2 ascending with ⟨_, first, equal, _⟩
  have share_eq : 2 ^ (Word.leadingZeros range).toNat = 1 := by decide +kernel
  refine ⟨ascending, rejected, ?_, (equal 0 (by decide) (by decide)).trans share_eq⟩
  rw [← number_eq]
  apply first 1 accepted
  intro earlier before
  cases Nat.lt_one_iff.1 before
  exact rejected

end Device

end CapabilityMachine
