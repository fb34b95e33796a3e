import CapabilityMachine.Random.Uniform
import Mathlib.Algebra.BigOperators.Group.Finset.Basic
import Mathlib.Algebra.Order.Floor.Div
import Mathlib.Order.Interval.Finset.Nat
/-!
# Every number gets as many draws

A draw is accepted for a number below `range` if its product with `range` is in a window that begins
at a multiple of 2 ^ 64 and is as long as the acceptance bound. The draws of the number are the
multiples of `range` in its window. Since the bound is itself a multiple of `range`, there are
equally many of them in every window, wherever it begins.

The loop that rejects draws comes to the first accepted draw of the stream, if the stream has one.
That it gives up after a number of attempts plays no part in this, because the stream repeats by
then.
-/

namespace CapabilityMachine

namespace Uniform

variable {range number draw : Nat}

/-- The number of draws that are accepted for each number. -/
def share (range : Nat) : Nat :=
  2 ^ (63 - range.log2)

theorem acceptanceBound_eq (range : Nat) : acceptanceBound range = range * share range :=
  Nat.shiftLeft_eq _ _

theorem acceptanceBound_lt (positive : 0 < range) (small : range < draws) :
    acceptanceBound range < draws := by
  have log2_lt : range.log2 < 64 := (Nat.log2_lt positive.ne').2 small
  calc
    acceptanceBound range = range * 2 ^ (63 - range.log2) := acceptanceBound_eq range
    _ < 2 ^ (range.log2 + 1) * 2 ^ (63 - range.log2) :=
      Nat.mul_lt_mul_of_pos_right Nat.lt_log2_self (Nat.two_pow_pos _)
    _ = 2 ^ 64 := by
      rw [← Nat.pow_add]
      congr 1
      omega

theorem draws_le_two_mul_acceptanceBound (positive : 0 < range) (small : range < draws) :
    draws ≤ 2 * acceptanceBound range := by
  have log2_lt : range.log2 < 64 := (Nat.log2_lt positive.ne').2 small
  calc
    draws = 2 * 2 ^ 63 := rfl
    _ = 2 * (2 ^ range.log2 * 2 ^ (63 - range.log2)) := by
      rw [← Nat.pow_add]
      congr 2
      omega
    _ ≤ 2 * (range * 2 ^ (63 - range.log2)) :=
      Nat.mul_le_mul_left 2 (Nat.mul_le_mul_right _ (Nat.log2_self_le positive.ne'))
    _ = 2 * acceptanceBound range := by rw [acceptanceBound_eq, share]

theorem scaled_lt (isDraw : draw < draws) (positive : 0 < range) : scaled range draw < range := by
  apply Nat.div_lt_of_lt_mul
  exact Nat.mul_lt_mul_of_pos_right isDraw positive

/-- The draws of a number have their products with `range` in a window. -/
theorem accepted_for_iff (positive : 0 < range) (small : range < draws) :
    Accepted range draw ∧ scaled range draw = number ↔
      number * draws ≤ draw * range ∧ draw * range < number * draws + acceptanceBound range := by
  have bound_lt := acceptanceBound_lt positive small
  unfold Accepted scaled
  unfold draws UInt64.size at *
  omega

/-- As many multiples of `range` are in the window of a number as in that of any other. -/
theorem window_iff (positive : 0 < range) (number draw : Nat) :
    number * draws ≤ draw * range ∧ draw * range < number * draws + acceptanceBound range ↔
      number * draws ⌈/⌉ range ≤ draw ∧ draw < number * draws ⌈/⌉ range + share range := by
  have first_le (other : Nat) :
      number * draws ⌈/⌉ range ≤ other ↔ number * draws ≤ other * range := by
    rw [ceilDiv_le_iff_le_mul positive, Nat.mul_comm range]
  rw [first_le draw, acceptanceBound_eq]
  apply and_congr_right
  intro _
  rcases Nat.lt_or_ge draw (share range) with early | late
  · have short : draw * range < range * share range := by
      rw [Nat.mul_comm range]
      exact Nat.mul_lt_mul_of_pos_right early positive
    omega
  · obtain ⟨other, rfl⟩ := Nat.exists_eq_add_of_le' late
    rw [Nat.add_mul, Nat.mul_comm (share range), Nat.add_lt_add_iff_right,
      Nat.add_lt_add_iff_right, ← Nat.not_le, ← Nat.not_le, first_le other]

/-- As many draws are accepted for a number as for any other. -/
theorem card_accepted_for (positive : 0 < range) (small : range < draws) (below : number < range) :
    ((Finset.range draws).filter fun draw =>
      Accepted range draw ∧ scaled range draw = number).card = share range := by
  have inside (draw : Nat) (inWindow : draw * range < number * draws + acceptanceBound range) :
      draw < draws := by
    have bound_lt := acceptanceBound_lt positive small
    have next : (number + 1) * draws ≤ range * draws := Nat.mul_le_mul_right _ below
    apply Nat.lt_of_mul_lt_mul_right (a := range)
    rw [Nat.mul_comm draws]
    rw [Nat.succ_mul] at next
    omega
  have window : ((Finset.range draws).filter fun draw =>
      Accepted range draw ∧ scaled range draw = number) =
        Finset.Ico (number * draws ⌈/⌉ range) (number * draws ⌈/⌉ range + share range) := by
    ext draw
    rw [Finset.mem_filter, Finset.mem_range, Finset.mem_Ico, accepted_for_iff positive small,
      ← window_iff positive]
    exact and_iff_right_of_imp fun inWindow => inside draw inWindow.2
  rw [window, Nat.card_Ico, Nat.add_sub_cancel_left]

theorem card_accepted (positive : 0 < range) (small : range < draws) :
    ((Finset.range draws).filter (Accepted range)).card = acceptanceBound range := by
  have isNumber : ∀ draw ∈ (Finset.range draws).filter (Accepted range),
      scaled range draw ∈ Finset.range range := by
    intro draw member
    rw [Finset.mem_filter, Finset.mem_range] at member
    exact Finset.mem_range.2 (scaled_lt member.1 positive)
  have shares : ∀ number ∈ Finset.range range,
      (((Finset.range draws).filter (Accepted range)).filter (scaled range · = number)).card =
        share range := by
    intro number member
    rw [Finset.filter_filter]
    exact card_accepted_for positive small (Finset.mem_range.1 member)
  rw [Finset.card_eq_sum_card_fiberwise isNumber, Finset.sum_congr rfl shares, Finset.sum_const,
    Finset.card_range, acceptanceBound_eq, smul_eq_mul]

end Uniform

/-! ### Draws of a stream -/

namespace ChaCha.Stream

variable (stream : Stream)

/-- The stream behind some of its draws. -/
def skip (count : Nat) : Stream :=
  { stream with position := stream.position + 2 * count }

/-- A draw of the stream, counted from 0. -/
def draw (index : Nat) : UInt64 :=
  UInt64.ofNat (stream.skip index).nextLong.1

theorem nextLong_eq : stream.nextLong = ((stream.draw 0).toNat, stream.skip 1) := by
  have isDraw : stream.nextLong.1 < UInt64.size := by
    have low := stream.nextWord.1.toNat_lt
    have high := stream.nextWord.2.nextWord.1.toNat_lt
    show stream.nextWord.1.toNat + stream.nextWord.2.nextWord.1.toNat <<< 32 < UInt64.size
    rw [Nat.shiftLeft_eq, UInt64.size]
    omega
  have first : (stream.draw 0).toNat = stream.nextLong.1 := UInt64.toNat_ofNat_of_lt' isDraw
  rw [first]
  rfl

theorem skip_skip (first second : Nat) :
    (stream.skip first).skip second = stream.skip (first + second) := by
  simp only [skip, Nat.mul_add, Nat.add_assoc]

theorem draw_skip (count index : Nat) :
    (stream.skip count).draw index = stream.draw (count + index) := by
  rw [draw, draw, skip_skip]

/-- A word depends on the position in the stream only up to the number of words after which the
counter of blocks runs over. -/
theorem nextWord_of_later {later : Stream} (sameKey : later.key = stream.key)
    (position_eq : later.position = stream.position + 16 * 2 ^ 64) :
    later.nextWord.1 = stream.nextWord.1 := by
  have counter_eq :
      UInt64.ofNat (later.position / 16) = UInt64.ofNat (stream.position / 16) := by
    rw [position_eq, Nat.add_mul_div_left _ _ (by decide)]
    apply UInt64.toNat_inj.1
    rw [UInt64.toNat_ofNat', UInt64.toNat_ofNat', Nat.add_mod_right]
  have index_eq : Fin.ofNat 16 later.position = Fin.ofNat 16 stream.position := by
    apply Fin.ext
    rw [Fin.val_ofNat, Fin.val_ofNat, position_eq, Nat.add_mul_mod_self_left]
  simp only [nextWord, sameKey, counter_eq, index_eq]

theorem nextLong_of_later {later : Stream} (sameKey : later.key = stream.key)
    (position_eq : later.position = stream.position + 16 * 2 ^ 64) :
    later.nextLong.1 = stream.nextLong.1 := by
  have sameKey_behind : later.nextWord.2.key = stream.nextWord.2.key := sameKey
  have position_behind :
      later.nextWord.2.position = stream.nextWord.2.position + 16 * 2 ^ 64 := by
    show later.position + 1 = stream.position + 1 + 16 * 2 ^ 64
    omega
  have low := nextWord_of_later stream sameKey position_eq
  have high := nextWord_of_later stream.nextWord.2 sameKey_behind position_behind
  exact congrArg₂ (fun low high : UInt32 => low.toNat + high.toNat <<< 32) low high

theorem draw_add_period (index : Nat) :
    stream.draw (index + Uniform.period) = stream.draw index := by
  have period_eq : Uniform.period = 8 * 2 ^ 64 := rfl
  have position_eq :
      (stream.skip (index + Uniform.period)).position =
        (stream.skip index).position + 16 * 2 ^ 64 := by
    simp only [skip, period_eq]
    omega
  have sameKey : (stream.skip (index + Uniform.period)).key = (stream.skip index).key := rfl
  rw [draw, draw, nextLong_of_later _ sameKey position_eq]

end ChaCha.Stream

namespace Uniform

variable {range index : Nat} {stream : ChaCha.Stream}

/-- The loop rejects draws up to one that it accepts or that is the last one it makes. -/
theorem exists_below_eq (range attempts : Nat) (stream : ChaCha.Stream) :
    ∃ index, below range attempts stream =
        (scaled range (stream.draw index).toNat, stream.skip (index + 1)) ∧
      (∀ earlier < index, ¬Accepted range (stream.draw earlier).toNat) ∧
      (Accepted range (stream.draw index).toNat ∨ index = attempts) := by
  induction attempts generalizing stream with
  | zero =>
    refine ⟨0, ?_, nofun, Or.inr rfl⟩
    rw [below, stream.nextLong_eq]
  | succ attempts ih =>
    rw [below, stream.nextLong_eq]
    dsimp only
    by_cases accepted : Accepted range (stream.draw 0).toNat
    · rw [if_pos accepted]
      exact ⟨0, rfl, nofun, Or.inl accepted⟩
    · rw [if_neg accepted]
      rcases ih (stream.skip 1) with ⟨index, below_eq, rejected, stops⟩
      simp only [ChaCha.Stream.draw_skip, ChaCha.Stream.skip_skip, Nat.add_comm 1] at *
      refine ⟨index + 1, below_eq, ?_, stops.imp_right (congrArg (· + 1))⟩
      rintro (_ | earlier) before
      · exact accepted
      · exact rejected earlier (Nat.lt_of_succ_lt_succ before)

/-- The number comes from the first draw of the stream that is accepted. -/
theorem below_eq_of_first (accepted : Accepted range (stream.draw index).toNat)
    (rejected : ∀ earlier < index, ¬Accepted range (stream.draw earlier).toNat) :
    below range period stream =
      (scaled range (stream.draw index).toNat, stream.skip (index + 1)) := by
  have within : index < period := by
    by_contra beyond
    obtain ⟨earlier, rfl⟩ := Nat.exists_eq_add_of_le' (Nat.le_of_not_lt beyond)
    rw [ChaCha.Stream.draw_add_period] at accepted
    exact rejected earlier (Nat.lt_add_of_pos_right (Nat.two_pow_pos 67)) accepted
  rcases exists_below_eq range period stream with ⟨found, below_eq, foundRejected, stops⟩
  rcases Nat.lt_trichotomy found index with early | rfl | late
  · rcases stops with foundAccepted | last
    · exact absurd foundAccepted (rejected found early)
    · omega
  · exact below_eq
  · exact absurd accepted (foundRejected index late)

end Uniform

end CapabilityMachine
