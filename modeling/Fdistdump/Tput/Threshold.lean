import Fdistdump.Tput.Totals

/-!
# The threshold of phase 2

The master divides the bottom in binary64. Both operands and the quotient are rounded, and the
result is the bottom's part of one thread only when the roundings neither lead past it nor back to
the number before.
-/

namespace Fdistdump.Tput
open Binary64 hiding round
open KeyedFold

/-- The broadcast threshold is the bottom's part of one thread, rounded up, so that in descending
order every key whose total reaches the bottom is sent by some thread. -/
structure ThresholdLaw (bottom m : Nat) : Prop where
  representable : masterThreshold bottom m < 2 ^ 64
  exact : masterThreshold bottom m = (bottom + m - 1) / m
  misses_none : ∀ (K : Type) [DecidableEq K] (n : Nat) (q : TputQuery n) (orders : Fin m →
    List (Rec K n)) (k : K),
    q.dir = .desc → (∀ i, (orders i).NodupKeys) → k ∈ keys orders → bottom ≤ total q orders k →
      ∃ i, ∃ e ∈ orders i, e.1 = k ∧ q.meets (masterThreshold bottom m) e

/-- The quotient of the rounded operands is not nearer to a number above the exact result, nor within the
rounding of the integer before it. -/
def ThresholdFits (bottom m : Nat) : Prop :=
  bottom = 0 ∨
    Within (Binary64.round bottom / Binary64.round m) ((bottom + m - 1) / m : Nat) ∧
      ((bottom + m - 1) / m = 1 ∨ ¬ Within (Binary64.round bottom / Binary64.round m)
        ((bottom + m - 1) / m - 1 : Nat))

theorem ceil_toNat_eq_iff {x : ℚ} {c : Nat} (positive : 0 < c) :
    ⌈x⌉.toNat = c ↔ (c - 1 : Nat) < x ∧ x ≤ c := by
  have shift : ((c - 1 : Nat) : ℚ) = (c : ℤ) - 1 := by
    rw [Nat.cast_sub positive]
    simp
  rw [shift]
  have same : ⌈x⌉.toNat = c ↔ ⌈x⌉ = (c : ℤ) := by omega
  rw [same, Int.ceil_eq_iff, Int.cast_natCast]

theorem masterThreshold_zero (m : Nat) : masterThreshold 0 m = 0 := by
  simp [masterThreshold, round_zero]

theorem masterThreshold_eq_iff {bottom m : Nat} (threads : 0 < m) :
    masterThreshold bottom m = (bottom + m - 1) / m ↔ ThresholdFits bottom m := by
  rcases Nat.eq_zero_or_pos bottom with rfl | positive
  · refine iff_of_true ?_ (.inl rfl)
    rw [masterThreshold_zero, Nat.div_eq_of_lt (by omega)]
  obtain ⟨part, shape⟩ : ∃ part, part = (bottom + m - 1) / m := ⟨_, rfl⟩
  have some : 0 < part := shape ▸ Nat.div_pos (by omega) threads
  have quotient : 0 < Binary64.round bottom / Binary64.round m :=
    div_pos (round_pos (by exact_mod_cast positive)) (round_pos (by exact_mod_cast threads))
  have low : ((part - 1 : Nat) : ℚ) < Binary64.round (Binary64.round bottom / Binary64.round m) ↔
      part = 1 ∨ ¬ Within (Binary64.round bottom / Binary64.round m) (part - 1 : Nat) := by
    by_cases first : part = 1
    · refine iff_of_true ?_ (.inl first)
      rw [first]
      simpa using round_pos quotient
    · have before : 0 < part - 1 := by omega
      rw [← round_le_iff quotient (by exact_mod_cast before), not_le, or_iff_right first]
  have nonzero : bottom ≠ 0 := by omega
  rw [masterThreshold, ThresholdFits, ← shape, ceil_toNat_eq_iff some, low,
    round_le_iff quotient (by exact_mod_cast some),
    or_iff_right nonzero, and_comm]

theorem thresholdFits_of_small {bottom m : Nat} (threads : 0 < m) (small : bottom ≤ 2 ^ 53) :
    ThresholdFits bottom m :=
  (masterThreshold_eq_iff threads).mp (masterThreshold_exact small threads)

/-- The threshold is the exact one when the roundings do not leave it, which up to `2 ^ 53` they
never do. -/
theorem threshold_exact_iff {bottom m : Nat} (uint64 : bottom < 2 ^ 64) (threads : 0 < m) :
    (ThresholdLaw bottom m ↔ ThresholdFits bottom m) ∧ (bottom ≤ 2 ^ 53 → ThresholdFits bottom m) := by
  refine ⟨⟨fun law => (masterThreshold_eq_iff threads).mp law.exact, fun fits => ?_⟩,
    thresholdFits_of_small threads⟩
  have exact := (masterThreshold_eq_iff threads).mpr fits
  refine ⟨?_, exact, ?_⟩
  · have part : (bottom + m - 1) / m ≤ bottom := by
      rw [Nat.div_le_iff_le_mul_add_pred threads]
      have := Nat.le_mul_of_pos_left bottom threads
      omega
    omega
  · intro K _ n q orders k desc distinct member reaches
    by_contra missed
    refine absurd reaches (not_le.mpr (total_lt_of_shares distinct member fun j a inside same => ?_))
    by_contra meets
    refine missed ⟨j, a, inside, same, ?_⟩
    rw [Fintype.card_fin] at meets
    rw [TputQuery.meets, desc, exact]
    exact Nat.le_of_not_lt meets

theorem threshold_exact_iff_ten : ThresholdLaw 10 3 ↔ ThresholdFits 10 3 :=
  (threshold_exact_iff (by decide) (by decide)).1

/-- One thread and a bottom of 2^53 + 3: the key that has this total is below the threshold. From
2^64 - 1 the result does not fit into 64 bits. -/
theorem threshold_above_bottom :
    masterThreshold (2 ^ 53 + 3) 1 = 2 ^ 53 + 4 ∧ masterThreshold (2 ^ 64 - 1) 1 = 2 ^ 64 ∧
      ¬ ThresholdLaw (2 ^ 53 + 3) 1 ∧ ¬ ThresholdLaw (2 ^ 64 - 1) 1 := by
  have one : Binary64.round ((1 : Nat) : ℚ) = 1 := by simpa using round_natCast (n := 1) (by decide)
  have first : masterThreshold (2 ^ 53 + 3) 1 = 2 ^ 53 + 4 := by
    have bottom : Binary64.round ((2 ^ 53 + 3 : Nat) : ℚ) = (2 ^ 53 + 4 : Nat) := by
      rw [round_of_digits (e := 1) (by decide) (by decide)]
      norm_num [roundEven]
    have again : Binary64.round ((2 ^ 53 + 4 : Nat) : ℚ) = (2 ^ 53 + 4 : Nat) := by
      rw [round_of_digits (e := 1) (by decide) (by decide)]
      norm_num [roundEven]
    rw [masterThreshold, one, bottom, div_one, again, Int.ceil_natCast, Int.toNat_natCast]
  have last : masterThreshold (2 ^ 64 - 1) 1 = 2 ^ 64 := by
    have bottom : Binary64.round ((2 ^ 64 - 1 : Nat) : ℚ) = (2 ^ 64 : Nat) := by
      rw [round_of_digits (e := 11) (by decide) (by decide)]
      norm_num [roundEven]
    have again : Binary64.round ((2 ^ 64 : Nat) : ℚ) = (2 ^ 64 : Nat) := by
      rw [round_of_digits (e := 12) (by decide) (by decide)]
      norm_num [roundEven]
    rw [masterThreshold, one, bottom, div_one, again, Int.ceil_natCast, Int.toNat_natCast]
  refine ⟨first, last, fun law => ?_, fun law => ?_⟩
  · have exact := law.exact
    rw [first] at exact
    exact absurd exact (by decide)
  · have exact := law.exact
    rw [last] at exact
    exact absurd exact (by decide)

end Fdistdump.Tput
