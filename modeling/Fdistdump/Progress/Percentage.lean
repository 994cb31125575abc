import Fdistdump.Library.Binary64Error
import Mathlib.Data.Nat.Cast.Order.Field

/-!
# Percentages of the progress bar

`progress_bar_print` divides in binary64, multiplies by a hundred and cuts the result off.
-/

namespace Fdistdump.Progress
open Binary64 hiding round

/-- The percentage of `cnt` files out of `goal`. -/
def percentage (cnt goal : Nat) : Nat :=
  if goal = 0 then 100   -- to prevent division by zero
  else ⌊Binary64.round (Binary64.round (Binary64.round cnt / Binary64.round goal) * 100)⌋.toNat

variable {cnt cnt' goal : Nat}

theorem quotient_nonneg (cnt goal : Nat) :
    0 ≤ Binary64.round (Binary64.round cnt / Binary64.round goal) :=
  round_nonneg (div_nonneg (round_nonneg (Nat.cast_nonneg _)) (round_nonneg (Nat.cast_nonneg _)))

theorem percentage_mono (le : cnt ≤ cnt') : percentage cnt goal ≤ percentage cnt' goal := by
  unfold percentage
  split
  · exact Nat.le_refl _
  · apply Int.toNat_le_toNat
    apply Int.floor_mono
    apply round_mono' (mul_nonneg (quotient_nonneg cnt goal) (by norm_num))
    apply mul_le_mul_of_nonneg_right _ (by norm_num)
    apply round_mono' (div_nonneg (round_nonneg (Nat.cast_nonneg _)) (round_nonneg (Nat.cast_nonneg _)))
    apply div_le_div_of_nonneg_right _ (round_nonneg (Nat.cast_nonneg _))
    exact round_mono' (Nat.cast_nonneg _) (by exact_mod_cast le)

theorem percentage_goal (goal : Nat) : percentage goal goal = 100 := by
  unfold percentage
  split
  · rfl
  · rename_i some
    have positive : (0 : ℚ) < goal := by exact_mod_cast Nat.pos_of_ne_zero some
    have one : Binary64.round 1 = 1 := by simpa using round_natCast (n := 1) (by norm_num)
    have hundred : Binary64.round 100 = 100 := by simpa using round_natCast (n := 100) (by norm_num)
    have floor : ⌊(100 : ℚ)⌋ = 100 := Int.floor_ofNat 100
    rw [div_self (round_pos positive).ne', one, one_mul, hundred, floor]
    rfl

/-- As long as a file is missing, the bar does not show a hundred percent. -/
theorem percentage_lt (less : cnt < goal) (small : goal ≤ 2 ^ 53) : percentage cnt goal < 100 := by
  have positive : 0 < goal := by omega
  have positive' : (0 : ℚ) < goal := by exact_mod_cast positive
  have share : (cnt : ℚ) / goal ≤ 1 - 1 / 2 ^ 53 := by
    rw [div_le_iff₀ positive']
    have missing : (cnt : ℚ) + 1 ≤ goal := by exact_mod_cast less
    have part : (goal : ℚ) ≤ 2 ^ 53 := by exact_mod_cast small
    linarith
  have quotient : Binary64.round ((cnt : ℚ) / goal) ≤ 1 - 1 / 2 ^ 53 := by
    rw [← round_predecessor]
    exact round_mono' (div_nonneg (Nat.cast_nonneg _) positive'.le) share
  have value : Binary64.round (Binary64.round ((cnt : ℚ) / goal) * 100) < 100 := by
    refine lt_of_le_of_lt (round_mono' ?_ ?_) hundred_round_lt
    · exact mul_nonneg (round_nonneg (div_nonneg (Nat.cast_nonneg _) positive'.le)) (by norm_num)
    · exact mul_le_mul_of_nonneg_right quotient (by norm_num)
  rw [percentage, if_neg (by omega), round_natCast (by omega), round_natCast small,
    Int.toNat_lt' (by norm_num), Int.floor_lt]
  exact_mod_cast value

theorem percentage_le (le : cnt ≤ goal) : percentage cnt goal ≤ 100 := by
  rw [← percentage_goal goal]
  exact percentage_mono le

theorem percentage_eq_iff (le : cnt ≤ goal) (small : goal ≤ 2 ^ 53) :
    percentage cnt goal = 100 ↔ cnt = goal := by
  constructor
  · intro whole
    rcases le.lt_or_eq with less | same
    · have := percentage_lt less small
      omega
    · exact same
  · rintro rfl
    exact percentage_goal cnt

/-- The percentage is off by at most one. -/
theorem percentage_near (le : cnt ≤ goal) (some : 0 < goal) (small : goal ≤ 2 ^ 53) :
    percentage cnt goal ≤ 100 * cnt / goal + 1 ∧ 100 * cnt / goal ≤ percentage cnt goal + 1 := by
  have positive : (0 : ℚ) < goal := by exact_mod_cast some
  have nonneg : (0 : ℚ) ≤ cnt / goal := div_nonneg (Nat.cast_nonneg _) positive.le
  have one : (cnt : ℚ) / goal ≤ 1 := by
    rw [div_le_one positive]
    exact_mod_cast le
  have quotient := abs_sub_le_iff.mp (round_near nonneg)
  have scaled : (0 : ℚ) ≤ Binary64.round ((cnt : ℚ) / goal) * 100 :=
    mul_nonneg (round_nonneg nonneg) (by norm_num)
  have product := abs_sub_le_iff.mp (round_near scaled)
  have value : percentage cnt goal =
      ⌊Binary64.round (Binary64.round ((cnt : ℚ) / goal) * 100)⌋.toNat := by
    rw [percentage, if_neg (by omega), round_natCast (by omega), round_natCast small]
  generalize Binary64.round ((cnt : ℚ) / goal) = q at quotient scaled product value
  generalize Binary64.round (q * 100) = p at product value
  have shown : ⌊p⌋ = percentage cnt goal := by
    rw [value, Int.toNat_of_nonneg (Int.floor_nonneg.mpr (by linarith))]
  have whole : ⌊(100 * cnt : Nat) / (goal : ℚ)⌋ = (100 * cnt / goal : Nat) :=
    Rat.floor_natCast_div_natCast _ _
  have share : ((100 * cnt : Nat) : ℚ) / goal = cnt / goal * 100 := by
    push_cast
    ring
  rw [share] at whole
  have close : ⌊p⌋ < ⌊(cnt : ℚ) / goal * 100⌋ + 2 ∧ ⌊(cnt : ℚ) / goal * 100⌋ < ⌊p⌋ + 2 := by
    have belowP := Int.floor_le p
    have aboveP := Int.lt_floor_add_one p
    have below := Int.floor_le ((cnt : ℚ) / goal * 100)
    have above := Int.lt_floor_add_one ((cnt : ℚ) / goal * 100)
    constructor
    · have : (⌊p⌋ : ℚ) < ⌊(cnt : ℚ) / goal * 100⌋ + 2 := by linarith
      exact_mod_cast this
    · have : (⌊(cnt : ℚ) / goal * 100⌋ : ℚ) < ⌊p⌋ + 2 := by linarith
      exact_mod_cast this
  rw [shown, whole] at close
  omega

/-- What a percentage says about the files behind it: it is at most a hundred, a hundred for all of
them only, and off by at most one. -/
structure Tells (percentage cnt goal : Nat) : Prop where
  le : percentage ≤ 100
  hundred : percentage = 100 ↔ cnt = goal
  near : 0 < goal → percentage ≤ 100 * cnt / goal + 1 ∧ 100 * cnt / goal ≤ percentage + 1

theorem percentage_tells (le : cnt ≤ goal) (small : goal ≤ 2 ^ 53) :
    Tells (percentage cnt goal) cnt goal :=
  ⟨percentage_le le, percentage_eq_iff le small, fun some => percentage_near le some small⟩

end Fdistdump.Progress
