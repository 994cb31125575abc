import Fdistdump.Library.Binary64

/-!
# The error of a rounding

Rounding is off by at most one part in `2 ^ 53`, so a quotient that is rounded twice still tells the
whole from the rest.
-/

namespace Binary64

theorem log_eq {x : ℚ} {e : ℤ} (low : 2 ^ e ≤ x) (high : x < 2 ^ (e + 1)) : Int.log 2 x = e := by
  have positive : 0 < x := (zpow_pos (by norm_num) e).trans_le low
  apply le_antisymm
  · have below : (2 : ℚ) ^ Int.log 2 x ≤ x := by
      exact_mod_cast Int.zpow_log_le_self (b := 2) (by norm_num) positive
    have exponents := (zpow_lt_zpow_iff_right₀ (by norm_num : (1 : ℚ) < 2)).mp (below.trans_lt high)
    omega
  · exact (Int.zpow_le_iff_le_log (by norm_num) positive).mp (by exact_mod_cast low)

theorem round_nonneg {x : ℚ} (nonneg : 0 ≤ x) : 0 ≤ round x := by
  rcases nonneg.eq_or_lt with rfl | positive
  · rw [round_zero]
  · exact (round_pos positive).le

theorem round_mono' {x y : ℚ} (nonneg : 0 ≤ x) (le : x ≤ y) : round x ≤ round y := by
  rcases nonneg.eq_or_lt with rfl | positive
  · rw [round_zero]
    exact round_nonneg le
  · exact round_mono positive le

theorem roundEven_error_le (q : ℚ) : roundEven q ≤ q + 1 / 2 := by
  have below := Int.floor_le q
  have above := Int.lt_floor_add_one q
  unfold roundEven
  split_ifs <;> push_cast <;> linarith

theorem ulp_le {x : ℚ} (positive : 0 < x) : ulp x ≤ x / 2 ^ 52 := by
  rw [le_div_iff₀ (by norm_num), mul_comm, scaled_ulp]
  exact_mod_cast Int.zpow_log_le_self (b := 2) (by norm_num) positive

theorem round_near {x : ℚ} (nonneg : 0 ≤ x) : |round x - x| ≤ x / 2 ^ 53 := by
  rcases nonneg.eq_or_lt with rfl | positive
  · simp [round_zero]
  have step := ulp_pos x
  have high := mul_le_mul_of_nonneg_right (roundEven_error_le (x / ulp x)) step.le
  rw [add_mul, div_mul_cancel₀ _ step.ne'] at high
  have low := round_error x
  have small := ulp_le positive
  rw [abs_sub_le_iff]
  constructor
  · rw [round]
    linarith
  · linarith

/-- The largest number below one. -/
theorem round_predecessor : round (1 - 1 / 2 ^ 53) = 1 - 1 / 2 ^ 53 := by
  have log : Int.log 2 (1 - 1 / 2 ^ 53 : ℚ) = -1 := log_eq (by norm_num) (by norm_num)
  apply round_exact (k := 2 ^ 53 - 1)
  rw [ulp, log]
  norm_num

/-- Neither the quotient nor a hundred times the quotient is rounded up to the whole. -/
theorem hundred_round_lt : round ((1 - 1 / 2 ^ 53) * 100) < 100 := by
  have log : Int.log 2 ((1 - 1 / 2 ^ 53) * 100 : ℚ) = 6 := log_eq (by norm_num) (by norm_num)
  have spacing : ulp ((1 - 1 / 2 ^ 53) * 100) = 1 / 2 ^ 46 := by
    rw [ulp, log]
    norm_num
  have significand : roundEven ((1 - 1 / 2 ^ 53) * 100 / (1 / 2 ^ 46)) ≤ 100 * 2 ^ 46 - 1 := by
    rw [roundEven_le_iff]
    left
    norm_num
  have cast : ((roundEven ((1 - 1 / 2 ^ 53) * 100 / (1 / 2 ^ 46)) : ℤ) : ℚ) ≤ 100 * 2 ^ 46 - 1 := by
    exact_mod_cast significand
  rw [round, spacing]
  calc (roundEven ((1 - 1 / 2 ^ 53) * 100 / (1 / 2 ^ 46)) : ℚ) * (1 / 2 ^ 46)
      ≤ (100 * 2 ^ 46 - 1) * (1 / 2 ^ 46) := mul_le_mul_of_nonneg_right cast (by norm_num)
    _ < 100 := by norm_num

end Binary64
