import Mathlib.Data.Int.Log
import Mathlib.Data.Rat.Floor
import Mathlib.Tactic.Linarith
import Mathlib.Tactic.Positivity
import Mathlib.Tactic.FieldSimp
import Mathlib.Tactic.Ring

/-!
# Rounding to binary64

`round` gives the nearest number with a significand of 53 bits, ties to even, for nonnegative
rationals within the exponent range. The main result is that the ceiling of a quotient survives the
rounding of both operands and of the quotient, for dividends up to `2 ^ 53`.
-/

namespace Binary64

/-- The nearest integer, the even one of two. -/
def roundEven (q : ℚ) : ℤ :=
  if q - ⌊q⌋ < 1 / 2 then ⌊q⌋
  else if 1 / 2 < q - ⌊q⌋ then ⌊q⌋ + 1
  else if ⌊q⌋ % 2 = 0 then ⌊q⌋ else ⌊q⌋ + 1

/-- The spacing of 53-bit significands at `x`. -/
def ulp (x : ℚ) : ℚ := 2 ^ (Int.log 2 x - 52)

def round (x : ℚ) : ℚ := roundEven (x / ulp x) * ulp x

@[simp] theorem roundEven_intCast (k : ℤ) : roundEven (k : ℚ) = k := by
  simp [roundEven]

theorem roundEven_floor (q : ℚ) : roundEven q = ⌊q⌋ ∨ roundEven q = ⌊q⌋ + 1 := by
  unfold roundEven
  split_ifs <;> simp

theorem roundEven_mono {p q : ℚ} (le : p ≤ q) : roundEven p ≤ roundEven q := by
  have floors := Int.floor_mono le
  rcases floors.lt_or_eq with less | same
  · rcases roundEven_floor p with hp | hp <;> rcases roundEven_floor q with hq | hq <;> omega
  · unfold roundEven
    rw [same]
    split_ifs <;> first | omega | (exfalso; linarith)

theorem roundEven_error (q : ℚ) : q - 1 / 2 ≤ roundEven q := by
  have below := Int.floor_le q
  have above := Int.lt_floor_add_one q
  unfold roundEven
  split_ifs <;> push_cast <;> linarith

theorem ulp_pos (x : ℚ) : 0 < ulp x := zpow_pos (by norm_num) _

theorem round_exact {x : ℚ} {k : ℤ} (significand : x = k * ulp x) : round x = x := by
  have scaled : x / ulp x = k := by
    rw [div_eq_iff (ulp_pos x).ne']
    exact significand
  rw [round, scaled, roundEven_intCast]
  exact significand.symm

theorem scaled_ulp (x : ℚ) : (2 : ℚ) ^ 52 * ulp x = 2 ^ Int.log 2 x := by
  rw [ulp, ← zpow_natCast, ← zpow_add₀ (by norm_num)]
  congr 1
  omega

theorem round_zero : round 0 = 0 := round_exact (k := 0) (by simp)

theorem round_zpow (e : ℤ) : round (2 ^ e) = 2 ^ e := by
  have log : Int.log 2 ((2 : ℚ) ^ e) = e := by
    exact_mod_cast Int.log_zpow (R := ℚ) (b := 2) (by norm_num) e
  refine round_exact (k := 2 ^ 52) ?_
  rw [Int.cast_pow, Int.cast_ofNat, scaled_ulp, log]

theorem round_natCast {n : Nat} (small : n ≤ 2 ^ 53) : round n = n := by
  rcases Nat.eq_zero_or_pos n with rfl | positive
  · simpa using round_zero
  rcases small.lt_or_eq with less | rfl
  · have log : Int.log 2 (n : ℚ) = Nat.log 2 n := Int.log_natCast 2 n
    have short : Nat.log 2 n < 53 := Nat.log_lt_of_lt_pow (by omega) less
    refine round_exact (k := n * 2 ^ (52 - Nat.log 2 n)) ?_
    rw [ulp, log]
    push_cast
    rw [mul_assoc, ← zpow_natCast, ← zpow_add₀ (by norm_num)]
    have cancel : ((52 - Nat.log 2 n : Nat) : ℤ) + ((Nat.log 2 n : ℤ) - 52) = 0 := by omega
    rw [cancel, zpow_zero, mul_one]
  · have := round_zpow 53
    exact_mod_cast this

/-- The rounding of an integer with `e + 53` digits. -/
theorem round_of_digits {n e : Nat} (low : 2 ^ (e + 52) ≤ n) (high : n < 2 ^ (e + 53)) :
    round n = roundEven (n / 2 ^ e) * 2 ^ e := by
  have log : Int.log 2 (n : ℚ) = (e + 52 : Nat) := by
    rw [Int.log_natCast, Nat.log_eq_of_pow_le_of_lt_pow low high]
  have spacing : ulp n = 2 ^ e := by
    rw [ulp, log, Nat.cast_add, Nat.cast_ofNat, add_sub_cancel_right, zpow_natCast]
  rw [round, spacing]

theorem le_round {x : ℚ} (positive : 0 < x) : (2 : ℚ) ^ Int.log 2 x ≤ round x := by
  have below : (2 : ℚ) ^ Int.log 2 x ≤ x := by
    exact_mod_cast Int.zpow_log_le_self (b := 2) (by norm_num) positive
  have scaled : ((2 ^ 52 : ℤ) : ℚ) ≤ x / ulp x := by
    rw [le_div_iff₀ (ulp_pos x), Int.cast_pow, Int.cast_ofNat, scaled_ulp]
    exact below
  have rounded := roundEven_mono scaled
  rw [roundEven_intCast] at rounded
  rw [← scaled_ulp]
  exact mul_le_mul_of_nonneg_right (by exact_mod_cast rounded) (ulp_pos x).le

theorem round_le {x : ℚ} : round x ≤ 2 ^ (Int.log 2 x + 1) := by
  have above : x < (2 : ℚ) ^ (Int.log 2 x + 1) := by
    exact_mod_cast Int.lt_zpow_succ_log_self (b := 2) (by norm_num) x
  have top : (2 : ℚ) ^ (Int.log 2 x + 1) = (2 ^ 53 : ℤ) * ulp x := by
    rw [zpow_add_one₀ (by norm_num), ← scaled_ulp, Int.cast_pow, Int.cast_ofNat]
    ring
  have scaled : x / ulp x ≤ ((2 ^ 53 : ℤ) : ℚ) := by
    rw [div_le_iff₀ (ulp_pos x), ← top]
    exact above.le
  have rounded := roundEven_mono scaled
  rw [roundEven_intCast] at rounded
  rw [top]
  exact mul_le_mul_of_nonneg_right (by exact_mod_cast rounded) (ulp_pos x).le

theorem round_mono {x y : ℚ} (positive : 0 < x) (le : x ≤ y) : round x ≤ round y := by
  rcases (Int.log_mono_right (b := 2) positive le).lt_or_eq with less | same
  · calc round x ≤ 2 ^ (Int.log 2 x + 1) := round_le
      _ ≤ 2 ^ Int.log 2 y := zpow_le_zpow_right₀ (by norm_num) (by omega)
      _ ≤ round y := le_round (lt_of_lt_of_le positive le)
  · have spacing : ulp x = ulp y := by rw [ulp, ulp, same]
    rw [round, round, spacing]
    refine mul_le_mul_of_nonneg_right ?_ (ulp_pos y).le
    exact_mod_cast roundEven_mono (div_le_div_of_nonneg_right le (ulp_pos y).le)

theorem round_pos {x : ℚ} (positive : 0 < x) : 0 < round x :=
  lt_of_lt_of_le (zpow_pos (by norm_num) _) (le_round positive)

theorem round_error (x : ℚ) : x - ulp x / 2 ≤ round x := by
  have error := mul_le_mul_of_nonneg_right (roundEven_error (x / ulp x)) (ulp_pos x).le
  rw [sub_mul, div_mul_cancel₀ _ (ulp_pos x).ne'] at error
  rw [round]
  linarith

/-! ### Rounding past a number -/

/-- `x` is not nearer to the numbers above `k` than to those up to `k`; halfway, the even one is
nearer. -/
def Within (x k : ℚ) : Prop :=
  x < (⌊k / ulp k⌋ + 1 / 2) * ulp k ∨ x = (⌊k / ulp k⌋ + 1 / 2) * ulp k ∧ ⌊k / ulp k⌋ % 2 = 0

theorem roundEven_le_iff (q : ℚ) (k : ℤ) :
    roundEven q ≤ k ↔ q < k + 1 / 2 ∨ q = k + 1 / 2 ∧ k % 2 = 0 := by
  have below := Int.floor_le q
  have above := Int.lt_floor_add_one q
  rcases lt_trichotomy ⌊q⌋ k with less | rfl | more
  · have whole : (⌊q⌋ : ℚ) + 1 ≤ k := by exact_mod_cast less
    refine iff_of_true ?_ (.inl (by linarith))
    rcases roundEven_floor q with h | h <;> omega
  · unfold roundEven
    split_ifs with low high even
    · exact iff_of_true (le_refl _) (.inl (by linarith))
    · refine iff_of_false (by omega) ?_
      rintro (less | ⟨halfway, -⟩) <;> linarith
    · exact iff_of_true (le_refl _) (.inr ⟨by linarith, even⟩)
    · refine iff_of_false (by omega) ?_
      rintro (less | ⟨-, even'⟩)
      · linarith
      · exact even even'
  · have whole : (k : ℚ) + 1 ≤ ⌊q⌋ := by exact_mod_cast more
    refine iff_of_false ?_ ?_
    · rcases roundEven_floor q with h | h <;> omega
    · rintro (less | ⟨halfway, -⟩) <;> linarith

theorem floor_significand {k : ℚ} (positive : 0 < k) :
    (2 : ℚ) ^ 52 ≤ ⌊k / ulp k⌋ ∧ (⌊k / ulp k⌋ : ℚ) + 1 ≤ 2 ^ 53 := by
  have low : (2 : ℚ) ^ Int.log 2 k ≤ k := by
    exact_mod_cast Int.zpow_log_le_self (b := 2) (by norm_num) positive
  have high : k < (2 : ℚ) ^ (Int.log 2 k + 1) := by
    exact_mod_cast Int.lt_zpow_succ_log_self (b := 2) (by norm_num) k
  rw [zpow_add_one₀ (by norm_num)] at high
  rw [← scaled_ulp] at low high
  have first : (2 ^ 52 : ℤ) ≤ ⌊k / ulp k⌋ := by
    rw [Int.le_floor, le_div_iff₀ (ulp_pos k)]
    exact_mod_cast low
  have last : ⌊k / ulp k⌋ < 2 ^ 53 := by
    rw [Int.floor_lt, div_lt_iff₀ (ulp_pos k)]
    push_cast
    linarith
  exact ⟨by exact_mod_cast first, by exact_mod_cast last⟩

/-- Rounding leads past `k` exactly when the next number is nearer. -/
theorem round_le_iff {x k : ℚ} (positive : 0 < x) (positive' : 0 < k) : round x ≤ k ↔ Within x k := by
  obtain ⟨first, last⟩ := floor_significand positive'
  have step := ulp_pos k
  have low : (2 : ℚ) ^ Int.log 2 k ≤ k := by
    exact_mod_cast Int.zpow_log_le_self (b := 2) (by norm_num) positive'
  have high : k < (2 : ℚ) ^ (Int.log 2 k + 1) := by
    exact_mod_cast Int.lt_zpow_succ_log_self (b := 2) (by norm_num) k
  have scaled := scaled_ulp k
  rcases lt_trichotomy (Int.log 2 x) (Int.log 2 k) with less | same | more
  · have short : x < (2 : ℚ) ^ Int.log 2 k := by
      have above : x < (2 : ℚ) ^ (Int.log 2 x + 1) := by
        exact_mod_cast Int.lt_zpow_succ_log_self (b := 2) (by norm_num) x
      exact above.trans_le (zpow_le_zpow_right₀ (by norm_num) (by omega))
    refine iff_of_true ?_ (.inl ?_)
    · calc round x ≤ 2 ^ (Int.log 2 x + 1) := round_le
        _ ≤ 2 ^ Int.log 2 k := zpow_le_zpow_right₀ (by norm_num) (by omega)
        _ ≤ k := low
    · calc x < 2 ^ 52 * ulp k := by rw [scaled]; exact short
        _ ≤ (⌊k / ulp k⌋ + 1 / 2) * ulp k := mul_le_mul_of_nonneg_right (by linarith) step.le
  · have spacing : ulp x = ulp k := by rw [ulp, ulp, same]
    have integral : round x ≤ k ↔ roundEven (x / ulp k) ≤ ⌊k / ulp k⌋ := by
      rw [round, spacing, Int.le_floor, le_div_iff₀ step]
    rw [integral, roundEven_le_iff, div_lt_iff₀ step, div_eq_iff step.ne', Within]
  · have long : (2 : ℚ) ^ (Int.log 2 k + 1) ≤ 2 ^ Int.log 2 x :=
      zpow_le_zpow_right₀ (by norm_num) (by omega)
    have beyond : (⌊k / ulp k⌋ + 1 / 2) * ulp k < x := by
      calc (⌊k / ulp k⌋ + 1 / 2) * ulp k < 2 ^ 53 * ulp k := mul_lt_mul_of_pos_right (by linarith) step
        _ = 2 ^ (Int.log 2 k + 1) := by rw [zpow_add_one₀ (by norm_num), ← scaled]; ring
        _ ≤ 2 ^ Int.log 2 x := long
        _ ≤ x := by exact_mod_cast Int.zpow_log_le_self (b := 2) (by norm_num) positive
    refine iff_of_false ?_ ?_
    · have rounded := le_round positive
      linarith
    · rintro (less | ⟨halfway, -⟩) <;> linarith

/-- The distance of a quotient from the integer below it is at least one part in the divisor; rounding
loses less than that unless the quotient is a power of two. -/
theorem lt_round_div {b m : Nat} {k : Int} (small : b ≤ 2 ^ 53) (divisor : 0 < m)
    (above : (k : ℚ) < b / m) (nonneg : 0 < k) : (k : ℚ) < round (b / m) := by
  have divisor' : (0 : ℚ) < m := by exact_mod_cast divisor
  have positive : (0 : ℚ) < b / m := lt_trans (by exact_mod_cast nonneg) above
  have low : (2 : ℚ) ^ Int.log 2 ((b : ℚ) / m) ≤ b / m := by
    exact_mod_cast Int.zpow_log_le_self (b := 2) (by norm_num) positive
  rcases low.eq_or_lt with power | low
  · rw [← power, round_zpow, power]
    exact above
  -- the numerators differ by at least one
  have gap : (k : ℚ) + 1 / m ≤ b / m := by
    have whole : k * m + 1 ≤ (b : ℤ) := by
      rw [lt_div_iff₀ divisor'] at above
      exact_mod_cast above
    rw [← sub_nonneg]
    have : (b : ℚ) / m - (k + 1 / m) = (b - (k * m + 1)) / m := by field_simp
    rw [this]
    exact div_nonneg (sub_nonneg.mpr (by exact_mod_cast whole)) divisor'.le
  have spacing : ulp ((b : ℚ) / m) / 2 < 1 / m := by
    rw [lt_div_iff₀ divisor']
    have product : ulp ((b : ℚ) / m) * m < 2 := by
      have scaled : (2 : ℚ) ^ 52 * (ulp ((b : ℚ) / m) * m) < 2 ^ 53 := by
        rw [← mul_assoc, scaled_ulp]
        calc (2 : ℚ) ^ Int.log 2 ((b : ℚ) / m) * m < b / m * m :=
              mul_lt_mul_of_pos_right low divisor'
          _ = b := div_mul_cancel₀ _ divisor'.ne'
          _ ≤ 2 ^ 53 := by exact_mod_cast small
      linarith
    linarith
  have error := round_error ((b : ℚ) / m)
  linarith

/-- Dividing in binary64 and taking the ceiling is exact division rounded up. -/
theorem ceil_round_div {b m : Nat} (small : b ≤ 2 ^ 53) (divisor : 0 < m) :
    ⌈round (round b / round m)⌉ = ⌈(b : ℚ) / m⌉ := by
  have divisor' : (0 : ℚ) < m := by exact_mod_cast divisor
  rw [round_natCast small]
  rcases Nat.eq_zero_or_pos b with rfl | positive
  · simp [round_zero]
  have positive' : (0 : ℚ) < b := by exact_mod_cast positive
  by_cases exact : m ≤ 2 ^ 53
  · rw [round_natCast exact]
    have ratio : (0 : ℚ) < b / m := div_pos positive' divisor'
    set c := ⌈(b : ℚ) / m⌉ with ceiling
    have upper : (b : ℚ) / m ≤ c := Int.le_ceil _
    have lower : (c : ℚ) - 1 < b / m := by
      have := Int.ceil_lt_add_one ((b : ℚ) / m)
      linarith
    have short : c ≤ 2 ^ 53 := by
      apply Int.ceil_le.mpr
      rw [div_le_iff₀ divisor']
      have one : (1 : ℚ) ≤ m := by exact_mod_cast divisor
      have small' : (b : ℚ) ≤ 2 ^ 53 := by exact_mod_cast small
      push_cast
      nlinarith
    have natural : ((c.toNat : ℤ) : ℚ) = c := by
      rw [Int.toNat_of_nonneg (Int.ceil_nonneg ratio.le)]
    rw [Int.ceil_eq_iff]
    constructor
    · by_cases first : c - 1 ≤ 0
      · calc (c : ℚ) - 1 ≤ 0 := by exact_mod_cast first
          _ < round (b / m) := round_pos ratio
      · have := lt_round_div (k := c - 1) small divisor (by push_cast; exact lower) (by omega)
        push_cast at this
        exact this
    · have rounded := round_mono ratio upper
      rw [← natural, Int.cast_natCast, round_natCast (by omega)] at rounded
      rw [← natural, Int.cast_natCast]
      exact rounded
  · -- a larger divisor rounds to at least 2 ^ 53, so both quotients are within (0, 1]
    have large : (2 : ℚ) ^ 53 ≤ round m := by
      have le := round_mono (x := (2 ^ 53 : Nat)) (y := m) (by norm_num) (by exact_mod_cast (by omega))
      rw [round_natCast (Nat.le_refl _)] at le
      exact_mod_cast le
    have top : (b : ℚ) ≤ 2 ^ 53 := by exact_mod_cast small
    have denominator : (0 : ℚ) < round m := lt_of_lt_of_le (by norm_num) large
    have ratio : (0 : ℚ) < b / round m := div_pos positive' denominator
    have one : round 1 = 1 := by simpa using round_natCast (n := 1) (by norm_num)
    have rounded : round ((b : ℚ) / round m) ≤ 1 := by
      have le := round_mono ratio ((div_le_one denominator).mpr (top.trans large))
      rwa [one] at le
    have left : ⌈round ((b : ℚ) / round m)⌉ = 1 := by
      rw [Int.ceil_eq_iff]
      exact ⟨by simpa using round_pos ratio, by simpa using rounded⟩
    have right : ⌈(b : ℚ) / m⌉ = 1 := by
      rw [Int.ceil_eq_iff]
      refine ⟨by simpa using div_pos positive' divisor', ?_⟩
      rw [Int.cast_one, div_le_one divisor']
      exact_mod_cast (by omega : b ≤ m)
    rw [left, right]

end Binary64
