import Fdistdump.Time.BrokenDown
import Mathlib.Data.List.Basic

/-!
# Flow file names

`strftime` with `FLOW_FILE_FORMAT`. Different calendar times have different names.
-/

namespace Fdistdump.Time

/-- `%m`, `%d`, `%H`, `%M` and `%S` of members in range. -/
def twoDigits (n : Int) : List Char := [Nat.digitChar (n.toNat / 10), Nat.digitChar (n.toNat % 10)]

/-- `%Y`. -/
def yearDigits (tm : Tm) : List Char := (toString (tm.year + tmYearBase)).toList

/-- `FLOW_FILE_FORMAT`. -/
def flowFileName (tm : Tm) : List Char :=
  yearDigits tm ++ '/' :: (twoDigits (tm.mon + 1) ++ '/' :: (twoDigits tm.mday ++ "/lnf.".toList)) ++
    (yearDigits tm ++ (twoDigits (tm.mon + 1) ++ twoDigits tm.mday ++ twoDigits tm.hour ++
      twoDigits tm.min ++ twoDigits tm.sec))

/-- `strftime`, into a buffer of `size` bytes that must also hold the terminating null byte. -/
def strftime (size : Nat) (tm : Tm) : Option (List Char) :=
  if (flowFileName tm).length < size then some (flowFileName tm) else none

theorem twoDigits_value {n : Int} (nonneg : 0 ≤ n) (small : n < 100) :
    Nat.ofDigitChars 10 (twoDigits n) 0 = n.toNat := by
  rw [twoDigits, Nat.ofDigitChars_cons_digitChar_of_lt_ten (by omega),
    Nat.ofDigitChars_cons_digitChar_of_lt_ten (by omega), Nat.ofDigitChars_nil]
  omega

theorem twoDigits_injective {m n : Int} (m0 : 0 ≤ m) (m100 : m < 100) (n0 : 0 ≤ n) (n100 : n < 100)
    (same : twoDigits m = twoDigits n) : m = n := by
  have value := twoDigits_value m0 m100
  rw [same, twoDigits_value n0 n100] at value
  omega

theorem natRepr_injective {m n : Nat} (same : m.repr = n.repr) : m = n := by
  have digits : Nat.toDigits 10 m = Nat.toDigits 10 n := by
    rw [← Nat.toList_repr, same, Nat.toList_repr]
  rw [← Nat.ofDigitChars_toDigits (b := 10) (n := m) (by decide) (by decide), digits,
    Nat.ofDigitChars_toDigits (by decide) (by decide)]

theorem natRepr_ne_minus (m : Nat) (rest : String) : m.repr ≠ "-" ++ rest := by
  intro same
  have member : '-' ∈ Nat.toDigits 10 m := by
    rw [← Nat.toList_repr, same]
    simp
  have := Nat.isDigit_of_mem_toDigits (by decide) (by decide) member
  exact absurd this (by decide)

theorem intToString_injective {m n : Int} (same : toString m = toString n) : m = n := by
  rw [Int.toString_eq_repr, Int.toString_eq_repr] at same
  match m, n with
  | .ofNat m, .ofNat n => exact congrArg Int.ofNat (natRepr_injective same)
  | .ofNat m, .negSucc n => exact absurd same (natRepr_ne_minus m _)
  | .negSucc m, .ofNat n => exact absurd same.symm (natRepr_ne_minus n _)
  | .negSucc m, .negSucc n =>
    have digits : (m + 1).repr = (n + 1).repr := by simpa [Int.repr] using same
    rw [Nat.succ.inj (natRepr_injective digits)]

theorem monthLength_le (leap : Bool) (month : Nat) : Gregorian.monthLength leap month ≤ 31 := by
  unfold Gregorian.monthLength
  split
  · split <;> decide
  · split <;> decide

theorem Tm.Normalised.ext {a b : Tm} (normal_a : a.Normalised) (normal_b : b.Normalised)
    (year : a.year = b.year) (mon : a.mon = b.mon) (mday : a.mday = b.mday) (hour : a.hour = b.hour)
    (min : a.min = b.min) (sec : a.sec = b.sec) : a = b := by
  rw [← gmtime_calendarTime normal_a, ← gmtime_calendarTime normal_b]
  simp only [calendarTime, year, mon, mday, hour, min, sec]

theorem Tm.Normalised.two_digits {tm : Tm} (normal : tm.Normalised) :
    (0 ≤ tm.mon + 1 ∧ tm.mon + 1 < 100) ∧ 0 ≤ tm.mday ∧ tm.mday < 100 := by
  obtain ⟨-, -, -, date, -, mon, mday, -⟩ := normal
  have small := date.month_lt
  have long := Nat.le_trans date.day_le (monthLength_le _ _)
  omega

theorem flowFileName_injective {a b : Tm} (normal_a : a.Normalised) (normal_b : b.Normalised)
    (same : flowFileName a = flowFileName b) : a = b := by
  have long : (yearDigits a).length = (yearDigits b).length := by
    have lengths := congrArg List.length same
    simp only [flowFileName, List.length_append, List.length_cons, twoDigits] at lengths
    omega
  obtain ⟨directory, file⟩ := List.append_inj same (by simp [twoDigits, long])
  have year := (List.append_inj directory long).1
  have stamp := (List.append_inj file long).2
  obtain ⟨stamp, sec⟩ := List.append_inj stamp rfl
  obtain ⟨stamp, min⟩ := List.append_inj stamp rfl
  obtain ⟨stamp, hour⟩ := List.append_inj stamp rfl
  obtain ⟨mon, mday⟩ := List.append_inj stamp rfl
  obtain ⟨⟨monA0, monA⟩, mdayA0, mdayA⟩ := normal_a.two_digits
  obtain ⟨⟨monB0, monB⟩, mdayB0, mdayB⟩ := normal_b.two_digits
  have sameYear := intToString_injective (String.toList_inj.mp year)
  have sameMon := twoDigits_injective monA0 monA monB0 monB mon
  have sameMday := twoDigits_injective mdayA0 mdayA mdayB0 mdayB mday
  have sameHour := twoDigits_injective normal_a.hour.1 (by have := normal_a.hour.2; omega)
    normal_b.hour.1 (by have := normal_b.hour.2; omega) hour
  have sameMin := twoDigits_injective normal_a.min.1 (by have := normal_a.min.2; omega)
    normal_b.min.1 (by have := normal_b.min.2; omega) min
  have sameSec := twoDigits_injective normal_a.sec.1 (by have := normal_a.sec.2; omega)
    normal_b.sec.1 (by have := normal_b.sec.2; omega) sec
  exact normal_a.ext normal_b (by omega) (by omega) sameMday sameHour sameMin sameSec

end Fdistdump.Time
