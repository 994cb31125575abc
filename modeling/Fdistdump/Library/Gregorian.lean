import Mathlib.Data.Nat.Find
import Mathlib.Logic.Equiv.Defs
import Mathlib.Order.Monotone.Basic

/-!
# The proleptic Gregorian calendar

Day 0 is 1 January of year 1; years and days run over all integers. `dateEquiv` is the
correspondence between dates and day numbers: `yearOf` guesses the year from the mean length of a
year and corrects the guess by at most one, `monthOf` looks the month up among the days before each.
-/

namespace Gregorian

/-! ### Years -/

def isLeap (year : Int) : Bool := year % 4 = 0 ∧ (year % 100 ≠ 0 ∨ year % 400 = 0)

def yearLength (leap : Bool) : Nat := if leap then 366 else 365

/-- Leap days from year 1 up to, and without, `year`. -/
def leapDays (year : Int) : Int := (year - 1) / 4 - (year - 1) / 100 + (year - 1) / 400

/-- The day number of 1 January. -/
def daysBeforeYear (year : Int) : Int := 365 * (year - 1) + leapDays year

theorem daysBeforeYear_succ (year : Int) :
    daysBeforeYear (year + 1) = daysBeforeYear year + yearLength (isLeap year) := by
  unfold daysBeforeYear leapDays yearLength isLeap
  simp only [decide_eq_true_eq]
  split <;> omega

theorem daysBeforeYear_mono {a b : Int} (le : a ≤ b) : daysBeforeYear a ≤ daysBeforeYear b := by
  unfold daysBeforeYear leapDays
  omega

def yearOf (day : Int) : Int :=
  let year := 400 * day / 146097 + 1
  if day < daysBeforeYear year then year - 1
  else if day < daysBeforeYear (year + 1) then year
  else year + 1

theorem yearOf_spec (day : Int) :
    daysBeforeYear (yearOf day) ≤ day ∧ day < daysBeforeYear (yearOf day + 1) := by
  unfold yearOf daysBeforeYear leapDays
  dsimp only
  split
  · omega
  · split <;> omega

theorem yearOf_unique {day year : Int} (from_first : daysBeforeYear year ≤ day)
    (to_last : day < daysBeforeYear (year + 1)) : yearOf day = year := by
  obtain ⟨first, last⟩ := yearOf_spec day
  apply Int.le_antisymm
  · by_contra later
    have := daysBeforeYear_mono (a := year + 1) (b := yearOf day) (by omega)
    omega
  · by_contra earlier
    have := daysBeforeYear_mono (a := yearOf day + 1) (b := year) (by omega)
    omega

/-! ### Months, counted from 0 -/

def monthLength (leap : Bool) (month : Nat) : Nat :=
  if month = 1 then (if leap then 29 else 28)
  else if month = 3 ∨ month = 5 ∨ month = 8 ∨ month = 10 then 30
  else 31

theorem monthLength_pos (leap : Bool) (month : Nat) : 1 ≤ monthLength leap month := by
  unfold monthLength
  split
  · split <;> decide
  · split <;> decide

def daysBeforeMonth (leap : Bool) : Nat → Nat
  | 0 => 0
  | month + 1 => daysBeforeMonth leap month + monthLength leap month

theorem daysBeforeMonth_succ (leap : Bool) (month : Nat) :
    daysBeforeMonth leap (month + 1) = daysBeforeMonth leap month + monthLength leap month := rfl

theorem daysBeforeMonth_twelve (leap : Bool) : daysBeforeMonth leap 12 = yearLength leap := by
  cases leap <;> rfl

theorem daysBeforeMonth_mono (leap : Bool) : Monotone (daysBeforeMonth leap) :=
  monotone_nat_of_le_succ fun _ => Nat.le_add_right _ _

/-- The month of a day of the year, both counted from 0. -/
def monthOf (leap : Bool) (yday : Nat) : Nat :=
  Nat.findGreatest (fun month => daysBeforeMonth leap month ≤ yday) 11

theorem monthOf_spec {leap : Bool} {yday : Nat} (bound : yday < yearLength leap) :
    monthOf leap yday < 12 ∧ daysBeforeMonth leap (monthOf leap yday) ≤ yday ∧
      yday < daysBeforeMonth leap (monthOf leap yday + 1) := by
  have small : monthOf leap yday ≤ 11 := Nat.findGreatest_le 11
  refine ⟨by omega, ?_, ?_⟩
  · exact Nat.findGreatest_spec (P := fun month => daysBeforeMonth leap month ≤ yday)
      (Nat.zero_le 11) (Nat.zero_le yday)
  · by_cases last : monthOf leap yday = 11
    · rw [last, daysBeforeMonth_twelve]
      exact bound
    · have beyond := Nat.findGreatest_is_greatest (P := fun month => daysBeforeMonth leap month ≤ yday)
        (n := 11) (Nat.lt_succ_self _) (show monthOf leap yday + 1 ≤ 11 by omega)
      exact Nat.lt_of_not_le beyond

theorem monthOf_unique {leap : Bool} {yday month : Nat} (valid : month < 12)
    (from_first : daysBeforeMonth leap month ≤ yday)
    (to_last : yday < daysBeforeMonth leap (month + 1)) :
    monthOf leap yday = month := by
  apply Nat.le_antisymm
  · by_contra later
    have found : daysBeforeMonth leap (monthOf leap yday) ≤ yday :=
      Nat.findGreatest_spec (P := fun m => daysBeforeMonth leap m ≤ yday) (Nat.zero_le 11)
        (Nat.zero_le yday)
    have := daysBeforeMonth_mono leap (show month + 1 ≤ monthOf leap yday by omega)
    omega
  · exact Nat.le_findGreatest (by omega) from_first

/-! ### Dates -/

structure Date where
  year : Int
  /-- From 0. -/
  month : Nat
  /-- From 1. -/
  day : Nat
  month_lt : month < 12
  day_pos : 0 < day
  day_le : day ≤ monthLength (isLeap year) month
deriving DecidableEq

namespace Date

/-- The day of the year, from 0. -/
def yday (date : Date) : Nat := daysBeforeMonth (isLeap date.year) date.month + (date.day - 1)

def dayNumber (date : Date) : Int := daysBeforeYear date.year + date.yday

theorem yday_lt (date : Date) :
    date.yday < daysBeforeMonth (isLeap date.year) (date.month + 1) := by
  have pos := date.day_pos
  have le := date.day_le
  rw [yday, daysBeforeMonth_succ]
  omega

theorem yday_lt_yearLength (date : Date) : date.yday < yearLength (isLeap date.year) := by
  have bound := date.yday_lt
  have within := daysBeforeMonth_mono (isLeap date.year) (show date.month + 1 ≤ 12 from date.month_lt)
  rw [daysBeforeMonth_twelve] at within
  omega

theorem yearOf_dayNumber (date : Date) : yearOf date.dayNumber = date.year := by
  have bound := date.yday_lt_yearLength
  have next := daysBeforeYear_succ date.year
  apply yearOf_unique <;> unfold dayNumber <;> omega

theorem monthOf_yday (date : Date) : monthOf (isLeap date.year) date.yday = date.month :=
  monthOf_unique date.month_lt (Nat.le_add_right _ _) date.yday_lt

/-- The day after, by the lengths of the months. -/
def next (date : Date) : Date :=
  if more : date.day < monthLength (isLeap date.year) date.month then
    ⟨date.year, date.month, date.day + 1, date.month_lt, Nat.succ_pos _, more⟩
  else if inYear : date.month < 11 then
    ⟨date.year, date.month + 1, 1, Nat.succ_lt_succ inYear, Nat.one_pos, monthLength_pos _ _⟩
  else ⟨date.year + 1, 0, 1, by decide, Nat.one_pos, monthLength_pos _ _⟩

theorem dayNumber_next (date : Date) : date.next.dayNumber = date.dayNumber + 1 := by
  have valid := date.month_lt
  have pos := date.day_pos
  have le := date.day_le
  unfold next
  split
  · simp only [dayNumber, yday]
    omega
  rename_i last
  have through : daysBeforeMonth (isLeap date.year) (date.month + 1) = date.yday + 1 := by
    rw [daysBeforeMonth_succ, yday]
    omega
  split
  · simp only [dayNumber, yday, through]
    omega
  · have december : date.month + 1 = 12 := by omega
    rw [december, daysBeforeMonth_twelve] at through
    simp only [dayNumber, daysBeforeYear_succ, through]
    simp only [yday, daysBeforeMonth]
    omega

end Date

/-- The day of the year of a day number. -/
def ydayOf (day : Int) : Nat := (day - daysBeforeYear (yearOf day)).toNat

theorem ydayOf_eq (day : Int) : (ydayOf day : Int) = day - daysBeforeYear (yearOf day) := by
  have first := (yearOf_spec day).1
  unfold ydayOf
  omega

theorem ydayOf_lt (day : Int) : ydayOf day < yearLength (isLeap (yearOf day)) := by
  have last := (yearOf_spec day).2
  have next := daysBeforeYear_succ (yearOf day)
  have place := ydayOf_eq day
  omega

def dateOf (day : Int) : Date where
  year := yearOf day
  month := monthOf (isLeap (yearOf day)) (ydayOf day)
  day := ydayOf day - daysBeforeMonth (isLeap (yearOf day))
    (monthOf (isLeap (yearOf day)) (ydayOf day)) + 1
  month_lt := (monthOf_spec (ydayOf_lt day)).1
  day_pos := Nat.succ_pos _
  day_le := by
    obtain ⟨-, first, last⟩ := monthOf_spec (ydayOf_lt day)
    rw [daysBeforeMonth_succ] at last
    omega

theorem yday_dateOf (day : Int) : (dateOf day).yday = ydayOf day := by
  have first := (monthOf_spec (ydayOf_lt day)).2.1
  simp only [Date.yday, dateOf]
  omega

theorem dayNumber_dateOf (day : Int) : (dateOf day).dayNumber = day := by
  rw [Date.dayNumber, yday_dateOf, ydayOf_eq]
  change daysBeforeYear (yearOf day) + (day - daysBeforeYear (yearOf day)) = day
  omega

theorem dateOf_dayNumber (date : Date) : dateOf date.dayNumber = date := by
  have year := date.yearOf_dayNumber
  have yday : ydayOf date.dayNumber = date.yday := by
    have place := ydayOf_eq date.dayNumber
    rw [year] at place
    unfold Date.dayNumber at place ⊢
    omega
  have month := date.monthOf_yday
  have pos := date.day_pos
  obtain ⟨y, m, d, _, _, _⟩ := date
  simp only [dateOf, Date.mk.injEq]
  rw [year, yday]
  refine ⟨rfl, month, ?_⟩
  rw [month]
  simp only [Date.yday]
  omega

/-- Dates and day numbers correspond one to one. -/
def dateEquiv : Date ≃ Int where
  toFun := Date.dayNumber
  invFun := dateOf
  left_inv := dateOf_dayNumber
  right_inv := dayNumber_dateOf

theorem dayNumber_injective : Function.Injective Date.dayNumber := dateEquiv.injective

end Gregorian
