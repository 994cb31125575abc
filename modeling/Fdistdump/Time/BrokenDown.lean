import Fdistdump.Library.Gregorian
import Mathlib.Algebra.Group.Int.Defs
import Mathlib.Algebra.Group.Nat.Defs

/-!
# Broken-down time

`struct tm`, the UTC conversions of the C library and the time functions of `common.c`. The
normalised broken-down times are the values of `gmtime`; on them `tmDiff` is the difference of the
calendar times, as a 32-bit `int`.
-/

namespace Fdistdump.Time

open Gregorian

structure Tm where
  sec : Int
  min : Int
  hour : Int
  mday : Int
  mon : Int
  /-- Since 1900. -/
  year : Int
  yday : Int
deriving DecidableEq, Repr

def tmYearBase : Int := 1900

/-- The day number of 1 January 1970. -/
def epochDay : Int := daysBeforeYear 1970

/-! ### The C library in UTC -/

/-- `gmtime_r`, with the seconds since the Epoch. -/
def gmtime (time : Int) : Tm :=
  let date := dateOf (time / 86400 + epochDay)
  { sec := time % 60
    min := time / 60 % 60
    hour := time / 3600 % 24
    mday := date.day
    mon := date.month
    year := date.year - tmYearBase
    yday := date.yday }

/-- The calendar time that `mktime` computes in UTC, from members of any value; months carry into the
year, everything else is counted on. -/
def calendarTime (tm : Tm) : Int :=
  let year := tm.year + tmYearBase + tm.mon / 12
  let month := (tm.mon % 12).toNat
  let day := daysBeforeYear year + daysBeforeMonth (isLeap year) month + (tm.mday - 1)
  86400 * (day - epochDay) + 3600 * tm.hour + 60 * tm.min + tm.sec

/-- `mktime_utc`: the calendar time, and the members normalised. -/
def mktimeUtc (tm : Tm) : Int × Tm := (calendarTime tm, gmtime (calendarTime tm))

/-- `tm_local_to_utc`, with the `mktime` of the local time zone; it aborts when that fails. -/
def tmLocalToUtc (mktime : Tm → Int) (localTm : Tm) : Option Tm :=
  if mktime localTm = -1 then none else some (gmtime (mktime localTm))

/-! ### Normalised times -/

/-- Members in range that name a date, with the day of the year that belongs to it. -/
structure Tm.Normalised (tm : Tm) : Prop where
  sec : 0 ≤ tm.sec ∧ tm.sec < 60
  min : 0 ≤ tm.min ∧ tm.min < 60
  hour : 0 ≤ tm.hour ∧ tm.hour < 24
  date : ∃ date : Date, tm.year = date.year - tmYearBase ∧ tm.mon = date.month ∧
    tm.mday = date.day ∧ tm.yday = date.yday

theorem gmtime_normalised (time : Int) : (gmtime time).Normalised where
  sec := by simp only [gmtime]; omega
  min := by simp only [gmtime]; omega
  hour := by simp only [gmtime]; omega
  date := ⟨_, rfl, rfl, rfl, rfl⟩

theorem tmLocalToUtc_normalised {mktime : Tm → Int} {localTm utc : Tm}
    (converted : tmLocalToUtc mktime localTm = some utc) : utc.Normalised := by
  unfold tmLocalToUtc at converted
  split at converted
  · cases converted
  · cases converted
    exact gmtime_normalised _

theorem calendarTime_of_date {tm : Tm} (date : Date) (year : tm.year = date.year - tmYearBase)
    (month : tm.mon = date.month) (day : tm.mday = date.day) :
    calendarTime tm = 86400 * (date.dayNumber - epochDay) + 3600 * tm.hour + 60 * tm.min + tm.sec := by
  have small := date.month_lt
  have pos := date.day_pos
  have carried : tm.year + tmYearBase + tm.mon / 12 = date.year := by omega
  have rest : (tm.mon % 12).toNat = date.month := by omega
  simp only [calendarTime, carried, rest, day, Date.dayNumber, Date.yday]
  omega

theorem calendarTime_gmtime (time : Int) : calendarTime (gmtime time) = time := by
  rw [calendarTime_of_date (dateOf (time / 86400 + epochDay)) rfl rfl rfl, dayNumber_dateOf]
  simp only [gmtime]
  omega

theorem gmtime_calendarTime {tm : Tm} (normalised : tm.Normalised) : gmtime (calendarTime tm) = tm := by
  obtain ⟨⟨sec0, sec60⟩, ⟨min0, min60⟩, ⟨hour0, hour24⟩, date, year, month, mday, yday⟩ := normalised
  have time := calendarTime_of_date date year month mday
  have day : calendarTime tm / 86400 + epochDay = date.dayNumber := by omega
  obtain ⟨sec, min, hour, _, _, _, _⟩ := tm
  simp only [gmtime, day, dateOf_dayNumber, Tm.mk.injEq]
  simp only at *
  refine ⟨by omega, by omega, by omega, mday.symm, month.symm, year.symm, yday.symm⟩

theorem gmtime_injective : Function.Injective gmtime := fun a b same => by
  rw [← calendarTime_gmtime a, same, calendarTime_gmtime]

@[simp] theorem mktimeUtc_fst (tm : Tm) : (mktimeUtc tm).1 = calendarTime tm := rfl

@[simp] theorem mktimeUtc_snd (tm : Tm) : (mktimeUtc tm).2 = gmtime (calendarTime tm) := rfl

theorem calendarTime_add_sec (tm : Tm) (k : Int) :
    calendarTime { tm with sec := tm.sec + k } = calendarTime tm + k := by
  simp only [calendarTime]
  omega

/-! ### Differences -/

/-- The value of an expression of type `int`, when overflow wraps around. -/
def wrapInt (x : Int) : Int := x.bmod (2 ^ 32)

theorem wrapInt_eq {x : Int} (low : -2 ^ 31 ≤ x) (high : x < 2 ^ 31) : wrapInt x = x := by
  rw [wrapInt, Int.bmod_def]
  omega

/-- `tm_diff`. The shifts and divisions are of numbers that are no larger than a year, so only the
sums and products of the last lines can wrap around. -/
def tmDiff (a b : Tm) : Int :=
  let a4 := (a.year >>> (2 : Nat)) + (tmYearBase >>> (2 : Nat)) - (if a.year % 4 = 0 then 1 else 0)
  let b4 := (b.year >>> (2 : Nat)) + (tmYearBase >>> (2 : Nat)) - (if b.year % 4 = 0 then 1 else 0)
  let a100 := a4.tdiv 25 - (if a4.tmod 25 < 0 then 1 else 0)
  let b100 := b4.tdiv 25 - (if b4.tmod 25 < 0 then 1 else 0)
  let a400 := a100 >>> (2 : Nat)
  let b400 := b100 >>> (2 : Nat)
  let interveningLeapDays := (a4 - b4) - (a100 - b100) + (a400 - b400)
  let years := a.year - b.year
  let days := 365 * years + interveningLeapDays + (a.yday - b.yday)
  wrapInt (60 * (60 * (24 * days + (a.hour - b.hour)) + (a.min - b.min)) + (a.sec - b.sec))

theorem tdiv_sub_correction (x : Int) : x.tdiv 25 - (if x.tmod 25 < 0 then 1 else 0) = x / 25 := by
  rw [Int.tdiv_eq_ediv, Int.tmod_eq_emod, show Int.sign 25 = 1 from rfl, show Int.natAbs 25 =
    25 from rfl]
  by_cases exact : 0 ≤ x ∨ 25 ∣ x
  · rw [if_pos exact, if_pos exact, if_neg (by omega)]
    omega
  · rw [if_neg exact, if_neg exact, if_pos (by omega)]
    omega

theorem quarter_eq (year : Int) :
    (year >>> (2 : Nat)) + (tmYearBase >>> (2 : Nat)) - (if year % 4 = 0 then 1 else 0) =
      (year + tmYearBase - 1) / 4 := by
  simp only [Int.shiftRight_eq_div_pow, tmYearBase]
  split <;> omega

theorem tmDiff_eq {a b : Tm} (normal_a : a.Normalised) (normal_b : b.Normalised) :
    tmDiff a b = wrapInt (calendarTime a - calendarTime b) := by
  obtain ⟨-, -, -, dateA, yearA, monthA, mdayA, ydayA⟩ := normal_a
  obtain ⟨-, -, -, dateB, yearB, monthB, mdayB, ydayB⟩ := normal_b
  rw [calendarTime_of_date dateA yearA monthA mdayA, calendarTime_of_date dateB yearB monthB mdayB]
  simp only [tmDiff, quarter_eq, tdiv_sub_correction]
  simp only [Int.shiftRight_eq_div_pow, Date.dayNumber, daysBeforeYear, leapDays]
  congr 1
  omega

theorem tmDiff_gmtime {s t : Int} (low : -2 ^ 31 ≤ s - t) (high : s - t < 2 ^ 31) :
    tmDiff (gmtime s) (gmtime t) = s - t := by
  rw [tmDiff_eq (gmtime_normalised s) (gmtime_normalised t), calendarTime_gmtime, calendarTime_gmtime,
    wrapInt_eq low high]

end Fdistdump.Time
