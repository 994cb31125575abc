import Fdistdump.Time.BrokenDown

/-!
# What `tm_diff` measures

The clock ticks through the calendar second by second. Between two normalised times it ticks a definite
number of times, which is what `tm_diff` returns as long as an `int` can hold it.
-/

namespace Fdistdump.Time
open Gregorian

def Tm.nextDay (tm : Tm) : Tm :=
  if tm.mday < monthLength (isLeap (tm.year + tmYearBase)) tm.mon.toNat then
    { tm with mday := tm.mday + 1, yday := tm.yday + 1 }
  else if tm.mon < 11 then { tm with mday := 1, mon := tm.mon + 1, yday := tm.yday + 1 }
  else { tm with mday := 1, mon := 0, year := tm.year + 1, yday := 0 }

def Tm.tick (tm : Tm) : Tm :=
  if tm.sec < 59 then { tm with sec := tm.sec + 1 }
  else if tm.min < 59 then { tm with sec := 0, min := tm.min + 1 }
  else if tm.hour < 23 then { tm with sec := 0, min := 0, hour := tm.hour + 1 }
  else Tm.nextDay { tm with sec := 0, min := 0, hour := 0 }

/-- The seconds from `b` to `a`: the ticks from one to the other, counted backwards when `a` is the
earlier. -/
def SecondsFrom (b a : Tm) (seconds : Int) : Prop :=
  if 0 ≤ seconds then Tm.tick^[seconds.toNat] b = a else Tm.tick^[(-seconds).toNat] a = b

/-- The members of a date. -/
structure Tm.Names (tm : Tm) (date : Date) : Prop where
  year : tm.year = date.year - tmYearBase
  mon : tm.mon = date.month
  mday : tm.mday = date.day
  yday : tm.yday = date.yday

theorem Tm.Names.nextDay {tm : Tm} {date : Date} (names : tm.Names date) :
    tm.nextDay.Names date.next := by
  obtain ⟨year, mon, mday, yday⟩ := names
  have valid := date.month_lt
  have pos := date.day_pos
  have le := date.day_le
  have sameYear : tm.year + tmYearBase = date.year := by omega
  have sameMonth : tm.mon.toNat = date.month := by omega
  have through : daysBeforeMonth (isLeap date.year) (date.month + 1) =
      daysBeforeMonth (isLeap date.year) date.month + monthLength (isLeap date.year) date.month := rfl
  unfold Tm.nextDay
  rw [sameYear, sameMonth]
  by_cases more : date.day < monthLength (isLeap date.year) date.month
  · have next : date.next = ⟨date.year, date.month, date.day + 1, date.month_lt, Nat.succ_pos _,
      more⟩ := dif_pos more
    rw [if_pos (by omega), next]
    refine ⟨year, mon, ?_, ?_⟩ <;> simp only [Date.yday] at * <;> omega
  rw [if_neg (by omega)]
  by_cases inYear : date.month < 11
  · have next : date.next =
        ⟨date.year, date.month + 1, 1, Nat.succ_lt_succ inYear, Nat.one_pos, monthLength_pos _ _⟩ := by
      rw [Date.next, dif_neg more, dif_pos inYear]
    rw [if_pos (by omega), next]
    refine ⟨year, ?_, rfl, ?_⟩ <;> simp only [Date.yday] at * <;> omega
  · have next : date.next = ⟨date.year + 1, 0, 1, by decide, Nat.one_pos, monthLength_pos _ _⟩ := by
      rw [Date.next, dif_neg more, dif_neg inYear]
    rw [if_neg (by omega), next]
    refine ⟨?_, rfl, rfl, rfl⟩
    simp only
    omega

theorem Tm.Names.calendarTime_eq {tm : Tm} {date : Date} (names : tm.Names date) :
    calendarTime tm = 86400 * (date.dayNumber - epochDay) + 3600 * tm.hour + 60 * tm.min + tm.sec :=
  calendarTime_of_date date names.year names.mon names.mday

theorem Tm.nextDay_clock (tm : Tm) :
    tm.nextDay.sec = tm.sec ∧ tm.nextDay.min = tm.min ∧ tm.nextDay.hour = tm.hour := by
  unfold Tm.nextDay
  split
  · exact ⟨rfl, rfl, rfl⟩
  · split <;> exact ⟨rfl, rfl, rfl⟩

theorem Tm.Normalised.tick {tm : Tm} (normal : tm.Normalised) :
    tm.tick.Normalised ∧ calendarTime tm.tick = calendarTime tm + 1 := by
  obtain ⟨sec, min, hour, date, year, mon, mday, yday⟩ := normal
  have names : tm.Names date := ⟨year, mon, mday, yday⟩
  have zero : (0 : Int) ≤ 0 ∧ (0 : Int) < 60 := by decide
  have zero24 : (0 : Int) ≤ 0 ∧ (0 : Int) < 24 := by decide
  rw [names.calendarTime_eq]
  unfold Tm.tick
  split
  · have moved : Tm.Names { tm with sec := tm.sec + 1 } date := ⟨year, mon, mday, yday⟩
    rw [moved.calendarTime_eq]
    exact ⟨⟨by dsimp only; omega, min, hour, date, year, mon, mday, yday⟩, by dsimp only; omega⟩
  split
  · have moved : Tm.Names { tm with sec := 0, min := tm.min + 1 } date := ⟨year, mon, mday, yday⟩
    rw [moved.calendarTime_eq]
    exact ⟨⟨zero, by dsimp only; omega, hour, date, year, mon, mday, yday⟩, by dsimp only; omega⟩
  split
  · have moved : Tm.Names { tm with sec := 0, min := 0, hour := tm.hour + 1 } date :=
      ⟨year, mon, mday, yday⟩
    rw [moved.calendarTime_eq]
    exact ⟨⟨zero, zero, by dsimp only; omega, date, year, mon, mday, yday⟩, by dsimp only; omega⟩
  · -- midnight: the date moves on
    have midnight : Tm.Names { tm with sec := 0, min := 0, hour := 0 } date := ⟨year, mon, mday, yday⟩
    have moved := midnight.nextDay
    obtain ⟨sec0, min0, hour0⟩ := Tm.nextDay_clock { tm with sec := 0, min := 0, hour := 0 }
    rw [moved.calendarTime_eq, sec0, min0, hour0, Date.dayNumber_next]
    exact ⟨⟨sec0 ▸ zero, min0 ▸ zero, hour0 ▸ zero24, date.next, moved.year, moved.mon,
      moved.mday, moved.yday⟩, by dsimp only; omega⟩

theorem tick_gmtime (time : Int) : (gmtime time).tick = gmtime (time + 1) := by
  obtain ⟨normal, after⟩ := (gmtime_normalised time).tick
  rw [← gmtime_calendarTime normal, after, calendarTime_gmtime]

theorem tick_iterate_gmtime (n : Nat) (time : Int) : Tm.tick^[n] (gmtime time) = gmtime (time + n) := by
  induction n generalizing time with
  | zero => simp
  | succ n ih =>
    rw [Function.iterate_succ_apply, tick_gmtime, ih, Int.natCast_succ]
    congr 1
    omega

theorem secondsFrom_iff {a b : Tm} (normal_a : a.Normalised) (normal_b : b.Normalised) (seconds : Int) :
    SecondsFrom b a seconds ↔ seconds = calendarTime a - calendarTime b := by
  unfold SecondsFrom
  rw [← gmtime_calendarTime normal_a, ← gmtime_calendarTime normal_b, calendarTime_gmtime,
    calendarTime_gmtime]
  split
  · rw [tick_iterate_gmtime, gmtime_injective.eq_iff]
    omega
  · rw [tick_iterate_gmtime, gmtime_injective.eq_iff]
    omega

/-- `tm_diff` is the number of seconds between two normalised times, of any years, when it fits into
an `int`. -/
theorem tm_diff_counts_seconds {a b : Tm} (normal_a : a.Normalised) (normal_b : b.Normalised) :
    (∃! seconds, SecondsFrom b a seconds) ∧
      ∀ seconds, SecondsFrom b a seconds → -2 ^ 31 ≤ seconds → seconds < 2 ^ 31 →
      tmDiff a b = seconds := by
  refine ⟨⟨_, (secondsFrom_iff normal_a normal_b _).mpr rfl, fun seconds from_b => ?_⟩, ?_⟩
  · exact (secondsFrom_iff normal_a normal_b _).mp from_b
  · intro seconds from_b low high
    obtain rfl := (secondsFrom_iff normal_a normal_b _).mp from_b
    rw [tmDiff_eq normal_a normal_b, wrapInt_eq low high]

/-- From the last second of 28 February to the first of 1 March 1896, a leap year. -/
theorem tm_diff_counts_seconds_1896 :
    (∃! seconds, SecondsFrom
      { sec := 59, min := 59, hour := 23, mday := 28, mon := 1, year := -4, yday := 58 }
      { sec := 0, min := 0, hour := 0, mday := 1, mon := 2, year := -4, yday := 60 } seconds) ∧
    tmDiff { sec := 0, min := 0, hour := 0, mday := 1, mon := 2, year := -4, yday := 60 }
      { sec := 59, min := 59, hour := 23, mday := 28, mon := 1, year := -4, yday := 58 } = 86401 := by
  have normal_a : Tm.Normalised
      { sec := 0, min := 0, hour := 0, mday := 1, mon := 2, year := -4, yday := 60 } :=
    ⟨by decide, by decide, by decide, ⟨1896, 2, 1, by decide, by decide, by decide⟩, rfl, rfl, rfl, rfl⟩
  have normal_b : Tm.Normalised
      { sec := 59, min := 59, hour := 23, mday := 28, mon := 1, year := -4, yday := 58 } :=
    ⟨by decide, by decide, by decide, ⟨1896, 1, 28, by decide, by decide, by decide⟩, rfl, rfl, rfl, rfl⟩
  obtain ⟨unique, exact⟩ := tm_diff_counts_seconds normal_a normal_b
  exact ⟨unique, exact 86401 ((secondsFrom_iff normal_a normal_b _).mpr (by decide)) (by decide)
    (by decide)⟩

end Fdistdump.Time
