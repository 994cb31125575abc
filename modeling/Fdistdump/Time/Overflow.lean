import Fdistdump.Time.FillFromTime
import Fdistdump.Time.SetTimeRange

/-!
# Overflow in `tm_diff`

`tm_diff` computes in `int`. `tmDiffValues` lists the exact values of its operands and expressions,
the returned one last. Of two aligned times all of them fit exactly when the difference and the two
years do, and that is when the time range is treated as its boundaries say.
-/

namespace Fdistdump.Time
open WhileLoop Gregorian Slots

def FitsInt (x : Int) : Prop := -2 ^ 31 ≤ x ∧ x < 2 ^ 31

instance (x : Int) : Decidable (FitsInt x) := inferInstanceAs (Decidable (_ ∧ _))

/-- `a4` and `b4`. -/
def fourYears (year : Int) : Int :=
  (year >>> (2 : Nat)) + (tmYearBase >>> (2 : Nat)) - (if year % 4 = 0 then 1 else 0)

/-- `a100` and `b100`. -/
def hundredYears (year : Int) : Int :=
  (fourYears year).tdiv 25 - (if (fourYears year).tmod 25 < 0 then 1 else 0)

/-- The values that `tm_diff` computes from one year. -/
def yearValues (year : Int) : List Int :=
  [year, year >>> (2 : Nat), (year >>> (2 : Nat)) + (tmYearBase >>> (2 : Nat)), fourYears year,
    (fourYears year).tdiv 25, (fourYears year).tmod 25, hundredYears year,
    hundredYears year >>> (2 : Nat)]

/-- The values that `tm_diff` computes from both times. -/
def differenceValues (a b : Tm) : List Int :=
  let fours := fourYears a.year - fourYears b.year
  let hundreds := hundredYears a.year - hundredYears b.year
  let fourHundreds := (hundredYears a.year >>> (2 : Nat)) - (hundredYears b.year >>> (2 : Nat))
  let interveningLeapDays := fours - hundreds + fourHundreds
  let years := a.year - b.year
  let days := 365 * years + interveningLeapDays + (a.yday - b.yday)
  let hours := 24 * days + (a.hour - b.hour)
  let minutes := 60 * hours + (a.min - b.min)
  [fours, hundreds, fours - hundreds, fourHundreds, interveningLeapDays, years, 365 * years,
    365 * years + interveningLeapDays, a.yday - b.yday, days, 24 * days, a.hour - b.hour, hours,
    60 * hours,
    a.min - b.min, minutes, 60 * minutes, a.sec - b.sec, 60 * minutes + (a.sec - b.sec)]

/-- The exact value of everything that `tm_diff` computes, the returned value last. -/
def tmDiffValues (a b : Tm) : List Int :=
  yearValues a.year ++ (yearValues b.year ++ differenceValues a b)

def NoOverflow (a b : Tm) : Prop := ∀ x ∈ tmDiffValues a b, FitsInt x

theorem tmDiffValues_last (a b : Tm) :
    ∃ seconds, (tmDiffValues a b).getLast? = some seconds ∧ tmDiff a b = wrapInt seconds := ⟨_, rfl, rfl⟩

theorem fourYears_eq (year : Int) : fourYears year = (year + 1899) / 4 := by
  rw [fourYears, quarter_eq, tmYearBase]
  congr 1
  omega

theorem hundredYears_eq (year : Int) : hundredYears year = (year + 1899) / 100 := by
  rw [hundredYears, tdiv_sub_correction, fourYears_eq]
  omega

theorem yearValues_fit {year : Int} (fits : FitsInt year) : ∀ x ∈ yearValues year, FitsInt x := by
  simp only [yearValues, hundredYears_eq, fourYears_eq, Int.shiftRight_eq_div_pow, Int.tdiv_eq_ediv,
    Int.tmod_eq_emod, tmYearBase, List.forall_mem_cons, show Int.sign 25 = 1 from rfl,
    show Int.natAbs 25 = 25 from rfl]
  unfold FitsInt at *
  refine ⟨fits, by omega, by omega, by omega, ?_, ?_, by omega, by omega, by simp⟩
  · split <;> omega
  · split <;> omega

theorem leaps_close {a b : Int} (close : -69 ≤ a - b ∧ a - b ≤ 69) :
    (-18 ≤ fourYears a - fourYears b ∧ fourYears a - fourYears b ≤ 18) ∧
      (-1 ≤ hundredYears a - hundredYears b ∧ hundredYears a - hundredYears b ≤ 1) ∧
      -1 ≤ (hundredYears a >>> (2 : Nat)) - (hundredYears b >>> (2 : Nat)) ∧
        (hundredYears a >>> (2 : Nat)) - (hundredYears b >>> (2 : Nat)) ≤ 1 := by
  simp only [hundredYears_eq, fourYears_eq, Int.shiftRight_eq_div_pow]
  omega

theorem Tm.Normalised.yday_lt {tm : Tm} (normal : tm.Normalised) : 0 ≤ tm.yday ∧ tm.yday < 366 := by
  obtain ⟨-, -, -, date, -, -, -, yday⟩ := normal
  have bound := date.yday_lt_yearLength
  unfold yearLength at bound
  split at bound <;> omega

theorem seconds_of_days {a b : Tm} (normal_a : a.Normalised) (normal_b : b.Normalised) {days : Int}
    (counted : days = 365 * (a.year - b.year) + (fourYears a.year - fourYears b.year -
      (hundredYears a.year - hundredYears b.year) +
      ((hundredYears a.year >>> (2 : Nat)) - (hundredYears b.year >>> (2 : Nat)))) + (a.yday - b.yday)) :
    calendarTime a - calendarTime b =
      60 * (60 * (24 * days + (a.hour - b.hour)) + (a.min - b.min)) + (a.sec - b.sec) := by
  obtain ⟨-, -, -, dateA, yearA, monthA, mdayA, ydayA⟩ := normal_a
  obtain ⟨-, -, -, dateB, yearB, monthB, mdayB, ydayB⟩ := normal_b
  rw [calendarTime_of_date dateA yearA monthA mdayA, calendarTime_of_date dateB yearB monthB mdayB,
    counted]
  simp only [hundredYears_eq, fourYears_eq, Int.shiftRight_eq_div_pow, Date.dayNumber,
    daysBeforeYear, leapDays,
    tmYearBase] at *
  omega

theorem differenceValues_fit {a b : Tm} (normal_a : a.Normalised) (normal_b : b.Normalised)
    (minute_a : a.sec = 0)
    (minute_b : b.sec = 0) (fits : FitsInt (calendarTime a - calendarTime b)) :
    ∀ x ∈ differenceValues a b, FitsInt x := by
  obtain ⟨days, counted⟩ : ∃ days, days = 365 * (a.year - b.year) +
    (fourYears a.year - fourYears b.year -
      (hundredYears a.year - hundredYears b.year) +
      ((hundredYears a.year >>> (2 : Nat)) - (hundredYears b.year >>> (2 : Nat)))) +
        (a.yday - b.yday) := ⟨_, rfl⟩
  have yday_a := normal_a.yday_lt
  have yday_b := normal_b.yday_lt
  have hour_a := normal_a.hour
  have hour_b := normal_b.hour
  have min_a := normal_a.min
  have min_b := normal_b.min
  rw [seconds_of_days normal_a normal_b counted, minute_a, minute_b] at fits
  have close : -69 ≤ a.year - b.year ∧ a.year - b.year ≤ 69 := by
    simp only [hundredYears_eq, fourYears_eq, Int.shiftRight_eq_div_pow] at counted
    unfold FitsInt at fits
    omega
  obtain ⟨fours, hundreds, fourHundreds⟩ := leaps_close close
  simp only [differenceValues, ← counted, List.forall_mem_cons, minute_a, minute_b]
  unfold FitsInt at *
  and_intros
  all_goals first | omega | simp

theorem noOverflow_iff {a b : Tm} (normal_a : a.Normalised) (normal_b : b.Normalised)
    (minute_a : a.sec = 0) (minute_b : b.sec = 0) :
    NoOverflow a b ↔ FitsInt (calendarTime a - calendarTime b) ∧ FitsInt a.year ∧ FitsInt b.year := by
  constructor
  · intro fits
    refine ⟨fits _ ?_, fits _ (List.mem_cons_self ..), fits _ ?_⟩
    · rw [seconds_of_days normal_a normal_b rfl]
      exact List.mem_append_right _ (List.mem_append_right _ (by simp [differenceValues]))
    · exact List.mem_append_right _ (List.mem_append_left _ (List.mem_cons_self ..))
  · intro ⟨difference, year_a, year_b⟩ x member
    rcases List.mem_append.mp member with member | member
    · exact yearValues_fit year_a x member
    rcases List.mem_append.mp member with member | member
    · exact yearValues_fit year_b x member
    · exact differenceValues_fit normal_a normal_b minute_a minute_b difference x member

/-! ### The time range -/

/-- The range of the two times is accepted when it is not empty, and no `tm_diff` overflows on the
way from `set_time_range` through `path_array_gen` to the loop of `fill_from_time`. -/
structure RangeLaw (timeBegin timeEnd : Tm) : Prop where
  accepts : ∀ fuel, 300 ≤ fuel → setTimeRange fuel timeBegin timeEnd =
    some (if alignedBegin timeBegin < alignedEnd timeEnd then .ok else .arg,
      gmtime (alignedBegin timeBegin), gmtime (alignedEnd timeEnd))
  sanity : NoOverflow (gmtime (alignedEnd timeEnd)) (gmtime (alignedBegin timeBegin))
  loop : ∀ exist path names s,
    Visits (fillMore (gmtime (alignedEnd timeEnd))) (fillBody exist path)
      { ctx := gmtime (alignedBegin timeBegin), tried := [], names } s →
    NoOverflow (gmtime (alignedEnd timeEnd)) s.ctx

/-- An `int` holds the difference of the aligned boundaries, and their years. -/
def RangeFits (timeBegin timeEnd : Tm) : Prop :=
  FitsInt (alignedEnd timeEnd - alignedBegin timeBegin) ∧ FitsInt (gmtime (alignedEnd timeEnd)).year ∧
    FitsInt (gmtime (alignedBegin timeBegin)).year

theorem noOverflow_gmtime {s t : Int} (aligned_s : flowFileRotationInterval ∣ s)
    (aligned_t : flowFileRotationInterval ∣ t) :
    NoOverflow (gmtime s) (gmtime t) ↔ FitsInt (s - t) ∧ FitsInt (gmtime s).year ∧
    FitsInt (gmtime t).year := by
  unfold flowFileRotationInterval at *
  have minute_s : (gmtime s).sec = 0 := by simp only [gmtime]; omega
  have minute_t : (gmtime t).sec = 0 := by simp only [gmtime]; omega
  rw [noOverflow_iff (gmtime_normalised s) (gmtime_normalised t) minute_s minute_t,
    calendarTime_gmtime, calendarTime_gmtime]

theorem gmtime_year_mono {s t : Int} (le : s ≤ t) : (gmtime s).year ≤ (gmtime t).year := by
  have first := (yearOf_spec (s / 86400 + epochDay)).1
  have last := (yearOf_spec (t / 86400 + epochDay)).2
  simp only [gmtime, dateOf]
  by_contra less
  have ordered := daysBeforeYear_mono (a := yearOf (t / 86400 + epochDay) + 1)
    (b := yearOf (s / 86400 + epochDay)) (by omega)
  omega

/-- The context of the loop is an aligned time of the range. -/
def InRange (first last : Int) (s : FillState) : Prop :=
  ∃ time, s.ctx = gmtime time ∧ flowFileRotationInterval ∣ time ∧ first ≤ time ∧
    (time = first ∨ time ≤ last)

theorem inRange_fillBody {exist : Path → Bool} {path : Path} {first last : Int} {s : FillState}
    (fits : FitsInt (last - first)) (aligned : flowFileRotationInterval ∣ last)
    (inside : InRange first last s)
    (more : fillMore (gmtime last) s = true) : InRange first last (fillBody exist path s) := by
  obtain ⟨time, now, aligned', from_first, to_last⟩ := inside
  have left : wrapInt (calendarTime (gmtime last) - time) = last - time := by
    rw [calendarTime_gmtime]
    unfold FitsInt at fits
    exact wrapInt_eq (by omega) (by omega)
  rw [fillMore_eq (gmtime_normalised last) now left, decide_eq_true_eq] at more
  by_cases short : NameFits path time
  · rw [fillBody_fits exist now short]
    refine ⟨time + flowFileRotationInterval, rfl, Int.dvd_add aligned' (Int.dvd_refl _), ?_, .inr ?_⟩
    · unfold flowFileRotationInterval
      omega
    · unfold flowFileRotationInterval at *
      omega
  · rw [fillBody_stuck now short]
    exact ⟨time, now, aligned', from_first, to_last⟩

/-- A range is treated as its boundaries say, without overflow, exactly when an `int` holds their
difference. -/
theorem time_range_without_overflow_iff (timeBegin timeEnd : Tm) :
    RangeLaw timeBegin timeEnd ↔ RangeFits timeBegin timeEnd := by
  have alignedB : flowFileRotationInterval ∣ alignedBegin timeBegin :=
    (floorTo_isGreatest interval_pos _).1.1
  have alignedE : flowFileRotationInterval ∣ alignedEnd timeEnd := (ceilTo_isLeast interval_pos _).1.1
  constructor
  · intro law
    exact (noOverflow_gmtime alignedE alignedB).mp law.sanity
  · intro ⟨difference, yearE, yearB⟩
    refine ⟨fun fuel enough => ?_, (noOverflow_gmtime alignedE alignedB).mpr ⟨difference, yearE,
      yearB⟩, ?_⟩
    · rw [setTimeRange_eq timeBegin timeEnd enough, wrapInt_eq difference.1 difference.2]
      congr 2
      split <;> split <;> first | rfl | omega
    · intro exist path names s visits
      obtain ⟨time, now, aligned, from_begin, to_end⟩ :=
        visits_invariant (InRange (alignedBegin timeBegin) (alignedEnd timeEnd))
          (fun s inside more => inRange_fillBody difference alignedE inside more)
          ⟨_, rfl, alignedB, Int.le_refl _, .inl rfl⟩ visits
      rw [now, noOverflow_gmtime alignedE aligned]
      rcases to_end with rfl | to_end
      · exact ⟨difference, yearE, yearB⟩
      · have low := gmtime_year_mono from_begin
        have high := gmtime_year_mono to_end
        unfold FitsInt at *
        refine ⟨by omega, yearE, by omega, by omega⟩

/-- `-T 1900-01-01#2000-01-01` in UTC: a century is taken for an empty range. -/
theorem century_rejected :
    alignedBegin (gmtime (-2208988800)) = -2208988800 ∧ alignedEnd (gmtime 946684800) = 946684800 ∧
      (setTimeRange 300 (gmtime (-2208988800)) (gmtime 946684800)).map Prod.fst = some .arg ∧
      ¬ RangeLaw (gmtime (-2208988800)) (gmtime 946684800) := by
  have first : alignedBegin (gmtime (-2208988800)) = -2208988800 := by
    rw [alignedBegin, calendarTime_gmtime]
    decide
  have last : alignedEnd (gmtime 946684800) = 946684800 := by
    rw [alignedEnd, calendarTime_gmtime]
    decide
  have rejected : (setTimeRange 300 (gmtime (-2208988800)) (gmtime 946684800)).map Prod.fst =
      some .arg := by
    rw [setTimeRange_eq _ _ (Nat.le_refl 300), first, last]
    decide
  refine ⟨first, last, rejected, ?_⟩
  intro law
  rw [law.accepts 300 (Nat.le_refl 300), first, last] at rejected
  exact absurd rejected (by decide)

end Fdistdump.Time
