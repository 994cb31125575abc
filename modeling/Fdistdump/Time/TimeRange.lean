import Fdistdump.Time.FillFromTime
import Fdistdump.Time.SetTimeRange

/-!
# From a time range to flow files

`set_time_range` widens the range to whole rotation intervals and `fill_from_time` tries one file for
each of them, so that every instant of the range is looked for in exactly one file.
-/

namespace Fdistdump.Time

open Slots

def rangeSlots (timeBegin timeEnd : Tm) : List Int :=
  slots flowFileRotationInterval (alignedBegin timeBegin) (alignedEnd timeEnd)

theorem aligned_wide {timeBegin timeEnd : Tm} (before : calendarTime timeBegin < calendarTime timeEnd) :
    alignedBegin timeBegin ≤ calendarTime timeBegin ∧ calendarTime timeEnd ≤ alignedEnd timeEnd ∧
      0 < alignedEnd timeEnd - alignedBegin timeBegin := by
  have low := (floorTo_isGreatest interval_pos (calendarTime timeBegin)).1.2
  have high := (ceilTo_isLeast interval_pos (calendarTime timeEnd)).1.2
  unfold alignedBegin alignedEnd
  omega

theorem aligned_whole (timeBegin timeEnd : Tm) :
    flowFileRotationInterval ∣ alignedEnd timeEnd - alignedBegin timeBegin :=
  Int.dvd_sub (ceilTo_isLeast interval_pos _).1.1 (floorTo_isGreatest interval_pos _).1.1

theorem flowFile_injective (path : Path) : Function.Injective (flowFile path) := fun s t same =>
  gmtime_injective (flowFileName_injective (gmtime_normalised s) (gmtime_normalised t)
    (List.append_cancel_left same))

/-- The aligned boundaries, the slots between them, and what the two functions do with them. Neither
boundary needs to be normalised. -/
theorem time_range_tries_its_slots (exist : Path → Bool) (path : Path) {timeBegin timeEnd : Tm}
    (before : calendarTime timeBegin < calendarTime timeEnd)
    (representable : alignedEnd timeEnd - alignedBegin timeBegin < 2 ^ 31)
    (short : ∀ t ∈ rangeSlots timeBegin timeEnd, NameFits path t) (names : List Path) :
    IsGreatest {m | flowFileRotationInterval ∣ m ∧ m ≤ calendarTime timeBegin} (alignedBegin timeBegin) ∧
    IsLeast {m | flowFileRotationInterval ∣ m ∧ calendarTime timeEnd ≤ m} (alignedEnd timeEnd) ∧
    (∃ enough, ∀ fuel, enough ≤ fuel →
      setTimeRange fuel timeBegin timeEnd =
        some (.ok, gmtime (alignedBegin timeBegin), gmtime (alignedEnd timeEnd)) ∧
      ∃ ctx, fillFromTime exist path (gmtime (alignedEnd timeEnd)) (gmtime (alignedBegin timeBegin))
        fuel names =
        some
          { ctx
            tried := (rangeSlots timeBegin timeEnd).map (flowFile path)
            names := names ++ ((rangeSlots timeBegin timeEnd).map (flowFile path)).filter exist }) ∧
    (∀ t, t ∈ rangeSlots timeBegin timeEnd ↔
      ∃ i : Nat, t = alignedBegin timeBegin + flowFileRotationInterval * i ∧ t < alignedEnd timeEnd) ∧
    (rangeSlots timeBegin timeEnd).Pairwise (· < ·) ∧
    ((rangeSlots timeBegin timeEnd).map (flowFile path)).Nodup ∧
    (∀ x, calendarTime timeBegin ≤ x → x < calendarTime timeEnd →
      ∃! t, t ∈ rangeSlots timeBegin timeEnd ∧ t ≤ x ∧ x < t + flowFileRotationInterval) ∧
    (∀ t ∈ rangeSlots timeBegin timeEnd,
      alignedBegin timeBegin ≤ t ∧ t + flowFileRotationInterval ≤ alignedEnd timeEnd) := by
  obtain ⟨low, high, positive⟩ := aligned_wide before
  have exact : wrapInt (alignedEnd timeEnd - alignedBegin timeBegin) =
      alignedEnd timeEnd - alignedBegin timeBegin := wrapInt_eq (by omega) representable
  have ascending : (rangeSlots timeBegin timeEnd).Pairwise (· < ·) := slots_ascending interval_pos _ _
  refine ⟨floorTo_isGreatest interval_pos _, ceilTo_isLeast interval_pos _, ?_, fun t =>
    mem_slots interval_pos,
    ascending, ?_, ?_, fun t => slot_within interval_pos (aligned_whole timeBegin timeEnd)⟩
  · refine ⟨max 300 (count flowFileRotationInterval (alignedBegin timeBegin) (alignedEnd timeEnd)),
      fun fuel enough => ⟨?_, ?_⟩⟩
    · rw [setTimeRange_eq timeBegin timeEnd (by omega), exact, if_neg (by omega)]
    · have rounds : count flowFileRotationInterval (alignedBegin timeBegin) (alignedEnd timeEnd) ≤
        fuel := by omega
      have result :=
        fillLoop_eq exist path (s := { ctx := gmtime (alignedBegin timeBegin), tried := [], names })
        (gmtime_normalised (alignedEnd timeEnd)) rfl (by rw [calendarTime_gmtime, exact]) short rounds
      simp only [List.nil_append] at result
      exact result
  · exact (ascending.imp fun less => Int.ne_of_lt less).map _ fun s t differ same =>
      differ (flowFile_injective path same)
  · intro x from_begin to_end
    exact exists_unique_slot interval_pos (by omega) (by omega)

/-- A range across the Epoch: two slots. -/
theorem time_range_tries_its_slots_across_epoch :
    ∃! t, t ∈ rangeSlots (gmtime (-100)) (gmtime 200) ∧ t ≤ -1 ∧ -1 < t + flowFileRotationInterval :=
  (time_range_tries_its_slots (fun _ => true) "/data".toList
    (by rw [calendarTime_gmtime, calendarTime_gmtime]; decide)
    (by rw [alignedBegin, alignedEnd, calendarTime_gmtime, calendarTime_gmtime]; decide)
    (by
      rw [rangeSlots, alignedBegin, alignedEnd, calendarTime_gmtime, calendarTime_gmtime]
      decide +kernel) []).2.2.2.2.2.2.1 (-1)
    (by rw [calendarTime_gmtime]; decide) (by rw [calendarTime_gmtime]; decide)

end Fdistdump.Time
