import Fdistdump.Time.SetTimeRange

/-!
# Time points

`set_time_point` turns a point in time into the rotation interval that holds it.
-/

namespace Fdistdump.Time

open Slots

/-- `set_time_point` from the point in UTC on; `none` is a loop that `fuel` rounds do not finish, or
a failed assertion. -/
def setTimePoint (fuel : Nat) (timePoint : Tm) : Option (Tm × Tm) := do
  let timeBegin ← align (-1) fuel timePoint
  let timeEnd ← align 1 fuel { timeBegin with sec := timeBegin.sec + 1 }
  if tmDiff timeEnd timeBegin = flowFileRotationInterval then some (timeBegin, timeEnd) else none

theorem tmDiff_interval (time : Int) :
    tmDiff (gmtime (time + flowFileRotationInterval)) (gmtime time) = flowFileRotationInterval := by
  rw [tmDiff_eq (gmtime_normalised _) (gmtime_normalised _), calendarTime_gmtime, calendarTime_gmtime]
  exact (congrArg wrapInt (by omega)).trans (wrapInt_eq (by decide) (by decide))

theorem setTimePoint_eq {fuel : Nat} (timePoint : Tm) (enough : 300 ≤ fuel) :
    setTimePoint fuel timePoint =
      some (gmtime (alignedBegin timePoint),
        gmtime (alignedBegin timePoint + flowFileRotationInterval)) := by
  have next : ceilTo flowFileRotationInterval (alignedBegin timePoint + 1) =
      alignedBegin timePoint + flowFileRotationInterval := by
    unfold alignedBegin
    simp only [ceilTo, floorTo, flowFileRotationInterval]
    omega
  have up :=
    align_up { gmtime (alignedBegin timePoint) with
      sec := (gmtime (alignedBegin timePoint)).sec + 1 } enough
  rw [calendarTime_add_sec, calendarTime_gmtime, next] at up
  unfold setTimePoint
  rw [align_down timePoint enough, ← alignedBegin]
  simp only [Option.bind_eq_bind, Option.bind_some, up, tmDiff_interval, if_true]

end Fdistdump.Time
