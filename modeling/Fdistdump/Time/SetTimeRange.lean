import Fdistdump.Common
import Fdistdump.Library.Slots
import Fdistdump.Library.WhileLoop
import Fdistdump.Time.BrokenDown

/-!
# Alignment of the time range

The two loops of `set_time_range` search for the rotation interval's boundaries one second at a time.
They stop at the nearest boundary in their direction, on either side of the Epoch.
-/

namespace Fdistdump.Time

open Slots

/-- `mktime_utc(tm) % FLOW_FILE_ROTATION_INTERVAL`, as a condition. -/
def unaligned (tm : Tm) : Bool := (mktimeUtc tm).1.tmod flowFileRotationInterval ≠ 0

/-- The loop that moves a time by `step` seconds until it is aligned. The `mktime_utc` of the condition
normalises the time, also when the loop ends. -/
def align (step : Int) (fuel : Nat) (tm : Tm) : Option Tm :=
  (WhileLoop.run unaligned
    (fun tm =>
      let tm := (mktimeUtc tm).2
      { tm with sec := tm.sec + step }) fuel tm).map fun tm => (mktimeUtc tm).2

/-- `set_time_range`, once the two time strings are parsed and converted to UTC. -/
def setTimeRange (fuel : Nat) (timeBegin timeEnd : Tm) : Option (ErrorCode × Tm × Tm) := do
  let timeBegin ← align (-1) fuel timeBegin
  let timeEnd ← align 1 fuel timeEnd
  if tmDiff timeEnd timeBegin ≤ 0 then some (.arg, timeBegin, timeEnd)
  else some (.ok, timeBegin, timeEnd)

theorem unaligned_eq_false (tm : Tm) :
    unaligned tm = false ↔ flowFileRotationInterval ∣ calendarTime tm := by
  rw [Int.dvd_iff_tmod_eq_zero, unaligned, mktimeUtc_fst, decide_eq_false_iff_not, not_not]

theorem align_reaches {step : Int} {distance fuel : Nat} {tm : Tm}
    (aligned : flowFileRotationInterval ∣ calendarTime tm + step * distance)
    (first : ∀ i < distance, ¬ flowFileRotationInterval ∣ calendarTime tm + step * i)
    (enough : distance ≤ fuel) :
    align step fuel tm = some (gmtime (calendarTime tm + step * distance)) := by
  induction distance generalizing tm fuel with
  | zero =>
    have done : unaligned tm = false := (unaligned_eq_false tm).mpr (by simpa using aligned)
    simp [align, WhileLoop.run_of_done done]
  | succ distance ih =>
    obtain ⟨fuel, rfl⟩ : ∃ n, fuel = n + 1 := ⟨fuel - 1, by omega⟩
    have more : unaligned tm = true := by
      rw [← Bool.not_eq_false, unaligned_eq_false]
      simpa using first 0 (Nat.succ_pos distance)
    have moved : ∀ i : Nat, calendarTime tm + step + step * i =
        calendarTime tm + step * (i + 1 : Nat) := by
      intro i
      rw [Int.natCast_add, Int.mul_add]
      omega
    have next := calendarTime_add_sec (gmtime (calendarTime tm)) step
    rw [calendarTime_gmtime] at next
    have reached :=
      @ih fuel { gmtime (calendarTime tm) with sec := (gmtime (calendarTime tm)).sec + step }
      (by rw [next, moved]; exact aligned)
      (fun i less => by rw [next, moved]; exact first (i + 1) (by omega)) (by omega)
    rw [next, moved] at reached
    rw [align, WhileLoop.run_succ more]
    exact reached

theorem align_down {fuel : Nat} (tm : Tm) (enough : 300 ≤ fuel) :
    align (-1) fuel tm = some (gmtime (floorTo flowFileRotationInterval (calendarTime tm))) := by
  have place : floorTo flowFileRotationInterval (calendarTime tm) =
      calendarTime tm + -1 * (calendarTime tm % 300).toNat := by
    simp only [floorTo, flowFileRotationInterval]
    omega
  rw [place]
  refine align_reaches ?_ ?_ (by omega) <;> unfold flowFileRotationInterval <;> omega

theorem align_up {fuel : Nat} (tm : Tm) (enough : 300 ≤ fuel) :
    align 1 fuel tm = some (gmtime (ceilTo flowFileRotationInterval (calendarTime tm))) := by
  have place : ceilTo flowFileRotationInterval (calendarTime tm) =
      calendarTime tm + 1 * (-calendarTime tm % 300).toNat := by
    simp only [ceilTo, floorTo, flowFileRotationInterval]
    omega
  rw [place]
  refine align_reaches ?_ ?_ (by omega) <;> unfold flowFileRotationInterval <;> omega

/-- The rotation intervals that a range touches, as calendar times. -/
def alignedBegin (timeBegin : Tm) : Int := floorTo flowFileRotationInterval (calendarTime timeBegin)

def alignedEnd (timeEnd : Tm) : Int := ceilTo flowFileRotationInterval (calendarTime timeEnd)

/-- What `set_time_range` returns and stores: 300 rounds of each loop are enough. -/
theorem setTimeRange_eq {fuel : Nat} (timeBegin timeEnd : Tm) (enough : 300 ≤ fuel) :
    setTimeRange fuel timeBegin timeEnd =
      some (if wrapInt (alignedEnd timeEnd - alignedBegin timeBegin) ≤ 0 then .arg else .ok,
        gmtime (alignedBegin timeBegin), gmtime (alignedEnd timeEnd)) := by
  simp only [setTimeRange, align_down timeBegin enough, align_up timeEnd enough, Option.bind_eq_bind,
    Option.bind_some, tmDiff_eq (gmtime_normalised _) (gmtime_normalised _), calendarTime_gmtime]
  unfold alignedBegin alignedEnd
  split <;> rfl

end Fdistdump.Time
