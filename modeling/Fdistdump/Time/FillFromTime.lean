import Fdistdump.Common
import Fdistdump.Library.Slots
import Fdistdump.Library.WhileLoop
import Fdistdump.Time.FlowFileName

/-!
# Flow files of a time range

`fill_from_time` tries one name for each rotation interval of the range. `fillLoop_eq` gives its result
when every name fits behind the directory; `fillLoop_stuck` says that otherwise the loop never ends,
because `continue` skips the increment of the context.
-/

namespace Fdistdump.Time

open Slots

abbrev Path := List Char

def pathMax : Nat := 4096

/-- The directory with its terminating slash. -/
def withSlash (path : Path) : Path := if path.getLast? = some '/' then path else path ++ ['/']

/-- The local variables of `fill_from_time`, and the paths that it has asked `stat` about. -/
structure FillState where
  ctx : Tm
  tried : List Path
  names : List Path
deriving DecidableEq

section Loop

variable (exist : Path → Bool) (path : Path) (timeEnd : Tm)

def tryPath (s : FillState) (file : Path) : FillState :=
  { s with tried := s.tried ++ [file], names := if exist file then s.names ++ [file] else s.names }

def fillBody (s : FillState) : FillState :=
  match strftime (pathMax - (withSlash path).length) s.ctx with
  | none => s
  | some name =>
    let ctx := (mktimeUtc { s.ctx with sec := s.ctx.sec + flowFileRotationInterval }).2
    tryPath exist { s with ctx } (withSlash path ++ name)

def fillMore (s : FillState) : Bool := 0 < tmDiff timeEnd s.ctx

def fillLoop (fuel : Nat) (s : FillState) : Option FillState :=
  WhileLoop.run (fillMore timeEnd) (fillBody exist path) fuel s

def fillFromTime (timeBegin : Tm) (fuel : Nat) (names : List Path) : Option FillState :=
  fillLoop exist path timeEnd fuel { ctx := timeBegin, tried := [], names }

end Loop

/-- `strftime` has room for the name of the file that starts at `time`. -/
def NameFits (path : Path) (time : Int) : Prop :=
  (withSlash path).length + (flowFileName (gmtime time)).length < pathMax

instance (path : Path) (time : Int) : Decidable (NameFits path time) :=
  inferInstanceAs (Decidable (_ < _))

def flowFile (path : Path) (time : Int) : Path := withSlash path ++ flowFileName (gmtime time)

variable {exist : Path → Bool} {path : Path} {timeEnd : Tm}

theorem strftime_eq (time : Int) :
    strftime (pathMax - (withSlash path).length) (gmtime time) =
      if NameFits path time then some (flowFileName (gmtime time)) else none := by
  have room : (flowFileName (gmtime time)).length < pathMax - (withSlash path).length ↔
      NameFits path time := by
    unfold NameFits
    omega
  rw [strftime, if_congr room rfl rfl]

variable (exist) in
theorem fillBody_fits {s : FillState} {time : Int} (now : s.ctx = gmtime time)
    (fits : NameFits path time) :
    fillBody exist path s =
      tryPath exist { s with ctx := gmtime (time + flowFileRotationInterval) } (flowFile path time) := by
  rw [fillBody, now, strftime_eq, if_pos fits]
  simp only [mktimeUtc_snd, calendarTime_add_sec, calendarTime_gmtime, flowFile]

theorem fillBody_stuck {s : FillState} {time : Int} (now : s.ctx = gmtime time)
    (long : ¬ NameFits path time) :
    fillBody exist path s = s := by
  rw [fillBody, now, strftime_eq, if_neg long]

theorem fillMore_eq {s : FillState} {time last : Int} (normal : timeEnd.Normalised)
    (now : s.ctx = gmtime time) (left : wrapInt (calendarTime timeEnd - time) = last - time) :
    fillMore timeEnd s = decide (time < last) := by
  rw [fillMore, now, tmDiff_eq normal (gmtime_normalised time), calendarTime_gmtime, left]
  exact decide_eq_decide.mpr (by omega)

theorem fillLoop_ended {s : FillState} {time last : Int} (normal : timeEnd.Normalised)
    (now : s.ctx = gmtime time)
    (left : wrapInt (calendarTime timeEnd - time) = last - time) (ended : last ≤ time) (fuel : Nat) :
    fillLoop exist path timeEnd fuel s = some s := by
  have done : fillMore timeEnd s = false := by
    rw [fillMore_eq normal now left, decide_eq_false_iff_not]
    omega
  exact WhileLoop.run_of_done done fuel

theorem fillLoop_more {s : FillState} {time last : Int} (normal : timeEnd.Normalised)
    (now : s.ctx = gmtime time)
    (left : wrapInt (calendarTime timeEnd - time) = last - time) (more : time < last) (fuel : Nat) :
    fillLoop exist path timeEnd (fuel + 1) s = fillLoop exist path timeEnd fuel
      (fillBody exist path s) := by
  have go : fillMore timeEnd s = true := by rw [fillMore_eq normal now left, decide_eq_true more]
  exact WhileLoop.run_succ go fuel

/-- The distance shrinks by what is added to the context, also when the `int` has wrapped around. -/
theorem left_step {time last : Int} (left : wrapInt (calendarTime timeEnd - time) = last - time)
    (more : time < last) :
    wrapInt (calendarTime timeEnd - (time + flowFileRotationInterval)) =
      last - (time + flowFileRotationInterval) := by
  unfold wrapInt flowFileRotationInterval at *
  rw [Int.bmod_def] at *
  omega

theorem interval_pos : 0 < flowFileRotationInterval := by decide

variable (exist path) in
/-- The loop tries the files of the slots in order and keeps those that exist. -/
theorem fillLoop_eq {s : FillState} {time last : Int} {fuel : Nat} (normal : timeEnd.Normalised)
    (now : s.ctx = gmtime time) (left : wrapInt (calendarTime timeEnd - time) = last - time)
    (fits : ∀ t ∈ slots flowFileRotationInterval time last, NameFits path t)
    (enough : count flowFileRotationInterval time last ≤ fuel) :
    ∃ ctx, fillLoop exist path timeEnd fuel s = some
      { ctx
        tried := s.tried ++ (slots flowFileRotationInterval time last).map (flowFile path)
        names := s.names ++ ((slots flowFileRotationInterval time last).map (flowFile path)).filter
          exist } := by
  induction fuel generalizing s time with
  | zero =>
    have ended : last ≤ time := by
      by_contra more
      rw [count_of_lt interval_pos (by omega)] at enough
      omega
    exact ⟨s.ctx, by simp [fillLoop_ended normal now left ended, slots_of_le interval_pos ended]⟩
  | succ fuel ih =>
    by_cases more : time < last
    · rw [count_of_lt interval_pos more] at enough
      rw [slots_of_lt interval_pos more] at fits ⊢
      have body := fillBody_fits exist now (fits time List.mem_cons_self)
      obtain ⟨ctx, rest⟩ := ih (s := fillBody exist path s) (by rw [body]; rfl) (left_step left more)
        (fun t member => fits t (List.mem_cons_of_mem _ member)) (by omega)
      refine ⟨ctx, ?_⟩
      rw [fillLoop_more normal now left more, rest, body, tryPath]
      cases present : exist (flowFile path time) <;> simp [present]
    · have ended : last ≤ time := by omega
      exact ⟨s.ctx, by simp [fillLoop_ended normal now left ended, slots_of_le interval_pos ended]⟩

variable (exist) in
theorem fillLoop_stuck {s : FillState} {time last t : Int} (normal : timeEnd.Normalised)
    (now : s.ctx = gmtime time) (left : wrapInt (calendarTime timeEnd - time) = last - time)
    (slot : t ∈ slots flowFileRotationInterval time last) (long : ¬ NameFits path t) (fuel : Nat) :
    fillLoop exist path timeEnd fuel s = none := by
  induction fuel generalizing s time with
  | zero =>
    have more : time < last := lt_of_mem_slots interval_pos slot
    simp [fillLoop, WhileLoop.run, fillMore_eq normal now left, more]
  | succ fuel ih =>
    have more : time < last := lt_of_mem_slots interval_pos slot
    rw [fillLoop_more normal now left more]
    by_cases fits : NameFits path time
    · -- the loop moves on, the slot that holds it is still ahead
      rw [slots_of_lt interval_pos more, List.mem_cons] at slot
      have ahead := slot.resolve_left fun here => long (here ▸ fits)
      have body := fillBody_fits exist now fits
      exact ih (by rw [body]; rfl) (left_step left more) ahead
    · rw [fillBody_stuck now fits]
      exact ih now left slot

/-! ### Termination -/

/-- The number of rotation intervals in the distance that `tm_diff` reports, rounded up. -/
def rounds (timeEnd timeBegin : Tm) : Nat :=
  ((tmDiff timeEnd timeBegin + (flowFileRotationInterval - 1)) / flowFileRotationInterval).toNat

/-- The loop ends after one round for each interval exactly when every name of the range fits behind the
directory, and otherwise it does not end at all. -/
theorem fill_from_time_terminates_iff (exist : Path → Bool) (path : Path) {timeBegin timeEnd : Tm}
    (normal_begin : timeBegin.Normalised) (normal_end : timeEnd.Normalised) (names : List Path) :
    ((fillFromTime exist path timeEnd timeBegin (rounds timeEnd timeBegin) names).isSome ↔
      ∀ i < rounds timeEnd timeBegin,
        NameFits path (calendarTime timeBegin + flowFileRotationInterval * i)) ∧
    ((∃ fuel, (fillFromTime exist path timeEnd timeBegin fuel names).isSome) ↔
      ∀ i < rounds timeEnd timeBegin,
        NameFits path (calendarTime timeBegin + flowFileRotationInterval * i)) := by
  have now : timeBegin = gmtime (calendarTime timeBegin) := (gmtime_calendarTime normal_begin).symm
  have left : wrapInt (calendarTime timeEnd - calendarTime timeBegin) =
      calendarTime timeBegin + tmDiff timeEnd timeBegin - calendarTime timeBegin := by
    rw [tmDiff_eq normal_end normal_begin]
    omega
  have length : rounds timeEnd timeBegin = count flowFileRotationInterval (calendarTime timeBegin)
      (calendarTime timeBegin + tmDiff timeEnd timeBegin) := by
    unfold rounds count
    congr 2
    omega
  have ends (fits : ∀ i < rounds timeEnd timeBegin,
      NameFits path (calendarTime timeBegin + flowFileRotationInterval * i)) :
      (fillFromTime exist path timeEnd timeBegin (rounds timeEnd timeBegin) names).isSome := by
    obtain ⟨ctx, result⟩ := fillLoop_eq exist path
      (s := { ctx := timeBegin, tried := [], names }) normal_end now left
      (fun t member => by
        obtain ⟨i, less, rfl⟩ := List.mem_map.mp member
        exact fits i (by rw [length]; exact List.mem_range.mp less)) (Nat.le_of_eq length.symm)
    rw [fillFromTime, result]
    rfl
  have fits (fuel : Nat) (returns : (fillFromTime exist path timeEnd timeBegin fuel names).isSome) :
      ∀ i < rounds timeEnd timeBegin,
        NameFits path (calendarTime timeBegin + flowFileRotationInterval * i) := by
    intro i less
    by_contra long
    have stuck := fillLoop_stuck exist (s := { ctx := timeBegin, tried := [], names })
      normal_end now left
      (List.mem_map.mpr ⟨i, List.mem_range.mpr (by rwa [length] at less), rfl⟩) long fuel
    rw [fillFromTime, stuck] at returns
    cases returns
  exact ⟨⟨fits _, ends⟩, ⟨fun ⟨fuel, returns⟩ => fits fuel returns, fun all => ⟨_, ends all⟩⟩⟩

/-- A root directory spelled with as many slashes as `stat` takes: the loop does not end. -/
theorem fill_from_time_spins_on_long_path :
    ∃ path : Path, path.length < pathMax ∧ 0 < tmDiff (gmtime 300) (gmtime 0) ∧
      ∀ fuel, fillFromTime (fun _ => true) path (gmtime 300) (gmtime 0) fuel [] = none := by
  refine ⟨List.replicate 4095 '/', by rw [List.length_replicate]; decide, ?_, fun fuel => ?_⟩
  · rw [tmDiff_gmtime (by decide) (by decide)]
    decide
  · have left : wrapInt (calendarTime (gmtime 300) - 0) = 300 - 0 := by rw [calendarTime_gmtime]; rfl
    refine fillLoop_stuck _ (t := 0) (gmtime_normalised 300) rfl left ?_ ?_ fuel
    · exact (mem_slots interval_pos).mpr ⟨0, rfl, by decide⟩
    · have slash : (withSlash (List.replicate 4095 '/')).length = 4095 := by
        rw [withSlash, List.getLast?_replicate, if_pos (by decide), List.length_replicate]
      rw [NameFits, slash, pathMax, flowFileName, List.length_append, List.length_append,
        List.length_cons]
      omega

theorem fill_from_time_terminates_iff_root :
    (fillFromTime (fun _ => true) ['/'] (gmtime 600) (gmtime 0)
      (rounds (gmtime 600) (gmtime 0)) []).isSome ↔
    ∀ i < rounds (gmtime 600) (gmtime 0),
      NameFits ['/'] (calendarTime (gmtime 0) + flowFileRotationInterval * i) :=
  (fill_from_time_terminates_iff (fun _ => true) ['/'] (gmtime_normalised 0)
    (gmtime_normalised 600) []).1

end Fdistdump.Time
