import Fdistdump.Paths.FillFromPath
import Fdistdump.Paths.RankDirective
import Fdistdump.Time.SetTimePoint
import Mathlib.Data.List.Forall2

/-!
# The files of a slave

`path_array_gen` collects the flow files of all given paths: those of a time range when there is one
and the path is a directory, and else all that lie below the path. A path that is not for this
slave, that is malformed, or that does not exist is skipped.
-/

namespace Fdistdump.Paths
open LabelledTree Slots Time

/-- What lies at each path; the root of a tree that does not exist is missing. -/
abbrev FileSystem := Path → FileTree

def statOk (fs : FileSystem) (path : Path) : Bool :=
  statAccepts path && match fs path with
    | .leaf .missing => false
    | _ => true

/-- `S_ISDIR`. -/
def isDir : FileTree → Bool
  | .leaf .unreadable | .node _ => true
  | .leaf _ => false

section Loop

variable (fs : FileSystem) (worldRank : Int) (host : List Char) (timeBegin timeEnd : Tm) (fuel : Nat)

/-- One round of the loop over the given paths; `fuel` bounds the rounds of `fill_from_time`. -/
def addFormat (paCtx : PathArrayCtx) (format : List Char) : Option PathArrayCtx :=
  let expanded := pathPreprocessor worldRank host format
  if !expanded.1 then some paCtx
  else
    let newPath := expanded.2.path
    if !statOk fs newPath then some paCtx
    else if 0 < tmDiff timeEnd timeBegin ∧ isDir (fs newPath) = true then
      (fillFromTime (statOk fs) newPath timeEnd timeBegin fuel []).map fun s =>
        s.names.foldl addPath paCtx
    else some (fillFromPath { paCtx } newPath (fs newPath)).paCtx

def pathArrayGen (paths : List (List Char)) : Option PathArrayCtx :=
  paths.foldlM (addFormat fs worldRank host timeBegin timeEnd fuel) .init

end Loop

/-! ### What a path contributes -/

/-- The starts of the rotation intervals between the two times. -/
def timeSlots (timeBegin timeEnd : Tm) : List Int :=
  slots flowFileRotationInterval (calendarTime timeBegin)
    (calendarTime timeBegin + tmDiff timeEnd timeBegin)

def foundFiles (fs : FileSystem) (timeBegin timeEnd : Tm) (path : Path) : List Path :=
  if 0 < tmDiff timeEnd timeBegin ∧ isDir (fs path) = true then
    ((timeSlots timeBegin timeEnd).map (flowFile path)).filter (statOk fs)
  else filePaths (leaves enter path (fs path))

/-- The format is for this slave, and expands to the path. -/
def Expands (rank : Nat) (host format : List Char) (path : Path) : Prop :=
  format.length < pathMax ∧ path.length < pathMax ∧ ∃ body, Targets rank format body ∧
    expansion host body = some path

inductive Contributes (fs : FileSystem) (rank : Nat) (host : List Char) (timeBegin timeEnd : Tm)
    (format : List Char) :
    List Path → Prop
  | files {path : Path} (expands : Expands rank host format path) (exist : statOk fs path = true) :
      Contributes fs rank host timeBegin timeEnd format (foundFiles fs timeBegin timeEnd path)
  | skipped (none : ∀ path, Expands rank host format path → statOk fs path = false) :
      Contributes fs rank host timeBegin timeEnd format []

/-- The format is expanded as it says, and the names below its path are short enough. -/
structure Tame (fs : FileSystem) (rank : Nat) (host : List Char) (timeBegin timeEnd : Tm)
    (format : List Char) : Prop where
  law : ExpansionLaw rank host format
  short : ∀ path, Expands rank host format path → Short path (fs path)
  fits : ∀ path, Expands rank host format path → ∀ t ∈ timeSlots timeBegin timeEnd, NameFits path t

variable {fs : FileSystem} {rank : Nat} {host : List Char} {timeBegin timeEnd : Tm} {fuel : Nat}

theorem fillFromTime_slots (exist : Path → Bool) (path : Path) (normalBegin : timeBegin.Normalised)
    (normalEnd : timeEnd.Normalised) (fits : ∀ t ∈ timeSlots timeBegin timeEnd, NameFits path t)
    (enough : (timeSlots timeBegin timeEnd).length ≤ fuel) :
    ∃ s, fillFromTime exist path timeEnd timeBegin fuel [] = some s ∧
      s.names = ((timeSlots timeBegin timeEnd).map (flowFile path)).filter exist := by
  have left : wrapInt (calendarTime timeEnd - calendarTime timeBegin) =
      calendarTime timeBegin + tmDiff timeEnd timeBegin - calendarTime timeBegin := by
    rw [tmDiff_eq normalEnd normalBegin]
    omega
  obtain ⟨ctx, result⟩ :=
    fillLoop_eq exist path (s := { ctx := timeBegin, tried := [], names := [] }) normalEnd
    (gmtime_calendarTime normalBegin).symm left fits (by simpa [timeSlots, slots] using enough)
  exact ⟨_, result, List.nil_append _⟩

/-- The times are those of a range, or there is none. -/
def Timed (timeBegin timeEnd : Tm) : Prop :=
  0 < tmDiff timeEnd timeBegin → timeBegin.Normalised ∧ timeEnd.Normalised

theorem statOk_ne_nil {path : Path} (exist : statOk fs path = true) : path ≠ [] := by
  rintro rfl
  cases exist

theorem addFormat_files (timed : Timed timeBegin timeEnd)
    (enough : (timeSlots timeBegin timeEnd).length ≤ fuel)
    {format : List Char} {path : Path} (exist : statOk fs path = true) (short : Short path (fs path))
    (fits : ∀ t ∈ timeSlots timeBegin timeEnd, NameFits path t)
    (accepted : (pathPreprocessor rank host format).1 = true)
    (same : (pathPreprocessor rank host format).2.path = path) (paCtx : PathArrayCtx) :
    addFormat fs rank host timeBegin timeEnd fuel paCtx format =
      some ((foundFiles fs timeBegin timeEnd path).foldl addPath paCtx) := by
  simp only [addFormat, accepted, same, exist, Bool.not_true, Bool.false_eq_true, if_false]
  unfold foundFiles
  split
  · rename_i range
    obtain ⟨normalBegin, normalEnd⟩ := timed range.1
    obtain ⟨s, result, names⟩ := fillFromTime_slots (statOk fs) path normalBegin normalEnd fits enough
    rw [result, Option.map_some, names]
  · rw [fillFromPath_paCtx _ path (statOk_ne_nil exist) (fs path) short]

theorem addFormat_contributes (timed : Timed timeBegin timeEnd)
    (enough : (timeSlots timeBegin timeEnd).length ≤ fuel)
    {format : List Char} (tame : Tame fs rank host timeBegin timeEnd format) (paCtx : PathArrayCtx) :
    ∃ part, Contributes fs rank host timeBegin timeEnd format part ∧
      addFormat fs rank host timeBegin timeEnd fuel paCtx format = some (part.foldl addPath paCtx) := by
  have law := tame.law.expands
  cases accepted : (pathPreprocessor rank host format).1 with
  | false =>
    refine ⟨[], .skipped ?_, by simp [addFormat, accepted]⟩
    intro path expands
    have goes := ((law path).mpr expands).1
    rw [accepted] at goes
    cases goes
  | true =>
    have expands := (law _).mp ⟨accepted, rfl⟩
    cases exist : statOk fs (pathPreprocessor rank host format).2.path with
    | false =>
      refine ⟨[], .skipped ?_, by simp [addFormat, accepted, exist]⟩
      intro path expands'
      rwa [← ((law path).mpr expands').2]
    | true =>
      exact ⟨_, .files expands exist, addFormat_files timed enough exist (tame.short _ expands)
        (tame.fits _ expands)
        accepted rfl paCtx⟩

theorem foldlM_contributes (timed : Timed timeBegin timeEnd)
    (enough : (timeSlots timeBegin timeEnd).length ≤ fuel)
    (paths : List (List Char)) {ctx : PathArrayCtx} {stored : List Path} (holds : ctx.Holds stored)
    (tame : ∀ format ∈ paths, Tame fs rank host timeBegin timeEnd format) :
    ∃ parts ctx', List.Forall₂ (Contributes fs rank host timeBegin timeEnd) paths parts ∧
      paths.foldlM (addFormat fs rank host timeBegin timeEnd fuel) ctx = some ctx' ∧
      ctx'.Holds (stored ++ parts.flatten) := by
  induction paths generalizing ctx stored with
  | nil => exact ⟨[], ctx, .nil, rfl, by simpa using holds⟩
  | cons format paths ih =>
    obtain ⟨part, contributes, added⟩ :=
      addFormat_contributes timed enough (tame format List.mem_cons_self) ctx
    obtain ⟨parts, ctx', rest, run, holds'⟩ := ih (holds.addPaths part)
      fun format member => tame format (List.mem_cons_of_mem _ member)
    refine ⟨part :: parts, ctx', .cons contributes rest, ?_, ?_⟩
    · rw [List.foldlM_cons, added]
      exact run
    · rwa [List.flatten_cons, ← List.append_assoc]

/-- The array holds the files of all given paths, one path after the other, and has grown as needed. -/
theorem path_array_gen_collects (timed : Timed timeBegin timeEnd)
    (enough : (timeSlots timeBegin timeEnd).length ≤ fuel) {paths : List (List Char)}
    (tame : ∀ format ∈ paths, Tame fs rank host timeBegin timeEnd format) :
    ∃ parts ctx, List.Forall₂ (Contributes fs rank host timeBegin timeEnd) paths parts ∧
      pathArrayGen fs rank host timeBegin timeEnd fuel paths = some ctx ∧ ctx.Holds parts.flatten :=
  foldlM_contributes timed enough paths PathArrayCtx.holds_init tame

/-! ### A time point -/

theorem timeSlots_interval (time : Int) :
    timeSlots (gmtime time) (gmtime (time + flowFileRotationInterval)) = [time] := by
  rw [timeSlots, tmDiff_interval, calendarTime_gmtime,
    slots_of_lt interval_pos (by unfold flowFileRotationInterval; omega),
    slots_of_le interval_pos (Int.le_refl _)]

theorem Contributes.single {time : Int} {format : List Char} {part : List Path} {path : Path}
    (law : ExpansionLaw rank host format)
    (contributes : Contributes fs rank host (gmtime time) (gmtime (time + flowFileRotationInterval))
      format part)
    (expands : Expands rank host format path) (exist : statOk fs path = true)
    (dir : isDir (fs path) = true) :
    part = [flowFile path time].filter (statOk fs) := by
  cases contributes with
  | files expands' =>
    obtain rfl := ((law.expands _).mpr expands).2.symm.trans ((law.expands _).mpr expands').2
    have range : 0 < tmDiff (gmtime (time + flowFileRotationInterval)) (gmtime time) := by
      rw [tmDiff_interval]
      exact interval_pos
    rw [foundFiles, if_pos ⟨range, dir⟩, timeSlots_interval, List.map_singleton]
  | skipped none =>
    rw [none path expands] at exist
    cases exist

/-- A time point selects the rotation interval that holds it, from one multiple of the interval to
the next, and with it one file in each given directory. -/
theorem time_point_single_file (timePoint : Tm) (enough : 300 ≤ fuel) :
    ∃ timeBegin timeEnd, setTimePoint fuel timePoint = some (timeBegin, timeEnd) ∧
      (flowFileRotationInterval : Int) ∣ calendarTime timeBegin ∧
      calendarTime timeEnd = calendarTime timeBegin + flowFileRotationInterval ∧
      calendarTime timeBegin ≤ calendarTime timePoint ∧ calendarTime timePoint < calendarTime timeEnd ∧
      ∀ (fs : FileSystem) (rank : Nat) (host : List Char) (paths : List (List Char)),
        (∀ format ∈ paths, Tame fs rank host timeBegin timeEnd format) →
          ∃ parts ctx, pathArrayGen fs rank host timeBegin timeEnd fuel paths = some ctx ∧
            ctx.Holds parts.flatten ∧
            List.Forall₂ (fun format part => ∀ path, Expands rank host format path →
              statOk fs path = true → isDir (fs path) = true →
                part = [flowFile path (calendarTime timeBegin)].filter (statOk fs)) paths parts := by
  obtain ⟨aligned, low⟩ := (floorTo_isGreatest interval_pos (calendarTime timePoint)).1
  refine ⟨_, _, setTimePoint_eq timePoint enough, ?_, ?_, ?_, ?_, ?_⟩
  · rw [calendarTime_gmtime]
    exact aligned
  · rw [calendarTime_gmtime, calendarTime_gmtime]
  · rw [calendarTime_gmtime]
    exact low
  · rw [calendarTime_gmtime]
    unfold alignedBegin
    simp only [floorTo, flowFileRotationInterval]
    omega
  · intro fs rank host paths tame
    rw [calendarTime_gmtime]
    have timed : Timed (gmtime (alignedBegin timePoint))
        (gmtime (alignedBegin timePoint + flowFileRotationInterval)) :=
      fun _ => ⟨gmtime_normalised _, gmtime_normalised _⟩
    have rounds : (timeSlots (gmtime (alignedBegin timePoint))
        (gmtime (alignedBegin timePoint + flowFileRotationInterval))).length ≤ fuel := by
      rw [timeSlots_interval, List.length_singleton]
      omega
    obtain ⟨parts, ctx, contributes, run, holds⟩ :=
      foldlM_contributes timed rounds paths PathArrayCtx.holds_init tame
    refine ⟨parts, ctx, run, holds, ?_⟩
    refine ((List.forall₂_and_left _ _).mpr ⟨tame, contributes⟩).imp ?_
    rintro format part ⟨tame, contributes⟩ path expands exist dir
    exact contributes.single tame.law expands exist dir

/-! ### A slave with one directory -/

theorem expansion_plain {format : List Char} (plain : '%' ∉ format) :
    expansion host format = some format := by
  induction format with
  | nil => rfl
  | cons c rest ih =>
    rw [List.mem_cons, not_or] at plain
    rw [expansion_ordinary (Ne.symm plain.1), ih plain.2, Option.map_some]

theorem targets_plain {format body : List Char} (plain : '%' ∉ format)
    (targets : Targets rank format body) :
    body = format := by
  cases targets with
  | all => rfl
  | one digits => exact absurd List.mem_cons_self plain

theorem expands_plain {format : List Char} (plain : '%' ∉ format) {path : Path} :
    Expands rank host format path ↔ format.length < pathMax ∧ path = format := by
  constructor
  · rintro ⟨short, -, body, targets, expands⟩
    rw [targets_plain plain targets, expansion_plain plain] at expands
    exact ⟨short, (Option.some.inj expands).symm⟩
  · rintro ⟨short, rfl⟩
    exact ⟨short, short, path, .all path, expansion_plain plain⟩

theorem expansionLaw_plain {format : List Char} (plain : '%' ∉ format)
    (short : format.length < pathMax) :
    ExpansionLaw rank host format := by
  have result : pathPreprocessor rank host format = (true, PathBuff.strcat {} format) := by
    rw [pathPreprocessor_plain short, expandLoop_of_none (Args.strchr_eq_none.mpr plain)]
    rintro digit rest rfl
    exact absurd List.mem_cons_self plain
  refine ⟨?_, fun path => ?_⟩
  · rw [result, PathBuff.strcat]
    simp only [List.length_nil]
    omega
  · have spelled : Expands rank host format path ↔ _ := expands_plain plain
    rw [result, PathBuff.strcat, List.nil_append]
    refine Iff.trans ?_ spelled.symm
    exact ⟨fun same => ⟨short, same.2.symm⟩, fun same => ⟨rfl, same.2.symm⟩⟩

/-- A directory with a file; all other paths are files. -/
def oneDirectory : FileSystem := fun path => if path = ['d'] then .node [(['f'], .leaf .file)]
    else .leaf .file

theorem oneDirectory_tame {timeBegin timeEnd : Tm}
    (fits : ∀ t ∈ timeSlots timeBegin timeEnd, NameFits ['d'] t) :
    ∀ format ∈ [['d']], Tame oneDirectory 1 [] timeBegin timeEnd format := by
  intro format member
  obtain rfl := List.mem_singleton.mp member
  have plain : '%' ∉ ['d'] := by decide
  refine ⟨expansionLaw_plain plain (by decide), ?_, ?_⟩
  · intro path expands
    obtain ⟨-, rfl⟩ := (expands_plain plain).mp expands
    refine Short.node (by decide) ?_
    intro entry member _
    obtain rfl := List.mem_singleton.mp member
    exact .leaf (by decide)
  · intro path expands
    obtain ⟨-, rfl⟩ := (expands_plain plain).mp expands
    exact fits

theorem path_array_gen_collects_directory :
    ∃ parts ctx, List.Forall₂ (Contributes oneDirectory 1 [] (gmtime 0) (gmtime 300)) [['d']] parts ∧
      pathArrayGen oneDirectory 1 [] (gmtime 0) (gmtime 300) 1 [['d']] = some ctx ∧
      ctx.Holds parts.flatten := by
  have slot : timeSlots (gmtime 0) (gmtime 300) = [0] := timeSlots_interval 0
  refine path_array_gen_collects (fun _ => ⟨gmtime_normalised _, gmtime_normalised _⟩)
    (by rw [slot]; decide) ?_
  apply oneDirectory_tame
  rw [slot]
  decide

theorem time_point_single_file_directory :
    ∃ timeBegin timeEnd, setTimePoint 300 (gmtime 100) = some (timeBegin, timeEnd) ∧
    calendarTime timeBegin = 0 ∧
      ∃ ctx : PathArrayCtx, pathArrayGen oneDirectory 1 [] timeBegin timeEnd 300 [['d']] = some ctx ∧
        ctx.Holds [flowFile ['d'] 0] := by
  obtain ⟨timeBegin, timeEnd, point, -, -, -, -, files⟩ :=
    time_point_single_file (gmtime 100) (Nat.le_refl 300)
  have start : alignedBegin (gmtime 100) = 0 := by
    rw [alignedBegin, calendarTime_gmtime]
    rfl
  rw [setTimePoint_eq _ (Nat.le_refl 300), start] at point
  obtain ⟨rfl, rfl⟩ := Prod.mk.inj (Option.some.inj point)
  obtain ⟨parts, ctx, run, holds, selected⟩ := files oneDirectory 1 [] [['d']] (oneDirectory_tame (by
    rw [timeSlots_interval]
    decide))
  rw [calendarTime_gmtime] at selected
  cases selected with
  | @cons _ part _ _ single rest =>
    cases rest
    have file : part = [flowFile ['d'] 0] :=
      single ['d'] ((expands_plain (by decide)).mpr ⟨by decide, rfl⟩) rfl rfl
    rw [file] at holds
    exact ⟨_, _, setTimePoint_eq _ (Nat.le_refl 300) |>.trans (by rw [start]),
      calendarTime_gmtime 0, ctx, run, holds⟩

end Fdistdump.Paths
