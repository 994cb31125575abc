import Fdistdump.Paths.FillFromPath

/-!
# Lengths of child paths

`fill_from_path` checks the length of a child path without the slash that it may put between the
parent and the name. One path is too long for the array by exactly this slash.
-/

namespace Fdistdump.Paths
open LabelledTree Time

/-- What is constructed is the path of the child and fits into the array; what does not fit is
skipped. -/
structure ChildPathsFit (examined : List Examined) : Prop where
  fits : ∀ e ∈ examined, ∀ newPath, e.newPath = some newPath →
    newPath = childPath e.parent e.name ∧ newPath.length + 1 ≤ pathMax
  skipped : ∀ e ∈ examined, pathMax < (childPath e.parent e.name).length + 1 → e.newPath = none

/-- The slash is the one byte too many. -/
def SlashTooMany (parent : Path) (name : List Char) : Prop :=
  (∃ c, parent.getLast? = some c ∧ c ≠ '/') ∧ parent.length + name.length + 1 = pathMax

/-- An entry of a directory that no ignored component leads to. -/
def Below (path : Path) (tree : FileTree) (parent : Path) (name : List Char) : Prop :=
  ∃ position entries child, locate enter path tree position = some (parent, .node entries) ∧
    (name, child) ∈ entries ∧ isIgnored name = false

/-- What happens to an entry that is not ignored. -/
def examination (parent : Path) (name : List Char) : Examined :=
  { parent, name, newPath := if isTooLong parent name then none else some (childPath parent name) }

variable {path parent : Path} {name name' : List Char} {child : FileTree}
  {entries : List (List Char × FileTree)}

theorem Below.here (member : (name, child) ∈ entries) (visible : isIgnored name = false) :
    Below path (.node entries) path name := ⟨[], entries, child, rfl, member, visible⟩

theorem Below.first (visible : isIgnored name = false)
    (below : Below (childPath path name) child parent name') :
    Below path (.node ((name, child) :: entries)) parent name' := by
  obtain ⟨position, entries', child', at', member, visible'⟩ := below
  refine ⟨0 :: position, entries', child', ?_, member, visible'⟩
  rw [locate_first, enter, visible]
  exact at'

theorem Below.later {entry : List Char × FileTree} (below : Below path (.node entries) parent name) :
    Below path (.node (entry :: entries)) parent name := by
  obtain ⟨_ | ⟨i, position⟩, entries', child, at', member, visible⟩ := below
  · cases at'
    exact .here (List.mem_cons_of_mem _ member) visible
  · exact ⟨(i + 1) :: position, entries', child, at', member, visible⟩

theorem below_cons : Below path (.node ((name, child) :: entries)) parent name' ↔
    (isIgnored name = false ∧
      (parent = path ∧ name' = name ∨ Below (childPath path name) child parent name')) ∨
      Below path (.node entries) parent name' := by
  constructor
  · rintro ⟨_ | ⟨_ | i, position⟩, entries', child', at', member, visible⟩
    · cases at'
      rcases List.mem_cons.mp member with same | member
      · cases same
        exact .inl ⟨visible, .inl ⟨rfl, rfl⟩⟩
      · exact .inr (.here member visible)
    · rw [locate_first, enter] at at'
      split at at'
      · cases at'
      · rename_i visible'
        exact .inl ⟨Bool.eq_false_iff.mpr visible',
          .inr ⟨position, entries', child', at', member, visible⟩⟩
    · exact .inr ⟨i :: position, entries', child', at', member, visible⟩
  · rintro (⟨visible, ⟨rfl, rfl⟩ | below⟩ | below)
    · exact .here List.mem_cons_self visible
    · exact .first visible below
    · exact .later below

theorem length_le_of_locate {position : List Nat} {tree found : FileTree}
    (at' : locate enter path tree position = some (parent, found)) : path.length ≤ parent.length := by
  induction position generalizing path tree with
  | nil =>
    cases at'
    exact Nat.le_refl _
  | cons i position ih =>
    cases tree with
    | leaf type => cases at'
    | node entries =>
      obtain ⟨entry, path', -, entered, at'⟩ := locate_cons.mp at'
      unfold enter at entered
      split at entered
      · cases entered
      · cases entered
        have longer := length_le_childPath path entry.1
        exact (Nat.le_of_add_right_le longer).trans (ih at')

theorem not_below_nil : ¬ Below path (.node []) parent name := by
  rintro ⟨_ | ⟨i, position⟩, entries, child, at', member, -⟩
  · cases at'
    cases member
  · cases at'

theorem not_below_leaf {type : FileType} : ¬ Below path (.leaf type) parent name := by
  rintro ⟨_ | ⟨i, position⟩, entries, child, at', -⟩ <;> cases at'

/-! ### What is examined -/

/-- The directories whose paths are too long are not read. -/
def Examines (path : Path) (tree : FileTree) (e : Examined) : Prop :=
  Below path tree e.parent e.name ∧ e.parent.length < pathMax ∧ e = examination e.parent e.name

theorem not_examines_long {tree : FileTree} {e : Examined} (long : pathMax ≤ path.length) :
    ¬ Examines path tree e := by
  rintro ⟨⟨position, entries, child, at', -⟩, short, -⟩
  exact absurd (length_le_of_locate at') (by omega)

theorem examines_cons {e : Examined} (short : path.length < pathMax) :
    Examines path (.node ((name, child) :: entries)) e ↔
      (isIgnored name = false ∧ (e = examination path name ∨ Examines (childPath path name) child e)) ∨
        Examines path (.node entries) e := by
  unfold Examines
  rw [below_cons]
  constructor
  · rintro ⟨⟨visible, ⟨parent, same⟩ | below⟩ | below, short', examined⟩
    · rw [parent, same] at examined
      exact .inl ⟨visible, .inl examined⟩
    · exact .inl ⟨visible, .inr ⟨below, short', examined⟩⟩
    · exact .inr ⟨below, short', examined⟩
  · rintro (⟨visible, rfl | ⟨below, short', examined⟩⟩ | ⟨below, short', examined⟩)
    · exact ⟨.inl ⟨visible, .inl ⟨rfl, rfl⟩⟩, short, rfl⟩
    · exact ⟨.inl ⟨visible, .inr below⟩, short', examined⟩
    · exact ⟨.inr below, short', examined⟩

theorem mem_examine {run : FillRun} {newPath : Option Path} {e : Examined} :
    e ∈ (run.examine parent name newPath).examined ↔ e ∈ run.examined ∨ e = ⟨parent, name, newPath⟩ := by
  rw [FillRun.examine, List.mem_append, List.mem_singleton]

mutual

theorem mem_fillFromPath (run : FillRun) (path : Path) (nonempty : path ≠ []) : ∀ (tree : FileTree)
    {e : Examined},
    e ∈ (fillFromPath run path tree).examined ↔ e ∈ run.examined ∨ Examines path tree e
  | .leaf type, e => by
    have same : (fillFromPath run path (.leaf type)).examined = run.examined := by
      rw [fillFromPath]
      split <;> rfl
    rw [same, or_iff_left]
    exact fun ⟨below, _⟩ => not_below_leaf below
  | .node entries, e => by
    rw [fillFromPath]
    split
    · rename_i accepts
      exact mem_fillFromDir run path nonempty (statAccepts_iff.mp accepts).2 entries
    · rename_i refuses
      rw [statAccepts_iff, not_and, Nat.not_lt] at refuses
      rw [or_iff_left (not_examines_long (refuses nonempty))]

theorem mem_fillFromDir (run : FillRun) (path : Path) (nonempty : path ≠ [])
    (short : path.length < pathMax) :
    ∀ (entries : List (List Char × FileTree)) {e : Examined},
      e ∈ (fillFromDir run path entries).examined ↔ e ∈ run.examined ∨ Examines path (.node entries) e
  | [], e => (or_iff_left fun ⟨below, _⟩ => not_below_nil below).symm
  | (name, child) :: entries, e => by
    have later := fun run => mem_fillFromDir run path nonempty short entries (e := e)
    rw [fillFromDir, examines_cons short]
    cases visible : isIgnored name with
    | true =>
      rw [if_pos rfl, later]
      simp
    | false =>
      rw [if_neg Bool.false_ne_true]
      cases long : isTooLong path name with
      | true =>
        have longer := length_le_childPath path name
        have unread : ¬ Examines (childPath path name) child e := not_examines_long (by
          rw [isTooLong, decide_eq_true_eq] at long
          omega)
        rw [if_pos rfl, later, mem_examine, examination, long, if_pos rfl]
        simp [unread, or_assoc]
      | false =>
        have first := fun run => mem_fillFromPath run _ (childPath_ne_nil nonempty name) child (e := e)
        rw [if_neg Bool.false_ne_true, later, first, mem_examine, examination, long,
          if_neg Bool.false_ne_true]
        simp [or_assoc]

end

/-! ### The child paths that fit -/

theorem examination_fits (nonempty : parent ≠ []) (exact' : ¬ SlashTooMany parent name) {newPath : Path}
    (constructed : (examination parent name).newPath = some newPath) : newPath.length + 1 ≤ pathMax := by
  unfold examination isTooLong at constructed
  dsimp only at constructed
  split at constructed
  · cases constructed
  · rename_i accepted
    cases constructed
    rw [decide_eq_true_eq] at accepted
    have length := length_childPath parent name
    split at length
    · omega
    · rename_i noSlash
      have last : ∃ c, parent.getLast? = some c ∧ c ≠ '/' := by
        refine ⟨parent.getLast nonempty, List.getLast?_eq_some_getLast nonempty, fun slash => noSlash ?_⟩
        rw [List.getLast?_eq_some_getLast nonempty, slash]
      have unequal : parent.length + name.length + 1 ≠ pathMax := fun full => exact' ⟨last, full⟩
      omega

theorem examination_overruns (full : SlashTooMany parent name) :
    (examination parent name).newPath = some (childPath parent name) ∧
    (childPath parent name).length = pathMax := by
  obtain ⟨⟨c, last, noSlash⟩, full⟩ := full
  constructor
  · rw [examination, isTooLong, full, if_neg (by simp)]
  · rw [length_childPath, last, if_neg (fun slash => noSlash (Option.some.inj slash)), full]

theorem childPathsFit_below {ctx : PathArrayCtx} (nonempty : path ≠ []) {tree : FileTree}
    (fit : ChildPathsFit (fillFromPath { paCtx := ctx } path tree).examined)
    (below : Below path tree parent name) :
    ¬ SlashTooMany parent name := by
  intro full
  have short : parent.length < pathMax := by
    rw [← full.2]
    omega
  have member : examination parent name ∈ (fillFromPath { paCtx := ctx } path tree).examined :=
    (mem_fillFromPath _ path nonempty tree).mpr (.inr ⟨below, short, rfl⟩)
  obtain ⟨constructed, length⟩ := examination_overruns full
  have fits := (fit.fits _ member _ constructed).2
  omega

theorem below_ne_nil (nonempty : path ≠ []) {tree : FileTree}
    (below : Below path tree parent name) : parent ≠ [] := by
  obtain ⟨position, entries, child, at', -⟩ := below
  have longer := length_le_of_locate at'
  have positive := List.length_pos_iff.mpr nonempty
  rintro rfl
  rw [List.length_nil] at longer
  omega

/-- All child paths of a walk fit exactly when none of them is too long by its slash. -/
theorem child_paths_fit_iff (ctx : PathArrayCtx) {path : Path} (nonempty : path ≠ []) (tree : FileTree) :
    ChildPathsFit (fillFromPath { paCtx := ctx } path tree).examined ↔
      ∀ parent name, Below path tree parent name → ¬ SlashTooMany parent name := by
  refine ⟨fun fit parent name => childPathsFit_below nonempty fit, ?_⟩
  intro fine
  have fits : ∀ e ∈ (fillFromPath { paCtx := ctx } path tree).examined, ∀ newPath,
    e.newPath = some newPath →
      newPath = childPath e.parent e.name ∧ newPath.length + 1 ≤ pathMax := by
    intro e member newPath constructed
    obtain ⟨below, -, examined⟩ := ((mem_fillFromPath _ path nonempty tree).mp member).resolve_left
      List.not_mem_nil
    rw [examined] at constructed
    refine ⟨?_, examination_fits (below_ne_nil nonempty below) (fine _ _ below) constructed⟩
    unfold examination at constructed
    dsimp only at constructed
    split at constructed
    · cases constructed
    · exact (Option.some.inj constructed).symm
  refine ⟨fits, ?_⟩
  intro e member long
  cases constructed : e.newPath with
  | none => rfl
  | some newPath =>
    obtain ⟨rfl, short⟩ := fits e member newPath constructed
    omega

theorem child_paths_fit_iff_root :
    ChildPathsFit (fillFromPath { paCtx := .init } ['/'] (.node [(['d'], .node [])])).examined ↔
      ∀ parent name, Below ['/'] (.node [(['d'], .node [])]) parent name → ¬ SlashTooMany parent name :=
  child_paths_fit_iff .init (by decide) _

/-- A directory whose path has 4001 characters, none of them a slash at its end, and a name of 94
characters. -/
theorem child_path_overruns :
    ¬ ChildPathsFit (fillFromPath { paCtx := .init } (List.replicate 4000 '/' ++ ['d'])
      (.node [(List.replicate 94 'x', .leaf .file)])).examined := by
  have visible : isIgnored (List.replicate 94 'x') = false := by
    rw [isIgnored, List.replicate_succ]
    rfl
  intro fit
  refine childPathsFit_below (List.append_ne_nil_of_right_ne_nil _ (List.cons_ne_nil _ _)) fit
    (.here List.mem_cons_self visible) ⟨⟨'d', List.getLast?_concat, by decide⟩, ?_⟩
  rw [List.length_append, List.length_replicate, List.length_replicate]
  rfl

end Fdistdump.Paths
