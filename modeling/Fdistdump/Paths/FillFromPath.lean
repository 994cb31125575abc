import Fdistdump.Library.LabelledTree
import Fdistdump.Paths.PathArray

/-!
# Flow files of a directory

`fill_from_path` walks a directory tree and adds what is not a directory. Names that start with a
dot or with the bfindex prefix are ignored, together with everything below them. As long as the
paths are short, the walk is that of `LabelledTree.leaves`, and adds the files in the order of their
positions.
-/

namespace Fdistdump.Paths
open LabelledTree Time

/-- What `stat` and `opendir` find out about a file that has no entries to read. -/
inductive FileType where
  | missing
  | file
  | unreadable
deriving DecidableEq

/-- Entries are in the order of `readdir`. -/
abbrev FileTree := Tree FileType (List Char)

def statAccepts (path : Path) : Bool := path ≠ [] && path.length < pathMax

def bfindexFileNamePrefix : List Char := "bfi.".toList

/-- Hidden files and bfindex files. -/
def isIgnored (name : List Char) : Bool := name.head? = some '.' || bfindexFileNamePrefix.isPrefixOf name

def isTooLong (path : Path) (name : List Char) : Bool := pathMax < path.length + name.length + 1

/-- An entry that the length check comes to, and the `new_path` that is constructed for it unless it
is skipped. -/
structure Examined where
  parent : Path
  name : List Char
  newPath : Option Path
deriving DecidableEq

/-- The path array, and the entries that have been examined so far. -/
structure FillRun where
  paCtx : PathArrayCtx
  examined : List Examined := []
deriving DecidableEq

def FillRun.examine (run : FillRun) (parent : Path) (name : List Char) (newPath : Option Path) :
    FillRun :=
  { run with examined := run.examined ++ [{ parent, name, newPath }] }

def childPath (path : Path) (name : List Char) : Path := withSlash path ++ name

mutual

def fillFromPath (run : FillRun) (path : Path) : FileTree → FillRun
  | .leaf type =>
    if statAccepts path && type = .file then { run with paCtx := addPath run.paCtx path } else run
  | .node entries => if statAccepts path then fillFromDir run path entries else run

/-- The loop over the entries of a directory. -/
def fillFromDir (run : FillRun) (path : Path) : List (List Char × FileTree) → FillRun
  | [] => run
  | (name, child) :: entries =>
    if isIgnored name then fillFromDir run path entries
    else if isTooLong path name then fillFromDir (run.examine path name none) path entries
    else
      let newPath := childPath path name
      fillFromDir (fillFromPath (run.examine path name (some newPath)) newPath child) path entries

end

/-! ### The walk -/

/-- An entry is entered under its path, unless it is ignored. -/
def enter (path : Path) (name : List Char) : Option Path :=
  if isIgnored name then none else some (childPath path name)

def filePaths (found : List (List Nat × Path × FileType)) : List Path :=
  (found.filter fun l => l.2.2 = .file).map (·.2.1)

def Short (path : Path) (tree : FileTree) : Prop :=
  ∀ position found child, locate enter path tree position = some (found, child) → found.length < pathMax

theorem length_childPath (path : Path) (name : List Char) :
    (childPath path name).length = path.length + name.length + if path.getLast? = some '/' then 0
      else 1 := by
  unfold childPath withSlash
  split
  · rw [List.length_append, Nat.add_zero]
  · rw [List.length_append, List.length_append, List.length_singleton, Nat.add_right_comm]

theorem length_le_childPath (path : Path) (name : List Char) :
    path.length + name.length ≤ (childPath path name).length := by
  rw [length_childPath]
  omega

theorem childPath_ne_nil {path : Path} (some : path ≠ []) (name : List Char) :
    childPath path name ≠ [] := by
  intro empty
  have length := length_le_childPath path name
  rw [empty] at length
  have positive := List.length_pos_iff.mpr some
  rw [List.length_nil] at length
  omega

theorem statAccepts_iff {path : Path} : statAccepts path = true ↔ path ≠ [] ∧ path.length < pathMax := by
  rw [statAccepts, Bool.and_eq_true, decide_eq_true_eq, decide_eq_true_eq]

section Step

variable {path : Path} {name : List Char} {child : FileTree} {entries : List (List Char × FileTree)}

theorem Short.self {tree : FileTree} (short : Short path tree) : path.length < pathMax :=
  short [] path tree rfl

theorem Short.first (short : Short path (.node ((name, child) :: entries)))
    (visible : isIgnored name = false) :
    Short (childPath path name) child := by
  intro position found below at'
  refine short (0 :: position) found below ?_
  rw [locate_first, enter, visible]
  exact at'

theorem Short.later (short : Short path (.node ((name, child) :: entries))) :
    Short path (.node entries) := by
  rintro (_ | ⟨i, position⟩) found below at'
  · obtain ⟨rfl, -⟩ := Prod.mk.inj (Option.some.inj at')
    exact short.self
  · exact short ((i + 1) :: position) found below at'

theorem Short.leaf {type : FileType} (short : path.length < pathMax) : Short path (.leaf type) := by
  rintro (_ | ⟨i, position⟩) found below at'
  · obtain ⟨rfl, -⟩ := Prod.mk.inj (Option.some.inj at')
    exact short
  · cases at'

theorem Short.node (short : path.length < pathMax)
    (all : ∀ entry ∈ entries, isIgnored entry.1 = false → Short (childPath path entry.1) entry.2) :
    Short path (.node entries) := by
  rintro (_ | ⟨i, position⟩) found below at'
  · obtain ⟨rfl, -⟩ := Prod.mk.inj (Option.some.inj at')
    exact short
  · obtain ⟨entry, path', here, entered, at'⟩ := locate_cons.mp at'
    unfold enter at entered
    split at entered
    · cases entered
    · rename_i visible
      cases entered
      exact all entry (List.mem_of_getElem? here) (Bool.eq_false_iff.mpr visible) position
        found below at'

theorem not_isTooLong (short : (childPath path name).length < pathMax) :
    isTooLong path name = false := by
  have length := length_le_childPath path name
  rw [isTooLong, decide_eq_false_iff_not]
  omega

end Step

theorem filePaths_append (found found' : List (List Nat × Path × FileType)) :
    filePaths (found ++ found') = filePaths found ++ filePaths found' := by
  unfold filePaths
  rw [List.filter_append, List.map_append]

theorem filePaths_below (i : Nat) (found : List (List Nat × Path × FileType)) :
    filePaths (found.map fun l => (i :: l.1, l.2)) = filePaths found := by
  unfold filePaths
  rw [List.filter_map, List.map_map]
  rfl

mutual

theorem fillFromPath_paCtx (run : FillRun) (path : Path) (some : path ≠ []) :
    ∀ (tree : FileTree), Short path tree →
    (fillFromPath run path tree).paCtx = (filePaths (leaves enter path tree)).foldl addPath run.paCtx
  | .leaf type, short => by
    have accepts := statAccepts_iff.mpr ⟨some, short.self⟩
    rw [fillFromPath, accepts, leaves]
    cases type <;> rfl
  | .node entries, short => by
    have accepts := statAccepts_iff.mpr ⟨some, short.self⟩
    rw [fillFromPath, if_pos accepts, leaves]
    exact fillFromDir_paCtx run path some 0 entries short

theorem fillFromDir_paCtx (run : FillRun) (path : Path) (some : path ≠ []) (i : Nat) :
    ∀ entries : List (List Char × FileTree), Short path (.node entries) →
      (fillFromDir run path entries).paCtx = (filePaths (leavesFrom enter path i entries)).foldl
        addPath run.paCtx
  | [], _ => rfl
  | (name, child) :: entries, short => by
    have later := fun run => fillFromDir_paCtx run path some (i + 1) entries short.later
    rw [fillFromDir, leavesFrom, enter]
    cases visible : isIgnored name with
    | true =>
      rw [if_pos rfl, if_pos rfl]
      exact later run
    | false =>
      have fits := short.first visible
      have first := fun run => fillFromPath_paCtx run (childPath path name)
        (childPath_ne_nil some name) child fits
      rw [if_neg Bool.false_ne_true, if_neg Bool.false_ne_true, not_isTooLong fits.self,
        if_neg Bool.false_ne_true,
        later, first, Option.elim_some, filePaths_append, filePaths_below, List.foldl_append]
      rfl

end

/-! ### What is collected -/

/-- The names that are added are the paths of the files that no ignored component leads to, each
once and in the order of their positions. What was stored before stays, and the array is large
enough after each of them. -/
def Collects (ctx : PathArrayCtx) (stored : List Path) (path : Path) (tree : FileTree) : Prop :=
  ∃ (positions : List (List Nat)) (added : List Path), positions.Pairwise (· < ·) ∧
    (∀ position, position ∈ positions ↔ ∃ found, locate enter path tree position = some
      (found, .leaf .file)) ∧
    positions.map (locate enter path tree) = added.map (fun found => some (found, .leaf .file)) ∧
    (fillFromPath { paCtx := ctx } path tree).paCtx = added.foldl addPath ctx ∧
    (added.foldl addPath ctx).Holds (stored ++ added) ∧
    ∀ n, ((added.take n).foldl addPath ctx).Holds (stored ++ added.take n)

theorem fill_from_path_collects {ctx : PathArrayCtx} {stored : List Path} (holds : ctx.Holds stored)
    {path : Path}
    (some : path ≠ []) {tree : FileTree} (short : Short path tree) : Collects ctx stored path tree := by
  have files (l : List Nat × Path × FileType) : l ∈ (leaves enter path tree).filter
    (fun l => l.2.2 = .file) ↔
      l.2.2 = .file ∧ locate enter path tree l.1 = .some (l.2.1, .leaf .file) := by
    obtain ⟨position, found, type⟩ := l
    rw [List.mem_filter, decide_eq_true_eq, mem_leaves]
    constructor
    · rintro ⟨at', rfl⟩
      exact ⟨rfl, at'⟩
    · rintro ⟨rfl, at'⟩
      exact ⟨at', rfl⟩
  refine ⟨((leaves enter path tree).filter fun l => l.2.2 = .file).map (·.1),
    filePaths (leaves enter path tree),
    ?_, fun position => ⟨?_, ?_⟩, ?_, fillFromPath_paCtx _ path some tree short, holds.addPaths _,
    fun n => holds.addPaths _⟩
  · exact List.pairwise_map.mpr ((leaves_sorted path tree).sublist List.filter_sublist)
  · intro member
    obtain ⟨l, found, rfl⟩ := List.mem_map.mp member
    exact ⟨l.2.1, ((files l).mp found).2⟩
  · intro ⟨found, at'⟩
    exact List.mem_map.mpr ⟨(position, found, .file), (files _).mpr ⟨rfl, at'⟩, rfl⟩
  · rw [filePaths, List.map_map, List.map_map]
    exact List.map_congr_left fun l member => ((files l).mp member).2

/-- A file, a hidden file and an empty directory. -/
theorem fill_from_path_collects_three :
    Collects .init []
      ['d'] (.node [(['f'], .leaf .file), (['.', 'h'], .leaf .file), (['s'], .node [])]) := by
  refine fill_from_path_collects PathArrayCtx.holds_init (by decide) (Short.node (by decide) ?_)
  simp only [List.forall_mem_cons, List.not_mem_nil, false_implies, implies_true, and_true]
  refine ⟨fun _ => .leaf (by decide), ?_, fun _ => .node (by decide) (List.forall_mem_nil _)⟩
  intro visible
  exact absurd visible (by decide)

end Fdistdump.Paths
