import Fdistdump.Paths.FillFromPath
import Mathlib.Data.List.TakeWhile

/-!
# Paths of index files

`bfindex_flow_to_index_path` puts the bfindex prefix in the place of the flow file prefix, or in front of
a name without it. Two flow files of a directory share their index path when only the flow file prefix
tells them apart.
-/

namespace Fdistdump.Bfindex
open Paths Time

/-- `FLOW_FILE_NAME_PREFIX "."` -/
def flowFileNamePrefix : List Char := "lnf.".toList

/-- What follows the last slash, the whole path when there is none. -/
def fileName (path : Path) : List Char := (path.reverse.takeWhile (· ≠ '/')).reverse

def dirName (path : Path) : List Char := path.take (path.length - (fileName path).length)

def withoutPrefix (fileName : List Char) : List Char :=
  if flowFileNamePrefix.isPrefixOf fileName then fileName.drop flowFileNamePrefix.length else fileName

/-- `bfindex_flow_to_index_path`, when the memory for the path is allocated. -/
def bfindexFlowToIndexPath (flowFilePath : Path) : Path :=
  dirName flowFilePath ++ bfindexFileNamePrefix ++ withoutPrefix (fileName flowFilePath)

/-! ### Directories and names -/

theorem slash_notMem_fileName (path : Path) : '/' ∉ fileName path := by
  intro slash
  simpa using List.mem_takeWhile_imp (List.mem_reverse.mp slash)

/-- A directory's name is empty or ends with its slash. -/
def IsDir (dir : List Char) : Prop := dir = [] ∨ dir.getLast? = some '/'

theorem exists_dir (path : Path) : ∃ dir, IsDir dir ∧ dir ++ fileName path = path := by
  refine ⟨(path.reverse.dropWhile (· ≠ '/')).reverse, ?_, ?_⟩
  · have first := List.head?_dropWhile_not (· ≠ '/') path.reverse
    unfold IsDir
    rw [List.getLast?_reverse]
    cases rest : path.reverse.dropWhile (· ≠ '/') with
    | nil => exact Or.inl rfl
    | cons c _ =>
      rw [rest] at first
      simp only [List.head?_cons, ne_eq, decide_not, Bool.not_eq_false', decide_eq_true_eq] at first
      exact Or.inr (congrArg some first)
  · rw [fileName, ← List.reverse_append, List.takeWhile_append_dropWhile, List.reverse_reverse]

theorem fileName_append {dir name : List Char} (isDir : IsDir dir) (noSlash : '/' ∉ name) :
    fileName (dir ++ name) = name := by
  have stops : dir.reverse.takeWhile (· ≠ '/') = [] := by
    rcases isDir with rfl | last
    · rfl
    · obtain ⟨front, rfl⟩ := List.getLast?_eq_some_iff.mp last
      simp
  have all : ∀ c ∈ name.reverse, decide (c ≠ '/') = true := fun c member =>
    decide_eq_true fun slash => noSlash (slash ▸ List.mem_reverse.mp member)
  rw [fileName, List.reverse_append, List.takeWhile_append_of_pos all, stops, List.append_nil,
    List.reverse_reverse]

theorem dirName_append {dir name : List Char} (isDir : IsDir dir) (noSlash : '/' ∉ name) :
    dirName (dir ++ name) = dir := by
  rw [dirName, fileName_append isDir noSlash]
  exact List.take_left' (by rw [List.length_append]; omega)

theorem isDir_dirName (path : Path) : IsDir (dirName path) := by
  obtain ⟨dir, isDir, split⟩ := exists_dir path
  have same := dirName_append isDir (slash_notMem_fileName path)
  rw [split] at same
  exact same ▸ isDir

theorem dirName_append_fileName (path : Path) : dirName path ++ fileName path = path := by
  obtain ⟨dir, isDir, split⟩ := exists_dir path
  have same := dirName_append isDir (slash_notMem_fileName path)
  rw [split] at same
  rw [same, split]

/-! ### Index paths -/

theorem slash_notMem_withoutPrefix {name : List Char} (noSlash : '/' ∉ name) :
    '/' ∉ withoutPrefix name := by
  unfold withoutPrefix
  split
  · exact fun slash => noSlash (List.mem_of_mem_drop slash)
  · exact noSlash

theorem slash_notMem_indexName (path : Path) :
    '/' ∉ bfindexFileNamePrefix ++ withoutPrefix (fileName path) := by
  rw [List.mem_append]
  rintro (slash | slash)
  · exact absurd slash (by decide)
  · exact slash_notMem_withoutPrefix (slash_notMem_fileName path) slash

theorem fileName_indexPath (path : Path) :
    fileName (bfindexFlowToIndexPath path) = bfindexFileNamePrefix ++ withoutPrefix (fileName path) := by
  rw [bfindexFlowToIndexPath, List.append_assoc]
  exact fileName_append (isDir_dirName path) (slash_notMem_indexName path)

theorem dirName_indexPath (path : Path) : dirName (bfindexFlowToIndexPath path) = dirName path := by
  rw [bfindexFlowToIndexPath, List.append_assoc]
  exact dirName_append (isDir_dirName path) (slash_notMem_indexName path)

theorem indexPath_eq_iff (p q : Path) : bfindexFlowToIndexPath p = bfindexFlowToIndexPath q ↔
    dirName p = dirName q ∧ withoutPrefix (fileName p) = withoutPrefix (fileName q) := by
  constructor
  · intro same
    have name := congrArg fileName same
    rw [fileName_indexPath, fileName_indexPath] at name
    exact ⟨by rw [← dirName_indexPath, same, dirName_indexPath], List.append_cancel_left name⟩
  · intro ⟨dir, name⟩
    rw [bfindexFlowToIndexPath, bfindexFlowToIndexPath, dir, name]

/-- The second name is the flow file prefix and the first one, which has no such prefix itself. -/
def AddsPrefix (name prefixed : List Char) : Prop :=
  prefixed = flowFileNamePrefix ++ name ∧ ¬ flowFileNamePrefix <+: name

theorem withoutPrefix_append (name : List Char) : withoutPrefix (flowFileNamePrefix ++ name) = name := by
  rw [withoutPrefix, if_pos (List.isPrefixOf_iff_prefix.mpr (List.prefix_append _ _)), List.drop_left]

theorem withoutPrefix_of_not {name : List Char} (noPrefix : ¬ flowFileNamePrefix <+: name) :
    withoutPrefix name = name :=
  if_neg (mt List.isPrefixOf_iff_prefix.mp noPrefix)

theorem withoutPrefix_eq_iff (name other : List Char) :
    withoutPrefix name = withoutPrefix other ↔ name = other ∨ AddsPrefix name other ∨
      AddsPrefix other name := by
  unfold AddsPrefix
  by_cases here : flowFileNamePrefix <+: name
  · obtain ⟨rest, rfl⟩ := here
    rw [withoutPrefix_append]
    by_cases there : flowFileNamePrefix <+: other
    · obtain ⟨rest', rfl⟩ := there
      simp [withoutPrefix_append]
    · have differ : flowFileNamePrefix ++ rest ≠ other := fun same => there ⟨rest, same⟩
      simp [withoutPrefix_of_not there, there, differ, eq_comm]
  · rw [withoutPrefix_of_not here]
    by_cases there : flowFileNamePrefix <+: other
    · obtain ⟨rest, rfl⟩ := there
      have differ : name ≠ flowFileNamePrefix ++ rest := fun same => here ⟨rest, same.symm⟩
      simp [withoutPrefix_append, here, differ, eq_comm]
    · have left : name ≠ flowFileNamePrefix ++ other := fun same => here ⟨other, same.symm⟩
      have right : other ≠ flowFileNamePrefix ++ name := fun same => there ⟨name, same.symm⟩
      simp [withoutPrefix_of_not there, left, right]

/-! ### What `fill_from_path` collects -/

mutual

/-- The names that `readdir` returns. -/
def SlashFree : FileTree → Prop
  | .leaf _ => True
  | .node entries => SlashFreeEntries entries

def SlashFreeEntries : List (List Char × FileTree) → Prop
  | [] => True
  | (name, child) :: entries => '/' ∉ name ∧ SlashFree child ∧ SlashFreeEntries entries

end

/-- The added names are not those of index files. -/
def AddsNoIndex (stored : List Path) (ctx : PathArrayCtx) : Prop :=
  ∃ added, ctx.Holds (stored ++ added) ∧ ∀ found ∈ added, ¬ bfindexFileNamePrefix <+: fileName found

theorem AddsNoIndex.trans {stored : List Path} {ctx ctx' : PathArrayCtx} (first : AddsNoIndex stored ctx)
    (later : ∀ names, ctx.Holds names → AddsNoIndex names ctx') : AddsNoIndex stored ctx' := by
  obtain ⟨added, holds, free⟩ := first
  obtain ⟨more, holds', free'⟩ := later _ holds
  refine ⟨added ++ more, by rwa [← List.append_assoc], fun found member => ?_⟩
  rcases List.mem_append.mp member with old | new
  · exact free found old
  · exact free' found new

theorem addsNoIndex_none {stored : List Path} {ctx : PathArrayCtx} (holds : ctx.Holds stored) :
    AddsNoIndex stored ctx := ⟨[], by rwa [List.append_nil], List.forall_mem_nil _⟩

theorem fileName_childPath (path : Path) {name : List Char} (noSlash : '/' ∉ name) :
    fileName (childPath path name) = name := by
  refine fileName_append (Or.inr ?_) noSlash
  unfold withSlash
  split
  · assumption
  · exact List.getLast?_concat

mutual

theorem fillFromPath_addsNoIndex {stored : List Path} (run : FillRun)
    (holds : run.paCtx.Holds stored) (path : Path)
    (notIndex : ¬ bfindexFileNamePrefix <+: fileName path) :
    ∀ tree, SlashFree tree → AddsNoIndex stored (fillFromPath run path tree).paCtx
  | .leaf type, _ => by
    rw [fillFromPath]
    split
    · exact ⟨[path], holds.addPath path, List.forall_mem_singleton.mpr notIndex⟩
    · exact addsNoIndex_none holds
  | .node entries, slashFree => by
    rw [fillFromPath]
    split
    · exact fillFromDir_addsNoIndex run holds path entries slashFree
    · exact addsNoIndex_none holds

theorem fillFromDir_addsNoIndex {stored : List Path} (run : FillRun)
    (holds : run.paCtx.Holds stored) (path : Path) :
    ∀ entries, SlashFreeEntries entries → AddsNoIndex stored (fillFromDir run path entries).paCtx
  | [], _ => addsNoIndex_none holds
  | (name, child) :: entries, ⟨noSlash, childFree, restFree⟩ => by
    rw [fillFromDir]
    split
    · exact fillFromDir_addsNoIndex run holds path entries restFree
    rename_i visible
    split
    · exact fillFromDir_addsNoIndex (run.examine path name none) holds path entries restFree
    · have notIndex : ¬ bfindexFileNamePrefix <+: fileName (childPath path name) := by
        rw [fileName_childPath path noSlash]
        intro isIndex
        exact visible (by rw [isIgnored, List.isPrefixOf_iff_prefix.mpr isIndex, Bool.or_true])
      have first := fillFromPath_addsNoIndex (run.examine path name (some (childPath path name))) holds
        (childPath path name) notIndex child childFree
      exact first.trans fun names holds' => fillFromDir_addsNoIndex _ holds' path entries restFree

end

/-- Two flow files share their index path exactly when they are in one directory and only the flow file
prefix tells them apart. An index file's name has the bfindex prefix, so that it is not collected from
the directory that it is in. -/
theorem index_path_shared_iff :
    (∀ p q : Path, p ≠ q → (bfindexFlowToIndexPath p = bfindexFlowToIndexPath q ↔
      dirName p = dirName q ∧
      (AddsPrefix (fileName p) (fileName q) ∨ AddsPrefix (fileName q) (fileName p)))) ∧
    (∀ p, bfindexFileNamePrefix <+: fileName (bfindexFlowToIndexPath p)) ∧
    ∀ (run : FillRun) (stored : List Path) (path : Path) (entries : List (List Char × FileTree)),
      run.paCtx.Holds stored → SlashFreeEntries entries →
        ∃ added, (fillFromPath run path (.node entries)).paCtx.Holds (stored ++ added) ∧
          ∀ p, bfindexFlowToIndexPath p ∉ added := by
  have named (p : Path) : bfindexFileNamePrefix <+: fileName (bfindexFlowToIndexPath p) := by
    rw [fileName_indexPath]
    exact List.prefix_append _ _
  refine ⟨fun p q differ => ?_, named, fun run stored path entries holds slashFree => ?_⟩
  · rw [indexPath_eq_iff, withoutPrefix_eq_iff]
    refine and_congr_right fun sameDir => or_iff_right fun sameName => differ ?_
    rw [← dirName_append_fileName p, sameDir, sameName, dirName_append_fileName]
  · have dir : AddsNoIndex stored (fillFromPath run path (.node entries)).paCtx := by
      rw [fillFromPath]
      split
      · exact fillFromDir_addsNoIndex run holds path entries slashFree
      · exact addsNoIndex_none holds
    obtain ⟨added, holds', free⟩ := dir
    exact ⟨added, holds', fun p member => free _ member (named p)⟩

theorem index_path_shared_iff_dir :
    bfindexFlowToIndexPath "d/lnf.1".toList ≠ bfindexFlowToIndexPath "d/2".toList ∧
      ∃ added, (fillFromPath { paCtx := .init } "d".toList
          (.node [("bfi.1".toList, .leaf .file), ("lnf.1".toList, .leaf .file)])).paCtx.Holds
            ([] ++ added) ∧
        ∀ p, bfindexFlowToIndexPath p ∉ added := by
  refine ⟨fun same => ?_, index_path_shared_iff.2.2 { paCtx := .init } [] "d".toList
    [("bfi.1".toList, .leaf .file), ("lnf.1".toList, .leaf .file)] PathArrayCtx.holds_init
    ⟨by decide, trivial, by decide, trivial, trivial⟩⟩
  have shared := (index_path_shared_iff.1 "d/lnf.1".toList "d/2".toList (by decide)).mp same
  rcases shared.2 with ⟨adds, -⟩ | ⟨adds, -⟩
  · exact absurd adds (by decide)
  · exact absurd adds (by decide)

/-- `lnf.1` and `1` have the index path `bfi.1`, and that path, when it is given itself, is collected. -/
theorem index_path_shared : "lnf.1".toList ≠ "1".toList ∧ "lnf.1".toList.getLast? ≠ some '/' ∧
    "1".toList.getLast? ≠ some '/' ∧
    bfindexFlowToIndexPath "lnf.1".toList = bfindexFlowToIndexPath "1".toList ∧
    (fillFromPath { paCtx := .init } (bfindexFlowToIndexPath "1".toList) (.leaf .file)).paCtx.Holds
      [bfindexFlowToIndexPath "1".toList] :=
  ⟨by decide, by decide, by decide, by decide, PathArrayCtx.holds_init.addPath _⟩

end Fdistdump.Bfindex
