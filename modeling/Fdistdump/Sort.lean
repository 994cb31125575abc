import Fdistdump.Exchange.Delivery
import Fdistdump.Output.PrintBatch
import Fdistdump.Slave.ProcessFile
import Fdistdump.SortDir

/-!
# Sorting

In `MODE_SORT` every thread keeps its matching records in a list memory, sorts it and sends its first
records; `sort_main` collects them into a list memory of its own, sorts it and prints.
-/

namespace Fdistdump.Sort
open Exchange Interleaving Output Ranking Slave

variable {ι K R : Type} {lib : Libnf}

/-- `lnf_mem_write` and `lnf_mem_write_raw` on a list memory. -/
def listWrite (mem : List R) (record : R) : List R := mem ++ [record]

theorem foldl_listWrite (mem records : List R) : records.foldl listWrite mem = mem ++ records := by
  induction records generalizing mem with
  | nil => simp
  | cons record rest ih => rw [List.foldl_cons, ih, listWrite, ← List.append_cons]

/-- A `MODE_SORT` query: what a record is to the threads, the sort key and direction and `-l`. -/
structure SortQuery (R K : Type) where
  filter : Option (R → Bool)
  volume : R → ProcessedSumm
  key : R → K
  dir : SortDir
  recLimit : Nat

def SortQuery.query (q : SortQuery R K) : Query R (List R) where
  filter := q.filter
  volume := q.volume
  write := listWrite

abbrev SortQuery.before [LinearOrder K] (q : SortQuery R K) : R → R → Prop := sortsBefore q.dir q.key

def emptyThread : ThreadCtx (List R) := ⟨⟨0, 0, 0⟩, fun _ => 0, []⟩

/-- The list memory of a thread after its files. -/
def threadMem (q : SortQuery R K) (files : List (FlowFile R)) : List R :=
  (processFiles q.query files emptyThread).lnfMem

theorem threadMem_matching (q : SortQuery R K) (files : List (FlowFile R)) :
    threadMem q files = matching q.query files := by
  rw [threadMem, processFiles_mem]
  exact foldl_listWrite [] _

variable [Fintype ι] [DecidableEq ι] [LinearOrder K]

/-- One run of the query over files that are distributed over the threads of all slaves. -/
structure SortRun (codec : RawCodec lib R) (q : SortQuery R K) (files : ι → List (FlowFile R)) where
  threadOrder : ι → List R
  threadSorted : ∀ i, Orders q.before (threadMem q (files i)) (threadOrder i)
  exchange : RecordRun codec threadOrder (fun _ => q.recLimit)
  masterOrder : List R
  masterSorted : Orders q.before (exchange.written.foldl listWrite []) masterOrder

variable {codec : RawCodec lib R} {q : SortQuery R K} {files : ι → List (FlowFile R)}

theorem exists_sortRun (codec : RawCodec lib R) (q : SortQuery R K) (files : ι → List (FlowFile R)) :
    Nonempty (SortRun codec q files) := by
  obtain ⟨exchange⟩ := exists_recordRun codec
    (fun i => (threadMem q (files i)).insertionSort q.before) (fun _ => q.recLimit)
  exact ⟨⟨_, fun i => orders_insertionSort _, exchange, _, orders_insertionSort _⟩⟩

/-- The records that the limit kept from being sent. -/
noncomputable def SortRun.unsent (run : SortRun codec q files) : List R :=
  (∑ i, ((run.threadOrder i).drop (limited q.recLimit (run.threadOrder i)).length : Multiset R)).toList

theorem limited_append_drop (limit : Nat) (xs : List R) :
    limited limit xs ++ xs.drop (limited limit xs).length = xs := by
  unfold limited
  split
  · simp
  · rw [List.length_take]
    by_cases short : limit ≤ xs.length
    · rw [Nat.min_eq_left short, List.take_append_drop]
    · rw [Nat.min_eq_right (by omega), List.take_of_length_le (by omega)]
      simp

variable [Nonempty ι]

theorem SortRun.complete (run : SortRun codec q files) :
    ((run.exchange.written ++ run.unsent : List R) : Multiset R) =
      ∑ i, (matching q.query (files i) : Multiset R) := by
  rw [← Multiset.coe_add, run.exchange.written_multiset, SortRun.unsent, Multiset.coe_toList,
    ← Finset.sum_add_distrib]
  apply Finset.sum_congr rfl
  intro i _
  rw [Multiset.coe_add, limited_append_drop, ← threadMem_matching]
  exact Multiset.coe_eq_coe.mpr (run.threadSorted i).perm

/-- A record that was not sent comes after as many sent records as the limit allows. -/
theorem SortRun.unsent_late (run : SortRun codec q files) {x : R} (member : x ∈ run.unsent) :
    q.recLimit ≠ 0 ∧ q.recLimit ≤ upTo q.before x run.exchange.written := by
  obtain ⟨i, -, dropped⟩ : ∃ i ∈ Finset.univ,
      x ∈ ((run.threadOrder i).drop (limited q.recLimit (run.threadOrder i)).length : Multiset R) := by
    rw [SortRun.unsent, Multiset.mem_toList, Multiset.mem_sum] at member
    exact member
  rw [Multiset.mem_coe] at dropped
  have positive : q.recLimit ≠ 0 := by
    intro zero
    simp [zero] at dropped
  have sent : limited q.recLimit (run.threadOrder i) = (run.threadOrder i).take q.recLimit :=
    limited_pos _ (by omega)
  rw [sent, List.length_take] at dropped
  have long : q.recLimit ≤ (run.threadOrder i).length := by
    by_contra short
    rw [Nat.min_eq_right (by omega), List.drop_length] at dropped
    cases dropped
  rw [Nat.min_eq_left long] at dropped
  have sorted := (run.threadSorted i).pairwise
  rw [← List.take_append_drop q.recLimit (run.threadOrder i)] at sorted
  have early : ∀ y ∈ (run.threadOrder i).take q.recLimit, q.before y x := fun y front =>
    (List.pairwise_append.mp sorted).2.2 y front x dropped
  obtain ⟨arrivals, merged, written⟩ := run.exchange.written_merge
  have inside : ((run.threadOrder i).take q.recLimit).Sublist run.exchange.written := by
    rw [written, ← sent]
    exact interleaves_sublist merged i
  refine ⟨positive, ?_⟩
  calc q.recLimit = upTo q.before x ((run.threadOrder i).take q.recLimit) := by
        rw [upTo_all early, List.length_take, Nat.min_eq_left long]
    _ ≤ upTo q.before x run.exchange.written := inside.countP_le

/-- What `sort_main` prints is the beginning of an ordering of all matching records. -/
theorem sort_main_prints_global_prefix {printRecords : OutputItem} {rows : List R}
    (run : SortRun codec q files)
    (printed : printBatch printRecords q.recLimit run.masterOrder = some rows) :
    ∃ full : List R, (full : Multiset R) = ∑ i, (matching q.query (files i) : Multiset R) ∧
      full.Pairwise (sortsBefore q.dir q.key) ∧ rows = limited q.recLimit full := by
  have master := run.masterSorted
  rw [foldl_listWrite, List.nil_append] at master
  rw [printBatch_some printed, ← run.complete]
  by_cases unlimited : q.recLimit = 0
  · have all : run.unsent = [] := List.eq_nil_iff_forall_not_mem.mpr fun x member =>
      (run.unsent_late member).1 unlimited
    rw [all, List.append_nil]
    exact ⟨run.masterOrder, Multiset.coe_eq_coe.mpr master.perm, master.pairwise, rfl⟩
  · have late : ∀ x ∈ run.unsent, q.recLimit ≤ upTo q.before x run.masterOrder := fun x member => by
      rw [upTo_perm x master.perm]
      exact (run.unsent_late member).2
    obtain ⟨full, ordered, same⟩ := master.extend late
    refine ⟨full, Multiset.coe_eq_coe.mpr ordered.perm, ordered.pairwise, ?_⟩
    rw [limited_pos _ (by omega), limited_pos _ (by omega), same]

def largestBytes : SortQuery UInt8 Nat where
  filter := none
  volume := fun _ => ⟨1, 1, 1⟩
  key := UInt8.toNat
  dir := .desc
  recLimit := 2

def byteFiles : Fin 2 → List (FlowFile UInt8)
  | 0 => [⟨true, fun _ => 0, [3, 7, 5]⟩]
  | 1 => [⟨true, fun _ => 0, [7]⟩, ⟨false, fun _ => 0, [9]⟩]

theorem sort_main_prints_global_prefix_bytes :
    ∃ (run : SortRun byteCodec largestBytes byteFiles) (full : List UInt8),
      (full : Multiset UInt8) = ∑ i, (matching largestBytes.query (byteFiles i) : Multiset UInt8) ∧
        full.Pairwise (sortsBefore .desc UInt8.toNat) ∧
        printRows 2 0 run.masterOrder = limited 2 full := by
  obtain ⟨run⟩ := exists_sortRun byteCodec largestBytes byteFiles
  exact ⟨run, sort_main_prints_global_prefix run (rfl : printBatch .yes 2 run.masterOrder = _)⟩

end Fdistdump.Sort
