/-!
# Reading flow files into a thread's memory

`processFileMt` follows `process_file_mt` in the modes that store records. Whatever the memory is, it
receives the matching records of the thread's files in the order in which the files are read.
-/

namespace Fdistdump.Slave

structure ProcessedSumm where
  flows : UInt64
  pkts : UInt64
  bytes : UInt64
deriving DecidableEq, Repr

/-- `struct metadata_summ`, as the array of `STRUCT_METADATA_SUMM_ELEMENTS` counters that is reduced. -/
abbrev MetadataSumm : Type := Fin 15 → UInt64

/-- A flow file: whether `lnf_open` accepts it, its metadata counters and its records. -/
structure FlowFile (R : Type) where
  opens : Bool
  metadata : MetadataSumm
  recs : List R

/-- The parts of `struct thread_ctx` that outlive a file. -/
structure ThreadCtx (M : Type) where
  processedSumm : ProcessedSumm
  metadataSumm : MetadataSumm
  lnfMem : M

variable {R M : Type}

/-- What a thread does with a record: the filter, if there is one, the counters that `lnf_rec_fget`
yields and `lnf_mem_write`. -/
structure Query (R M : Type) where
  filter : Option (R → Bool)
  volume : R → ProcessedSumm
  write : M → R → M

def processedSummUpdate (s : ProcessedSumm) (volume : ProcessedSumm) : ProcessedSumm where
  flows := s.flows + volume.flows
  pkts := s.pkts + volume.pkts
  bytes := s.bytes + volume.bytes

def metadataSummUpdate (s : MetadataSumm) (file : FlowFile R) : MetadataSumm :=
  fun i => s i + file.metadata i

/-- The record loop of `ff_read_and_store`. -/
def ffReadAndStore (query : Query R M) : List R → ThreadCtx M → ThreadCtx M
  | [], t => t
  | record :: rest, t =>
    if query.filter.any (fun accepts => !accepts record) then ffReadAndStore query rest t
    else
      ffReadAndStore query rest
        { t with
          processedSumm := processedSummUpdate t.processedSumm (query.volume record)
          lnfMem := query.write t.lnfMem record }

/-- `process_file_mt`; the Bloom index, when there is one, answers for the file. -/
def processFileMt (query : Query R M) (bfindex : Option (FlowFile R → Bool)) (t : ThreadCtx M)
    (file : FlowFile R) : ThreadCtx M :=
  if file.opens then
    let t := { t with metadataSumm := metadataSummUpdate t.metadataSumm file }
    if bfindex.all (fun contains => contains file) then ffReadAndStore query file.recs t else t
  else t

/-- A thread processes the files that the dynamic schedule gives it. -/
def processFiles (query : Query R M) (files : List (FlowFile R)) (t : ThreadCtx M) : ThreadCtx M :=
  files.foldl (processFileMt query none) t

def Query.accepts (query : Query R M) (record : R) : Bool :=
  query.filter.all fun accepts => accepts record

def matching (query : Query R M) (files : List (FlowFile R)) : List R :=
  files.flatMap fun file => if file.opens then file.recs.filter query.accepts else []

theorem ffReadAndStore_mem (query : Query R M) (recs : List R) (t : ThreadCtx M) :
    (ffReadAndStore query recs t).lnfMem = (recs.filter query.accepts).foldl query.write t.lnfMem := by
  induction recs generalizing t with
  | nil => rfl
  | cons record rest ih =>
    have rejected : query.filter.any (fun accepts => !accepts record) = !query.accepts record := by
      unfold Query.accepts
      cases query.filter <;> rfl
    rw [ffReadAndStore, rejected, List.filter_cons]
    cases query.accepts record with
    | true => simpa using ih _
    | false => simpa using ih t

theorem processFileMt_mem (query : Query R M) (t : ThreadCtx M) (file : FlowFile R) :
    (processFileMt query none t file).lnfMem =
      (if file.opens then file.recs.filter query.accepts else []).foldl query.write t.lnfMem := by
  unfold processFileMt
  split
  · simp [ffReadAndStore_mem]
  · rfl

theorem processFiles_mem (query : Query R M) (files : List (FlowFile R)) (t : ThreadCtx M) :
    (processFiles query files t).lnfMem = (matching query files).foldl query.write t.lnfMem := by
  induction files generalizing t with
  | nil => rfl
  | cons file rest ih =>
    rw [processFiles, List.foldl_cons]
    refine (ih _).trans ?_
    rw [processFileMt_mem, ← List.foldl_append]
    rfl

end Fdistdump.Slave
