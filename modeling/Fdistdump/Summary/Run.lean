import Fdistdump.Args.ArgParse
import Fdistdump.Library.Reduction
import Fdistdump.Library.Transition
import Fdistdump.ListMode.Progress
import Fdistdump.Summary.Counters
import Mathlib.Data.Fintype.Option

/-!
# Summaries as a transition system

The parallel region of `slave_main` and the two reductions of `master_main`. The threads of a slave
take its files from one queue, add their private counters to the shared ones and finish; when all have
finished, the processes reduce the counters. In list mode a step of `ff_read_and_send` is a step of the
list mode system, with `processed_summ_update` at every record that is written.
-/

namespace Fdistdump.Summary
open Slave Args ListMode Exchange Reduction

variable {R M τ : Type} {layout : RecordLayout}

/-- The query, and the index of each thread, which answers for a file; `none` where there is none. -/
structure Config (layout : RecordLayout) (τ R M : Type) where
  workingMode : WorkingMode
  query : Query R M
  recLimit : Nat
  access : Access layout R
  bfindex : τ → Option (FlowFile R → Bool)

def Config.job (config : Config layout τ R M) : Job layout R :=
  ⟨config.recLimit, config.query.accepts, config.access⟩

/-- Where a thread is in the parallel region; while it shares, the counters it has still to add. -/
inductive Place
  | files
  | sharing (left : List Counter)
  | done

/-- A thread: its private counters, its memory and its locals in `ff_read_and_send`. -/
structure Worker (M R : Type) where
  place : Place := .files
  summ : Summ
  lnfMem : M
  reader : Thread R

/-- A slave: the files that no thread has taken yet, the shared counters and the data that list mode
shares. -/
structure SlaveState (R : Type) where
  queue : List (FlowFile R)
  summ : Summ
  ctx : SlaveCtx := {}

def Worker.goto (w : Worker M R) (place : Place) : Worker M R := { w with place }

def SlaveState.setQueue (s : SlaveState R) (queue : List (FlowFile R)) : SlaveState R := { s with queue }

def SlaveState.setCtx (s : SlaveState R) (ctx : SlaveCtx) : SlaveState R := { s with ctx }

def SlaveState.share (s : SlaveState R) (priv : Summ) (c : Counter) : SlaveState R :=
  { s with summ := s.summ.share priv c }

/-- The thread as the modes that store records see it. -/
def Worker.threadCtx (w : Worker M R) : ThreadCtx M :=
  ⟨w.summ.processedSumm, w.summ.metadataSumm.toArray, w.lnfMem⟩

/-- `process_file_mt`; `none` stands for an abort. In list mode it tests the flag and leaves the rest to
`ff_read_and_send`. -/
def processFileMt (config : Config layout τ R M) (i : τ) (ctx : SlaveCtx) (w : Worker M R)
    (file : FlowFile R) :
    Option (Worker M R) :=
  if file.opens then
    let w :=
      { w with summ := { w.summ with metadataSumm := metadataSummUpdate w.summ.metadataSumm file } }
    if (config.bfindex i).all (fun contains => contains file) then
      match config.workingMode with
      | .unset => none
      | .list =>
        some { w with reader := (threadStep config.job ctx { w.reader with files := [file] }).2 }
      | .sort | .aggr =>
        let stored := ffReadAndStore config.query file.recs w.threadCtx
        some
          { w with
            summ := { w.summ with processedSumm := stored.processedSumm }, lnfMem := stored.lnfMem }
      | .metadata => some w
    else some w
  else some w

theorem ffReadAndStore_metadata (query : Query R M) (recs : List R) (t : ThreadCtx M) :
    (ffReadAndStore query recs t).metadataSumm = t.metadataSumm := by
  induction recs generalizing t with
  | nil => rfl
  | cons record rest ih =>
    rw [ffReadAndStore]
    split
    · exact ih t
    · exact ih _

theorem threadCtx_metadata (w : Worker M R) (file : FlowFile R) :
    { w with
      summ :=
        { w.summ with metadataSumm := metadataSummUpdate w.summ.metadataSumm file } }.threadCtx =
      { w.threadCtx with metadataSumm := Slave.metadataSummUpdate w.threadCtx.metadataSumm file } := by
  simp only [Worker.threadCtx, metadataSummUpdate_toArray]

theorem processFileMt_threadCtx {config : Config layout τ R M}
    (stores : config.workingMode = .sort ∨ config.workingMode = .aggr) {i : τ} {ctx : SlaveCtx}
    {w w' : Worker M R}
    {file : FlowFile R} (processed : processFileMt config i ctx w file = some w') :
    w'.threadCtx = Slave.processFileMt config.query (config.bfindex i) w.threadCtx file := by
  unfold processFileMt at processed
  unfold Slave.processFileMt
  by_cases opens : file.opens = true
  · rw [if_pos opens] at processed ⊢
    dsimp only at processed ⊢
    rw [← threadCtx_metadata]
    split at processed
    · rename_i contains
      rw [if_pos contains]
      have kept := ffReadAndStore_metadata config.query file.recs (Worker.threadCtx
        { w with summ := { w.summ with metadataSumm := metadataSummUpdate w.summ.metadataSumm file } })
      rcases stores with mode | mode
      all_goals
        rw [mode] at processed
        obtain rfl := Option.some.inj processed
        exact congrArg (ThreadCtx.mk _ · _) kept.symm
    · rename_i skipped
      obtain rfl := Option.some.inj processed
      rw [if_neg skipped]
  · rw [if_neg opens] at processed ⊢
    obtain rfl := Option.some.inj processed
    rfl

/-- The record that the next step of `ff_read_and_send` counts and writes into the buffer. -/
def nextStored (job : Job layout R) (s : SlaveCtx) (t : Thread R) : Option R :=
  match t.pc with
  | .read =>
    match t.recs with
    | [] => none
    | record :: _ =>
      if !job.accepts record then none
      else if t.buffOff + layout.allSizesSum + sizeofXchgRecSize > xchgBuffSize then none
      else some record
  | .testFull record => if limitReached job s then none else some record
  | _ => none

def readAndSend (config : Config layout τ R M) (ctx : SlaveCtx) (w : Worker M R) : Worker M R :=
  { w with
    summ :=
      match nextStored config.job ctx w.reader with
      | none => w.summ
      | some record =>
        { w.summ with
          processedSumm := processedSummUpdate w.summ.processedSumm (config.query.volume record) }
    reader := (threadStep config.job ctx w.reader).2 }

/-! ### The whole system -/

/-- Which slave a thread belongs to and which files a slave has. Every slave that has files has a
thread: `num_threads_max` is positive. -/
structure Cluster (σ τ R : Type) where
  home : τ → σ
  files : σ → List (FlowFile R)
  staffed : ∀ slave, files slave ≠ [] → ∃ i, home i = slave

variable {σ : Type} [DecidableEq σ] [DecidableEq τ] [Fintype σ] [Fintype τ]

/-- All slaves and threads, and what the master has after the reductions. -/
structure State (σ τ M R : Type) where
  slaves : σ → SlaveState R
  workers : τ → Worker M R
  reduced : Option Summ := none

def Summ.zero : Summ := ⟨⟨0, 0, 0⟩, ⟨0, 0, 0, 0, 0, 0, 0, 0, 0, 0, 0, 0, 0, 0, 0⟩⟩

/-- The rank `none` is the master, whose counters are zero. -/
def contribution (slaves : σ → SlaveState R) : Option σ → Summ
  | none => Summ.zero
  | some slave => (slaves slave).summ

/-- The two calls of `MPI_Reduce`. -/
def mpiReduce (slaves : σ → SlaveState R) (processed metadata : Schedule (Option σ)) : Summ where
  processedSumm := processedOfArray (processed.value fun rank =>
    processedArray (contribution slaves rank).processedSumm)
  metadataSumm := .ofArray (metadata.value fun rank => (contribution slaves rank).metadataSumm.toArray)

inductive Step (config : Config layout τ R M) (home : τ → σ) (s : State σ τ M R) : State σ τ M R → Prop
  | processFile (i : τ) {file : FlowFile R} {rest : List (FlowFile R)} {w : Worker M R}
      (place : (s.workers i).place = .files) (between : (s.workers i).reader.pc = .nextFile)
      (queue : (s.slaves (home i)).queue = file :: rest)
      (processed : processFileMt config i (s.slaves (home i)).ctx (s.workers i) file = some w) :
      Step config home s
        { s with
          slaves := Function.update s.slaves (home i) ((s.slaves (home i)).setQueue rest)
          workers := Function.update s.workers i w }
  | readAndSend (i : τ) (place : (s.workers i).place = .files)
      (reading : (s.workers i).reader.pc ≠ .nextFile) (running : (s.workers i).reader.pc ≠ .done) :
      Step config home s
        { s with
          slaves := Function.update s.slaves (home i)
            ((s.slaves (home i)).setCtx (threadStep config.job (s.slaves (home i)).ctx
              (s.workers i).reader).1)
          workers :=
            Function.update s.workers i (readAndSend config (s.slaves (home i)).ctx (s.workers i)) }
  | endFiles (i : τ) (place : (s.workers i).place = .files)
    (between : (s.workers i).reader.pc = .nextFile)
      (queue : (s.slaves (home i)).queue = []) :
      Step config home s
        { s with workers := Function.update s.workers i ((s.workers i).goto (.sharing shareOrder)) }
  | share (i : τ) {c : Counter} {left : List Counter}
    (place : (s.workers i).place = .sharing (c :: left)) :
      Step config home s
        { s with
          slaves := Function.update s.slaves (home i) ((s.slaves (home i)).share (s.workers i).summ c)
          workers := Function.update s.workers i ((s.workers i).goto (.sharing left)) }
  | postprocess (i : τ) (place : (s.workers i).place = .sharing []) (set : config.workingMode ≠ .unset) :
      Step config home s
        { s with workers := Function.update s.workers i ((s.workers i).goto .done) }
  | reduce {processed metadata : Schedule (Option σ)} (done : ∀ i, (s.workers i).place = .done)
      (before : s.reduced = none) (all : processed.Complete) (all' : metadata.Complete) :
      Step config home s { s with reduced := some (mpiReduce s.slaves processed metadata) }

def initial (cluster : Cluster σ τ R) (mem : τ → M) (buffs : τ → BuffPair) : State σ τ M R where
  slaves slave := { queue := cluster.files slave, summ := Summ.zero }
  workers i := { summ := Summ.zero, lnfMem := mem i, reader := { files := [], buff := (buffs i).buff } }

def Reachable (config : Config layout τ R M) (cluster : Cluster σ τ R) (mem : τ → M)
    (buffs : τ → BuffPair) (s : State σ τ M R) : Prop :=
  Relation.ReflTransGen (Step config cluster.home) (initial cluster mem buffs) s

end Fdistdump.Summary
