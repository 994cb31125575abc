import Fdistdump.Summary.Run

/-!
# Progress reports as a transition system

Every slave tells the master how many files it is going to process and sends an empty message after
each of them. The master's progress bar thread receives as many messages as it has been told of,
from any slave.
-/

namespace Fdistdump.Progress
open Slave Args
open Summary (Cluster)

variable {R σ τ : Type}

/-! ### The progress bar -/

inductive ProgressBarType
  | unset
  | none
  | total
  | perslave
  | json
deriving DecidableEq, Repr

structure ProgressBarCtx (σ : Type) where
  type : ProgressBarType
  filesCnt : σ → Nat := fun _ => 0
  filesCntGoal : σ → Nat := fun _ => 0
  filesCntSum : Nat := 0
  filesCntGoalSum : Nat := 0

/-- `arg_parse` replaces a type that was not set. -/
def argParseType (type : ProgressBarType) : ProgressBarType := if type = .unset then .total else type

/-- Whether `progress_bar_print` comes to its end: its assertions hold and the type is one that can
be printed. -/
def progressBarPrint [Fintype σ] (pbCtx : ProgressBarCtx σ) : Bool :=
  decide (pbCtx.filesCntSum ≤ pbCtx.filesCntGoalSum) &&
    decide (∀ source, pbCtx.filesCnt source ≤ pbCtx.filesCntGoal source) &&
    match pbCtx.type with
    | .total | .perslave | .json => true
    | .none | .unset => false

/-! ### Files -/

structure Config (τ R : Type) where
  workingMode : WorkingMode
  bfindex : τ → Option (FlowFile R → Bool)
  progressBarType : ProgressBarType
  /-- Whether the destination of the bar is a stream or a file that can be opened. -/
  destOpens : Bool
  /-- Whether `MPI_Send` returns although messages of these threads have not been received. -/
  buffers : List τ → Prop

inductive FileExit
  | notOpened
  | notContained
  | limitReached
  | sent
  | stored
  | metadataOnly
deriving DecidableEq, Repr

/-- The exit that a thread takes from `process_file_mt`; `none` stands for an abort. -/
def processFileMt (config : Config τ R) (i : τ) (recLimitReached : Bool) (file : FlowFile R) :
    Option FileExit :=
  if !file.opens then some .notOpened
  else if !(config.bfindex i).all (fun contains => contains file) then some .notContained
  else
    match config.workingMode with
    | .list => if !recLimitReached then some .sent else some .limitReached
    | .sort | .aggr => some .stored
    | .metadata => some .metadataOnly
    | .unset => none

section Summaries
variable {M : Type} {layout : ListMode.RecordLayout}

/-- What a thread has after `process_file_mt`, given the exit; in list mode `ff_read_and_send` is
still to come. -/
def FileExit.leaves (exit : FileExit) (query : Query R M) (w : Summary.Worker M R) (file : FlowFile R) :
    Summary.Worker M R :=
  let counted : Summary.Worker M R :=
    { w with
      summ := { w.summ with metadataSumm := Summary.metadataSummUpdate w.summ.metadataSumm file } }
  match exit with
  | .notOpened => w
  | .notContained | .metadataOnly => counted
  | .limitReached => { counted with reader := { w.reader with files := [] } }
  | .sent =>
    { counted with
      reader := { w.reader with
        files := [], recs := file.recs, buffIdx := false, buffOff := 0, buffRecCntr := 0, request :=
          none, pc := .read } }
  | .stored =>
    let stored := ffReadAndStore query file.recs counted.threadCtx
    { counted with
      summ := { counted.summ with processedSumm := stored.processedSumm }
      lnfMem := stored.lnfMem }

/-- The exits are those of the thread that the summaries count for. -/
theorem summary_processFileMt {config : Config τ R} {summary : Summary.Config layout τ R M} {i : τ}
    (mode : config.workingMode = summary.workingMode) (index : config.bfindex i = summary.bfindex i)
    (ctx : ListMode.SlaveCtx) {w : Summary.Worker M R} (between : w.reader.pc = .nextFile)
    (file : FlowFile R) :
    Summary.processFileMt summary i ctx w file =
      (processFileMt config i ctx.recLimitReached file).map fun exit =>
        exit.leaves summary.query w file := by
  unfold processFileMt Summary.processFileMt
  rw [mode, index]
  cases opens : file.opens with
  | false => rfl
  | true =>
    cases contains : (summary.bfindex i).all fun contains => contains file with
    | false => rfl
    | true =>
      cases summary.workingMode with
      | list =>
        cases reached : ctx.recLimitReached with
        | true => simp [ListMode.threadStep, between, opens, reached, FileExit.leaves]
        | false => simp [ListMode.threadStep, between, opens, reached, FileExit.leaves]
      | unset | sort | aggr | metadata => rfl

end Summaries

/-! ### The whole system -/

/-- Where a thread is in the loop through the files. -/
inductive Place (R : Type)
  | files
  | file (file : FlowFile R)
  | report
  | sending
  | done

/-- A thread: `file_cntr`, and how often it has called `MPI_Send`. -/
structure Worker (R : Type) where
  place : Place R := .files
  fileCntr : Nat := 0
  sent : Nat := 0

def Worker.goto (w : Worker R) (place : Place R) : Worker R := { w with place }

/-- `process_file_mt` has returned. -/
def Worker.processed (w : Worker R) : Worker R := { w with place := .report, fileCntr := w.fileCntr + 1 }

def Worker.sends (w : Worker R) : Worker R := { w with place := .sending, sent := w.sent + 1 }

inductive BarPhase
  | gathering
  | receiving
  | done
deriving DecidableEq, Repr

/-- `reported` has what a slave has given to `MPI_Gather`, `inFlight` the sender of each message
that was sent and not received, and `i` is the master's loop variable. -/
structure State (σ τ R : Type) where
  queue : σ → List (FlowFile R)
  reported : σ → Option Nat := fun _ => none
  recLimitReached : σ → Bool := fun _ => false
  workers : τ → Worker R := fun _ => {}
  inFlight : List τ := []
  phase : BarPhase := .gathering
  pbCtx : ProgressBarCtx σ
  i : Nat := 0
  aborted : Bool := false

/-- The bar is printed unless its type is `none`. -/
def State.print [Fintype σ] (s : State σ τ R) : State σ τ R :=
  if s.pbCtx.type ≠ .none then { s with aborted := s.aborted || !progressBarPrint s.pbCtx } else s

variable [DecidableEq σ] [DecidableEq τ] [Fintype σ]

/-- What `MPI_Gather` brings and the sum of it. -/
def State.gathered (s : State σ τ R) (filesCnt : σ → Nat) : State σ τ R :=
  { s with
    phase := .receiving
    pbCtx := { s.pbCtx with filesCntGoal := filesCnt, filesCntGoalSum := ∑ slave, filesCnt slave } }

/-- The rest of the master's iteration when a message of this slave has come. -/
def State.received (s : State σ τ R) (slave : σ) (inFlight : List τ) : State σ τ R :=
  { s with
    inFlight
    i := s.i + 1
    pbCtx := { s.pbCtx with
      filesCnt := Function.update s.pbCtx.filesCnt slave (s.pbCtx.filesCnt slave + 1)
      filesCntSum := s.pbCtx.filesCntSum + 1 } }

inductive Step (config : Config τ R) (cluster : Cluster σ τ R) (s : State σ τ R) : State σ τ R → Prop
  | reportInit (slave : σ) (before : s.reported slave = none) :
      Step config cluster s
        { s with reported := Function.update s.reported slave (some (cluster.files slave).length) }
  | takeFile (i : τ) {file : FlowFile R} {rest : List (FlowFile R)}
    (place : (s.workers i).place = .files)
      (started : (s.reported (cluster.home i)).isSome)
      (queue : s.queue (cluster.home i) = file :: rest) :
      Step config cluster s
        { s with
          queue := Function.update s.queue (cluster.home i) rest
          workers := Function.update s.workers i ((s.workers i).goto (.file file)) }
  | reachLimit (i : τ) {file : FlowFile R} (place : (s.workers i).place = .file file)
      (mode : config.workingMode = .list) (before : s.recLimitReached (cluster.home i) = false) :
      Step config cluster s
        { s with recLimitReached := Function.update s.recLimitReached (cluster.home i) true }
  | processFile (i : τ) {file : FlowFile R} {exit : FileExit} (place : (s.workers i).place = .file file)
      (returns : processFileMt config i (s.recLimitReached (cluster.home i)) file = some exit) :
      Step config cluster s { s with workers := Function.update s.workers i (s.workers i).processed }
  | reportNext (i : τ) (place : (s.workers i).place = .report) :
      Step config cluster s
        { s with
          workers := Function.update s.workers i (s.workers i).sends
          inFlight := s.inFlight ++ [i] }
  | sendReturns (i : τ) (place : (s.workers i).place = .sending)
      (received : i ∉ s.inFlight ∨ config.buffers s.inFlight) :
      Step config cluster s { s with workers := Function.update s.workers i ((s.workers i).goto .files) }
  | endFiles (i : τ) (place : (s.workers i).place = .files)
    (started : (s.reported (cluster.home i)).isSome)
      (queue : s.queue (cluster.home i) = []) :
      Step config cluster s { s with workers := Function.update s.workers i ((s.workers i).goto .done) }
  | gather {filesCnt : σ → Nat} (phase : s.phase = .gathering)
      (all : ∀ slave, s.reported slave = some (filesCnt slave)) :
      Step config cluster s (s.gathered filesCnt).print
  | receive {i : τ} {front back : List τ} (phase : s.phase = .receiving)
    (more : s.i < s.pbCtx.filesCntGoalSum)
      (arrived : s.inFlight = front ++ i :: back) :
      Step config cluster s (s.received (cluster.home i) (front ++ back)).print
  | endReceiving (phase : s.phase = .receiving) (all : ¬ s.i < s.pbCtx.filesCntGoalSum) :
      Step config cluster s { s with phase := .done }

/-- The start. A bar whose destination cannot be opened is not printed. -/
def initial (config : Config τ R) (cluster : Cluster σ τ R) : State σ τ R where
  queue := cluster.files
  pbCtx := { type := if config.destOpens then argParseType config.progressBarType else .none }

def Reachable (config : Config τ R) (cluster : Cluster σ τ R) (s : State σ τ R) : Prop :=
  Relation.ReflTransGen (Step config cluster) (initial config cluster) s

/-- How often the threads of a slave have called `MPI_Send` with `TAG_PROGRESS`. -/
def State.sent [Fintype τ] (s : State σ τ R) (cluster : Cluster σ τ R) (slave : σ) : Nat :=
  ∑ i with cluster.home i = slave, (s.workers i).sent

end Fdistdump.Progress
