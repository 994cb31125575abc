import Fdistdump.Summary.Totals

/-!
# The memories of the threads under a dynamic schedule

In the modes that store records a thread's memory is what its files make of it, one after the other,
and every file of a slave is given to exactly one of its threads.
-/

namespace Fdistdump.Summary
open Slave Args ListMode Exchange

variable {R M σ τ : Type} {layout : RecordLayout} {config : Config layout τ R M}

/-- Whether the mode keeps records in the thread's memory. -/
def Stores (config : Config layout τ R M) : Prop :=
  config.workingMode = .sort ∨ config.workingMode = .aggr

theorem Stores.set (stores : Stores config) : config.workingMode ≠ .unset := by
  rcases stores with mode | mode <;> rw [mode] <;> nofun

theorem Stores.notList (stores : Stores config) : config.workingMode ≠ .list := by
  rcases stores with mode | mode <;> rw [mode] <;> nofun

/-- A thread has processed these files, from the memory it began with. -/
def afterFiles (config : Config layout τ R M) (i : τ) (mem : M) (files : List (FlowFile R)) :
    ThreadCtx M :=
  files.foldl (Slave.processFileMt config.query (config.bfindex i)) ⟨⟨0, 0, 0⟩, fun _ => 0, mem⟩

theorem afterFiles_snoc (i : τ) (mem : M) (files : List (FlowFile R)) (file : FlowFile R) :
    afterFiles config i mem (files ++ [file]) =
      Slave.processFileMt config.query (config.bfindex i) (afterFiles config i mem files) file := by
  simp [afterFiles]

/-- The indexes answer no only for files without a matching record. -/
def Lossless (config : Config layout τ R M) : Prop :=
  ∀ (i : τ) (file : FlowFile R), (config.bfindex i).all (fun contains => contains file) = false →
    file.recs.filter config.query.accepts = []

theorem lossless_of_none {config : Config layout τ R M} (unused : ∀ i, config.bfindex i = none) :
    Lossless config := by
  intro i file skipped
  rw [unused] at skipped
  cases skipped

/-- An index that is lossless changes no memory. -/
theorem afterFiles_mem (lossless : Lossless config) (i : τ) (mem : M) (files : List (FlowFile R)) :
    (afterFiles config i mem files).lnfMem =
      (matching config.query files).foldl config.query.write mem := by
  induction files using List.reverseRecOn with
  | nil => rfl
  | append_singleton files file ih =>
    have more : matching config.query (files ++ [file]) =
        matching config.query files ++ if file.opens then file.recs.filter config.query.accepts
          else [] := by
      simp [matching]
    rw [afterFiles_snoc, more, List.foldl_append, ← ih]
    unfold Slave.processFileMt
    by_cases opens : file.opens = true
    · rw [if_pos opens, if_pos opens]
      dsimp only
      cases contains : (config.bfindex i).all fun contains => contains file with
      | true => rw [if_pos rfl, ffReadAndStore_mem]
      | false =>
        rw [if_neg Bool.false_ne_true, lossless i file contains]
        rfl
    · rw [if_neg opens, if_neg opens]
      rfl

theorem processFileMt_reader (notList : config.workingMode ≠ .list) {i : τ} {ctx : SlaveCtx}
    {w w' : Worker M R}
    {file : FlowFile R} (processed : processFileMt config i ctx w file = some w') :
    w'.reader = w.reader := by
  unfold processFileMt at processed
  split at processed
  · dsimp only at processed
    split at processed
    · cases mode : config.workingMode with
      | unset => simp [mode] at processed
      | list => exact absurd mode notList
      | sort | aggr | metadata =>
        rw [mode] at processed
        obtain rfl := Option.some.inj processed
        rfl
    · obtain rfl := Option.some.inj processed
      rfl
  · obtain rfl := Option.some.inj processed
    rfl

variable [DecidableEq σ] [DecidableEq τ] [Fintype τ]

/-- Every file of a slave is in its queue or has been given to one of its threads. -/
def Given (home : τ → σ) (files : σ → List (FlowFile R)) (s : State σ τ M R)
    (assigned : τ → List (FlowFile R)) : Prop :=
  ∀ slave, (files slave : Multiset (FlowFile R)) =
    (s.slaves slave).queue + ∑ i with home i = slave, (assigned i : Multiset (FlowFile R))

/-- The memories of the threads are what the files given to them have made of them. -/
structure Distributed (config : Config layout τ R M) (home : τ → σ) (files : σ → List (FlowFile R))
    (mem : τ → M) (s : State σ τ M R) (assigned : τ → List (FlowFile R)) : Prop where
  between : ∀ i, (s.workers i).reader.pc = .nextFile
  given : Given home files s assigned
  memory : ∀ i, (s.workers i).threadCtx = afterFiles config i (mem i) (assigned i)

variable {home : τ → σ} {files : σ → List (FlowFile R)} {mem : τ → M} {s s' : State σ τ M R}
  {assigned : τ → List (FlowFile R)}

omit [DecidableEq τ] in
theorem Given.kept (given : Given home files s assigned)
    (queues : ∀ slave, (s'.slaves slave).queue = (s.slaves slave).queue) :
    Given home files s' assigned := by
  intro slave
  rw [queues]
  exact given slave

/-- A thread takes the first file of the queue. -/
theorem Given.take (given : Given home files s assigned) {i : τ} {file : FlowFile R}
    {rest : List (FlowFile R)} (queue : (s.slaves (home i)).queue = file :: rest)
    (slaves : s'.slaves = Function.update s.slaves (home i) ((s.slaves (home i)).setQueue rest)) :
    Given home files s' (Function.update assigned i (assigned i ++ [file])) := by
  intro slave
  have more : ((assigned i ++ [file] : List (FlowFile R)) : Multiset (FlowFile R)) =
      (assigned i : Multiset (FlowFile R)) + {file} := by
    rw [← Multiset.coe_add, Multiset.coe_singleton]
  have moved := Reduction.sum_group_update home (fun files : List (FlowFile R) =>
    (files : Multiset (FlowFile R)))
    assigned more slave
  rw [moved, given slave, slaves]
  by_cases here : home i = slave
  · subst here
    rw [Function.update_self, if_pos rfl, queue, SlaveState.setQueue, ← Multiset.cons_coe,
      ← Multiset.singleton_add]
    dsimp only
    rw [add_assoc, add_comm, add_assoc]
  · rw [Function.update_of_ne (Ne.symm here), if_neg here, add_zero]

/-- Nothing but the place of a thread and the shared counters changes. -/
theorem Distributed.goto (distributed : Distributed config home files mem s assigned) {i : τ}
    {place : Place}
    {slaves : σ → SlaveState R} (queues : ∀ slave, (slaves slave).queue = (s.slaves slave).queue) :
    Distributed config home files mem
      { s with slaves, workers := Function.update s.workers i ((s.workers i).goto place) } assigned where
  between := by
    apply (Function.forall_update_iff s.workers fun _ worker => worker.reader.pc = .nextFile).mpr
    exact ⟨distributed.between i, fun j _ => distributed.between j⟩
  given := distributed.given.kept queues
  memory := by
    apply (Function.forall_update_iff s.workers fun j worker =>
      worker.threadCtx = afterFiles config j (mem j) (assigned j)).mpr
    exact ⟨distributed.memory i, fun j _ => distributed.memory j⟩

variable [Fintype σ]

omit [Fintype τ] in
/-- In the other modes no thread ever reads as in list mode. -/
theorem Step.between (notList : config.workingMode ≠ .list) (step : Step config home s s')
    (between : ∀ i, (s.workers i).reader.pc = .nextFile) :
    ∀ i, (s'.workers i).reader.pc = .nextFile := by
  have own {i : τ} {w : Worker M R} (same : w.reader = (s.workers i).reader) :
      ∀ j, (Function.update s.workers i w j).reader.pc = .nextFile := by
    apply (Function.forall_update_iff s.workers fun _ worker => worker.reader.pc = .nextFile).mpr
    exact ⟨same ▸ between i, fun j _ => between j⟩
  cases step with
  | processFile i place free queue processed => exact own (processFileMt_reader notList processed)
  | readAndSend i place reading running => exact absurd (between i) reading
  | endFiles i place free queue => exact own rfl
  | share i place => exact own rfl
  | postprocess i place set => exact own rfl
  | reduce done before all all' => exact between

theorem Step.distributed (stores : Stores config) (step : Step config home s s')
    (distributed : Distributed config home files mem s assigned) :
    ∃ assigned, Distributed config home files mem s' assigned := by
  have between := step.between stores.notList distributed.between
  cases step with
  | @processFile i file rest w place free queue processed =>
    refine ⟨Function.update assigned i (assigned i ++ [file]), between,
      distributed.given.take queue rfl, ?_⟩
    apply (Function.forall_update_iff s.workers fun j worker =>
      worker.threadCtx = afterFiles config j (mem j)
        (Function.update assigned i (assigned i ++ [file]) j)).mpr
    constructor
    · rw [Function.update_self, afterFiles_snoc, ← distributed.memory,
        processFileMt_threadCtx stores processed]
    · intro j other
      rw [Function.update_of_ne other]
      exact distributed.memory j
  | readAndSend i place reading running => exact absurd (distributed.between i) reading
  | endFiles i place free queue => exact ⟨assigned, distributed.goto fun _ => rfl⟩
  | share i place => exact ⟨assigned, distributed.goto (update_queue _ rfl)⟩
  | postprocess i place set => exact ⟨assigned, distributed.goto fun _ => rfl⟩
  | reduce done before all all' =>
    exact ⟨assigned, distributed.between, distributed.given.kept fun _ => rfl, distributed.memory⟩

omit [DecidableEq τ] [Fintype σ] in
theorem initial_distributed (config : Config layout τ R M) (cluster : Cluster σ τ R) (mem : τ → M)
    (buffs : τ → BuffPair) :
    Distributed config cluster.home cluster.files mem (initial cluster mem buffs) fun _ => [] where
  between _ := rfl
  given slave := by simp [initial]
  memory i := by
    have zero : Summ.zero.metadataSumm.toArray = fun _ => 0 := by
      funext i
      fin_cases i <;> rfl
    show ThreadCtx.mk _ Summ.zero.metadataSumm.toArray _ = _
    rw [zero]
    rfl

end Fdistdump.Summary
