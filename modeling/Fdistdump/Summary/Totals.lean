import Fdistdump.ListMode.Delivery
import Fdistdump.Output.PrintField
import Fdistdump.Summary.Progress
import Mathlib.Algebra.BigOperators.Pi
import Mathlib.Data.Fintype.BigOperators

/-!
# The totals the master prints

The counters of the metadata summary have an account in every mode, those of the processed summary when
no record is skipped.
-/

namespace Fdistdump.Summary
open Slave Args Output ListMode Exchange Reduction

variable {R M σ τ : Type} {layout : RecordLayout} [DecidableEq σ] [DecidableEq τ] [Fintype σ]

/-! ### The metadata summary -/

theorem unshared_of_mem {c : Counter} {w : Worker M R} (left : c ∈ w.place.left) :
    unshared c w = w.summ.counter c := if_pos left

theorem unshared_of_not_mem {c : Counter} {w : Worker M R} (shared : c ∉ w.place.left) :
    unshared c w = 0 :=
  if_neg shared

theorem unshared_files {c : Counter} {w : Worker M R} (place : w.place = .files) :
    unshared c w = w.summ.counter c :=
  unshared_of_mem (by rw [place]; exact mem_shareOrder c)

theorem unshared_done {c : Counter} {w : Worker M R} (place : w.place = .done) : unshared c w = 0 :=
  unshared_of_not_mem (by rw [place]; exact List.not_mem_nil)

theorem unshared_share {c d : Counter} {left : List Counter} {w : Worker M R}
    (place : w.place = .sharing (d :: left)) (fresh : d ∉ left) :
    unshared c w = unshared c (w.goto (.sharing left)) + if d = c then w.summ.counter c else 0 := by
  by_cases this : d = c
  · subst this
    rw [unshared_of_mem (by rw [place]; exact List.mem_cons_self), unshared_of_not_mem fresh,
      if_pos rfl, zero_add]
  · rw [if_neg this, add_zero]
    by_cases later : c ∈ left
    · rw [unshared_of_mem (by rw [place]; exact List.mem_cons_of_mem _ later),
        unshared_of_mem (by exact later)]
      rfl
    · rw [unshared_of_not_mem (by rw [place]; simp [Place.left, Ne.symm this, later]),
        unshared_of_not_mem (by exact later)]

theorem unshared_endFiles {c : Counter} {w : Worker M R} (place : w.place = .files) :
    unshared c (w.goto (.sharing shareOrder)) = unshared c w := by
  rw [unshared_files place]
  exact unshared_of_mem (mem_shareOrder c)

theorem unshared_postprocess {c : Counter} {w : Worker M R} (place : w.place = .sharing []) :
    unshared c (w.goto .done) = unshared c w := by
  rw [unshared_done rfl, unshared_of_not_mem (by rw [place]; exact List.not_mem_nil)]

theorem zero_counter (c : Counter) : Summ.zero.counter c = 0 := by
  rcases c with v | info
  · cases v <;> rfl
  · cases info <;> rfl

def metadataOf (info : LnfInfo) (files : List (FlowFile R)) : UInt64 :=
  (files.map fun file => if file.opens then lnfInfo file info else 0).sum

omit [DecidableEq τ] in
theorem metadata_account (config : Config layout τ R M) (info : LnfInfo) :
    Account config (.metadata info) (metadataOf info) (unshared (.metadata info)) fun _ _ => True where
  file := by
    intro i ctx w w' file place between _ processed
    have effect := processFileMt_effect processed
    refine ⟨if file.opens then lnfInfo file info else 0, ?_, fun rest => List.sum_cons⟩
    rw [unshared_files place, unshared_files (effect.place.trans place)]
    exact effect.metadata info
  read := by
    intro ctx w place _ _ _
    rw [unshared_files place, unshared_files (by exact place)]
    simp only [readAndSend]
    split <;> rfl
  endFiles := unshared_endFiles
  share := unshared_share
  postprocess := unshared_postprocess
  fresh _ := (unshared_files rfl).trans (zero_counter _)
  finished place _ := unshared_done place
  empty := rfl

/-! ### The processed summary

Without a record limit the flag is never set, and list mode writes every matching record. -/

def sets : Pc R → Bool
  | .setFull | .setTail => true
  | _ => false

/-- The flag is not set and the thread is not about to set it. -/
def Quiet (ctx : SlaveCtx) (t : Thread R) : Prop := ctx.recLimitReached = false ∧ sets t.pc = false

section Quiet

variable {job : Job layout R} {ctx : SlaveCtx} {t : Thread R}

theorem not_limitReached (unlimited : job.recLimit = 0) (ctx : SlaveCtx) :
    limitReached job ctx = false := by
  rw [limitReached, unlimited]
  rfl

theorem current_read {record : R} {rest : List R} (pc : t.pc = .read) (recs : t.recs = record :: rest) :
    t.current job = (if job.accepts record then [record] else []) ++ rest.filter job.accepts := by
  rw [Thread.current, pc, recs]
  dsimp only
  rw [List.filter_cons]
  split <;> rfl

/-- A step inside `ff_read_and_send` writes the next matching record or leaves them all for later. -/
theorem threadStep_stores (unlimited : job.recLimit = 0) (quiet : Quiet ctx t)
    (reading : t.pc ≠ .nextFile) (running : t.pc ≠ .done) :
    Quiet (threadStep job ctx t).1 (threadStep job ctx t).2 ∧
      t.current job = (nextStored job ctx t).toList ++ (threadStep job ctx t).2.current job := by
  obtain ⟨unset, notSetting⟩ := quiet
  unfold threadStep nextStored
  cases pc : t.pc with
  | nextFile => exact absurd pc reading
  | done => exact absurd pc running
  | setFull | setTail =>
    rw [pc] at notSetting
    cases notSetting
  | read =>
    dsimp only
    cases recs : t.recs with
    | nil => exact ⟨⟨unset, rfl⟩, by simp [Thread.current, pc, recs]⟩
    | cons record rest =>
      dsimp only
      rw [current_read pc recs]
      cases job.accepts record with
      | false => exact ⟨⟨unset, rfl⟩, by simp [Thread.current]⟩
      | true =>
        -- The same test decides whether the record goes into the buffer or waits for the next one.
        by_cases fits : t.buffOff + layout.allSizesSum + sizeofXchgRecSize > xchgBuffSize
        · rw [if_pos fits, if_pos fits]
          exact ⟨⟨unset, rfl⟩, by simp [Thread.current]⟩
        · rw [if_neg fits, if_neg fits]
          exact ⟨⟨unset, rfl⟩, by simp [Thread.current, Thread.store]⟩
  | full record =>
    dsimp only
    rw [unset]
    exact ⟨⟨unset, rfl⟩, by simp [Thread.current, pc]⟩
  | testFull record =>
    dsimp only
    rw [not_limitReached unlimited]
    exact ⟨⟨unset, rfl⟩, by simp [Thread.current, Thread.store, pc]⟩
  | testTail =>
    dsimp only
    rw [not_limitReached unlimited]
    exact ⟨⟨unset, rfl⟩, by simp [Thread.current, pc]⟩
  | tail =>
    dsimp only
    split <;> exact ⟨⟨unset, rfl⟩, by simp [Thread.current, pc]⟩
  | sendFull record => exact ⟨⟨unset, rfl⟩, by simp [Thread.current, Thread.isend, pc]⟩
  | countFull record | countTail =>
    exact ⟨⟨unset, rfl⟩, by simp [Thread.current, pc]⟩

end Quiet

def volumeOf (query : Query R M) (v : Volume) (recs : List R) : UInt64 :=
  (recs.map fun record => processedCounter (query.volume record) v).sum

theorem volumeOf_append (query : Query R M) (v : Volume) (recs recs' : List R) :
    volumeOf query v (recs ++ recs') = volumeOf query v recs + volumeOf query v recs' := by
  rw [volumeOf, List.map_append, List.sum_append]
  rfl

theorem ffReadAndStore_processed (query : Query R M) (v : Volume) (recs : List R) (t : ThreadCtx M) :
    processedCounter (ffReadAndStore query recs t).processedSumm v =
      processedCounter t.processedSumm v + volumeOf query v (recs.filter query.accepts) := by
  induction recs generalizing t with
  | nil => exact (add_zero _).symm
  | cons record rest ih =>
    have rejected : query.filter.any (fun accepts => !accepts record) = !query.accepts record := by
      unfold Query.accepts
      cases query.filter <;> rfl
    rw [ffReadAndStore, rejected, List.filter_cons]
    cases query.accepts record with
    | false => exact ih t
    | true =>
      refine (ih _).trans ?_
      rw [processedSummUpdate_counter, add_assoc]
      rfl

def fileMatching (query : Query R M) (file : FlowFile R) : List R :=
  if file.opens then file.recs.filter query.accepts else []

def inHand (config : Config layout τ R M) (v : Volume) (w : Worker M R) : UInt64 :=
  volumeOf config.query v (w.reader.current config.job)

omit [DecidableEq τ] in
theorem inHand_nextFile {config : Config layout τ R M} {v : Volume} {w : Worker M R}
    (between : w.reader.pc = .nextFile) :
    inHand config v w = 0 := by
  rw [inHand, Thread.current, between]
  rfl

/-- The modes that count the records they process. -/
def Counts (mode : WorkingMode) : Prop := mode = .list ∨ mode = .sort ∨ mode = .aggr

omit [DecidableEq τ] in
theorem processFileMt_matching {config : Config layout τ R M} (counts : Counts config.workingMode)
    (noIndex : ∀ i, config.bfindex i = none) {i : τ} {ctx : SlaveCtx} {w w' : Worker M R}
    {file : FlowFile R} (v : Volume)
    (unset : ctx.recLimitReached = false) (between : w.reader.pc = .nextFile)
    (processed : processFileMt config i ctx w file = some w') :
    processedCounter w'.summ.processedSumm v + inHand config v w' =
      processedCounter w.summ.processedSumm v + volumeOf config.query v
        (fileMatching config.query file) := by
  unfold processFileMt at processed
  by_cases opens : file.opens = true
  · rw [if_pos opens, noIndex] at processed
    rw [fileMatching, if_pos opens]
    dsimp only at processed
    rw [if_pos (by rfl)] at processed
    rcases counts with mode | stores
    · rw [mode] at processed
      obtain rfl := Option.some.inj processed
      have started : (threadStep config.job ctx { w.reader with files := [file] }).2.current config.job =
          file.recs.filter config.query.accepts := by
        simp [threadStep, between, opens, unset, Thread.current, Config.job]
      rw [inHand, started]
    · have kept : w'.summ.processedSumm = (ffReadAndStore config.query file.recs (Worker.threadCtx
            { w with
              summ :=
                { w.summ with
                  metadataSumm := metadataSummUpdate w.summ.metadataSumm file } })).processedSumm ∧
          w'.reader = w.reader := by
        rcases stores with mode | mode
        all_goals
          rw [mode] at processed
          obtain rfl := Option.some.inj processed
          exact ⟨rfl, rfl⟩
      rw [kept.1, inHand_nextFile (by rw [kept.2]; exact between), ffReadAndStore_processed, add_zero]
      rfl
  · rw [if_neg opens] at processed
    obtain rfl := Option.some.inj processed
    rw [fileMatching, if_neg opens, inHand_nextFile between]
    rfl

omit [DecidableEq τ] in
theorem processed_account {config : Config layout τ R M} (counts : Counts config.workingMode)
    (unlimited : config.recLimit = 0) (noIndex : ∀ i, config.bfindex i = none) (v : Volume) :
    Account config (.processed v) (fun files => volumeOf config.query v (matching config.query files))
      (fun w => unshared (.processed v) w + inHand config v w) Quiet where
  file := by
    intro i ctx w w' file place between quiet processed
    have effect := processFileMt_effect processed
    have counted := processFileMt_matching counts noIndex v quiet.1 between processed
    refine ⟨volumeOf config.query v (fileMatching config.query file), ?_, fun rest => ?_⟩
    · rw [unshared_files place, unshared_files (effect.place.trans place),
        inHand_nextFile between, add_zero]
      exact counted
    · exact volumeOf_append config.query v _ _
  read := by
    intro ctx w place reading running quiet
    obtain ⟨-, split⟩ := threadStep_stores (show config.job.recLimit = 0 from unlimited) quiet
      reading running
    rw [unshared_files place, unshared_files (by exact place), inHand, inHand, split,
      volumeOf_append, ← add_assoc]
    congr 1
    simp only [readAndSend]
    cases nextStored config.job ctx w.reader with
    | none => exact (add_zero _).symm
    | some record =>
      refine (processedSummUpdate_counter _ _ v).trans ?_
      rw [Option.toList_some, volumeOf, List.map_singleton, List.sum_singleton]
      rfl
  endFiles place := by rw [unshared_endFiles place]; rfl
  share := by
    intro w d left place fresh
    rw [unshared_share place fresh, add_right_comm]
    rfl
  postprocess place := by rw [unshared_postprocess place]; rfl
  fresh between := by rw [unshared_files rfl, inHand_nextFile between, add_zero]; exact zero_counter _
  finished place between := by rw [unshared_done place, inHand_nextFile between, add_zero]
  empty := rfl

section Run

variable {config : Config layout τ R M} {home : τ → σ} {s s' : State σ τ M R}

omit [DecidableEq σ] [Fintype σ] in
theorem quiet_update {slaves : σ → SlaveState R} {i : τ} {w : Worker M R}
    (quiet : ∀ j, Quiet (s.slaves (home j)).ctx (s.workers j).reader)
    (unset : ∀ slave, (s.slaves slave).ctx.recLimitReached = false →
      (slaves slave).ctx.recLimitReached = false)
    (own : sets w.reader.pc = false) (j : τ) :
    Quiet (slaves (home j)).ctx (Function.update s.workers i w j).reader := by
  refine ⟨unset _ (quiet j).1, ?_⟩
  by_cases here : j = i
  · subst here
    rwa [Function.update_self]
  · rw [Function.update_of_ne here]
    exact (quiet j).2

omit [DecidableEq τ] in
theorem processFileMt_pc {i : τ} {ctx : SlaveCtx} {w w' : Worker M R} {file : FlowFile R}
    (between : w.reader.pc = .nextFile) (processed : processFileMt config i ctx w file = some w') :
    w'.reader.pc = .nextFile ∨ w'.reader.pc = .read := by
  unfold processFileMt at processed
  split at processed
  · dsimp only at processed
    split at processed
    · cases mode : config.workingMode with
      | unset => simp [mode] at processed
      | list =>
        rw [mode] at processed
        obtain rfl := Option.some.inj processed
        simp only [threadStep, between]
        split
        · exact .inr rfl
        · exact .inl rfl
      | sort | aggr | metadata =>
        rw [mode] at processed
        obtain rfl := Option.some.inj processed
        exact .inl between
    · obtain rfl := Option.some.inj processed
      exact .inl between
  · obtain rfl := Option.some.inj processed
    exact .inl between

theorem step_quiet (unlimited : config.recLimit = 0)
    (quiet : ∀ i, Quiet (s.slaves (home i)).ctx (s.workers i).reader) (step : Step config home s s') :
    ∀ i, Quiet (s'.slaves (home i)).ctx (s'.workers i).reader := by
  have same (slave : σ) {state : SlaveState R}
      (kept : (s.slaves slave).ctx.recLimitReached = false → state.ctx.recLimitReached = false)
      (other : σ)
      (unset : (s.slaves other).ctx.recLimitReached = false) :
      (Function.update s.slaves slave state other).ctx.recLimitReached = false := by
    rw [Function.update_apply]
    split
    · rename_i here
      exact kept (here ▸ unset)
    · exact unset
  cases step with
  | processFile i place between queue processed =>
    refine quiet_update quiet (same _ fun unset => unset) ?_
    rcases processFileMt_pc between processed with pc | pc <;> rw [pc] <;> rfl
  | readAndSend i place reading running =>
    obtain ⟨stays, -⟩ := threadStep_stores (show config.job.recLimit = 0 from unlimited)
      (quiet i) reading running
    exact quiet_update quiet (same _ fun _ => stays.1) stays.2
  | endFiles i place between queue => exact quiet_update quiet (fun _ unset => unset) (quiet i).2
  | share i place => exact quiet_update quiet (same _ fun unset => unset) (quiet i).2
  | postprocess i place set => exact quiet_update quiet (fun _ unset => unset) (quiet i).2
  | reduce done before all all' => exact quiet

/-! ### The master -/

omit [DecidableEq σ] in
theorem mpiReduce_counter (slaves : σ → SlaveState R) {processed metadata : Schedule (Option σ)}
    (all : processed.Complete) (all' : metadata.Complete) (c : Counter) :
    (mpiReduce slaves processed metadata).counter c = ∑ slave, (slaves slave).summ.counter c := by
  have ranks : ∑ rank, (contribution slaves rank).counter c = ∑ slave,
      (slaves slave).summ.counter c := by
    rw [Fintype.sum_option]
    exact (congrArg (· + _) (zero_counter c)).trans (zero_add _)
  rw [← ranks]
  rcases c with v | info
  · simp only [mpiReduce, Summ.counter]
    rw [processedOfArray_counter, value_of_complete _ all, Finset.sum_apply]
    exact Finset.sum_congr rfl fun rank _ => processedArray_index _ v
  · simp only [mpiReduce, Summ.counter]
    rw [MetadataSumm.ofArray_counter, value_of_complete _ all', Finset.sum_apply]
    exact Finset.sum_congr rfl fun rank _ => MetadataSumm.toArray_index _ info

/-- What holds in every state of a run for a counter with an account. -/
structure Balanced [Fintype τ] (home : τ → σ) (files : σ → List (FlowFile R)) (c : Counter)
    (amount : List (FlowFile R) → UInt64) (holding : Worker M R → UInt64)
    (Fine : SlaveCtx → Thread R → Prop) (s : State σ τ M R) : Prop where
  placed : ∀ i, Placed (s.slaves (home i)).queue (s.workers i)
  fine : ∀ i, Fine (s.slaves (home i)).ctx (s.workers i).reader
  balance : ∀ slave,
    held home c holding s.slaves s.workers slave + amount (s.slaves slave).queue = amount (files slave)
  staffed : ∀ slave, (s.slaves slave).queue ≠ [] → ∃ i, home i = slave
  reduced : ∀ summ, s.reduced = some summ → summ.counter c = ∑ slave, amount (files slave)

variable [Fintype τ] {files : σ → List (FlowFile R)} {c : Counter} {amount : List (FlowFile R) → UInt64}
  {holding : Worker M R → UInt64} {Fine : SlaveCtx → Thread R → Prop}

omit [DecidableEq τ] in
theorem shared_of_done (account : Account config c amount holding Fine)
    (balanced : Balanced home files c amount holding Fine s)
    (done : ∀ i, (s.workers i).place = .done) (slave : σ) :
    (s.slaves slave).summ.counter c = amount (files slave) := by
  have placed (i : τ) := (balanced.placed i).emptied.resolve_left (by rw [done i]; nofun)
  have queue : (s.slaves slave).queue = [] := by
    by_contra some
    obtain ⟨i, rfl⟩ := balanced.staffed slave some
    exact some (placed i).1
  have balance := balanced.balance slave
  rw [queue, account.empty, add_zero, held,
    Finset.sum_eq_zero fun i _ => account.finished (done i) (placed i).2, add_zero] at balance
  exact balance

theorem step_keeps_balance (account : Account config c amount holding Fine)
    (keeps : ∀ s s' : State σ τ M R, (∀ i, Fine (s.slaves (home i)).ctx (s.workers i).reader) →
      Step config home s s' → ∀ i, Fine (s'.slaves (home i)).ctx (s'.workers i).reader)
    (balanced : Balanced home files c amount holding Fine s) (step : Step config home s s') :
    Balanced home files c amount holding Fine s' where
  placed := step_placed balanced.placed step
  fine := keeps s s' balanced.fine step
  balance slave := (step_balanced account balanced.placed balanced.fine step slave).trans
    (balanced.balance slave)
  staffed := by
    intro slave some
    cases step with
    | processFile i place between queue processed =>
      by_cases here : home i = slave
      · exact ⟨i, here⟩
      · dsimp only at some
        rw [Function.update_of_ne (Ne.symm here)] at some
        exact balanced.staffed slave some
    | readAndSend i place reading running =>
      dsimp only at some
      rw [update_queue _ (by rfl)] at some
      exact balanced.staffed slave some
    | share i place =>
      dsimp only at some
      rw [update_queue _ (by rfl)] at some
      exact balanced.staffed slave some
    | endFiles | postprocess | reduce => exact balanced.staffed slave some
  reduced := by
    cases step with
    | reduce done before all all' =>
      intro summ same
      obtain rfl := Option.some.inj same
      rw [mpiReduce_counter _ all all']
      exact Finset.sum_congr rfl fun slave _ => shared_of_done account balanced done slave
    | _ => exact balanced.reduced

omit [DecidableEq τ] in
theorem initial_balanced (account : Account config c amount holding Fine) (cluster : Cluster σ τ R)
    (mem : τ → M) (buffs : τ → BuffPair)
    (fine : ∀ i, Fine {} { files := [], buff := (buffs i).buff }) :
    Balanced cluster.home cluster.files c amount holding Fine (initial cluster mem buffs) where
  placed i := ⟨.inl rfl, nofun, shareOrder_nodup⟩
  fine := fine
  balance slave := by
    have nothing (i : τ) : holding ((initial cluster mem buffs).workers i) = 0 := account.fresh rfl
    rw [held, Finset.sum_eq_zero fun i _ => nothing i, add_zero]
    exact (congrArg (· + _) (zero_counter c)).trans (zero_add _)
  staffed := cluster.staffed
  reduced summ none := by cases none

theorem reduced_of_account (account : Account config c amount holding Fine) {cluster : Cluster σ τ R}
    {mem : τ → M} {buffs : τ → BuffPair} (fine : ∀ i, Fine {} { files := [], buff := (buffs i).buff })
    (keeps : ∀ s s' : State σ τ M R, (∀ i, Fine (s.slaves (cluster.home i)).ctx (s.workers i).reader) →
      Step config cluster.home s s' → ∀ i, Fine (s'.slaves (cluster.home i)).ctx (s'.workers i).reader)
    (reachable : Reachable config cluster mem buffs s) {summ : Summ} (reduced : s.reduced = some summ) :
    summ.counter c = ∑ slave, amount (cluster.files slave) := by
  have steps (s s' : State σ τ M R)
    (balanced : Balanced cluster.home cluster.files c amount holding Fine s)
      (step : Step config cluster.home s s') :
      Balanced cluster.home cluster.files c amount holding Fine s' :=
    step_keeps_balance account keeps balanced step
  have start := initial_balanced account cluster mem buffs fine
  exact (Transition.invariant_of_steps steps start reachable).reduced summ reduced

end Run

/-! ### The printed summaries -/

theorem ofNat_sum_toNat (ns : List UInt64) : UInt64.ofNat (ns.map UInt64.toNat).sum = ns.sum := by
  induction ns with
  | nil => rfl
  | cons n rest ih =>
    rw [List.map_cons, List.sum_cons, List.sum_cons, UInt64.ofNat_add, ih, UInt64.ofNat_toNat]

omit [DecidableEq σ] in
theorem ofNat_sum (f : σ → Nat) : UInt64.ofNat (∑ slave, f slave) = ∑ slave, UInt64.ofNat (f slave) := by
  let ofNat : Nat →+ UInt64 := ⟨⟨UInt64.ofNat, rfl⟩, UInt64.ofNat_add⟩
  exact map_sum ofNat f Finset.univ

def opened (files : List (FlowFile R)) : List (FlowFile R) := files.filter fun file => file.opens

theorem metadataOf_opened (info : LnfInfo) (files : List (FlowFile R)) :
    metadataOf info files = ((opened files).map fun file => lnfInfo file info).sum := by
  induction files with
  | nil => rfl
  | cons file rest ih =>
    rw [metadataOf, List.map_cons, List.sum_cons, opened, List.filter_cons]
    by_cases opens : file.opens = true
    · rw [if_pos opens, if_pos opens, List.map_cons, List.sum_cons]
      exact congrArg _ ih
    · rw [if_neg opens, if_neg opens, zero_add]
      exact ih

theorem metadataOf_eq (info : LnfInfo) (files : List (FlowFile R)) :
    metadataOf info files = UInt64.ofNat ((opened files).map fun file =>
      (lnfInfo file info).toNat).sum := by
  rw [metadataOf_opened, ← ofNat_sum_toNat, List.map_map]
  rfl

theorem volumeOf_eq (query : Query R M) (v : Volume) (recs : List R) :
    volumeOf query v recs =
      UInt64.ofNat (recs.map fun record => (processedCounter (query.volume record) v).toNat).sum := by
  rw [volumeOf, ← ofNat_sum_toNat, List.map_map]
  rfl

variable [Fintype τ]

/-- However files are scheduled, counters are shared and processes are reduced, every counter of the
metadata summary that the master prints is the sum of this counter over the files that were opened.
Where no record is skipped, so is the processed summary over the matching records. -/
theorem summaries_independent_of_schedule (libc : Libc) (params : OutputParams)
    (config : Config layout τ R M)
    (cluster : Cluster σ τ R) (mem : τ → M) (buffs : τ → BuffPair) {s : State σ τ M R}
    (reachable : Reachable config cluster mem buffs s) {summ : Summ} (reduced : s.reduced = some summ) :
    (∀ info, cellAt (metadataLines libc params summ.metadataSumm) (info.place params.format) =
        some (volumeText libc params (summ.metadataSumm.counter info)) ∧
      summ.metadataSumm.counter info = UInt64.ofNat
        (∑ slave, ((opened (cluster.files slave)).map fun file => (lnfInfo file info).toNat).sum)) ∧
    (Counts config.workingMode → config.recLimit = 0 → (∀ i, config.bfindex i = none) →
      ∀ v, (∀ seconds rate, cellAt (processedLines libc params seconds rate summ.processedSumm)
        (v.place params.format) =
          some (volumeText libc params (processedCounter summ.processedSumm v))) ∧
        processedCounter summ.processedSumm v = UInt64.ofNat
          (∑ slave, ((matching config.query (cluster.files slave)).map fun record =>
            (processedCounter (config.query.volume record) v).toNat).sum)) := by
  constructor
  · intro info
    refine ⟨metadataLines_cell libc params _ info, ?_⟩
    have total := reduced_of_account (metadata_account config info) (fun _ => trivial)
      (fun _ _ _ _ _ => trivial) reachable reduced
    rw [ofNat_sum]
    exact total.trans (Finset.sum_congr rfl fun slave _ => metadataOf_eq info _)
  · intro counts unlimited noIndex v
    refine ⟨fun seconds rate => processedLines_cell libc params seconds rate _ v, ?_⟩
    have total := reduced_of_account (processed_account counts unlimited noIndex v)
      (fun _ => ⟨rfl, rfl⟩) (fun _ _ => step_quiet unlimited) reachable reduced
    rw [ofNat_sum]
    exact total.trans (Finset.sum_congr rfl fun slave _ => volumeOf_eq config.query v _)

def threeWorkers : Cluster (Fin 2) (Fin 3) Bool where
  home
    | 0 => 0
    | 1 => 0
    | 2 => 1
  files
    | 0 => [⟨true, fun _ => 5, [true]⟩, ⟨false, fun _ => 9, [true]⟩]
    | 1 => [⟨true, fun _ => 18446744073709551615, [true, false]⟩]
  staffed
    | 0, _ => ⟨0, rfl⟩
    | 1, _ => ⟨2, rfl⟩

def portConfig : Config counterAndPort (Fin 3) Bool Unit where
  workingMode := .list
  query := ⟨none, fun _ => ⟨1, 2, 3⟩, fun mem _ => mem⟩
  recLimit := 0
  access := portAccess
  bfindex _ := none

theorem summaries_independent_of_schedule_three :
    ∃ (s : State (Fin 2) (Fin 3) Unit Bool) (summ : Summ),
      Reachable portConfig threeWorkers (fun _ => ()) (fun _ => blankBuffs) s ∧ s.reduced = some summ ∧
        summ.metadataSumm.counter .flows = 4 ∧ processedCounter summ.processedSumm .pkts = 6 := by
  obtain ⟨s, summ, reachable, reduced⟩ := summaries_arrive portConfig (by decide) threeWorkers
    (fun _ => ()) (fun _ => blankBuffs)
  obtain ⟨metadata, processed⟩ := summaries_independent_of_schedule unitLibc prettyParams portConfig
    threeWorkers
    (fun _ => ()) (fun _ => blankBuffs) reachable reduced
  exact ⟨s, summ, reachable, reduced, (metadata .flows).2.trans (by decide),
    (processed (.inl rfl) rfl (fun _ => rfl) .pkts).2.trans (by decide)⟩

end Fdistdump.Summary
