import Fdistdump.Summary.Balance

/-!
# Every run comes to its end

Every step uses up work, and until the master has the summaries some step is possible.
-/

namespace Fdistdump.Summary
open Slave Args ListMode Exchange Reduction

variable {R M σ τ : Type} {layout : RecordLayout} [DecidableEq σ] [DecidableEq τ] [Fintype σ]

def Place.cost : Place → Nat
  | .files => shareOrder.length + 2
  | .sharing left => left.length + 1
  | .done => 0

def Worker.work (w : Worker M R) : Nat := w.reader.work + w.place.cost

def SlaveState.work (s : SlaveState R) : Nat := filesCost s.queue + s.queue.length

def State.work [Fintype τ] (s : State σ τ M R) : Nat :=
  ∑ slave, (s.slaves slave).work + ∑ i, (s.workers i).work + if s.reduced.isNone then 1 else 0

variable {config : Config layout τ R M} {home : τ → σ} {s s' : State σ τ M R}

omit [DecidableEq τ] in
theorem processFileMt_work {i : τ} {ctx : SlaveCtx} {w w' : Worker M R} {file : FlowFile R}
    (between : w.reader.pc = .nextFile) (processed : processFileMt config i ctx w file = some w') :
    w'.work ≤ w.work + filesCost [file] := by
  have place := (processFileMt_effect processed).place
  suffices reader : w'.reader.work ≤ w.reader.work + filesCost [file] by
    rw [Worker.work, Worker.work, place]
    omega
  have unchanged : w.reader.work ≤ w.reader.work + filesCost [file] := Nat.le_add_right _ _
  unfold processFileMt at processed
  split at processed
  · dsimp only at processed
    split at processed
    · cases mode : config.workingMode with
      | unset => simp [mode] at processed
      | list =>
        rw [mode] at processed
        obtain rfl := Option.some.inj processed
        have less := threadStep_work config.job ctx (t := { w.reader with files := [file] })
          (show w.reader.pc ≠ .done by rw [between]; nofun)
        refine Nat.le_of_lt (Nat.lt_of_lt_of_le less ?_)
        simp only [Thread.work]
        omega
      | sort | aggr | metadata =>
        rw [mode] at processed
        obtain rfl := Option.some.inj processed
        exact unchanged
    · obtain rfl := Option.some.inj processed
      exact unchanged
  · obtain rfl := Option.some.inj processed
    exact unchanged

omit [DecidableEq τ] in
theorem processFileMt_some (set : config.workingMode ≠ .unset) (i : τ) (ctx : SlaveCtx) (w : Worker M R)
    (file : FlowFile R) : ∃ w', processFileMt config i ctx w file = some w' := by
  unfold processFileMt
  split
  · dsimp only
    split
    · cases mode : config.workingMode with
      | unset => exact absurd mode set
      | list | sort | aggr | metadata => exact ⟨_, rfl⟩
    · exact ⟨_, rfl⟩
  · exact ⟨_, rfl⟩

variable [Fintype τ]

omit [Fintype τ] [DecidableEq τ] in
theorem slaves_work (slaves : σ → SlaveState R) {slave : σ} {state : SlaveState R}
    (queue : state.queue = (slaves slave).queue) :
    ∑ other, (Function.update slaves slave state other).work = ∑ other, (slaves other).work := by
  have same : state.work = (slaves slave).work := by rw [SlaveState.work, SlaveState.work, queue]
  have moved := sum_update SlaveState.work slaves slave state
  omega

theorem step_work (config : Config layout τ R M) (s s' : State σ τ M R) (step : Step config home s s') :
    s'.work < s.work := by
  cases step with
  | @processFile i file rest w place between queue processed =>
    have cost := processFileMt_work between processed
    have worker := sum_update Worker.work s.workers i w
    have slave := sum_update SlaveState.work s.slaves (home i) ((s.slaves (home i)).setQueue rest)
    have shorter : ((s.slaves (home i)).setQueue rest).work + filesCost [file] + 1 =
        (s.slaves (home i)).work := by
      simp only [SlaveState.work, SlaveState.setQueue, queue, filesCost, List.map_cons,
        List.map_nil, List.sum_cons,
        List.sum_nil, List.length_cons]
      omega
    simp only [State.work]
    omega
  | readAndSend i place reading running =>
    have less : (readAndSend config (s.slaves (home i)).ctx (s.workers i)).work < (s.workers i).work :=
      Nat.add_lt_add_right (threadStep_work config.job _ running) _
    have worker := sum_update_lt Worker.work s.workers less
    simp only [State.work]
    rw [slaves_work s.slaves (by rfl)]
    omega
  | endFiles i place between queue =>
    have less : ((s.workers i).goto (.sharing shareOrder)).work < (s.workers i).work := by
      simp only [Worker.work, Worker.goto, place, Place.cost]
      omega
    have worker := sum_update_lt Worker.work s.workers less
    simp only [State.work]
    omega
  | @share i c left place =>
    have less : ((s.workers i).goto (.sharing left)).work < (s.workers i).work := by
      simp only [Worker.work, Worker.goto, place, Place.cost, List.length_cons]
      omega
    have worker := sum_update_lt Worker.work s.workers less
    simp only [State.work]
    rw [slaves_work s.slaves (by rfl)]
    omega
  | postprocess i place set =>
    have less : ((s.workers i).goto .done).work < (s.workers i).work := by
      simp only [Worker.work, Worker.goto, place, Place.cost, List.length_nil]
      omega
    have worker := sum_update_lt Worker.work s.workers less
    simp only [State.work]
    omega
  | reduce done before all all' =>
    simp only [State.work, before]
    exact Nat.lt_succ_self _

theorem step_possible (set : config.workingMode ≠ .unset)
    (placed : ∀ i, Placed (s.slaves (home i)).queue (s.workers i)) (before : s.reduced = none) :
    ∃ s', Step config home s s' := by
  by_cases done : ∀ i, (s.workers i).place = .done
  · obtain ⟨schedule, complete⟩ : ∃ schedule : Schedule (Option σ), schedule.Complete := exists_complete
    exact ⟨_, .reduce done before complete complete⟩
  · obtain ⟨i, busy⟩ := not_forall.mp done
    cases place : (s.workers i).place with
    | done => exact absurd place busy
    | sharing left =>
      cases left with
      | nil => exact ⟨_, .postprocess i place set⟩
      | cons c left => exact ⟨_, .share i place⟩
    | files =>
      by_cases between : (s.workers i).reader.pc = .nextFile
      · cases queue : (s.slaves (home i)).queue with
        | nil => exact ⟨_, .endFiles i place between queue⟩
        | cons file rest =>
          obtain ⟨w, processed⟩ := processFileMt_some set i (s.slaves (home i)).ctx (s.workers i) file
          exact ⟨_, .processFile i place between queue processed⟩
      · exact ⟨_, .readAndSend i place between (placed i).running⟩

theorem summaries_arrive (config : Config layout τ R M) (set : config.workingMode ≠ .unset)
    (cluster : Cluster σ τ R) (mem : τ → M) (buffs : τ → BuffPair) :
    ∃ s summ, Reachable config cluster mem buffs s ∧ s.reduced = some summ := by
  have steps (s s' : State σ τ M R) (placed : ∀ i, Placed (s.slaves (cluster.home i)).queue
    (s.workers i))
      (step : Step config cluster.home s s') :
      ∀ i, Placed (s'.slaves (cluster.home i)).queue (s'.workers i) :=
    step_placed placed step
  have start (i : τ) : Placed ((initial cluster mem buffs).slaves (cluster.home i)).queue
      ((initial cluster mem buffs).workers i) := ⟨.inl rfl, nofun, shareOrder_nodup⟩
  obtain ⟨s, run, arrived⟩ :=
    Transition.exists_run_to_end (fun s : State σ τ M R => s.reduced ≠ none) steps
    (step_work config) (fun s placed notYet => step_possible set placed
      (Classical.not_not.mp notYet)) start
  obtain ⟨summ, reduced⟩ := Option.ne_none_iff_exists'.mp arrived
  exact ⟨s, summ, run, reduced⟩

end Fdistdump.Summary
