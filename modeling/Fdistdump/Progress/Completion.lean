import Fdistdump.Progress.Accounting

/-!
# Every progress message is received

The master stops after as many messages as it was told of. By then every slave has sent all of its
messages, and until then something can always happen.
-/

namespace Fdistdump.Progress
open Slave Args Reduction
open Summary (Cluster)

variable {R σ τ : Type} [DecidableEq σ] [Fintype σ] [Fintype τ] {config : Config τ R}
  {cluster : Cluster σ τ R} {s s' : State σ τ R}

/-! ### The end of a slave and of the master -/

theorem Accounts.all_sent (accounts : Accounts cluster s) {slave : σ}
    (done : ∀ i, cluster.home i = slave → (s.workers i).place = .done) :
    s.sent cluster slave = (cluster.files slave).length := by
  have files := accounts.files slave
  have taken : ∑ i with cluster.home i = slave, (s.workers i).taken = s.sent cluster slave := by
    apply Finset.sum_congr rfl
    intro i member
    have place := done i (Finset.mem_filter.mp member).2
    have reports := accounts.reports i
    simp only [Worker.owes, place] at reports
    simp only [Worker.taken, place]
    exact reports.symm
  by_cases none : cluster.files slave = []
  · rw [none, List.length_nil] at files ⊢
    omega
  · obtain ⟨i, isHome⟩ := cluster.staffed slave none
    have empty := accounts.idle i (done i isHome)
    rw [isHome] at empty
    rw [empty, List.length_nil] at files
    omega

theorem Accounts.all_received (accounts : Accounts cluster s) (done : s.phase = .done) :
    (∀ slave, s.pbCtx.filesCnt slave = (cluster.files slave).length ∧
      s.pbCtx.filesCntGoal slave = (cluster.files slave).length ∧
      s.sent cluster slave = (cluster.files slave).length) ∧ s.inFlight = [] := by
  obtain ⟨goal, goalSum⟩ := accounts.goals (by rw [done]; decide)
  have below (slave : σ) : s.pbCtx.filesCnt slave ≤ (cluster.files slave).length := by
    obtain ⟨counted, sent⟩ := accounts.filesCnt_le slave
    exact Nat.le_trans counted sent
  have total : ∑ slave, s.pbCtx.filesCnt slave = ∑ slave, (cluster.files slave).length := by
    rw [← accounts.sum, ← accounts.iterations, accounts.ended done, goalSum]
  have reached (slave : σ) : s.pbCtx.filesCnt slave = (cluster.files slave).length :=
    (Finset.sum_eq_sum_iff_of_le fun slave _ => below slave).mp total slave (Finset.mem_univ slave)
  have sent (slave : σ) : s.sent cluster slave = (cluster.files slave).length := by
    obtain ⟨counted, sent⟩ := accounts.filesCnt_le slave
    have all := reached slave
    omega
  refine ⟨fun slave => ⟨reached slave, by rw [goal], sent slave⟩, ?_⟩
  apply List.eq_nil_iff_forall_not_mem.mpr
  intro i member
  have messages := accounts.messages (cluster.home i)
  rw [reached, sent] at messages
  have none : s.inFlightOf cluster (cluster.home i) = 0 := by omega
  exact absurd (decide_eq_true rfl) (List.countP_eq_zero.mp none i member)

/-! ### Every step uses up work -/

def Place.cost : Place R → Nat
  | .files => 1
  | .file _ => 5
  | .report => 4
  | .sending => 2
  | .done => 0

def BarPhase.cost : BarPhase → Nat
  | .gathering => 2
  | .receiving => 1
  | .done => 0

def flagCost (set : Bool) : Nat := if set then 0 else 1

def reportCost (reported : Option Nat) : Nat := flagCost reported.isSome

def State.work (s : State σ τ R) : Nat :=
  ∑ slave, reportCost (s.reported slave) + ∑ slave, flagCost (s.recLimitReached slave) +
    ∑ slave, 5 * (s.queue slave).length + ∑ i, (s.workers i).place.cost + s.inFlight.length +
      s.phase.cost

omit [DecidableEq σ] in
@[simp] theorem print_work (s : State σ τ R) : s.print.work = s.work := by
  unfold State.print
  split <;> rfl

variable [DecidableEq τ]

omit [DecidableEq σ] [Fintype σ] in
theorem workers_cost (s : State σ τ R) (i : τ) (w : Worker R) {before after : Nat}
    (old : (s.workers i).place.cost = before) (new : w.place.cost = after) :
    ∑ j, (Function.update s.workers i w j).place.cost + before = ∑ j, (s.workers j).place.cost + after :=
  old ▸ new ▸ sum_update (fun w : Worker R => w.place.cost) s.workers i w

theorem step_work (config : Config τ R) (cluster : Cluster σ τ R) (s s' : State σ τ R)
    (step : Step config cluster s s') : s'.work < s.work := by
  cases step with
  | reportInit slave before =>
    have moved := sum_update reportCost s.reported slave (some (cluster.files slave).length)
    have old : reportCost (s.reported slave) = 1 := by rw [before]; rfl
    have new : reportCost (some (cluster.files slave).length) = 0 := rfl
    simp only [State.work]
    omega
  | @takeFile i file rest place started queue =>
    have worker := workers_cost s i ((s.workers i).goto (.file file)) (show _ = 1 by rw [place]; rfl)
      (show _ = 5 from rfl)
    have slave := sum_update (fun queue : List (FlowFile R) => 5 * queue.length) s.queue
      (cluster.home i) rest
    simp only [queue, List.length_cons] at slave
    simp only [State.work]
    omega
  | reachLimit i place mode before =>
    have moved := sum_update flagCost s.recLimitReached (cluster.home i) true
    simp only [before, flagCost, if_true, Bool.false_eq_true, if_false] at moved
    simp only [State.work, flagCost]
    omega
  | processFile i place returns =>
    have worker := workers_cost s i (s.workers i).processed (show _ = 5 by rw [place]; rfl)
      (show _ = 4 from rfl)
    simp only [State.work]
    omega
  | reportNext i place =>
    have worker := workers_cost s i (s.workers i).sends (show _ = 4 by rw [place]; rfl)
      (show _ = 2 from rfl)
    simp only [State.work, List.length_append, List.length_singleton]
    omega
  | sendReturns i place received =>
    have worker := workers_cost s i ((s.workers i).goto .files) (show _ = 2 by rw [place]; rfl)
      (show _ = 1 from rfl)
    simp only [State.work]
    omega
  | endFiles i place started queue =>
    have worker := workers_cost s i ((s.workers i).goto .done) (show _ = 1 by rw [place]; rfl)
      (show _ = 0 from rfl)
    simp only [State.work]
    omega
  | gather phase all =>
    rw [print_work]
    simp only [State.work, State.gathered, phase, BarPhase.cost]
    omega
  | receive phase more arrived =>
    rw [print_work]
    simp only [State.work, State.received, arrived, List.length_append, List.length_cons]
    omega
  | endReceiving phase all =>
    simp only [State.work, phase, BarPhase.cost]
    omega

/-! ### Something can happen until everything is done -/

def Finished (s : State σ τ R) : Prop := (∀ i, (s.workers i).place = .done) ∧ s.phase = .done

omit [DecidableEq σ] [Fintype σ] [Fintype τ] [DecidableEq τ] in
theorem processFileMt_some (set : config.workingMode ≠ .unset) (i : τ) (recLimitReached : Bool)
    (file : FlowFile R) :
    ∃ exit, processFileMt config i recLimitReached file = some exit := by
  unfold processFileMt
  split
  · exact ⟨_, rfl⟩
  · split
    · exact ⟨_, rfl⟩
    · cases mode : config.workingMode with
      | unset => exact absurd mode set
      | list =>
        cases recLimitReached with
        | true => exact ⟨_, rfl⟩
        | false => exact ⟨_, rfl⟩
      | sort | aggr | metadata => exact ⟨_, rfl⟩

theorem receive_possible (accounts : Accounts cluster s) (gathered : s.phase ≠ .gathering) {i : τ}
    (flying : i ∈ s.inFlight) : ∃ s', Step config cluster s s' := by
  cases phase : s.phase with
  | gathering => exact absurd phase gathered
  | done =>
    obtain ⟨-, none⟩ := accounts.all_received phase
    rw [none] at flying
    cases flying
  | receiving =>
    obtain ⟨front, back, arrived⟩ := List.append_of_mem flying
    refine ⟨_, .receive phase ?_ arrived⟩
    rw [accounts.iterations, accounts.sum, (accounts.goals gathered).2]
    refine Finset.sum_lt_sum (fun slave _ => ?_) ⟨cluster.home i, Finset.mem_univ _, ?_⟩
    · obtain ⟨counted, sent⟩ := accounts.filesCnt_le slave
      exact Nat.le_trans counted sent
    · have messages := accounts.messages (cluster.home i)
      have sent := (accounts.filesCnt_le (cluster.home i)).2
      have some : 0 < s.inFlightOf cluster (cluster.home i) :=
        List.countP_pos_iff.mpr ⟨i, flying, decide_eq_true rfl⟩
      omega

theorem step_possible (set : config.workingMode ≠ .unset) (accounts : Accounts cluster s)
    (unfinished : ¬ Finished s) : ∃ s', Step config cluster s s' := by
  by_cases all : ∀ slave, (s.reported slave).isSome
  · by_cases gathering : s.phase = .gathering
    · choose filesCnt told using fun slave => Option.isSome_iff_exists.mp (all slave)
      exact ⟨_, .gather gathering told⟩
    · by_cases done : ∀ i, (s.workers i).place = .done
      · -- every message was sent, so the master is about to receive one or to leave its loop
        have receiving : s.phase = .receiving := by
          cases phase : s.phase with
          | gathering => exact absurd phase gathering
          | receiving => rfl
          | done => exact absurd ⟨done, phase⟩ unfinished
        by_cases more : s.i < s.pbCtx.filesCntGoalSum
        · rw [accounts.iterations, accounts.sum, (accounts.goals gathering).2] at more
          obtain ⟨slave, -, less⟩ := Finset.exists_lt_of_sum_lt more
          have messages := accounts.messages slave
          rw [accounts.all_sent fun i _ => done i] at messages
          have some : 0 < s.inFlightOf cluster slave := by omega
          obtain ⟨i, flying, -⟩ := List.countP_pos_iff.mp some
          exact receive_possible accounts gathering flying
        · exact ⟨_, .endReceiving receiving more⟩
      · obtain ⟨i, busy⟩ := not_forall.mp done
        cases place : (s.workers i).place with
        | done => exact absurd place busy
        | files =>
          cases queue : s.queue (cluster.home i) with
          | nil => exact ⟨_, .endFiles i place (all _) queue⟩
          | cons file rest => exact ⟨_, .takeFile i place (all _) queue⟩
        | file file =>
          obtain ⟨exit, returns⟩ := processFileMt_some set i (s.recLimitReached (cluster.home i)) file
          exact ⟨_, .processFile i place returns⟩
        | report => exact ⟨_, .reportNext i place⟩
        | sending =>
          -- without a buffer the call returns once the message was received
          by_cases flying : i ∈ s.inFlight
          · exact receive_possible accounts gathering flying
          · exact ⟨_, .sendReturns i place (Or.inl flying)⟩
  · obtain ⟨slave, before⟩ := not_forall.mp all
    exact ⟨_, .reportInit slave (Option.not_isSome_iff_eq_none.mp before)⟩

/-- In every run the assertions hold and the counts stay below their goals; a slave sends as many
messages as it has reported, and the loop ends with all of them received. Runs are finite and stop
only when all is done. -/
theorem progress_accounting (set : config.workingMode ≠ .unset) (cluster : Cluster σ τ R) :
    (∀ s, Reachable config cluster s →
      s.aborted = false ∧
      (s.phase ≠ .gathering → (∀ slave, s.pbCtx.filesCnt slave ≤ s.pbCtx.filesCntGoal slave) ∧
        s.pbCtx.filesCntSum ≤ s.pbCtx.filesCntGoalSum) ∧
      s.pbCtx.filesCntSum = ∑ slave, s.pbCtx.filesCnt slave ∧
      (∀ slave cnt, s.reported slave = some cnt →
        (∀ i, cluster.home i = slave → (s.workers i).place = .done) → s.sent cluster slave = cnt) ∧
      (s.phase = .done →
        (∀ slave, s.pbCtx.filesCnt slave = (cluster.files slave).length ∧
          s.pbCtx.filesCntGoal slave = (cluster.files slave).length ∧
          s.sent cluster slave = (cluster.files slave).length) ∧ s.inFlight = [])) ∧
    (WellFounded fun s' s : State σ τ R => Step config cluster s s') ∧
    ∀ s, Reachable config cluster s → ¬ Finished s → ∃ s', Step config cluster s s' := by
  refine ⟨?_, Transition.wellFounded_of_measure (step_work config cluster), ?_⟩
  · intro s reachable
    have accounts := reachable.accounts
    refine ⟨accounts.running, ?_, accounts.sum, ?_, accounts.all_received⟩
    swap
    · intro slave cnt told done
      rw [accounts.reported slave cnt told]
      exact accounts.all_sent done
    intro gathered
    obtain ⟨goal, goalSum⟩ := accounts.goals gathered
    refine ⟨?_, goalSum ▸ accounts.sum_le⟩
    intro slave
    obtain ⟨counted, sent⟩ := accounts.filesCnt_le slave
    rw [goal]
    exact Nat.le_trans counted sent
  · intro s reachable unfinished
    exact step_possible set reachable.accounts unfinished

def twoSlaves : Cluster Bool Bool Unit where
  home := id
  files := fun slave => if slave then [⟨false, fun _ => 0, []⟩] else []
  staffed := fun slave _ => ⟨slave, rfl⟩

def synchronous : Config Bool Unit where
  workingMode := .list
  bfindex _ := none
  progressBarType := .unset
  destOpens := true
  buffers := fun _ => False

theorem progress_accounting_two :
    (WellFounded fun s' s : State Bool Bool Unit => Step synchronous twoSlaves s s') ∧
      ∃ s', Step synchronous twoSlaves (initial synchronous twoSlaves) s' := by
  have accounting := progress_accounting (show synchronous.workingMode ≠ .unset by decide) twoSlaves
  exact ⟨accounting.2.1, accounting.2.2 _ .refl fun finished => by cases finished.2⟩

end Fdistdump.Progress
