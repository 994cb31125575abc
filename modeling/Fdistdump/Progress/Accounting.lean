import Fdistdump.Progress.System

/-!
# The accounts of the progress bar

Files are counted when they are taken from the queue, reported when they have been processed and
counted again by the master. What is between two of these counts is held by a thread or is in
flight.
-/

namespace Fdistdump.Progress
open Slave Args Reduction
open Summary (Cluster)

variable {R σ τ : Type} [DecidableEq σ] [Fintype σ] [Fintype τ]

/-! ### The invariant -/

def Worker.taken (w : Worker R) : Nat :=
  match w.place with
  | .file _ => w.fileCntr + 1
  | _ => w.fileCntr

def Worker.owes (w : Worker R) : Nat :=
  match w.place with
  | .report => 1
  | _ => 0

def State.inFlightOf (s : State σ τ R) (cluster : Cluster σ τ R) (slave : σ) : Nat :=
  s.inFlight.countP fun i => cluster.home i = slave

structure Accounts (cluster : Cluster σ τ R) (s : State σ τ R) : Prop where
  reported : ∀ slave cnt, s.reported slave = some cnt → cnt = (cluster.files slave).length
  files : ∀ slave, ∑ i with cluster.home i = slave, (s.workers i).taken + (s.queue slave).length =
    (cluster.files slave).length
  reports : ∀ i, (s.workers i).sent + (s.workers i).owes = (s.workers i).fileCntr
  messages : ∀ slave, s.pbCtx.filesCnt slave + s.inFlightOf cluster slave = s.sent cluster slave
  sum : s.pbCtx.filesCntSum = ∑ slave, s.pbCtx.filesCnt slave
  iterations : s.i = s.pbCtx.filesCntSum
  goals : s.phase ≠ .gathering → s.pbCtx.filesCntGoal = (fun slave => (cluster.files slave).length) ∧
    s.pbCtx.filesCntGoalSum = ∑ slave, (cluster.files slave).length
  ended : s.phase = .done → s.i = s.pbCtx.filesCntGoalSum
  type : s.pbCtx.type ≠ .unset
  running : s.aborted = false
  idle : ∀ i, (s.workers i).place = .done → s.queue (cluster.home i) = []

variable {config : Config τ R} {cluster : Cluster σ τ R} {s s' : State σ τ R}

theorem Worker.owes_le_taken {w : Worker R} (reports : w.sent + w.owes = w.fileCntr) :
    w.sent ≤ w.taken := by
  unfold taken
  split <;> omega

theorem Accounts.filesCnt_le (accounts : Accounts cluster s) (slave : σ) :
    s.pbCtx.filesCnt slave ≤ s.sent cluster slave ∧
    s.sent cluster slave ≤ (cluster.files slave).length := by
  have messages := accounts.messages slave
  have files := accounts.files slave
  have taken : s.sent cluster slave ≤ ∑ i with cluster.home i = slave, (s.workers i).taken :=
    Finset.sum_le_sum fun i _ => Worker.owes_le_taken (accounts.reports i)
  omega

theorem Accounts.sum_le (accounts : Accounts cluster s) :
    s.pbCtx.filesCntSum ≤ ∑ slave, (cluster.files slave).length := by
  rw [accounts.sum]
  apply Finset.sum_le_sum
  intro slave _
  obtain ⟨counted, sent⟩ := accounts.filesCnt_le slave
  exact Nat.le_trans counted sent

theorem Accounts.print_eq (accounts : Accounts cluster s) (gathered : s.phase ≠ .gathering) :
    s.print = s := by
  obtain ⟨goal, goalSum⟩ := accounts.goals gathered
  have sum : s.pbCtx.filesCntSum ≤ s.pbCtx.filesCntGoalSum := goalSum ▸ accounts.sum_le
  have each (source : σ) : s.pbCtx.filesCnt source ≤ s.pbCtx.filesCntGoal source := by
    obtain ⟨counted, sent⟩ := accounts.filesCnt_le source
    rw [goal]
    exact Nat.le_trans counted sent
  unfold State.print
  split
  · rename_i shown
    have printed : progressBarPrint s.pbCtx = true := by
      have set := accounts.type
      rw [progressBarPrint, decide_eq_true sum, decide_eq_true each]
      cases type : s.pbCtx.type with
      | unset => exact absurd type set
      | none => exact absurd type shown
      | total | perslave | json => rfl
    rw [printed, Bool.not_true, Bool.or_false]
  · rfl

/-! ### Steps -/

theorem initial_accounts (config : Config τ R) (cluster : Cluster σ τ R) :
    Accounts cluster (initial config cluster) where
  reported slave cnt told := by cases told
  files slave := by simp [initial, Worker.taken]
  reports i := rfl
  messages slave := by simp [initial, State.inFlightOf, State.sent]
  sum := by simp [initial]
  iterations := rfl
  goals gathered := absurd rfl gathered
  ended done := by cases done
  type := by
    simp only [initial, argParseType]
    split
    · split
      · decide
      · assumption
    · decide
  running := rfl
  idle i done := by cases done

theorem Accounts.reportInit (accounts : Accounts cluster s) (slave : σ) :
    Accounts cluster
    { s with reported := Function.update s.reported slave (some
      (cluster.files slave).length) } := by
  refine ⟨?_, accounts.files, accounts.reports, accounts.messages, accounts.sum,
    accounts.iterations, accounts.goals,
    accounts.ended, accounts.type, accounts.running, accounts.idle⟩
  intro other cnt told
  dsimp only at told
  by_cases same : other = slave
  · subst same
    rw [Function.update_self] at told
    exact (Option.some.inj told).symm
  · rw [Function.update_of_ne same] at told
    exact accounts.reported other cnt told

theorem Accounts.endReceiving (accounts : Accounts cluster s) (gathered : s.phase ≠ .gathering)
    (all : ¬ s.i < s.pbCtx.filesCntGoalSum) : Accounts cluster { s with phase := .done } := by
  obtain ⟨goal, goalSum⟩ := accounts.goals gathered
  refine ⟨accounts.reported, accounts.files, accounts.reports, accounts.messages, accounts.sum,
    accounts.iterations,
    fun _ => ⟨goal, goalSum⟩, ?_, accounts.type, accounts.running, accounts.idle⟩
  intro _
  have bound := accounts.sum_le
  have iterations := accounts.iterations
  rw [← goalSum] at bound
  show s.i = s.pbCtx.filesCntGoalSum
  omega

theorem Accounts.gathered (accounts : Accounts cluster s) {filesCnt : σ → Nat}
    (all : ∀ slave, s.reported slave = some (filesCnt slave)) :
    Accounts cluster (s.gathered filesCnt) where
  reported := accounts.reported
  files := accounts.files
  reports := accounts.reports
  messages := accounts.messages
  sum := accounts.sum
  iterations := accounts.iterations
  goals _ := by
    have told : filesCnt = fun slave => (cluster.files slave).length :=
      funext fun slave => accounts.reported slave _ (all slave)
    exact ⟨told, congrArg (fun cnt : σ → Nat => ∑ slave, cnt slave) told⟩
  ended done := by cases done
  type := accounts.type
  running := accounts.running
  idle := accounts.idle

theorem Accounts.received (accounts : Accounts cluster s) {i : τ} {front back : List τ}
    (phase : s.phase = .receiving) (arrived : s.inFlight = front ++ i :: back) :
    Accounts cluster (s.received (cluster.home i) (front ++ back)) where
  reported := accounts.reported
  files := accounts.files
  reports := accounts.reports
  messages slave := by
    have before := accounts.messages slave
    simp only [State.inFlightOf, arrived, List.countP_append, List.countP_cons,
      decide_eq_true_eq] at before
    have sent : (s.received (cluster.home i) (front ++ back)).sent cluster slave =
      s.sent cluster slave := rfl
    rw [sent, ← before]
    simp only [State.inFlightOf, State.received, List.countP_append]
    by_cases same : cluster.home i = slave
    · rw [if_pos same, ← same, Function.update_self]
      omega
    · rw [if_neg same, Function.update_of_ne (Ne.symm same)]
      omega
  sum := by
    have moved := sum_update (fun cnt : Nat => cnt) s.pbCtx.filesCnt (cluster.home i)
      (s.pbCtx.filesCnt (cluster.home i) + 1)
    have before := accounts.sum
    show s.pbCtx.filesCntSum + 1 = ∑ slave, Function.update s.pbCtx.filesCnt (cluster.home i) _ slave
    omega
  iterations := congrArg (· + 1) accounts.iterations
  goals := accounts.goals
  ended done := by cases phase.symm.trans done
  type := accounts.type
  running := accounts.running
  idle := accounts.idle

variable [DecidableEq τ]

theorem Accounts.worker (accounts : Accounts cluster s) (i : τ) {w : Worker R} (takes sends : Nat)
    {queue : σ → List (FlowFile R)} {inFlight : List τ} (reports : w.sent + w.owes = w.fileCntr)
    (taken : w.taken = (s.workers i).taken + takes) (sent : w.sent = (s.workers i).sent + sends)
    (left : ∀ slave, (queue slave).length + (if cluster.home i = slave then takes else 0) =
      (s.queue slave).length)
    (added : ∀ slave, inFlight.countP (fun i => cluster.home i = slave) =
      s.inFlightOf cluster slave + if cluster.home i = slave then sends else 0)
    (finishes : w.place = .done → queue (cluster.home i) = []) :
    Accounts cluster { s with queue, workers := Function.update s.workers i w, inFlight } where
  reported := accounts.reported
  files slave := by
    have moved := sum_group_update cluster.home Worker.taken s.workers taken slave
    have before := accounts.files slave
    have rest := left slave
    show ∑ j with cluster.home j = slave, (Function.update s.workers i w j).taken +
      (queue slave).length = _
    omega
  reports j := by
    dsimp only
    by_cases same : j = i
    · rw [same, Function.update_self]
      exact reports
    · rw [Function.update_of_ne same]
      exact accounts.reports j
  messages slave := by
    have moved := sum_group_update cluster.home Worker.sent s.workers sent slave
    have before := accounts.messages slave
    have flight := added slave
    simp only [State.sent, State.inFlightOf] at before flight moved ⊢
    omega
  sum := accounts.sum
  iterations := accounts.iterations
  goals := accounts.goals
  ended := accounts.ended
  type := accounts.type
  running := accounts.running
  idle j := by
    dsimp only
    by_cases same : j = i
    · rw [same, Function.update_self]
      exact finishes
    · rw [Function.update_of_ne same]
      intro done
      have empty := accounts.idle j done
      have rest := left (cluster.home j)
      rw [empty, List.length_nil] at rest
      exact List.length_eq_zero_iff.mp (by omega)

theorem Accounts.goes (accounts : Accounts cluster s) (i : τ) {w : Worker R}
    (reports : w.sent + w.owes = w.fileCntr) (taken : w.taken = (s.workers i).taken)
    (sent : w.sent = (s.workers i).sent) (finishes : w.place = .done → s.queue (cluster.home i) = []) :
    Accounts cluster { s with workers := Function.update s.workers i w } := by
  refine accounts.worker i 0 0 reports taken sent ?_ ?_ finishes
  · intro slave
    rw [ite_self, Nat.add_zero]
  · intro slave
    rw [ite_self, Nat.add_zero]
    rfl

theorem step_accounts (accounts : Accounts cluster s) (step : Step config cluster s s') :
    Accounts cluster s' := by
  cases step with
  | reportInit slave before => exact accounts.reportInit slave
  | reachLimit i place mode before =>
    exact ⟨accounts.reported, accounts.files, accounts.reports, accounts.messages, accounts.sum,
      accounts.iterations, accounts.goals, accounts.ended, accounts.type, accounts.running,
      accounts.idle⟩
  | @takeFile i file rest place started queue =>
    have reports := accounts.reports i
    simp only [Worker.owes, place] at reports
    refine accounts.worker i 1 0 reports ?_ rfl ?_ ?_ ?_
    · simp only [Worker.taken, Worker.goto, place]
    · intro slave
      by_cases same : cluster.home i = slave
      · subst same
        rw [Function.update_self, if_pos rfl, queue, List.length_cons]
      · rw [Function.update_of_ne (Ne.symm same), if_neg same, Nat.add_zero]
    · intro slave
      rw [ite_self, Nat.add_zero]
      rfl
    · intro done
      cases done
  | @processFile i file exit place returns =>
    have reports := accounts.reports i
    simp only [Worker.owes, place] at reports
    refine accounts.goes i ?_ ?_ rfl ?_
    · simp only [Worker.owes, Worker.processed]
      omega
    · simp only [Worker.taken, Worker.processed, place]
    · intro done
      cases done
  | reportNext i place =>
    have reports := accounts.reports i
    simp only [Worker.owes, place] at reports
    refine accounts.worker i 0 1 ?_ ?_ rfl ?_ ?_ ?_
    · simp only [Worker.owes, Worker.sends]
      omega
    · simp only [Worker.taken, Worker.sends, place, Nat.add_zero]
    · intro slave
      rw [ite_self, Nat.add_zero]
    · intro slave
      rw [List.countP_append, List.countP_singleton]
      simp only [decide_eq_true_eq]
      rfl
    · intro done
      cases done
  | sendReturns i place received =>
    have reports := accounts.reports i
    simp only [Worker.owes, place] at reports
    refine accounts.goes i reports ?_ rfl ?_
    · simp only [Worker.taken, Worker.goto, place]
    · intro done
      cases done
  | endFiles i place started queue =>
    have reports := accounts.reports i
    simp only [Worker.owes, place] at reports
    refine accounts.goes i reports ?_ rfl ?_
    · simp only [Worker.taken, Worker.goto, place]
    · exact fun _ => queue
  | gather phase all =>
    have gathered := accounts.gathered all
    rw [gathered.print_eq (by simp [State.gathered])]
    exact gathered
  | receive phase more arrived =>
    have received := accounts.received phase arrived
    rw [received.print_eq (by simp [State.received, phase])]
    exact received
  | endReceiving phase all => exact accounts.endReceiving (by rw [phase]; decide) all

theorem Reachable.accounts (reachable : Reachable config cluster s) : Accounts cluster s :=
  have steps (s s' : State σ τ R) (accounts : Accounts cluster s) (step : Step config cluster s s') :
      Accounts cluster s' := step_accounts accounts step
  Transition.invariant_of_steps steps (initial_accounts config cluster) reachable

end Fdistdump.Progress
