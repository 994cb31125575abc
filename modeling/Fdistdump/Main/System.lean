import Fdistdump.Exchange.Protocol
import Fdistdump.Summary.Memories
import Fdistdump.Summary.Totals

/-!
# All processes of a query

`slave_main` and `master_main`: the threads of the slaves take files from the queues, and a thread
that finds none left goes on to `postprocess_mt`, while others still read. The master receives from
the first moment on: in list mode what the threads send while they read, in the modes that store
records what `postprocess_mt` sends. The summaries are reduced when the parallel regions of all
processes have ended.
-/

namespace Fdistdump.Main
open Exchange Slave Args
open ListMode (SlaveCtx Thread limitReached)
open Summary (Cluster Config Given Stores Worker)

variable {R M σ τ H V T : Type} {layout : ListMode.RecordLayout} {lib : Libnf}

/-- `listed` is `recv_loop` in list mode, which has received the first `taken` messages of each
thread. -/
structure State (σ τ M R H V T : Type) where
  files : Summary.State σ τ M R
  exchange : Rounds.State σ τ RecvState H V T Bytes
  listed : RecvState
  taken : τ → Nat

/-- The memories of the threads. -/
def memories (files : Summary.State σ τ M R) (i : τ) : M := (files.workers i).lnfMem

/-! ### List mode -/

/-- What a thread has sent while it read, and the terminator that `postprocess_mt` sends in list mode. -/
def sent (config : Config layout τ R M) (w : Worker M R) : List Bytes :=
  match config.workingMode, w.place with
  | .list, .done => w.reader.channel ++ [[]]
  | _, _ => w.reader.channel

def State.inFlight (config : Config layout τ R M) (s : State σ τ M R H V T) (i : τ) : List Bytes :=
  (sent config (s.files.workers i)).drop (s.taken i)

/-- The next step of `ff_read_and_send` begins with `MPI_Wait` for a message that has been sent. -/
def waits (job : ListMode.Job layout R) (ctx : SlaveCtx) (t : Thread R) : Bool :=
  t.request.isSome &&
    match t.pc with
    | .sendFull _ | .setTail => true
    | .tail => t.buffRecCntr != 0
    | .testTail => !limitReached job ctx
    | _ => false

variable [DecidableEq σ] [DecidableEq τ] [Fintype σ] [Fintype τ]

/-- The messages of a thread have been received or MPI buffers them, so that `MPI_Wait` returns. -/
def State.Returns (config : Config layout τ R M) (e : Exchanges σ τ M H V T lib)
    (s : State σ τ M R H V T) (i : τ) : Prop :=
  s.inFlight config i = [] ∨ e.sendBuffers fun j => (s.inFlight config j).map (Prod.mk (e.tag 0))

/-- `MPI_Wait` holds up the thread. -/
def State.Waits (config : Config layout τ R M) (e : Exchanges σ τ M H V T lib)
    (s : State σ τ M R H V T) (i : τ) : Prop :=
  waits config.job (s.files.slaves (e.home i)).ctx (s.files.workers i).reader = true ∧
    ¬ s.Returns config e i

/-! ### Steps -/

/-- A thread takes part in the exchange when it has left the loop through the files; its memory is
as the loop has left it. -/
inductive Step (config : Config layout τ R M) (e : Exchanges σ τ M H V T lib) (s : State σ τ M R H V T) :
    State σ τ M R H V T → Prop
  | files {files : Summary.State σ τ M R} (step : Summary.Step config e.home s.files files)
      (free : ∀ i, files.workers i ≠ s.files.workers i → ¬ s.Waits config e i)
      (last : files.reduced ≠ s.files.reduced →
        s.exchange.Finished (e.program (memories s.files)) ∧
          (config.workingMode = .list → s.listed.activeSources = 0)) :
      Step config e s { s with files }
  | exchange {exchange : Rounds.State σ τ RecvState H V T Bytes}
      (step : Rounds.Step (e.program (memories s.files)) s.exchange exchange)
      (joined : ∀ i, exchange.place i ≠ s.exchange.place i → (s.files.workers i).place = .done) :
      Step config e s { s with exchange }
  | receive (i : τ) {msg : Bytes} {rest : List Bytes} (queued : s.inFlight config i = msg :: rest)
      (receiving : s.listed.activeSources ≠ 0) :
      Step config e s
        { s with
          listed := recvMessage config.recLimit s.listed msg
          taken := Function.update s.taken i (s.taken i + 1) }

/-- The files of the slaves and the states in which memories and buffers begin. -/
structure Input (σ τ M H R : Type) where
  files : σ → List (FlowFile R)
  mem : M
  buffs : τ → BuffPair
  slave : H

variable {config : Config layout τ R M} {e : Exchanges σ τ M H V T lib} {input : Input σ τ M H R}

def Input.cluster (input : Input σ τ M H R) (e : Exchanges σ τ M H V T lib) : Cluster σ τ R where
  home := e.home
  files := input.files
  staffed slave _ := e.staffed slave

def initial (e : Exchanges σ τ M H V T lib) (input : Input σ τ M H R) : State σ τ M R H V T where
  files := Summary.initial (input.cluster e) (fun _ => input.mem) input.buffs
  exchange := .init (recvInit (Fintype.card τ)) input.slave
  listed := recvInit (Fintype.card τ)
  taken _ := 0

def Reachable (config : Config layout τ R M) (e : Exchanges σ τ M H V T lib) (input : Input σ τ M H R)
    (s : State σ τ M R H V T) : Prop :=
  Relation.ReflTransGen (Step config e) (initial e input) s

/-- The master has both summaries. -/
def State.Finished (s : State σ τ M R H V T) : Prop := s.files.reduced ≠ none

/-! ### A thread that has left the loop through the files -/

variable {s s' : State σ τ M R H V T}

omit [Fintype τ] in
theorem worker_done {files files' : Summary.State σ τ M R} {home : τ → σ}
    (step : Summary.Step config home files files')
    {i : τ} (done : (files.workers i).place = .done) : files'.workers i = files.workers i := by
  have other {j : τ} {w : Summary.Worker M R} (busy : (files.workers j).place ≠ .done) :
      Function.update files.workers j w i = files.workers i := by
    apply Function.update_of_ne
    rintro rfl
    exact busy done
  cases step with
  | processFile j place between queue processed => exact other (by rw [place]; nofun)
  | readAndSend j place reading running => exact other (by rw [place]; nofun)
  | endFiles j place between queue => exact other (by rw [place]; nofun)
  | share j place => exact other (by rw [place]; nofun)
  | postprocess j place set => exact other (by rw [place]; nofun)
  | reduce _ _ _ _ => rfl

theorem run_done (run : Relation.ReflTransGen (Step config e) s s') {i : τ}
    (done : (s.files.workers i).place = .done) : s'.files.workers i = s.files.workers i := by
  induction run with
  | refl => rfl
  | tail _ last ih =>
    cases last with
    | files step _ _ => exact (worker_done step (by rw [ih]; exact done)).trans ih
    | exchange _ _ | receive _ _ _ => exact ih

/-! ### The two parts of a run -/

theorem run_files (run : Relation.ReflTransGen (Step config e) s s') :
    Relation.ReflTransGen (Summary.Step config e.home) s.files s'.files := by
  induction run with
  | refl => exact .refl
  | tail _ last ih =>
    cases last with
    | files step _ _ => exact ih.tail step
    | exchange _ _ | receive _ _ _ => exact ih

/-- The exchange runs as if the threads had their final memories from the beginning. -/
theorem run_exchange (run : Relation.ReflTransGen (Step config e) s s') :
    Relation.ReflTransGen (Rounds.Step (e.program (memories s'.files))) s.exchange s'.exchange := by
  induction run using Relation.ReflTransGen.head_induction_on with
  | refl => exact .refl
  | head first rest ih =>
    cases first with
    | files _ _ _ | receive _ _ _ => exact ih
    | exchange step joined =>
      refine .head (step.with_out ?_) ih
      intro i moved k slave
      have same : memories s'.files i = memories _ i :=
        congrArg Summary.Worker.lnfMem (run_done rest (joined i moved))
      simp only [Exchanges.program, same]

/-- What holds in every state beyond the two parts. -/
structure Joined (config : Config layout τ R M) (e : Exchanges σ τ M H V T lib)
    (s : State σ τ M R H V T) : Prop where
  placed : ∀ i, Summary.Placed (s.files.slaves (e.home i)).queue (s.files.workers i)
  between : config.workingMode ≠ .list → ∀ i, (s.files.workers i).reader.pc = .nextFile
  left : ∀ i, s.exchange.place i ≠ .ready 0 → (s.files.workers i).place = .done
  reduced : s.files.reduced ≠ none →
    (∀ i, (s.files.workers i).place = .done) ∧ s.exchange.Finished (e.program (memories s.files)) ∧
      (config.workingMode = .list → s.listed.activeSources = 0)

theorem step_joined (s s' : State σ τ M R H V T) (joined : Joined config e s)
    (step : Step config e s s') :
    Joined config e s' := by
  cases step with
  | @files files step free last =>
    refine ⟨Summary.step_placed joined.placed step, fun notList => step.between notList
      (joined.between notList), ?_, ?_⟩
    · intro i begun
      rw [worker_done step (joined.left i begun)]
      exact joined.left i begun
    · intro reduced
      by_cases same : files.reduced = s.files.reduced
      · obtain ⟨done, finished⟩ := joined.reduced (same ▸ reduced)
        have memory : memories files = memories s.files := funext fun i =>
          congrArg Worker.lnfMem (worker_done step (done i))
        exact ⟨fun i => by rw [worker_done step (done i)]; exact done i, memory ▸ finished⟩
      · cases step with
        | reduce done _ _ _ => exact ⟨done, last same⟩
        | _ => exact absurd rfl same
  | @exchange exchange step participants =>
    refine ⟨joined.placed, joined.between, ?_, ?_⟩
    · intro i begun
      by_cases same : exchange.place i = s.exchange.place i
      · exact joined.left i (same ▸ begun)
      · exact participants i same
    · intro reduced
      obtain ⟨done, finished, returned⟩ := joined.reduced reduced
      exact ⟨done, step.finished finished, returned⟩
  | receive i queued receiving =>
    refine ⟨joined.placed, joined.between, joined.left, fun reduced => ?_⟩
    obtain ⟨done, finished, returned⟩ := joined.reduced reduced
    exact ⟨done, finished, fun list => absurd (returned list) receiving⟩

omit [DecidableEq σ] [DecidableEq τ] [Fintype σ] in
theorem initial_joined : Joined config e (initial e input) :=
  ⟨fun _ => ⟨.inl rfl, nofun, Summary.shareOrder_nodup⟩, fun _ _ => rfl, fun _ begun => absurd rfl begun,
    fun some => absurd rfl some⟩

theorem Reachable.joined (reached : Reachable config e input s) : Joined config e s :=
  Transition.invariant_of_steps step_joined initial_joined reached

theorem Reachable.exchange (reached : Reachable config e input s) :
    Rounds.Reachable (e.program (memories s.files)) (recvInit (Fintype.card τ)) input.slave s.exchange :=
  run_exchange reached

theorem Reachable.files (reached : Reachable config e input s) :
    Summary.Reachable config (input.cluster e) (fun _ => input.mem) input.buffs s.files :=
  run_files reached

omit [DecidableEq τ] [Fintype σ] in
/-- When no thread is left in the loop through the files, all files have been given to threads. -/
theorem Joined.all_given (joined : Joined config e s) (done : ∀ i, (s.files.workers i).place = .done)
    {assigned : τ → List (FlowFile R)} (given : Given e.home input.files s.files assigned) (slave : σ) :
    (input.files slave : Multiset (FlowFile R)) = ∑ i with e.home i = slave,
    (assigned i : Multiset (FlowFile R)) := by
  obtain ⟨i, rfl⟩ := e.staffed slave
  have emptied := ((joined.placed i).emptied.resolve_left (by rw [done i]; nofun)).1
  have files := given (e.home i)
  rwa [emptied, Multiset.coe_nil, zero_add] at files

/-- When a query that stores records has finished, every file has been given to a thread of its
slave, the memories are what the files make of them, and the exchange of these memories has
finished. -/
theorem finished_parts (stores : Stores config) (reached : Reachable config e input s)
    (finished : s.Finished) :
    s.exchange.Finished (e.program (memories s.files)) ∧
      ∃ assigned : τ → List (FlowFile R),
        (∀ slave, (input.files slave : Multiset (FlowFile R)) =
          ∑ i with e.home i = slave, (assigned i : Multiset (FlowFile R))) ∧
        ∀ i, memories s.files i = (Summary.afterFiles config i input.mem (assigned i)).lnfMem := by
  obtain ⟨done, exchanged, -⟩ := reached.joined.reduced finished
  have keeps : ∀ a b : Summary.State σ τ M R,
      (∃ assigned, Summary.Distributed config e.home input.files (fun _ => input.mem) a assigned) →
        Summary.Step config e.home a b →
          ∃ assigned, Summary.Distributed config e.home input.files (fun _ => input.mem) b assigned := by
    rintro a b ⟨assigned, distributed⟩ step
    exact step.distributed stores distributed
  have begun :=
    Summary.initial_distributed config (input.cluster e) (fun _ => input.mem) input.buffs
  obtain ⟨assigned, distributed⟩ :=
    Transition.invariant_of_steps keeps ⟨_, begun⟩ reached.files
  exact ⟨exchanged, assigned, reached.joined.all_given done distributed.given,
    fun i => congrArg ThreadCtx.lnfMem (distributed.memory i)⟩

end Fdistdump.Main
