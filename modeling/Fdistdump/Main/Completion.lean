import Fdistdump.Main.Listing
import Fdistdump.Sort

/-!
# Every query comes to its end

Every step of a query uses up work: files first, then the rounds of the exchange, then the messages
of list mode. Until the master has the summaries some step is possible, however MPI buffers.
-/

namespace Fdistdump.Main
open Exchange Slave Args
open ListMode (blankBuffs counterAndPort)
open Summary (Config Worker)

variable {R M σ τ H V T : Type} {layout : ListMode.RecordLayout} {lib : Libnf} [DecidableEq σ]
  [DecidableEq τ] [Fintype σ]
  [Fintype τ] {config : Config layout τ R M} {e : Exchanges σ τ M H V T lib} {input : Input σ τ M H R}
  {s s' : State σ τ M R H V T}

/-- A record fits the send buffer of list mode. -/
def Fits (config : Config layout τ R M) : Prop :=
  config.workingMode = .list → layout.space ≤ xchgBuffSize

/-- A message that holds up a thread can be received. -/
theorem receives_of_waits (fits : Fits config) (reached : Reachable config e input s) {i : τ}
    (waiting : s.Waits config e i) :
    ∃ s', Step config e s s' := by
  obtain ⟨waits, pending⟩ := waiting
  have idle : (s.files.workers i).reader.pc ≠ .nextFile := by
    intro idle
    simp [Main.waits, idle] at waits
  have list : config.workingMode = .list := by
    by_contra notList
    exact idle (reached.joined.between notList i)
  obtain ⟨assigned, listed⟩ := reached.listed list
  have receiving : s.listed.activeSources ≠ 0 := by
    intro returned
    have done := listed.returned (fits list) reached.joined returned i
    exact idle ((reached.joined.placed i).emptied.resolve_left (by rw [done]; nofun)).2
  obtain ⟨msg, rest, queued⟩ := List.exists_cons_of_ne_nil fun none => pending (.inl none)
  exact ⟨_, .receive i queued receiving⟩

variable [Nonempty τ]

theorem exists_step (set : config.workingMode ≠ .unset) (fits : Fits config)
    (reached : Reachable config e input s)
    (unfinished : ¬ s.Finished) : ∃ s', Step config e s s' := by
  have notYet : s.files.reduced = none := Classical.not_not.mp unfinished
  have aligned := e.aligned (memories s.files)
  by_cases held : ∃ i, s.Waits config e i
  · obtain ⟨i, waiting⟩ := held
    exact receives_of_waits fits reached waiting
  have free : ∀ i, ¬ s.Waits config e i := not_exists.mp held
  by_cases done : ∀ i, (s.files.workers i).place = .done
  · by_cases exchanged : s.exchange.Finished (e.program (memories s.files))
    · by_cases returned : config.workingMode = .list → s.listed.activeSources = 0
      · obtain ⟨schedule, complete⟩ : ∃ schedule : Reduction.Schedule (Option σ), schedule.Complete :=
          Reduction.exists_complete
        exact ⟨_, .files (.reduce done notYet complete complete) (fun i _ => free i) fun _ =>
          ⟨exchanged, returned⟩⟩
      · obtain ⟨list, receiving⟩ := Classical.not_imp.mp returned
        obtain ⟨assigned, listed⟩ := reached.listed list
        obtain ⟨i, msg, rest, queued⟩ := listed.message (fits list) done receiving
        exact ⟨_, .receive i queued receiving⟩
    · obtain ⟨exchange, step⟩ := Rounds.exists_step aligned reached.exchange exchanged
      exact ⟨_, .exchange step fun i _ => done i⟩
  · obtain ⟨files, step⟩ := Summary.step_possible set reached.joined.placed notYet
    refine ⟨_, .files step (fun i _ => free i) fun changed => ?_⟩
    cases step with
    | reduce all _ _ _ => exact absurd all done
    | _ => exact absurd rfl changed

def inFlightCnt (config : Config layout τ R M) (s : State σ τ M R H V T) : Nat :=
  ∑ i, (s.inFlight config i).length

omit [Nonempty τ] [DecidableEq σ] [Fintype σ] in
theorem receive_less {i : τ} {msg : Bytes} {rest : List Bytes}
    (queued : s.inFlight config i = msg :: rest) (listed : RecvState) :
    inFlightCnt config { s with listed, taken := Function.update s.taken i (s.taken i + 1) } <
      inFlightCnt config s := by
  have left (j : τ) : State.inFlight config
    { s with listed, taken := Function.update s.taken i (s.taken i + 1) } j =
      Function.update (s.inFlight config) i rest j :=
    inFlight_next queued ▸ Function.apply_update
      (fun j taken => (sent config (s.files.workers j)).drop taken) s.taken i _ j
  simp only [inFlightCnt, left]
  refine Reduction.sum_update_lt List.length (s.inFlight config) ?_
  rw [queued]
  exact Nat.lt_succ_self _

def work (config : Config layout τ R M) (e : Exchanges σ τ M H V T lib) (s : State σ τ M R H V T) :
    Nat × ((Nat × Nat) × Nat) :=
  (s.files.work, Rounds.work (e.program (memories s.files)) s.exchange, inFlightCnt config s)

omit [Nonempty τ] in
theorem steps_end (config : Config layout τ R M) (e : Exchanges σ τ M H V T lib) :
    WellFounded fun s' s : State σ τ M R H V T => Step config e s s' := by
  have ends := (Prod.lex Nat.lt_wfRel (Prod.lex (Prod.lex Nat.lt_wfRel Nat.lt_wfRel) Nat.lt_wfRel)).wf
  refine Subrelation.wf ?_ (InvImage.wf (work config e) ends)
  intro s' s step
  cases step with
  | files step _ _ => exact Prod.Lex.left _ _ (Summary.step_work config _ _ step)
  | exchange step _ => exact Prod.Lex.right _ (Prod.Lex.left _ _ step.work_lt)
  | receive i queued _ => exact Prod.Lex.right _ (Prod.Lex.right _ (receive_less queued _))

/-- In every mode: whatever MPI buffers and however the threads are scheduled, no state of a query
is stuck before its end, and no query runs forever. -/
theorem query_never_stuck (config : Config layout τ R M) (set : config.workingMode ≠ .unset)
    (fits : Fits config) (e : Exchanges σ τ M H V T lib) (input : Input σ τ M H R) :
    (∀ s, Reachable config e input s → ¬ s.Finished → ∃ s', Step config e s s') ∧
      WellFounded fun s' s : State σ τ M R H V T => Step config e s s' :=
  ⟨fun _ reached unfinished => exists_step set fits reached unfinished, steps_end config e⟩

def noFields : ListMode.Access counterAndPort R :=
  ⟨fun _ _ => .notset none, fun _ _ _ _ stored => nomatch stored⟩

/-- Two slaves, the first one with two threads. -/
def twoSlaves : Fin 3 → Fin 2 := Summary.threeWorkers.home

theorem twoSlaves_staffed : ∀ slave, ∃ i, twoSlaves i = slave := by
  decide

/-- Every thread sends one record after another; MPI buffers nothing. -/
def bytesExchange : Exchanges (Fin 2) (Fin 3) (List UInt8) Unit Unit Unit shortRecords :=
  singleExchange twoSlaves twoSlaves_staffed () (fun _ => blankBuffs) byteCodec.mem 0 fun _ => False

/-- Without an exchange after the files, as in list mode and for the metadata alone; MPI buffers
nothing. -/
def noExchange (M : Type) : Exchanges (Fin 2) (Fin 3) M Unit Unit Unit shortRecords where
  rounds := 0
  home := twoSlaves
  staffed := twoSlaves_staffed
  tag _ := ()
  castCnt _ := 0
  casts _ _ inside := absurd inside (Nat.not_lt_zero _)
  cast _ _ _ := ()
  store _ slave := slave
  buffs _ _ := blankBuffs
  mem _ _ _ := byteCodec.mem []
  limit _ _ _ := 0
  release := id
  sendBuffers _ := False
  castBuffers := True

def bytesConfig (workingMode : WorkingMode) : Config counterAndPort (Fin 3) UInt8 (List UInt8) :=
  ⟨workingMode, ⟨none, fun _ => ⟨1, 1, 1⟩, fun mem byte => mem ++ [byte]⟩, 0, noFields, fun _ => none⟩

def bytesInput : Input (Fin 2) (Fin 3) (List UInt8) Unit UInt8 :=
  ⟨Sort.byteFiles, [], fun _ => blankBuffs, ()⟩

theorem query_never_stuck_bytes :
    (∃ s, Step (bytesConfig .sort) bytesExchange (initial bytesExchange bytesInput) s) ∧
      (∃ s, Step (bytesConfig .list) (noExchange _) (initial (noExchange _) bytesInput) s) ∧
      WellFounded fun s' s => Step (bytesConfig .list) (noExchange _) s s' := by
  obtain ⟨free, -⟩ := query_never_stuck (bytesConfig .sort) nofun nofun bytesExchange bytesInput
  obtain ⟨free', ends⟩ := query_never_stuck (bytesConfig .list) nofun (fun _ => by decide)
    (noExchange _) bytesInput
  exact ⟨free _ .refl fun some => some rfl, free' _ .refl fun some => some rfl, ends⟩

theorem exists_end (set : config.workingMode ≠ .unset) (fits : Fits config)
    (reached : Reachable config e input s) :
    ∃ s', Reachable config e input s' ∧ s'.Finished := by
  have keeps : ∀ a b, Reachable config e input a → Step config e a b → Reachable config e input b :=
    fun _ _ before step =>
    before.tail step
  obtain ⟨s', run, finished⟩ := Transition.exists_run_of_wellFounded State.Finished keeps
    (steps_end config e)
    (fun _ before unfinished => exists_step set fits before unfinished) reached
  exact ⟨s', reached.trans run, finished⟩

end Fdistdump.Main
