import Fdistdump.Library.Reduction
import Fdistdump.ListMode.Books

/-!
# List mode comes to its end

Every step uses up work, and until `recv_loop` returns some step is possible.
-/

namespace Fdistdump.ListMode
open ByteBuffer Exchange Slave

variable {layout : RecordLayout} {R σ τ : Type} [DecidableEq σ] [DecidableEq τ]

/-- Bounds the steps a thread has still to take before its next file, given the records left in the
current one. -/
def Pc.cost (recsLeft : Nat) : Pc R → Nat
  | .done => 0
  | .nextFile => 2
  | .setTail => 3
  | .testTail => 4
  | .countTail => 5
  | .tail => 7
  | .setFull => 8
  | .read => 8 + 8 * recsLeft
  | .testFull _ => 9 + 8 * recsLeft
  | .countFull _ => 10 + 8 * recsLeft
  | .sendFull _ => 12 + 8 * recsLeft
  | .full _ => 13 + 8 * recsLeft

def filesCost (files : List (FlowFile R)) : Nat := (files.map fun file => 8 * file.recs.length + 7).sum

def Thread.work (t : Thread R) : Nat := t.pc.cost t.recs.length + filesCost t.files + t.channel.length

theorem threadStep_work (job : Job layout R) (s : SlaveCtx) {t : Thread R} (running : t.pc ≠ .done) :
    (threadStep job s t).2.work < t.work := by
  obtain ⟨pc, files, recs, buff, buffIdx, buffOff, buffRecCntr, request, channel⟩ := t
  cases pc with
  | done => exact absurd rfl running
  | nextFile =>
    cases files with
    | nil =>
      simp only [threadStep, Thread.work, Pc.cost, List.length_append, List.length_singleton]
      omega
    | cons file rest =>
      simp only [threadStep]
      split <;> simp only [Thread.work, Pc.cost, filesCost, List.map_cons, List.sum_cons] <;> omega
  | read =>
    cases recs with
    | nil =>
      simp only [threadStep, Thread.work, Pc.cost, List.length_nil]
      omega
    | cons record rest =>
      simp only [threadStep]
      split
      · simp only [Thread.work, Pc.cost, List.length_cons]
        omega
      · split <;> simp only [Thread.work, Thread.store, Pc.cost, List.length_cons] <;> omega
  | full record | testFull record | tail | testTail =>
    simp only [threadStep]
    split <;>
      simp only [Thread.work, Thread.isend, Thread.store, Pc.cost, List.length_append,
        List.length_singleton] <;>
      omega
  | sendFull record | countFull record | setFull | countTail | setTail =>
    simp only [threadStep, Thread.work, Thread.isend, Pc.cost, List.length_append, List.length_singleton]
    omega

variable [Fintype τ]

def State.work (s : State σ τ R) : Nat := ∑ i, (s.threads i).work

variable (job : Job layout R) (home : τ → σ)

theorem step_work (s s' : State σ τ R) (step : Step job home s s') : s'.work < s.work := by
  cases step with
  | thread i running =>
    exact Reduction.sum_update_lt Thread.work s.threads (threadStep_work job _ running)
  | deliver i sent receiving =>
    refine Reduction.sum_update_lt Thread.work s.threads ?_
    simp only [Thread.work, sent, List.length_cons]
    omega

theorem steps_wellFounded : WellFounded fun s' s : State σ τ R => Step job home s s' :=
  Transition.wellFounded_of_measure (step_work job home)

variable {files : τ → List (FlowFile R)}

theorem step_possible {s : State σ τ R} (explained : ∃ b, Explains job home files s b)
    (receiving : s.master.activeSources ≠ 0) : ∃ s', Step job home s s' := by
  obtain ⟨b, explains⟩ := explained
  by_cases running : ∃ i, (s.threads i).pc ≠ .done
  · obtain ⟨i, running⟩ := running
    exact ⟨_, .thread i running⟩
  · have active := receiving
    rw [explains.active, Finset.card_ne_zero] at active
    obtain ⟨i, member⟩ := active
    have notTerminated := (Finset.mem_filter.mp member).2
    have pc : (s.threads i).pc = .done := Classical.not_not.mp fun other => running ⟨i, other⟩
    have channel := (explains.threads i).agrees.channel
    rw [pc, notTerminated] at channel
    have waiting : (s.threads i).channel ≠ [] := by
      rw [channel]
      simp [Pc.isDone]
    obtain ⟨msg, rest, sent⟩ := List.exists_cons_of_ne_nil waiting
    exact ⟨_, .deliver i sent receiving⟩

theorem list_mode_returns (fits : layout.space ≤ xchgBuffSize) {buffs : τ → BuffPair} {s : State σ τ R}
    (reachable : Reachable job home files buffs s) :
    ∃ s', Reachable job home files buffs s' ∧ s'.master.activeSources = 0 := by
  have steps (s s' : State σ τ R) (explained : ∃ b, Explains job home files s b)
    (step : Step job home s s') :
      ∃ b, Explains job home files s' b := by
    obtain ⟨b, explains⟩ := explained
    cases step with
    | thread i running => exact runThread_explained fits explains i
    | deliver i sent receiving => exact deliver_explained fits explains sent receiving
  obtain ⟨s', run, returned⟩ := Transition.exists_run_to_end (fun s => s.master.activeSources = 0) steps
    (step_work job home) (fun s explained => step_possible job home explained)
    (reachable_explained fits reachable)
  exact ⟨s', reachable.trans run, returned⟩

end Fdistdump.ListMode
