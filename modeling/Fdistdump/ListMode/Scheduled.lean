import Fdistdump.ListMode.ReadAndSend

/-!
# Files that are given one at a time

With a dynamic schedule a thread gets a file when it is through with the one before. Until it ends,
it takes the steps that it would take if it had had all of them from the beginning.
-/

namespace Fdistdump.ListMode
open Exchange Slave

variable {layout : RecordLayout} {R σ τ : Type} {job : Job layout R} {home : τ → σ}
  {files : τ → List (FlowFile R)} {buffs : τ → BuffPair} {s s' : State σ τ R}

def Thread.give (t : Thread R) (file : FlowFile R) : Thread R := { t with files := t.files ++ [file] }

theorem threadStep_give {ctx : SlaveCtx} {t : Thread R} (runs : (threadStep job ctx t).2.pc ≠ .done)
    (file : FlowFile R) :
    threadStep job ctx (t.give file) =
      ((threadStep job ctx t).1, (threadStep job ctx t).2.give file) := by
  obtain ⟨pc, files, recs, buff, buffIdx, buffOff, buffRecCntr, request, channel⟩ := t
  cases pc with
  | nextFile =>
    cases files with
    | nil => exact absurd rfl runs
    | cons first rest =>
      simp only [threadStep, Thread.give, List.cons_append]
      split <;> rfl
  | read =>
    cases recs with
    | nil => rfl
    | cons record rest =>
      by_cases full : buffOff + layout.allSizesSum + sizeofXchgRecSize > xchgBuffSize <;>
        cases accepted : job.accepts record <;>
        simp [threadStep, Thread.give, Thread.store, full, accepted]
  | full record => cases reached : ctx.recLimitReached <;> simp [threadStep, Thread.give, reached]
  | testFull record =>
    cases reached : limitReached job ctx <;> simp [threadStep, Thread.give, Thread.store, reached]
  | testTail => cases reached : limitReached job ctx <;> simp [threadStep, Thread.give, reached]
  | tail =>
    by_cases empty : buffRecCntr = 0 <;> simp [threadStep, Thread.give, Thread.isend, empty]
  | done | sendFull record | countFull record | setFull | countTail | setTail => rfl

/-- A thread that gets one file at a time has none left while it reads. -/
theorem threadStep_files (job : Job layout R) (ctx : SlaveCtx) {t : Thread R}
    (single : t.files.tail = [])
    (reading : t.pc ≠ .nextFile → t.files = []) : (threadStep job ctx t).2.files = [] := by
  cases pc : t.pc with
  | nextFile =>
    unfold threadStep
    rw [pc]
    cases files : t.files with
    | nil => rfl
    | cons first rest =>
      rw [files] at single
      dsimp only
      split <;> exact single
  | read =>
    have none := reading (by rw [pc]; nofun)
    unfold threadStep
    rw [pc]
    dsimp only
    split
    · exact none
    · split
      · exact none
      · split <;> exact none
  | full record | testFull record | tail | testTail =>
    have none := reading (by rw [pc]; nofun)
    simp only [threadStep, pc]
    split <;> exact none
  | done | sendFull record | countFull record | setFull | countTail | setTail =>
    have none := reading (by rw [pc]; nofun)
    simp only [threadStep, pc]
    exact none

theorem threadStep_nextFile (job : Job layout R) (ctx : SlaveCtx) {t : Thread R}
    (next : t.pc = .nextFile) :
    (threadStep job ctx t).1 = ctx := by
  unfold threadStep
  rw [next]
  dsimp only
  split
  · rfl
  · split <;> rfl

/-- What a thread has sent before makes no difference to it. -/
theorem threadStep_sent (job : Job layout R) (ctx : SlaveCtx) (t : Thread R) (before : List Bytes) :
    threadStep job ctx { t with channel := before ++ t.channel } =
      ((threadStep job ctx t).1,
        { (threadStep job ctx t).2 with channel := before ++ (threadStep job ctx t).2.channel }) := by
  obtain ⟨pc, files, recs, buff, buffIdx, buffOff, buffRecCntr, request, channel⟩ := t
  cases pc with
  | nextFile =>
    cases files with
    | nil => simp [threadStep]
    | cons first rest =>
      simp only [threadStep]
      split <;> rfl
  | read =>
    cases recs with
    | nil => rfl
    | cons record rest =>
      by_cases full : buffOff + layout.allSizesSum + sizeofXchgRecSize > xchgBuffSize <;>
        cases accepted : job.accepts record <;>
        simp [threadStep, Thread.store, full, accepted]
  | full record => cases reached : ctx.recLimitReached <;> simp [threadStep, reached]
  | testFull record => cases reached : limitReached job ctx <;> simp [threadStep, Thread.store, reached]
  | testTail => cases reached : limitReached job ctx <;> simp [threadStep, reached]
  | tail => by_cases empty : buffRecCntr = 0 <;> simp [threadStep, Thread.isend, empty]
  | sendFull record => simp [threadStep, Thread.isend]
  | done | countFull record | setFull | countTail | setTail => rfl

variable [DecidableEq τ]

def State.setThread (s : State σ τ R) (i : τ) (t : Thread R) : State σ τ R :=
  { s with threads := Function.update s.threads i t }

def State.give (s : State σ τ R) (i : τ) (file : FlowFile R) : State σ τ R :=
  s.setThread i ((s.threads i).give file)

theorem give_pc (s : State σ τ R) (i : τ) (file : FlowFile R) (j : τ) :
    ((s.give i file).threads j).pc = (s.threads j).pc := by
  by_cases here : j = i
  · subst here
    simp only [State.give, State.setThread, Function.update_self, Thread.give]
  · simp only [State.give, State.setThread, Function.update_of_ne here]

variable [DecidableEq σ]

theorem step_setThread (s : State σ τ R) (i : τ) {t : Thread R} (running : t.pc ≠ .done) :
    Step job home (s.setThread i t)
      { s with
        slaves := Function.update s.slaves (home i) (threadStep job (s.slaves (home i)) t).1
        threads := Function.update s.threads i (threadStep job (s.slaves (home i)) t).2 } := by
  have own : (s.setThread i t).threads i = t := by
    simp only [State.setThread, Function.update_self]
  have step : Step job home (s.setThread i t) ((s.setThread i t).runThread job home i) :=
    .thread i (by rwa [own])
  simpa only [State.runThread, State.setThread, Function.update_self, Function.update_idem] using step

theorem step_done (step : Step job home s s') {i : τ} (done : (s.threads i).pc = .done) :
    (s'.threads i).pc = .done := by
  cases step with
  | thread j running =>
    have other : i ≠ j := fun here => running (here ▸ done)
    simpa only [State.runThread, Function.update_of_ne other] using done
  | deliver j sent receiving =>
    by_cases here : i = j
    · subst here
      simpa only [State.deliver, Function.update_self] using done
    · simpa only [State.deliver, Function.update_of_ne here] using done

/-- A step in which a thread does not end can be taken with one more file for it. -/
theorem Step.give (step : Step job home s s') {i : τ} (runs : (s'.threads i).pc ≠ .done)
    (file : FlowFile R) :
    Step job home (s.give i file) (s'.give i file) := by
  cases step with
  | thread j running =>
    have same : (s.runThread job home j).give i file = (s.give i file).runThread job home j := by
      by_cases here : j = i
      · subst here
        simp only [State.runThread, Function.update_self] at runs
        simp only [State.give, State.setThread, State.runThread, Function.update_self,
          Function.update_idem, threadStep_give runs]
      · simp only [State.give, State.setThread, State.runThread, Function.update_of_ne here,
          Function.update_of_ne (Ne.symm here)]
        rw [Function.update_comm (Ne.symm here)]
    rw [same]
    exact .thread j (by rwa [give_pc])
  | @deliver j msg rest sent receiving =>
    have queued : ((s.give i file).threads j).channel = msg :: rest := by
      by_cases here : j = i
      · subst here
        simpa only [State.give, State.setThread, Function.update_self, Thread.give] using sent
      · simpa only [State.give, State.setThread, Function.update_of_ne here] using sent
    have same : (s.deliver job j msg rest).give i file = (s.give i file).deliver job j msg rest := by
      by_cases here : j = i
      · subst here
        simp only [State.give, State.setThread, State.deliver, Function.update_self,
          Function.update_idem]
        rfl
      · simp only [State.give, State.setThread, State.deliver, Function.update_of_ne here,
          Function.update_of_ne (Ne.symm here)]
        rw [Function.update_comm (Ne.symm here)]
    rw [same]
    exact .deliver j queued receiving

/-- What a thread has reached without the file that it is given next, it has reached with it. -/
theorem Reachable.give [Fintype τ] (reached : Reachable job home files buffs s) {i : τ}
    (runs : (s.threads i).pc ≠ .done) (file : FlowFile R) :
    Reachable job home (Function.update files i (files i ++ [file])) buffs (s.give i file) := by
  induction reached with
  | refl =>
    have same : (initial files buffs : State σ τ R).give i file =
        initial (Function.update files i (files i ++ [file])) buffs := by
      simp only [State.give, State.setThread, initial]
      congr 1
      funext j
      by_cases here : j = i
      · subst here
        simp [Thread.give]
      · simp [Function.update_of_ne here]
    rw [same]
    exact .refl
  | tail run step ih => exact (ih fun done => runs (step_done step done)).tail (step.give runs file)

end Fdistdump.ListMode
