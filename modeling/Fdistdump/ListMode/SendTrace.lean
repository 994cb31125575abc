import Fdistdump.Exchange.Delivery
import Fdistdump.Exchange.SendTrace
import Fdistdump.Exchange.WaitPoll
import Fdistdump.ListMode.Delivery

/-!
# No access to busy buffers

The traces of `ff_read_and_send` in every run of list mode, and what the sending and the receiving loops
have in common: a buffer is left alone while an operation on it is pending.
-/

namespace Fdistdump.ListMode
open Exchange Requests Slave

variable {R : Type} {layout : RecordLayout}

/-- What a step of a thread does with its two buffers. -/
def threadOps (job : Job layout R) (s : SlaveCtx) (t : Thread R) : List (Op Bool) :=
  match t.pc with
  | .read =>
    match t.recs with
    | [] => []
    | record :: _ =>
      if !job.accepts record then []
      else if t.buffOff + layout.allSizesSum + sizeofXchgRecSize > xchgBuffSize then []
      else [.touch t.buffIdx]
  | .sendFull _ => [.complete, .start t.buffIdx]
  | .testFull _ => if limitReached job s then [] else [.touch t.buffIdx]
  | .tail => if t.buffRecCntr != 0 then [.complete, .start t.buffIdx] else []
  | .testTail => if limitReached job s then [] else [.complete]
  | .setTail => [.complete]
  | _ => []

/-- What may be pending at a position: nothing between files, never the current buffer while records are
written. -/
def Pc.Frees (buffIdx : Bool) (request : Option Bool) : Pc R → Prop
  | .nextFile | .done => request = none
  | .read | .full _ | .sendFull _ | .testFull _ => request ≠ some buffIdx
  | .countFull _ => request = some buffIdx
  | _ => True

/-- The rules have been kept and the handle says what is pending. -/
structure ThreadTraced (t : Thread R) (ops : List (Op Bool)) : Prop where
  exclusive : Always Exclusive [] ops
  pending : after [] ops = t.request.toList
  frees : t.pc.Frees t.buffIdx t.request

theorem ThreadTraced.quiet {t t' : Thread R} {ops : List (Op Bool)} (traced : ThreadTraced t ops)
    (request : t'.request = t.request) (frees : t'.pc.Frees t'.buffIdx t'.request) :
    ThreadTraced t' (ops ++ []) := by
  rw [List.append_nil]
  exact ⟨traced.exclusive, request ▸ traced.pending, frees⟩

theorem ThreadTraced.touch {t t' : Thread R} {ops : List (Op Bool)} (traced : ThreadTraced t ops)
    (free : t.request ≠ some t.buffIdx) (request : t'.request = t.request)
    (frees : t'.pc.Frees t'.buffIdx t'.request) : ThreadTraced t' (ops ++ [.touch t.buffIdx]) := by
  refine ⟨always_append.mpr ⟨traced.exclusive, ?_, trivial⟩, ?_, frees⟩
  · rw [traced.pending]
    simpa [Exclusive] using free
  · rw [after_append, traced.pending, request]
    rfl

theorem ThreadTraced.isend {t t' : Thread R} {ops : List (Op Bool)} (traced : ThreadTraced t ops)
    (request : t'.request = some t.buffIdx) (frees : t'.pc.Frees t'.buffIdx t'.request) :
    ThreadTraced t' (ops ++ [.complete, .start t.buffIdx]) := by
  have waited : t.request.toList.tail = [] := by cases t.request <;> rfl
  refine ⟨always_append.mpr ⟨traced.exclusive, ?_⟩, ?_, frees⟩
  · rw [traced.pending]
    exact ⟨trivial, waited, trivial⟩
  · rw [after_append, traced.pending, request]
    show t.buffIdx :: t.request.toList.tail = _
    rw [waited]
    rfl

theorem ThreadTraced.wait {t t' : Thread R} {ops : List (Op Bool)} (traced : ThreadTraced t ops)
    (request : t'.request = none) (frees : t'.pc.Frees t'.buffIdx t'.request) :
    ThreadTraced t' (ops ++ [.complete]) := by
  have waited : t.request.toList.tail = [] := by cases t.request <;> rfl
  refine ⟨always_append.mpr ⟨traced.exclusive, trivial, trivial⟩, ?_, frees⟩
  rw [after_append, traced.pending, request]
  exact waited

theorem ThreadTraced.step {job : Job layout R} {s : SlaveCtx} {t : Thread R} {ops : List (Op Bool)}
    (traced : ThreadTraced t ops) : ThreadTraced (threadStep job s t).2 (ops ++ threadOps job s t) := by
  have frees := traced.frees
  unfold threadStep threadOps
  cases pc : t.pc with
  | nextFile =>
    rw [pc] at frees
    dsimp only
    split
    · exact traced.quiet rfl frees
    · split
      · exact traced.quiet frees.symm (by simp [Pc.Frees])
      · exact traced.quiet rfl frees
  | read =>
    rw [pc] at frees
    cases recs : t.recs with
    | nil => exact traced.quiet rfl trivial
    | cons record rest =>
      dsimp only
      by_cases rejected : (!job.accepts record) = true
      · rw [if_pos rejected, if_pos rejected]
        exact traced.quiet rfl frees
      rw [if_neg rejected, if_neg rejected]
      by_cases noRoom : t.buffOff + layout.allSizesSum + sizeofXchgRecSize > xchgBuffSize
      · rw [if_pos noRoom, if_pos noRoom]
        exact traced.quiet rfl frees
      · rw [if_neg noRoom, if_neg noRoom]
        exact traced.touch frees rfl frees
  | full record =>
    rw [pc] at frees
    dsimp only
    split
    · exact traced.quiet rfl trivial
    · exact traced.quiet rfl frees
  | sendFull record => exact traced.isend rfl rfl
  | countFull record =>
    -- the buffers are toggled: what is pending is the send of the other one now
    rw [pc] at frees
    refine traced.quiet rfl ?_
    rw [frees]
    simp [Pc.Frees]
  | testFull record =>
    rw [pc] at frees
    dsimp only
    split
    · exact traced.quiet rfl trivial
    · exact traced.touch frees rfl frees
  | setFull => exact traced.quiet rfl trivial
  | tail =>
    dsimp only
    split
    · exact traced.isend rfl trivial
    · exact traced.quiet rfl trivial
  | countTail => exact traced.quiet rfl trivial
  | testTail =>
    dsimp only
    split
    · exact traced.quiet rfl trivial
    · exact traced.wait rfl rfl
  | setTail => exact traced.wait rfl rfl
  | done => exact traced.quiet rfl traced.frees

/-! ### Runs of list mode -/

variable {σ τ : Type} [DecidableEq σ] [DecidableEq τ] [Fintype τ]

/-- Runs of list mode with the trace of every thread. -/
inductive Traced (job : Job layout R) (home : τ → σ) (files : τ → List (FlowFile R))
    (buffs : τ → BuffPair) :
    State σ τ R → (τ → List (Op Bool)) → Prop
  | start : Traced job home files buffs (initial files buffs) fun _ => []
  | thread {s : State σ τ R} {ops : τ → List (Op Bool)}
    (earlier : Traced job home files buffs s ops) (i : τ)
      (running : (s.threads i).pc ≠ .done) :
      Traced job home files buffs (s.runThread job home i)
        (Function.update ops i (ops i ++ threadOps job (s.slaves (home i)) (s.threads i)))
  | deliver {s : State σ τ R} {ops : τ → List (Op Bool)}
    (earlier : Traced job home files buffs s ops) (i : τ)
      {msg : Bytes} {rest : List Bytes} (sent : (s.threads i).channel = msg :: rest)
      (receiving : s.master.activeSources ≠ 0) :
      Traced job home files buffs (s.deliver job i msg rest) ops

variable {job : Job layout R} {home : τ → σ} {files : τ → List (FlowFile R)} {buffs : τ → BuffPair}

theorem exists_traced {s : State σ τ R} (reachable : Reachable job home files buffs s) :
    ∃ ops, Traced job home files buffs s ops := by
  induction reachable with
  | refl => exact ⟨_, .start⟩
  | tail _ step ih =>
    obtain ⟨ops, traced⟩ := ih
    cases step with
    | thread i running => exact ⟨_, .thread traced i running⟩
    | deliver i sent receiving => exact ⟨_, .deliver traced i sent receiving⟩

theorem Traced.thread_traced {s : State σ τ R} {ops : τ → List (Op Bool)}
    (traced : Traced job home files buffs s ops) (i : τ) : ThreadTraced (s.threads i) (ops i) := by
  induction traced with
  | start => exact ⟨trivial, rfl, rfl⟩
  | thread _ j running ih =>
    by_cases here : i = j
    · subst here
      simp only [State.runThread, Function.update_self]
      exact ih.step
    · simp only [State.runThread, Function.update_of_ne here]
      exact ih
  | deliver _ j sent receiving ih =>
    by_cases here : i = j
    · subst here
      simp only [State.deliver, Function.update_self]
      exact ⟨ih.exclusive, ih.pending, ih.frees⟩
    · simp only [State.deliver, Function.update_of_ne here]
      exact ih

theorem Traced.returned {s : State σ τ R} {ops : τ → List (Op Bool)}
    (traced : Traced job home files buffs s ops)
    {i : τ} (outside : (s.threads i).pc = .nextFile ∨ (s.threads i).pc = .done) :
    after [] (ops i) = [] := by
  obtain ⟨-, pending, frees⟩ := traced.thread_traced i
  rw [pending]
  rcases outside with pc | pc <;>
    · rw [pc] at frees
      rw [frees]
      rfl

/-- The sending loops never touch a busy buffer, have at most one send pending and none when they return.
`recv_loop` does the same with its receives exactly when no signal interrupts its first wait, or when its
only source seems to have finished then. -/
theorem busy_buffers_left_alone (job : Job layout R) (home : τ → σ) (files : τ → List (FlowFile R))
    (buffs : τ → BuffPair) (lib : Libnf) :
    (∀ s ops, Traced job home files buffs s ops → ∀ i, Always Exclusive [] (ops i) ∧
        ((s.threads i).pc = .nextFile ∨ (s.threads i).pc = .done → after [] (ops i) = [])) ∧
      (∀ (mem : RawMem lib) (pair : BuffPair) (recLimit fuel : Nat), 2 * mem.recs.length ≤ fuel →
        ∃ ops, sendRawMemOps fuel pair mem.recs recLimit = some ops ∧ Always Exclusive [] ops ∧
          after [] ops = []) ∧
      ∀ (recLimit sourceCnt : Nat) (rounds : List Round) (first : Bytes) (rest : List Bytes),
        0 < sourceCnt →
        waitsEnded rounds ≤ 1 →
          (Always Exclusive [] (recvTrace recLimit sourceCnt rounds first rest) ↔
            .interrupted ∉ rounds ∨ sourceCnt = 1 ∧ first = []) := by
  refine ⟨fun s ops traced i => ⟨(traced.thread_traced i).exclusive, traced.returned⟩, ?_, ?_⟩
  · exact fun mem pair recLimit fuel enough => sendRawMemOps_exclusive mem pair recLimit enough
  · exact fun recLimit sourceCnt rounds first rest sources ended =>
      recvTrace_exclusive_iff sources ended first rest

theorem busy_buffers_left_alone_three :
    (∃ (s : State (Fin 2) (Fin 3) Bool) (ops : Fin 3 → List (Op Bool)), s.master.activeSources = 0 ∧
        ∀ i, Always Exclusive [] (ops i)) ∧
      (∃ ops, sendRawMemOps 6 blankBuffs (twoMems 0).recs 2 = some ops ∧ Always Exclusive [] ops ∧
        after [] ops = []) ∧
      (Always Exclusive [] (recvTrace 0 2 [.slept, .completed] [] []) ↔
        .interrupted ∉ ([.slept, .completed] : List Round) ∨ 2 = 1 ∧ ([] : Bytes) = []) := by
  obtain ⟨s, reachable, returned⟩ :=
    list_mode_returns portJob (fun i : Fin 3 => if i = 2 then (1 : Fin 2) else 0)
    (by decide) (s := initial threeFiles fun _ => blankBuffs) .refl
  obtain ⟨ops, traced⟩ := exists_traced reachable
  obtain ⟨listMode, sendRaw, recv⟩ := busy_buffers_left_alone portJob
    (fun i : Fin 3 => if i = 2 then (1 : Fin 2) else 0) threeFiles (fun _ => blankBuffs) shortRecords
  exact ⟨⟨s, ops, returned, fun i => (listMode s ops traced i).1⟩,
    sendRaw (twoMems 0) blankBuffs 2 6 (by decide),
    recv 0 2 _ [] [] (by decide) (by decide)⟩

/-- After an interrupted wait a second receive is started, into the same buffer when the status
looks like that of a terminator; otherwise the callback sees the buffer of the pending receive. -/
theorem signal_doubles_receive :
    ¬ Always Exclusive [] (recvTrace 0 2 [.interrupted] [] []) ∧
      ¬ Always Exclusive [] (recvTrace 0 1 [.interrupted] (encodeRec [7]) []) := by
  constructor
  · rintro ⟨-, -, -, busy, -⟩
    cases busy
  · rintro ⟨-, -, -, busy, -⟩
    cases busy

end Fdistdump.ListMode
