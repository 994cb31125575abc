import Fdistdump.ListMode.ThreadStep
import Fdistdump.Library.Interleaving
import Fdistdump.Library.Transition
import Mathlib.Algebra.Order.BigOperators.Group.Finset

/-!
# The books of all threads

The ledgers of all threads together explain the counters of the slaves, the flags and what `recv_loop`
has passed on, in every reachable state.
-/

namespace Fdistdump.ListMode
open ByteBuffer Exchange Slave Interleaving

variable {layout : RecordLayout} {R σ τ : Type} [DecidableEq σ] [DecidableEq τ]

/-- What the master has received, in order and with its source, and the ledgers of the threads. -/
structure Books (τ R : Type) where
  arrivals : List (τ × Entry R)
  ledger : τ → Ledger R

/-- The books explain a state. -/
structure Explains [Fintype τ] (job : Job layout R) (home : τ → σ) (files : τ → List (FlowFile R))
    (s : State σ τ R) (b : Books τ R) : Prop where
  threads : ∀ i, Tracks job (matchingRecs job.accepts (files i)) (s.slaves (home i)).procRecCntr
    (fromSource b.arrivals i) (s.threads i) (b.ledger i)
  flags : ∀ a, (s.slaves a).recLimitReached = true → Reached job.recLimit (s.slaves a).procRecCntr
  counters : ∀ a, (s.slaves a).procRecCntr = ∑ i with home i = a, (b.ledger i).counted
  tallied : Tallied job.recLimit (b.arrivals.map fun e => e.2.2) s.master
  active : s.master.activeSources = (Finset.univ.filter fun i => (b.ledger i).terminated = false).card

variable [Fintype τ] {job : Job layout R} {home : τ → σ} {files : τ → List (FlowFile R)}
  {s : State σ τ R} {b : Books τ R}

theorem initial_explained (buffs : τ → BuffPair) :
    ∃ b, Explains job home files (initial files buffs) b := by
  refine ⟨⟨[], fun _ => {}⟩, fun i => ⟨(buffs i).size, ?_, rfl⟩, nofun, fun a => ?_, ?_, ?_⟩
  · refine ⟨rfl, nofun, nofun, ?_, fun _ => rfl, Nat.zero_le _, nofun⟩
    exact List.Sublist.refl _
  · simp [initial]
  · exact recvInit_tallied _ _
  · simp [initial, recvInit, Finset.filter_true]

theorem runThread_explained (fits : layout.space ≤ xchgBuffSize)
    (explains : Explains job home files s b) (i : τ) :
    ∃ b', Explains job home files (s.runThread job home i) b' := by
  obtain ⟨flag, l, tracks, moves⟩ :=
    threadStep_tracked fits (explains.flags (home i)) (explains.threads i)
  refine ⟨⟨b.arrivals, Function.update b.ledger i l⟩, fun j => ?_, fun a => ?_, fun a => ?_,
    explains.tallied, ?_⟩
  · simp only [State.runThread]
    by_cases here : j = i
    · subst here
      simpa only [Function.update_self] using tracks
    · rw [Function.update_of_ne here, Function.update_of_ne here]
      by_cases sameHome : home j = home i
      · rw [sameHome, Function.update_self]
        exact (sameHome ▸ explains.threads j).mono moves.grows
      · rw [Function.update_of_ne sameHome]
        exact explains.threads j
  · simp only [State.runThread]
    by_cases here : a = home i
    · subst here
      simpa only [Function.update_self] using flag
    · rw [Function.update_of_ne here]
      exact explains.flags a
  · simp only [State.runThread]
    by_cases here : a = home i
    · subst here
      have member : i ∈ Finset.univ.filter fun j => home j = home i := by simp
      have before := explains.counters (home i)
      rw [← Finset.add_sum_erase _ _ member] at before ⊢
      have others : ∑ j ∈ (Finset.univ.filter fun j => home j = home i).erase i,
            (Function.update b.ledger i l j).counted =
          ∑ j ∈ (Finset.univ.filter fun j => home j = home i).erase i, (b.ledger j).counted :=
        Finset.sum_congr rfl fun j other => by rw [Function.update_of_ne (Finset.ne_of_mem_erase other)]
      have counter := moves.counter
      rw [Function.update_self, Function.update_self, others]
      omega
    · rw [Function.update_of_ne here, explains.counters a]
      apply Finset.sum_congr rfl
      intro j member
      have other : j ≠ i := fun same => here (by simpa [same] using (Finset.mem_filter.mp member).2.symm)
      rw [Function.update_of_ne other]
  · rw [State.runThread, explains.active]
    congr 1
    apply Finset.filter_congr
    intro j _
    dsimp only
    by_cases here : j = i
    · rw [here, Function.update_self, moves.terminated]
    · rw [Function.update_of_ne here]

/-! ### Deliveries -/

omit [DecidableEq σ] [DecidableEq τ] [Fintype τ] in
theorem Written.length {access : Access layout R} {entry : Entry R} (written : Written access entry) :
    entry.2.length = layout.allSizesSum := by
  obtain ⟨old, room, same⟩ := written
  rw [same, access.bytes_length _ room]

omit [DecidableEq σ] [DecidableEq τ] [Fintype τ] in
theorem recordsOf_groupBytes (fits : layout.space ≤ xchgBuffSize) {group : List (Entry R)}
    (written : ∀ entry ∈ group, Written job.access entry) :
    recordsOf (groupBytes group) = group.map Prod.snd := by
  apply recordsOf_encodeRecs
  intro data member
  obtain ⟨entry, present, rfl⟩ := List.mem_map.mp member
  rw [(written entry present).length]
  simp only [RecordLayout.space, xchgBuffSize] at fits
  omega

omit [DecidableEq τ] [Fintype τ] [DecidableEq σ] in
theorem Phase.channel {counter : Nat} {t : Thread R} {buffered : List (Entry R)} (rest : List Bytes)
    (phase : Phase job counter t buffered) : Phase job counter { t with channel := rest } buffered := by
  obtain ⟨pc, files, recs, buff, buffIdx, buffOff, buffRecCntr, request, channel⟩ := t
  cases pc with
  | read => exact ⟨phase.content, phase.off, phase.fits, phase.count⟩
  | full | sendFull => exact ⟨⟨phase.1.content, phase.1.off, phase.1.fits, phase.1.count⟩, phase.2⟩
  | tail =>
    refine ⟨phase.1, ?_⟩
    intro some
    have holding := phase.2 some
    exact ⟨holding.content, holding.off, holding.fits, holding.count⟩
  | _ => exact phase

theorem deliver_threads (explains : Explains job home files s b) {i : τ} {rest : List Bytes}
    {l : Ledger R} (group : List (Entry R))
    (agrees : l.Agrees job (matchingRecs job.accepts (files i)) (s.slaves (home i)).procRecCntr
      (fromSource b.arrivals i ++ group) rest ((s.threads i).todo job) (s.threads i).uncounted
        (s.threads i).pc.isDone)
    (same : l.buffered = (b.ledger i).buffered) (j : τ) :
    Tracks job (matchingRecs job.accepts (files j)) (s.slaves (home j)).procRecCntr
      (fromSource (b.arrivals ++ tag i group) j)
      (Function.update s.threads i { s.threads i with channel := rest } j)
        (Function.update b.ledger i l j) := by
  rw [fromSource_append, fromSource_tag]
  by_cases here : j = i
  · subst here
    rw [Function.update_self, Function.update_self, if_pos rfl]
    exact ⟨(explains.threads j).sizes, agrees, same ▸ (explains.threads j).phase.channel rest⟩
  · rw [Function.update_of_ne here, Function.update_of_ne here, if_neg (Ne.symm here), List.append_nil]
    exact explains.threads j

theorem deliver_counters (explains : Explains job home files s b) {i : τ} {l : Ledger R}
    (same : l.counted = (b.ledger i).counted) (a : σ) :
    (s.slaves a).procRecCntr = ∑ j with home j = a, (Function.update b.ledger i l j).counted := by
  rw [explains.counters a]
  apply Finset.sum_congr rfl
  intro j _
  by_cases here : j = i
  · rw [here, Function.update_self, same]
  · rw [Function.update_of_ne here]

theorem deliver_explained (fits : layout.space ≤ xchgBuffSize)
    (explains : Explains job home files s b) {i : τ}
    {msg : Bytes} {rest : List Bytes} (sent : (s.threads i).channel = msg :: rest)
    (receiving : s.master.activeSources ≠ 0) :
    ∃ b', Explains job home files (s.deliver job i msg rest) b' := by
  have agrees := (explains.threads i).agrees
  rw [sent] at agrees
  have tallied := recvMessage_tallied msg explains.tallied
  cases flying : (b.ledger i).flying with
  | cons group more =>
    have head := agrees.channel
    rw [flying, List.map_cons, List.cons_append, List.cons.injEq] at head
    obtain ⟨rfl, -⟩ := head
    have written : ∀ entry ∈ group, Written job.access entry := fun entry member =>
      agrees.written entry <| by
      simp only [Ledger.entries, Ledger.sent, flying, List.flatten_cons, List.mem_append]
      exact .inl (.inr (.inl member))
    have data : groupBytes group ≠ [] :=
      encodeRecs_ne_nil (by simpa using agrees.nonempty group (flying ▸ List.mem_cons_self))
    refine ⟨⟨b.arrivals ++ tag i group, Function.update b.ledger i { b.ledger i with flying := more }⟩,
      deliver_threads explains group (agrees.receive flying) rfl, explains.flags,
      deliver_counters explains rfl, ?_, ?_⟩
    · rw [recordsOf_groupBytes fits written] at tallied
      simpa [State.deliver, tag, Function.comp_def] using tallied
    · rw [State.deliver, (recvMessage_data job.recLimit data receiving).1, explains.active]
      congr 1
      apply Finset.filter_congr
      intro j _
      dsimp only
      by_cases here : j = i
      · rw [here, Function.update_self]
      · rw [Function.update_of_ne here]
  | nil =>
    obtain ⟨rfl, running, agrees'⟩ := agrees.terminate flying
    refine ⟨⟨b.arrivals, Function.update b.ledger i { b.ledger i with terminated := true }⟩,
      fun j => ?_, explains.flags, deliver_counters explains rfl, ?_, ?_⟩
    · have unchanged : b.arrivals ++ tag i ([] : List (Entry R)) = b.arrivals := List.append_nil _
      have threads := deliver_threads (l := { b.ledger i with terminated := true }) explains []
        (by rwa [List.append_nil]) rfl j
      rwa [unchanged] at threads
    · simpa [State.deliver] using tallied
    · have member : i ∈ Finset.univ.filter fun j => (b.ledger j).terminated = false := by simp [running]
      rw [State.deliver, (recvMessage_terminator job.recLimit s.master).1, explains.active,
        ← Finset.card_erase_of_mem member]
      congr 1
      ext j
      by_cases here : j = i
      · subst here
        simp
      · simp [here]

/-- Every reachable state is explained by some books. -/
theorem reachable_explained (fits : layout.space ≤ xchgBuffSize) {buffs : τ → BuffPair}
    (reachable : Reachable job home files buffs s) : ∃ b, Explains job home files s b := by
  refine @Transition.invariant_of_steps _ _ (fun s => ∃ b, Explains job home files s b) ?_ _ _
    (initial_explained buffs) reachable
  rintro s _ ⟨b, explains⟩ (⟨i, -⟩ | ⟨i, sent, receiving⟩)
  · exact runThread_explained fits explains i
  · exact deliver_explained fits explains sent receiving

end Fdistdump.ListMode
