import Fdistdump.ListMode.Progress

/-!
# What list mode delivers

When `recv_loop` returns, it has passed on exactly the requested number of records.
-/

namespace Fdistdump.ListMode
open ByteBuffer Exchange Slave Interleaving

variable {layout : RecordLayout} {R σ τ : Type} [DecidableEq σ] [DecidableEq τ] [Fintype τ]
  {job : Job layout R} {home : τ → σ} {files : τ → List (FlowFile R)} {s : State σ τ R} {b : Books τ R}

def totalMatching (job : Job layout R) (files : τ → List (FlowFile R)) : Nat :=
  ∑ i, (matchingRecs job.accepts (files i)).length

/-- What a thread whose terminator has been received has delivered. -/
structure Finished (job : Job layout R) (matching : List R) (counter : Nat) (delivered : List (Entry R))
    (counted : Nat) : Prop where
  sublist : (delivered.map Prod.fst).Sublist matching
  complete : ¬ Reached job.recLimit counter → delivered.map Prod.fst = matching
  counted : counted ≤ delivered.length

omit [DecidableEq σ] [DecidableEq τ] [Fintype τ] in
theorem Tracks.done {matching : List R} {counter : Nat} {delivered : List (Entry R)} {t : Thread R}
    {l : Ledger R}
    (tracks : Tracks job matching counter delivered t l) (terminated : l.terminated = true) :
    t.pc = .done := by
  have closed := (tracks.agrees.terminated terminated).1
  unfold Pc.isDone at closed
  split at closed
  · assumption
  · cases closed

omit [DecidableEq σ] [DecidableEq τ] [Fintype τ] in
theorem Tracks.finished {matching : List R} {counter : Nat} {delivered : List (Entry R)} {t : Thread R}
    {l : Ledger R} (tracks : Tracks job matching counter delivered t l)
    (terminated : l.terminated = true) :
    Finished job matching counter delivered l.counted := by
  have pc := tracks.done terminated
  obtain ⟨-, agrees, phase⟩ := tracks
  have flying := (agrees.terminated terminated).2
  simp only [Phase, pc] at phase
  have todo : t.todo job = [] := by
    rw [Thread.todo, phase.2]
    simp [Thread.current, pc, matchingRecs]
  have entries : l.entries delivered = delivered := by
    simp [Ledger.entries, Ledger.sent, flying, phase.1]
  have sublist := agrees.sublist
  have complete := agrees.complete
  have counted := agrees.counted
  rw [entries, todo, List.append_nil] at sublist complete
  rw [Ledger.sent, flying, List.flatten_nil, List.append_nil] at counted
  exact ⟨sublist, complete, Nat.le_trans (Nat.le_add_right _ _) counted⟩

omit [DecidableEq σ] in
theorem arrivals_length (arrivals : List (τ × Entry R)) :
    arrivals.length = ∑ i, (fromSource arrivals i).length := by
  have cards := congrArg Multiset.card (trace_multiset arrivals)
  simpa [Multiset.card_sum] using cards

/-- When all threads have finished, the master has received everything, or at least as many records as
the limit asks for. -/
theorem arrivals_enough (explains : Explains job home files s b)
    (finished : ∀ i, Finished job (matchingRecs job.accepts (files i)) (s.slaves (home i)).procRecCntr
      (fromSource b.arrivals i) (b.ledger i).counted) :
    b.arrivals.length ≤ totalMatching job files ∧
      (b.arrivals.length = totalMatching job files ∨ Reached job.recLimit b.arrivals.length) := by
  have most : b.arrivals.length ≤ totalMatching job files := by
    rw [arrivals_length]
    exact Finset.sum_le_sum fun i _ => by simpa using (finished i).sublist.length_le
  refine ⟨most, ?_⟩
  by_cases reached : ∃ i, Reached job.recLimit (s.slaves (home i)).procRecCntr
  · -- the counter of one slave alone shows that enough was sent
    obtain ⟨i, positive, limit⟩ := reached
    refine .inr ⟨positive, Nat.le_trans limit ?_⟩
    rw [explains.counters, arrivals_length]
    calc ∑ j with home j = home i, (b.ledger j).counted
        ≤ ∑ j with home j = home i, (fromSource b.arrivals j).length :=
          Finset.sum_le_sum fun j _ => (finished j).counted
      _ ≤ ∑ j, (fromSource b.arrivals j).length :=
          Finset.sum_le_sum_of_subset (Finset.filter_subset _ _)
  · left
    rw [arrivals_length]
    apply Finset.sum_congr rfl
    intro i _
    rw [← (finished i).complete fun here => reached ⟨i, here⟩, List.length_map]

theorem Explains.terminated (explains : Explains job home files s b)
    (returned : s.master.activeSources = 0) (i : τ) :
    (b.ledger i).terminated = true := by
  have none := explains.active
  rw [returned, eq_comm, Finset.card_eq_zero, Finset.filter_eq_empty_iff] at none
  simpa using none (Finset.mem_univ i)

/-- What the master has passed on to `print_stream_next`. -/
structure Delivered (job : Job layout R) (files : τ → List (FlowFile R)) (calls : List Bytes)
    (printed : List (τ × Entry R)) : Prop where
  texts : calls = printed.map fun e => e.2.2
  count : calls.length =
    if job.recLimit = 0 then totalMatching job files else min job.recLimit (totalMatching job files)
  sublist : ∀ i, ((fromSource printed i).map Prod.fst).Sublist (matchingRecs job.accepts (files i))
  stored : ∀ e ∈ printed, ∀ p ∈ layout.all.zip (fieldOffset 0 layout.all), ∀ value,
    (job.access.fget e.2.1 p.1.id).stored = some value → (e.2.2.drop p.2).take p.1.size = value

theorem Explains.delivered (explains : Explains job home files s b)
    (returned : s.master.activeSources = 0) :
    ∃ printed, Delivered job files s.master.calls printed := by
  have finished := fun i => (explains.threads i).finished (explains.terminated returned i)
  obtain ⟨most, enough⟩ := arrivals_enough explains finished
  have calls : s.master.calls = (limited job.recLimit b.arrivals).map fun e => e.2.2 := by
    rw [explains.tallied.calls, limited_map]
  have fewer : (limited job.recLimit b.arrivals).Sublist b.arrivals := limited_sublist _ _
  refine ⟨limited job.recLimit b.arrivals, calls, ?_, fun i => ?_, ?_⟩
  · rw [calls, List.length_map, limited_length]
    split
    · rename_i unlimited
      exact enough.resolve_right fun reached => reached.1 unlimited
    · rcases enough with all | reached
      · rw [all]
      · have := reached.2
        omega
  · exact ((fewer.filter _).map _ |>.map _).trans (finished i).sublist
  · rintro ⟨i, entry⟩ member p field value stored
    have delivered : entry ∈ fromSource b.arrivals i :=
      List.mem_map.mpr ⟨(i, entry), List.mem_filter.mpr ⟨fewer.subset member, by simp⟩, rfl⟩
    obtain ⟨old, room, same⟩ := (explains.threads i).agrees.written entry
      (List.mem_append_left _ (List.mem_append_left _ delivered))
    have sized := job.access.sized entry.1
    rw [layout.sum_eq] at room
    obtain ⟨k, rest, -, read⟩ := recordBytes_read sized room rfl p field
    dsimp only at stored ⊢
    rw [same, Access.bytes, read, stored, Option.getD_some]
    exact List.take_left' (sized p.1 (List.of_mem_zip field).1 value stored)

/-- When `recv_loop` returns, `print_stream_next` has been called on exactly as many matching records as
the limit asks for and there are, no occurrence of a record twice, and at each field's offset it reads
what the slave has stored for that field. -/
theorem list_mode_delivers (job : Job layout R) (home : τ → σ) (files : τ → List (FlowFile R))
    (buffs : τ → BuffPair) (fits : layout.allSizesSum + sizeofXchgRecSize ≤ xchgBuffSize)
    {s : State σ τ R}
    (reachable : Reachable job home files buffs s) (returned : s.master.activeSources = 0) :
    ∃ printed : List (τ × Entry R),
      s.master.calls = printed.map (fun e => e.2.2) ∧
      s.master.calls.length =
        (if job.recLimit = 0 then totalMatching job files else min job.recLimit
          (totalMatching job files)) ∧
      (∀ i, ((fromSource printed i).map Prod.fst).Sublist (matchingRecs job.accepts (files i))) ∧
      ∀ e ∈ printed, ∀ p ∈ layout.all.zip (fieldOffset 0 layout.all), ∀ value,
        (job.access.fget e.2.1 p.1.id).stored = some value → (e.2.2.drop p.2).take p.1.size = value := by
  obtain ⟨b, explains⟩ := reachable_explained (by rw [RecordLayout.space]; omega) reachable
  obtain ⟨printed, delivered⟩ := explains.delivered returned
  exact ⟨printed, delivered.texts, delivered.count, delivered.sublist, delivered.stored⟩

def portJob : Job counterAndPort Bool := ⟨2, fun hasPort => hasPort, portAccess⟩

def threeFiles : Fin 3 → List (FlowFile Bool)
  | 0 => [⟨true, fun _ => 0, [true, true]⟩]
  | 1 => [⟨true, fun _ => 0, [false]⟩, ⟨true, fun _ => 0, [true]⟩]
  | 2 => []

def blankBuffs : BuffPair := ⟨fun _ => List.replicate xchgBuffSize 0, fun _ => List.length_replicate⟩

theorem list_mode_delivers_two :
    ∃ s : State (Fin 2) (Fin 3) Bool,
      Reachable portJob (fun i => if i = 2 then 1 else 0) threeFiles (fun _ => blankBuffs) s ∧
        s.master.calls.length = 2 := by
  obtain ⟨s, reachable, returned⟩ :=
    list_mode_returns portJob (fun i : Fin 3 => if i = 2 then (1 : Fin 2) else 0)
    (by decide) (s := initial threeFiles fun _ => blankBuffs) .refl
  obtain ⟨printed, -, count, -⟩ := list_mode_delivers portJob _ threeFiles _
    (by decide) reachable returned
  exact ⟨s, reachable, count.trans (by decide)⟩

end Fdistdump.ListMode
