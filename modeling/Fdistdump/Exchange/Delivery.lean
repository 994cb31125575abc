import Fdistdump.Exchange.RecvLoop
import Fdistdump.Library.Interleaving
import Mathlib.Data.Fintype.Card

/-!
# Exchanging the memories of several sources

Every source runs `send_raw_mem` with one message tag and the master runs `recv_loop` on that tag.
MPI keeps the messages of one source in order and merges the sources arbitrarily. The first part
follows the count of active sources through such a merge, the second states what is delivered.
-/

namespace Fdistdump.Exchange
open Interleaving

variable {ι : Type} [Fintype ι]

/-- What a source still has to send: data messages up to its terminator, or nothing. -/
inductive Stream : List Bytes → Prop
  | finished : Stream []
  | terminator : Stream [[]]
  | data {msg : Bytes} {rest : List Bytes} : msg ≠ [] → rest ≠ [] → Stream rest → Stream (msg :: rest)

theorem stream_of_data {data : List Bytes} (nonempty : ∀ m ∈ data, m ≠ []) :
    Stream (data ++ [[]]) := by
  induction data with
  | nil => exact .terminator
  | cons msg rest ih =>
    exact .data (nonempty msg (by simp)) (by simp) (ih fun m member => nonempty m (by simp [member]))

/-- The sources that have not sent their terminator. -/
def activeIn (queues : ι → List Bytes) : Nat := (Finset.univ.filter fun i => queues i ≠ []).card

theorem activeIn_zero {queues : ι → List Bytes} : activeIn queues = 0 ↔ ∀ i, queues i = [] := by
  simp [activeIn, Finset.filter_eq_empty_iff]

theorem activeIn_same {queues queues' : ι → List Bytes}
    (same : ∀ i, queues i = [] ↔ queues' i = []) : activeIn queues = activeIn queues' := by
  simp [activeIn, same]

variable [DecidableEq ι]

theorem activeIn_erase {queues queues' : ι → List Bytes} {i : ι} (active : queues i ≠ [])
    (finished : queues' i = []) (same : ∀ j, j ≠ i → queues j = queues' j) :
    activeIn queues' = activeIn queues - 1 := by
  have erased : (Finset.univ.filter fun j => queues' j ≠ []) =
      (Finset.univ.filter fun j => queues j ≠ []).erase i := by
    ext j
    by_cases here : j = i
    · subst here; simp [finished]
    · simp [here, same j here]
  rw [activeIn, erased, Finset.card_erase_of_mem (by simpa using active)]
  rfl

theorem recvMessage_active (recLimit : Nat) {i : ι} {msg : Bytes} {rest : List (ι × Bytes)}
    {s : RecvState} (stream : Stream (fromSource ((i, msg) :: rest) i))
    (count : s.activeSources = activeIn (fromSource ((i, msg) :: rest))) :
    s.activeSources ≠ 0 ∧
      (recvMessage recLimit s msg).activeSources = activeIn (fromSource rest) ∧
      Listening (recvMessage recLimit s msg) ∧
      Stream (fromSource rest i) := by
  have head : fromSource ((i, msg) :: rest) i = msg :: fromSource rest i := by
    rw [fromSource_cons, if_pos rfl]
  have others : ∀ j, j ≠ i → fromSource ((i, msg) :: rest) j = fromSource rest j := fun j other => by
    rw [fromSource_cons, if_neg (Ne.symm other)]
  have present : fromSource ((i, msg) :: rest) i ≠ [] := by simp [head]
  have active : s.activeSources ≠ 0 := by
    rw [count]
    exact fun none => present (activeIn_zero.mp none i)
  rw [head] at stream
  refine ⟨active, ?_⟩
  generalize tail : fromSource rest i = queue at stream
  cases stream with
  | terminator =>
    obtain ⟨sources, listening⟩ := recvMessage_terminator recLimit s
    refine ⟨?_, listening, .finished⟩
    rw [sources, count, activeIn_erase present tail others]
  | data nonempty remaining stream =>
    obtain ⟨sources, listening⟩ := recvMessage_data recLimit nonempty active
    refine ⟨?_, listening, stream⟩
    rw [sources, count]
    apply activeIn_same
    intro j
    by_cases here : j = i
    · subst here; simp [head, tail, remaining]
    · rw [others j here]

theorem recvLoop_active {recLimit : Nat} {front back : List (ι × Bytes)} {arrived : List Bytes}
    {s : RecvState} (streams : ∀ i, Stream (fromSource (front ++ back) i))
    (count : s.activeSources = activeIn (fromSource (front ++ back))) (listening : Listening s)
    (tallied : Tallied recLimit arrived s) :
    ∃ t, recvLoop recLimit s (front.map Prod.snd) = (t, []) ∧
      t.activeSources = activeIn (fromSource back) ∧ Listening t ∧
      Tallied recLimit (arrived ++ (front.map Prod.snd).flatMap recordsOf) t := by
  induction front generalizing s arrived with
  | nil => exact ⟨s, rfl, count, listening, by simpa using tallied⟩
  | cons entry rest ih =>
    obtain ⟨i, msg⟩ := entry
    rw [List.cons_append] at streams count
    obtain ⟨active, count', listening', stream⟩ :=
      recvMessage_active recLimit (streams i) count
    have streams' : ∀ j, Stream (fromSource (rest ++ back) j) := fun j => by
      by_cases here : j = i
      · subst here; exact stream
      · have := streams j
        rwa [fromSource_cons, if_neg (Ne.symm here)] at this
    obtain ⟨t, ran, counted, quiet, full⟩ :=
      ih streams' count' listening' (recvMessage_tallied msg tallied)
    refine ⟨t, ?_, counted, quiet, by simpa [List.append_assoc] using full⟩
    rw [List.map_cons, recvLoop_cons active, ran]

def terminators (msgs : List Bytes) : Nat := msgs.countP (· = [])

theorem stream_terminators {queue : List Bytes} (stream : Stream queue) :
    terminators queue = if queue ≠ [] then 1 else 0 := by
  induction stream with
  | finished => rfl
  | terminator => rfl
  | data nonempty remaining _ ih => simpa [terminators, nonempty, remaining] using ih

theorem count_terminators {trace : List (ι × Bytes)} (streams : ∀ i, Stream (fromSource trace i)) :
    terminators (trace.map Prod.snd) = activeIn (fromSource trace) := by
  have total := congrArg (Multiset.countPAddMonoidHom (· = [])) (trace_multiset trace)
  rw [map_sum] at total
  calc terminators (trace.map Prod.snd)
      = ∑ i, terminators (fromSource trace i) := total
    _ = activeIn (fromSource trace) := by
        rw [activeIn, Finset.card_filter]
        exact Finset.sum_congr rfl fun i _ => stream_terminators (streams i)

/-! ### Messages of `send_raw_mem` -/

theorem messages_stream {recs : List Bytes} {recLimit : Nat} {msgs : List Bytes}
    (described : Messages recs recLimit msgs) : Stream msgs := by
  obtain ⟨groups, rfl, packed⟩ := described
  apply stream_of_data
  intro m member
  obtain ⟨g, present, rfl⟩ := List.mem_map.mp member
  exact encodeRecs_ne_nil (packed.nonempty g present)

theorem messages_records {recs : List Bytes} {recLimit : Nat} {msgs : List Bytes}
    (small : ∀ r ∈ recs, r.length < 2 ^ 32) (described : Messages recs recLimit msgs) :
    msgs.flatMap recordsOf = limited recLimit recs := by
  obtain ⟨groups, rfl, packed⟩ := described
  have inside : ∀ g ∈ groups, recordsOf (encodeRecs g) = g := fun g member =>
    recordsOf_encodeRecs fun r present => small r <|
      (limited_sublist recLimit recs).subset <| packed.content ▸ List.mem_flatten.mpr
        ⟨g, member, present⟩
  rw [← packed.content, List.flatMap_append, List.flatMap_map, List.flatMap_congr inside]
  simp [List.flatMap_id']

theorem RawMem.small {lib : Libnf} (mem : RawMem lib) : ∀ r ∈ mem.recs, r.length < 2 ^ 32 := by
  intro r member
  have fits := lib.fits
  have sized := (mem.sized r member).2
  simp only [xchgBuffSize, sizeofXchgRecSize] at fits
  omega

/-! ### Finished exchanges -/

variable {lib : Libnf}

/-- One exchange with one tag: every source runs `send_raw_mem` to its end and the messages reach the
master in an order that keeps the order of each source. -/
structure ExchangeRun (mems : ι → RawMem lib) (limits : ι → Nat) where
  fuel : ι → Nat
  buffs : ι → BuffPair
  msgs : ι → List Bytes
  sends : ∀ i, sendRawMem (fuel i) (buffs i) (mems i).recs (limits i) = some (msgs i)
  trace : List (ι × Bytes)
  merges : Interleaves msgs trace

variable {mems : ι → RawMem lib} {limits : ι → Nat}

/-- `recv_loop` without a record limit, on the first messages of the exchange. -/
def receiveAll (trace : List (ι × Bytes)) : RecvState × List Bytes :=
  recvLoop 0 (recvInit (Fintype.card ι)) (trace.map Prod.snd)

def ExchangeRun.calls (run : ExchangeRun mems limits) : List Bytes := (receiveAll run.trace).1.calls

def ExchangeRun.arrivals (run : ExchangeRun mems limits) : List (ι × Bytes) :=
  expand recordsOf run.trace

omit [Fintype ι] in
theorem ExchangeRun.streams (run : ExchangeRun mems limits) (i : ι) :
    Stream (fromSource run.trace i) := by
  rw [run.merges i]
  exact messages_stream (sendRawMem_messages (run.sends i))

theorem ExchangeRun.active (run : ExchangeRun mems limits) :
    activeIn (fromSource run.trace) = Fintype.card ι := by
  have all : ∀ i, fromSource run.trace i ≠ [] := fun i => by
    obtain ⟨groups, shape, -⟩ := sendRawMem_messages (run.sends i)
    rw [run.merges i, shape]
    simp
  simp [activeIn, all]

theorem ExchangeRun.receives [Nonempty ι] (run : ExchangeRun mems limits)
    {front back : List (ι × Bytes)} (parts : run.trace = front ++ back) :
    ∃ t, receiveAll front = (t, []) ∧ t.activeSources = activeIn (fromSource back) ∧ Listening t ∧
      t.calls = (front.map Prod.snd).flatMap recordsOf := by
  have start : (recvInit (Fintype.card ι)).activeSources = activeIn (fromSource (front ++ back)) := by
    rw [← parts, run.active]; rfl
  obtain ⟨t, ran, count, listening, tallied⟩ := recvLoop_active (fun i => parts ▸ run.streams i) start
    (by simp [Listening, recvInit]) (recvInit_tallied 0 (Fintype.card ι))
  exact ⟨t, ran, count, listening, by simpa using tallied.calls⟩

omit [Fintype ι] in
theorem ExchangeRun.arrivals_merge (run : ExchangeRun mems limits) :
    Interleaves (fun i => limited (limits i) (mems i).recs) run.arrivals := fun i => by
  rw [arrivals, fromSource_expand, run.merges i]
  exact messages_records (mems i).small (sendRawMem_messages (run.sends i))

theorem ExchangeRun.calls_arrivals [Nonempty ι] (run : ExchangeRun mems limits) :
    run.calls = run.arrivals.map Prod.snd := by
  obtain ⟨t, ran, -, -, calls⟩ := run.receives (List.append_nil run.trace).symm
  rw [ExchangeRun.calls, ran, arrivals, expand_snd]
  exact calls

theorem exists_exchangeRun (mems : ι → RawMem lib) (limits : ι → Nat) :
    Nonempty (ExchangeRun mems limits) := by
  have blank : BuffPair := ⟨fun _ => List.replicate xchgBuffSize 0, fun _ => List.length_replicate⟩
  choose msgs sends described using fun i =>
    sendRawMem_returns (mems i) blank (limits i) (Nat.le_refl _)
  obtain ⟨trace, merges⟩ := exists_interleaves msgs
  exact ⟨⟨_, fun _ => blank, msgs, sends, trace, merges⟩⟩

/-- How an exchange ends: all messages consumed, one terminator for each source, no receive
outstanding, and no return before the last message. -/
structure Completed (run : ExchangeRun mems limits) : Prop where
  consumed : (receiveAll run.trace).2 = []
  returned : (receiveAll run.trace).1.activeSources = 0
  quiet : (receiveAll run.trace).1.request = none
  terminated : terminators (run.trace.map Prod.snd) = Fintype.card ι
  waiting : ∀ front back, run.trace = front ++ back → back ≠ [] →
    (receiveAll front).1.activeSources ≠ 0

theorem ExchangeRun.completed [Nonempty ι] (run : ExchangeRun mems limits) : Completed run := by
  obtain ⟨t, ran, count, listening, -⟩ := run.receives (List.append_nil run.trace).symm
  have finished : t.activeSources = 0 := count.trans (by simp [activeIn])
  refine ⟨by rw [ran], by rw [ran]; exact finished, ?_, ?_, ?_⟩
  · rw [ran]
    simpa [Listening, finished] using listening
  · rw [count_terminators run.streams, run.active]
  · intro front back parts more
    obtain ⟨u, ran, count, -, -⟩ := run.receives parts
    rw [ran]
    dsimp only
    rw [count]
    intro none
    obtain ⟨⟨i, msg⟩, rest, rfl⟩ := List.exists_cons_of_ne_nil more
    have head := activeIn_zero.mp none i
    rw [fromSource_cons, if_pos rfl] at head
    exact List.cons_ne_nil _ _ head

/-- Every `send_raw_mem` returns after data messages that fit the buffers and one terminator; every
exchange completes, and its callback sees each source's records up to the limit, in that source's
order, and nothing else. -/
theorem memory_exchange_lossless [Nonempty ι] (mems : ι → RawMem lib) (limits : ι → Nat) :
    (∀ i buffs fuel, 2 * (mems i).recs.length ≤ fuel →
      ∃ data, sendRawMem fuel buffs (mems i).recs (limits i) = some (data ++ [[]]) ∧
        ∀ msg ∈ data, msg ≠ [] ∧ msg.length ≤ xchgBuffSize) ∧
    ∀ run : ExchangeRun mems limits, Completed run ∧
      ∃ arrivals, Interleaves (fun i => limited (limits i) (mems i).recs) arrivals ∧
        run.calls = arrivals.map Prod.snd := by
  refine ⟨fun i buffs fuel enough => ?_, fun run => ⟨run.completed, _, run.arrivals_merge,
    run.calls_arrivals⟩⟩
  obtain ⟨msgs, returned, groups, rfl, packed⟩ := sendRawMem_returns (mems i) buffs (limits i) enough
  refine ⟨_, returned, ?_⟩
  intro msg member
  obtain ⟨g, present, rfl⟩ := List.mem_map.mp member
  exact ⟨encodeRecs_ne_nil (packed.nonempty g present), packed.short g present⟩

def shortRecords : Libnf := ⟨16, by decide⟩

def twoMems : Fin 2 → RawMem shortRecords
  | 0 => ⟨[[1], [2, 3], [4]], by decide⟩
  | 1 => ⟨[], by decide⟩

theorem memory_exchange_lossless_two :
    (∃ data, sendRawMem 6 ⟨fun _ => List.replicate xchgBuffSize 0, fun _ => List.length_replicate⟩
        [[1], [2, 3], [4]] 2 = some (data ++ [[]])) ∧
      ∃ run : ExchangeRun twoMems (fun _ => 2), Completed run := by
  have both := memory_exchange_lossless twoMems (fun _ => 2)
  obtain ⟨data, sent, -⟩ := both.1 0 ⟨fun _ => List.replicate xchgBuffSize 0,
    fun _ => List.length_replicate⟩ 6 (by decide)
  obtain ⟨run⟩ := exists_exchangeRun twoMems (fun _ => 2)
  exact ⟨⟨data, sent⟩, run, (both.2 run).1⟩

/-! ### Typed records -/

/-- The raw form of the records of one libnf memory. -/
structure RawCodec (lib : Libnf) (R : Type) where
  raw : R → Bytes
  unraw : Bytes → R
  unraw_raw : ∀ r, unraw (raw r) = r
  sized : ∀ r, 1 ≤ (raw r).length ∧ (raw r).length ≤ lib.maxRawLen

def byteCodec : RawCodec shortRecords UInt8 where
  raw byte := [byte]
  unraw bytes := bytes.headD 0
  unraw_raw _ := rfl
  sized _ := ⟨Nat.le_refl 1, Nat.le_add_left 1 15⟩

variable {R : Type}

def RawCodec.mem (codec : RawCodec lib R) (recs : List R) : RawMem lib where
  recs := recs.map codec.raw
  sized := by
    intro r member
    obtain ⟨record, -, rfl⟩ := List.mem_map.mp member
    exact codec.sized record

/-- An exchange of typed memories. -/
abbrev RecordRun (codec : RawCodec lib R) (mems : ι → List R) (limits : ι → Nat) : Type :=
  ExchangeRun (fun i => codec.mem (mems i)) limits

variable {codec : RawCodec lib R} {recs : ι → List R}

def RecordRun.written (run : RecordRun codec recs limits) : List R := run.calls.map codec.unraw

theorem RecordRun.written_merge [Nonempty ι] (run : RecordRun codec recs limits) :
    ∃ arrivals, Interleaves (fun i => limited (limits i) (recs i)) arrivals ∧
      run.written = arrivals.map Prod.snd := by
  refine ⟨run.arrivals.map (Prod.map id codec.unraw), fun i => ?_, ?_⟩
  · rw [fromSource_map, run.arrivals_merge i]
    simp only [RawCodec.mem, ← limited_map, List.map_map]
    congr 1
    exact (List.map_congr_left fun r _ => codec.unraw_raw r).trans (List.map_id _)
  · rw [RecordRun.written, run.calls_arrivals]
    simp

theorem RecordRun.written_multiset [Nonempty ι] (run : RecordRun codec recs limits) :
    (run.written : Multiset R) = ∑ i, (limited (limits i) (recs i) : Multiset R) := by
  obtain ⟨arrivals, merged, same⟩ := run.written_merge
  rw [same, interleaves_multiset merged]

theorem exists_recordRun (codec : RawCodec lib R) (recs : ι → List R) (limits : ι → Nat) :
    Nonempty (RecordRun codec recs limits) :=
  exists_exchangeRun _ _

end Fdistdump.Exchange
