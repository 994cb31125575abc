import Fdistdump.ListMode.Delivery
import Fdistdump.Tput.Protocol

/-!
# TPUT with all its interleavings

Every finished run of the protocol is a run of the three phases one after the other, so its result
does not depend on the interleaving; no run gets stuck, whatever MPI buffers; and what the threads
of a slave share is neither changed nor freed while a thread needs it.
-/

namespace Fdistdump.Tput
open Aggregation ByteBuffer Exchange Interleaving KeyedFold Ranking

variable {σ ι K : Type} {n : Nat} [DecidableEq K] {lib : Libnf} {codec : RawCodec lib (Rec K n)}
  {q : TputQuery n} {mems : ι → Table K (Fields n)}

/-! ### The records of a run -/

section Run
variable [Fintype ι] [DecidableEq ι] [Nonempty ι] (run : TputRun codec q mems) {length : Nat}
  (fits : run.Fits length)
include fits

theorem TputRun.master_fields {k : K} {v : Fields n} (present : run.master.lookup k = some v)
    (j : Fin n) :
    v j = (q.funcs j).over ((valuesAt k (allEntries mems)).map (· j)) := by
  obtain ⟨naive⟩ := exists_aggrRun codec q.funcs mems
  exact (run.master_exact naive fits present).2 j

/-- In descending order the values are those of the naive method, which has all keys. -/
theorem TputRun.descending_values (desc : q.dir = .desc) (bounded : Bounded q mems) :
    topValues q run.master = best q.dir.le q.recLimit
      ((keys fun i => (mems i).entries).val.map (total q fun i => (mems i).entries)) := by
  obtain ⟨naive⟩ := exists_aggrRun codec q.funcs mems
  have perm : ∀ i, (run.order i).Perm (mems i).entries := fun i => (run.iterated i).perm
  have distinct : ∀ i, (run.order i).NodupKeys := fun i => (List.perm_nodupKeys (perm i)).mpr
    (mems i).nodupKeys
  have agree : topValues q run.master = topValues q naive.master := by
    rw [topValues_eq_iff run naive fits bounded]
    intro k member pruned
    exact descending_safe desc distinct member pruned
  rw [agree, topValues, naive_values run naive bounded, keys_perm perm, total_perm perm]

end Run

/-! ### The records on their way to the slaves and back -/

theorem sizeToInt_small {size : Nat} (small : size < 2 ^ 31) : sizeToInt size = size := by
  unfold sizeToInt
  rw [Int.bmod_def]
  omega

theorem RawMem.ext {a b : RawMem lib} (recs : a.recs = b.recs) : a = b := by
  cases a
  cases b
  cases recs
  rfl

theorem receive_recBuff (malloc : Nat → Bytes) {s : SlaveCtx} {count : Int}
    {packed buff received : Bytes} (allocated : s.tputRecBuff = some buff)
    (arrives : mpiBcast count (sizeToInt (recBuffSize s.tputRecInfo)) packed buff = some received) :
    SlaveCtx.receive malloc (.recBuff count packed) s = { s with tputRecBuff := some received } := by
  rw [SlaveCtx.receive, allocated, Option.bind_some, arrives]

namespace Setting

variable (t : Setting σ ι codec q)

/-- The buffer that the master packs reaches the slaves, which find every record of the memory in it. -/
structure Delivers (mem : List Bytes) (info : Nat × Nat) (packed : Bytes) : Prop where
  queried : Tput.recInfo lib mem = some info
  packs : packLoop info info.1 mem 0 (t.malloc (recBuffSize info)) = some packed
  arrives : mpiBcast (sizeToInt (recBuffSize info)) (sizeToInt (recBuffSize info)) packed
    (t.malloc (recBuffSize info)) = some packed
  found : ∀ lookup, lookupLoop info packed lookup = ⟨mem, mem.filterMap lookup⟩

theorem delivers (mem : RawMem lib) {length : Nat} (common : ∀ r ∈ mem.recs, r.length = length)
    (small : mem.recs.length * length < 2 ^ 31) : ∃ info packed, t.Delivers mem.recs info packed := by
  have few := count_le_size mem common
  have trip := roundTrip_of_small mem common small
  obtain ⟨recLen, queried, -, -⟩ := recInfo_eq mem common (by omega)
  have size := recBuffSize_eq mem common (by omega) queried
  obtain ⟨packed, packs, packedSize, -⟩ := trip.packs _ _ queried (t.mallocSize _)
  have received : mpiBcast (sizeToInt (recBuffSize (mem.recs.length, recLen)))
      (sizeToInt (recBuffSize (mem.recs.length, recLen))) packed
      (t.malloc (recBuffSize (mem.recs.length, recLen))) = some packed := by
    have room : (t.malloc (recBuffSize (mem.recs.length, recLen))).length = packed.length := by
      rw [t.mallocSize, size, packedSize]
    refine mpiBcast_all ?_ room
    rw [size, packedSize]
    exact sizeToInt_small small
  refine ⟨_, packed, queried, packs, received, ?_⟩
  intro lookup
  have room := (t.mallocSize (recBuffSize (mem.recs.length, recLen))).trans size
  exact Option.some.inj ((tputPhase3_eq queried packs received).symm.trans
    (trip.answers _ _ lookup room room))

variable [Fintype ι]

theorem keys_order : keys (t.threadOrder mems) = keys fun i => (mems i).entries :=
  keys_perm fun i => (t.orders (mems i)).perm

variable [DecidableEq ι]

/-- Whatever the first two phases leave in the master's memory, the broadcast can carry it. -/
def Fits (t : Setting σ ι codec q) (mems : ι → Table K (Fields n)) (length : Nat) : Prop :=
  ∀ selection : Selection codec q mems, selection.order = t.threadOrder mems → selection.Fits length

/-- The keys that the threads send in phase 2. -/
def phase2Keys (t : Setting σ ι codec q) (mems : ι → Table K (Fields n)) : Finset K :=
  (keys (t.threadOrder mems)).filter (Kept q (t.threadOrder mems))

variable [Nonempty ι] {t} {length : Nat}

theorem fits_of_packable (packable : Packable codec mems length) :
    t.Fits mems length := fun selection same => by
  refine ⟨packable.common, ?_⟩
  have few := selection.broadcast_length_le
  rw [same, t.keys_order] at few
  exact (Nat.mul_le_mul_right _ few).trans_lt packable.small

theorem fits_of_phase2Keys (bounded : Bounded q mems) (common : ∀ r, (codec.raw r).length = length)
    (small : (t.phase2Keys mems).card * length < 2 ^ 31) : t.Fits mems length := fun selection same => by
  refine ⟨common, ?_⟩
  rw [selection.broadcast_length (selection.small bounded), same]
  exact small

/-! ### One phase after the other -/

abbrev Phased (t : Setting σ ι codec q) (mems : ι → Table K (Fields n)) (k : Nat) (s : RecvState)
    (issued : List Broadcast) : Prop :=
  Rounds.Phased (t.program mems) (recvInit (Fintype.card ι)) {} k s issued

theorem phased_one {s : RecvState} {issued : List Broadcast} (phased : t.Phased mems 1 s issued) :
    ∃ run : RecordRun codec (t.threadOrder mems) (fun _ => q.recLimit),
      writes codec s = run.written ∧ issued = [] := by
  obtain ⟨run, calls, none⟩ := first_exchange (e := t.exchanges) rfl phased
  exact ⟨run, congrArg (List.map codec.unraw) calls, none⟩

/-- What the second phase leaves: the records of the master, of keys that the threads have. -/
structure SecondPhase (t : Setting σ ι codec q) (mems : ι → Table K (Fields n)) (s : RecvState) where
  phase1 : RecordRun codec (t.threadOrder mems) (fun _ => q.recLimit)
  phase2 : RecordRun codec (t.threadOrder mems) fun i =>
    findThresholdCnt q (masterThreshold (findBottom q (t.iterate phase1.written)) (Fintype.card ι))
      (t.order (mems i))
  written : writes codec s = phase2.written

def SecondPhase.threshold {s : RecvState} (second : t.SecondPhase mems s) : Nat :=
  masterThreshold (findBottom q (t.iterate second.phase1.written)) (Fintype.card ι)

theorem phased_two {s : RecvState} {issued : List Broadcast} (phased : t.Phased mems 2 s issued) :
    ∃ second : t.SecondPhase mems s, issued = [.threshold second.threshold] := by
  cases phased with
  | round earlier merges =>
    obtain ⟨phase1, written, rfl⟩ := phased_one earlier
    have run := t.exchanges.exchange merges
    have cast : Rounds.casts (t.program mems) 1 _ = [.threshold _] :=
      congrArg (fun records =>
        [Broadcast.threshold (masterThreshold (findBottom q (t.iterate records)) _)]) written
    rw [cast] at run
    obtain ⟨run, rfl⟩ := run
    exact ⟨⟨phase1, run, congrArg (List.map codec.unraw) run.gathered_calls⟩, cast⟩

def SecondPhase.selection {s : RecvState} (second : t.SecondPhase mems s) : Selection codec q mems where
  order := t.threadOrder mems
  iterated i := t.orders (mems i)
  phase1 := second.phase1
  partials := t.iterate second.phase1.written
  partialsIterated := t.iterates _
  phase2 := second.phase2
  broadcast := t.iterate second.phase2.written
  broadcastIterated := (t.iterates _).perm

omit [Nonempty ι] in
theorem SecondPhase.raws_eq {s : RecvState} (second : t.SecondPhase mems s) :
    t.raws s = second.selection.broadcast.map codec.raw := by
  rw [raws, second.written]
  rfl

omit [Nonempty ι] in
theorem SecondPhase.delivers {s : RecvState} (second : t.SecondPhase mems s)
    (fits : t.Fits mems length) :
    ∃ info packed, t.Delivers (t.raws s) info packed := by
  obtain ⟨common, small⟩ := fits second.selection rfl
  rw [second.raws_eq]
  have sized : ∀ r ∈ (codec.mem second.selection.broadcast).recs, r.length = length := by
    intro r member
    obtain ⟨e, -, rfl⟩ := List.mem_map.mp member
    exact common e
  have less : (second.selection.broadcast.map codec.raw).length * length < 2 ^ 31 := by
    rwa [List.length_map]
  exact t.delivers (codec.mem second.selection.broadcast) sized less

omit [DecidableEq ι] [Nonempty ι] in
/-- The broadcasts of the third phase. -/
theorem casts_two {s : RecvState} {info : Nat × Nat} {packed : Bytes}
    (delivers : t.Delivers (t.raws s) info packed) :
    Rounds.casts (t.program mems) 2 s =
      [.recInfo info, .recBuff (sizeToInt (recBuffSize info)) packed] := by
  have first : t.cast 2 0 s = .recInfo info := by rw [cast, delivers.queried]
  have second : t.cast 2 1 s = .recBuff (sizeToInt (recBuffSize info)) packed := by
    rw [cast, delivers.queried]
    dsimp only
    rw [delivers.packs]
  show [t.cast 2 0 s, t.cast 2 1 s] = _
  rw [first, second]

omit [DecidableEq ι] [Nonempty ι] in
/-- What the slaves have made of the broadcasts before the third exchange. -/
theorem stored_three (mems : ι → Table K (Fields n)) {mem : List Bytes} {info : Nat × Nat}
    {packed : Bytes} (threshold : Nat) (delivers : t.Delivers mem info packed) :
    Rounds.stored (t.program mems) {}
        [.threshold threshold, .recInfo info, .recBuff (sizeToInt (recBuffSize info)) packed] =
      { tputThreshold := threshold, tputRecInfo := info, tputRecBuff := some packed } := by
  have store : (t.program mems).store = SlaveCtx.receive t.malloc := rfl
  rw [Rounds.stored, store, List.foldl_cons, List.foldl_cons, List.foldl_cons, List.foldl_nil]
  exact receive_recBuff _ rfl delivers.arrives

omit [DecidableEq ι] [Nonempty ι] in
/-- A failed assertion or a failed broadcast is not among what the slaves store. -/
theorem stored_prefix {mem : List Bytes} {info : Nat × Nat} {packed : Bytes} {threshold : Nat}
    (delivers : t.Delivers mem info packed) {values : List Broadcast}
    (front : values <+: [.threshold threshold, .recInfo info,
      .recBuff (sizeToInt (recBuffSize info)) packed]) :
    (Rounds.stored (t.program mems) {} values).aborted = false := by
  have whole := congrArg SlaveCtx.aborted (stored_three mems threshold delivers)
  rw [List.prefix_iff_eq_take.mp front]
  have le := front.length_le
  match values.length, le with
  | 0, _ | 1, _ | 2, _ => rfl
  | 3, _ => exact whole

omit [Fintype ι] [DecidableEq ι] [Nonempty ι] in
theorem found_raw (mem : Table K (Fields n)) (slave : SlaveCtx) :
    ((t.found mem slave).map codec.unraw).map codec.raw = t.found mem slave := by
  rw [List.map_map]
  refine (List.map_congr_left ?_).trans (List.map_id _)
  intro r member
  obtain ⟨received, found⟩ := lookupLoop_found ((t.foundPerm _).mem_iff.mp member)
  obtain ⟨fields, -, rfl⟩ := Option.map_eq_some_iff.mp found
  exact congrArg codec.raw (codec.unraw_raw _)

omit [DecidableEq ι] [Nonempty ι] in
/-- The memory of found records holds the answers of the thread. -/
theorem sends_found (mem : Table K (Fields n)) (slave : SlaveCtx) :
    t.exchanges.mem 2 mem slave = codec.mem ((t.found mem slave).map codec.unraw) :=
  RawMem.ext (found_raw mem slave).symm

omit [Nonempty ι] in
theorem phased_three_earlier {s : RecvState} {issued : List Broadcast}
    (phased : t.Phased mems 3 s issued) :
    ∃ before earlier, t.Phased mems 2 before earlier ∧ issued = earlier ++ Rounds.casts
      (t.program mems) 2 before := by
  cases phased with
  | round earlier _ => exact ⟨_, _, earlier, rfl⟩

theorem phased_three (fits : t.Fits mems length) {s : RecvState} {issued : List Broadcast}
    (phased : t.Phased mems 3 s issued) :
    ∃ run : TputRun codec q mems, run.order = t.threadOrder mems ∧
      writes codec s = run.phase3.written := by
  cases phased with
  | @round _ before _ _ earlier merges =>
    obtain ⟨second, rfl⟩ := phased_two earlier
    obtain ⟨info, packed, delivers⟩ := second.delivers fits
    have exchange := t.exchanges.exchange merges
    rw [casts_two delivers, List.singleton_append, stored_three mems _ delivers, funext fun i =>
      sends_found (mems i) _]
      at exchange
    obtain ⟨phase3, rfl⟩ := exchange
    have raws := second.raws_eq
    let run : TputRun codec q mems :=
      { second.selection with
        info := info
        queried := raws ▸ delivers.queried
        masterBuff := t.malloc (recBuffSize info)
        masterAllocated := t.mallocSize _
        packed := packed
        packs := raws ▸ delivers.packs
        slaveBuff := fun _ => t.malloc (recBuffSize info)
        slaveAllocated := fun _ => t.mallocSize _
        received := fun _ => packed
        receives := fun _ => delivers.arrives
        found := _
        foundIterated := fun i => by
          rw [found_raw]
          exact t.foundPerm _
        phase3 := phase3 }
    exact ⟨run, rfl, congrArg (List.map codec.unraw) phase3.gathered_calls⟩

/-! ### Any interleaving -/

variable [DecidableEq σ] {s : t.State}

omit [DecidableEq σ] in
theorem aligned (t : Setting σ ι codec q) (mems : ι → Table K (Fields n)) :
    Rounds.Aligned (t.program mems) :=
  t.exchanges.aligned mems

theorem finished_run (fits : t.Fits mems length) (reached : t.Reachable mems s)
    (finished : t.Finished mems s) :
    ∃ run : TputRun codec q mems, run.order = t.threadOrder mems ∧ run.Fits length ∧
      t.master s = run.master := by
  obtain ⟨run, order, written⟩ :=
    phased_three fits (Rounds.finished_phased (t.aligned mems) reached finished)
  exact ⟨run, order, fits run.toSelection order, congrArg (List.foldl (htWrite q.funcs) ∅) written⟩

/-- In descending order every finished run of the protocol, however its processes and threads were
interleaved, leaves exact records in the master's memory, and the `N` largest totals of all keys at
its front. -/
theorem tput_concurrent_exact (desc : q.dir = .desc) (bounded : Bounded q mems)
    (packable : Packable codec mems length)
    (reached : t.Reachable mems s) (finished : t.Finished mems s) :
    (∀ k v, (t.master s).lookup k = some v →
      ∀ j, v j = (q.funcs j).over ((valuesAt k (allEntries mems)).map (· j))) ∧
    topValues q (t.master s) = best q.dir.le q.recLimit
      ((keys fun i => (mems i).entries).val.map (total q fun i => (mems i).entries)) := by
  obtain ⟨run, -, fits, same⟩ := finished_run (fits_of_packable packable) reached finished
  rw [same]
  exact ⟨fun k v present => run.master_fields fits present, run.descending_values fits desc bounded⟩

/-! ### What the threads of a slave share -/

theorem issued_prefix (fits : t.Fits mems length) (reached : t.Reachable mems s) :
    ∃ threshold mem info packed, t.Delivers mem info packed ∧
      s.issued <+: [.threshold threshold, .recInfo info,
        .recBuff (sizeToInt (recBuffSize info)) packed] := by
  obtain ⟨begun, earlier, trace, flow⟩ := reached.flow (t.aligned mems)
  have some : ∃ info packed, t.Delivers (codec.mem []).recs info packed :=
    t.delivers (codec.mem []) (fun r member => (nomatch member : r.length = 0)) (by simp [RawCodec.mem])
  obtain ⟨info₀, packed₀, delivers₀⟩ := some
  have phased := flow.phased
  have issued := flow.issued
  have last := flow.last
  have inside := flow.round_le
  generalize s.round = round at phased issued last inside
  rcases round with _ | _ | _ | _ | round
  · cases phased
    refine ⟨0, _, info₀, packed₀, delivers₀, ?_⟩
    rw [issued, List.nil_append]
    exact (List.take_prefix _ _).trans List.nil_prefix
  · obtain ⟨run, written, rfl⟩ := phased_one phased
    refine ⟨masterThreshold (findBottom q (t.iterate (writes codec begun))) (Fintype.card ι), _,
      info₀, packed₀,
      delivers₀, ?_⟩
    rw [issued, List.nil_append]
    exact (List.take_prefix _ _).trans (List.prefix_append [_] _)
  · obtain ⟨second, rfl⟩ := phased_two phased
    obtain ⟨info, packed, delivers⟩ := second.delivers fits
    refine ⟨second.threshold, _, info, packed, delivers, ?_⟩
    rw [issued, casts_two delivers]
    exact (List.prefix_append_right_inj [Broadcast.threshold second.threshold]).mpr
      (List.take_prefix _ _)
  · obtain ⟨before, issued₂, earlier₂, rfl⟩ := phased_three_earlier phased
    obtain ⟨second, rfl⟩ := phased_two earlier₂
    obtain ⟨info, packed, delivers⟩ := second.delivers fits
    refine ⟨second.threshold, _, info, packed, delivers, ?_⟩
    rw [issued, last rfl, Rounds.Phase.issuedIn, List.take_zero, List.append_nil, casts_two delivers]
    exact List.prefix_rfl
  · exact absurd inside (show ¬ round + 4 ≤ 3 by omega)

/-- What the threads of the slaves share, in a state of the system. -/
structure SharedOk (t : Setting σ ι codec q) (s : t.State) : Prop where
  alive : ∀ slave, (s.team slave).shared.aborted = false
  threshold : ∀ i left, s.place i = .sending 1 left → left ≠ [] →
    ∃ threshold, s.issued[0]? = some (.threshold threshold) ∧
      (s.team (t.home i)).shared.tputThreshold = threshold
  recBuff : ∀ i left, s.place i = .sending 2 left → left ≠ [] →
    ∃ info packed count, s.issued[1]? = some (.recInfo info) ∧
      s.issued[2]? = some (.recBuff count packed) ∧
      (s.team (t.home i)).shared.tputRecInfo = info ∧
        (s.team (t.home i)).shared.tputRecBuff = some packed

theorem shared_ok (fits : t.Fits mems length) (reached : t.Reachable mems s) : t.SharedOk s := by
  obtain ⟨threshold, mem, info, packed, delivers, front⟩ := issued_prefix fits reached
  obtain ⟨begun, earlier, trace, flow⟩ := reached.flow (t.aligned mems)
  have shared : ∀ slave,
      (Rounds.stored (t.program mems) {} (s.issued.take (s.team slave).received)).aborted = false :=
    fun slave => stored_prefix delivers ((List.take_prefix _ _).trans front)
  refine ⟨?_, ?_, ?_⟩
  · intro slave
    cases released : (s.team slave).released with
    | false =>
      rw [flow.team.memory slave released]
      exact shared slave
    | true =>
      rw [flow.team.freed slave released]
      exact shared slave
  · intro i left here more
    obtain ⟨-, received, same⟩ := Rounds.memory_kept (t.aligned mems) reached here more
    have two : Rounds.before (t.program mems) 2 = 1 := rfl
    have le : 1 ≤ s.issued.length := two ▸ received ▸ flow.team.received (t.home i)
    obtain ⟨rest, whole⟩ := front
    have first : (s.issued ++ rest)[0]? = s.issued[0]? := List.getElem?_append_left le
    have sofar : (s.issued ++ rest).take 1 = s.issued.take 1 := List.take_append_of_le_length le
    refine ⟨threshold, ?_, ?_⟩
    · rw [← first, whole]
      rfl
    · rw [show s.team (t.home i) = s.team ((t.program mems).home i) from rfl, same, two, ← sofar, whole]
      rfl
  · intro i left here more
    obtain ⟨-, received, same⟩ := Rounds.memory_kept (t.aligned mems) reached here more
    have three : Rounds.before (t.program mems) 3 = 3 := rfl
    have le : 3 ≤ s.issued.length := three ▸ received ▸ flow.team.received (t.home i)
    have all := front.eq_of_length (Nat.le_antisymm front.length_le le)
    have stored :=
      same.trans ((congrArg _ (congrArg (List.take 3) all)).trans
        (stored_three mems threshold delivers))
    refine ⟨info, packed, _, by rw [all]; rfl, by rw [all]; rfl, ?_, ?_⟩
    · exact congrArg SlaveCtx.tputRecInfo stored
    · exact congrArg SlaveCtx.tputRecBuff stored

/-- In every reachable state no assertion and no broadcast has failed, and a thread with messages
left in a phase finds the threshold, and the whole buffer of records, as the master has broadcast
them. -/
theorem tput_shared_memory_kept (packable : Packable codec mems length)
    (reached : t.Reachable mems s) : t.SharedOk s :=
  shared_ok (fits_of_packable packable) reached

/-- No state of the protocol is stuck before its end, whatever MPI buffers, and no run goes on
forever. -/
theorem tput_never_stuck [Fintype σ] (t : Setting σ ι codec q) (mems : ι → Table K (Fields n)) :
    (∀ s : t.State, t.Reachable mems s → ¬ t.Finished mems s → ∃ s', Rounds.Step (t.program mems) s s') ∧
      WellFounded fun s' s : t.State => Rounds.Step (t.program mems) s s' :=
  ⟨fun _ reached unfinished => Rounds.exists_step (t.aligned mems) reached unfinished, Rounds.steps_end⟩

end Setting

/-! ### Two slaves -/

theorem zeros_length (size : Nat) : (List.replicate size (0 : UInt8)).length = size :=
  List.length_replicate

/-- The memories are sorted by insertion, the allocator gives zeros, and MPI buffers nothing. -/
def Setting.unbuffered (codec : RawCodec lib (Rec K n)) (q : TputQuery n) (home : ι → σ)
    (staffed : ∀ slave, ∃ i, home i = slave) (buffs : BuffPair) : Setting σ ι codec q where
  home
  staffed
  order mem := mem.entries.insertionSort q.before
  orders _ := orders_insertionSort _
  iterate writes := (writes.foldl (htWrite q.funcs) ∅).entries.insertionSort q.before
  iterates _ := orders_insertionSort _
  foundOrder := id
  foundPerm := List.Perm.refl
  malloc size := List.replicate size 0
  mallocSize := zeros_length
  buffs _ _ := buffs
  sendBuffers _ := False
  castBuffers := False

/-- A slave for each thread. -/
def unevenSetting (dir : SortDir) : Setting (Fin 2) (Fin 2) keyedCodec (topOne dir) :=
  .unbuffered keyedCodec (topOne dir) id Function.surjective_id ListMode.blankBuffs

theorem unevenMems_packable : Packable keyedCodec unevenMems 9 where
  common _ := rfl
  small := by decide

theorem tput_concurrent_exact_uneven :
    ∃ s : (unevenSetting .desc).State, (unevenSetting .desc).Finished unevenMems s ∧
      topValues (topOne .desc) ((unevenSetting .desc).master s) = [101] := by
  obtain ⟨s, reached, finished⟩ := Rounds.exists_end ((unevenSetting .desc).aligned unevenMems) .refl
  refine ⟨s, finished, ?_⟩
  rw [(Setting.tput_concurrent_exact rfl (unevenMems_bounded .desc) unevenMems_packable reached
    finished).2]
  decide

theorem tput_shared_memory_kept_uneven :
    ∃ s : (unevenSetting .desc).State, (unevenSetting .desc).Finished unevenMems s ∧
    (unevenSetting .desc).SharedOk s := by
  obtain ⟨s, reached, finished⟩ := Rounds.exists_end ((unevenSetting .desc).aligned unevenMems) .refl
  exact ⟨s, finished, Setting.tput_shared_memory_kept unevenMems_packable reached⟩

theorem tput_never_stuck_uneven :
    (∃ s', Rounds.Step ((unevenSetting .asc).program unevenMems)
      (.init (recvInit (Fintype.card (Fin 2))) {}) s') ∧
      WellFounded fun s' s : (unevenSetting .asc).State =>
        Rounds.Step ((unevenSetting .asc).program unevenMems) s s' := by
  have begins : ¬ (unevenSetting .asc).Finished unevenMems
      (.init (recvInit (Fintype.card (Fin 2))) {}) := by
    rintro ⟨round, -⟩
    cases round
  have law := (unevenSetting .asc).tput_never_stuck unevenMems
  exact ⟨law.1 _ .refl begins, law.2⟩

end Fdistdump.Tput
