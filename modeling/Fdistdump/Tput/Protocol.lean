import Fdistdump.Exchange.Protocol
import Fdistdump.Tput.Broadcast
import Fdistdump.Tput.TopN

/-!
# TPUT as a protocol

`aggr_main` with its three phases and the slave threads in `tput_phase_1`, `tput_phase_2` and
`tput_phase_3`, as rounds that the processes and threads run concurrently: three exchanges with tags
of their own, a broadcast of the threshold, two broadcasts of the records, and the buffer that the
threads of a slave share and free.
-/

namespace Fdistdump.Tput
open Aggregation ByteBuffer Exchange Interleaving KeyedFold Ranking

inductive TputTag
  | tput1
  | tput2
  | tput3
deriving DecidableEq, Repr

/-- What the master passes to `MPI_Bcast`; `aborted` is a failed assertion. -/
inductive Broadcast
  | threshold (threshold : Nat)
  | recInfo (recInfo : Nat × Nat)
  | recBuff (count : Int) (recBuff : Bytes)
  | aborted

/-- The fields of `slave_ctx` that the threads of a slave share; no buffer before `malloc` and after
`free`. -/
structure SlaveCtx where
  tputThreshold : Nat := 0
  tputRecInfo : Nat × Nat := (0, 0)
  tputRecBuff : Option Bytes := none
  aborted : Bool := false

variable (malloc : Nat → Bytes)

/-- What a single section does with a broadcast value, up to the next broadcast. -/
def SlaveCtx.receive : Broadcast → SlaveCtx → SlaveCtx
  | .threshold threshold, s => { s with tputThreshold := threshold }
  | .recInfo recInfo, s =>
    { s with tputRecInfo := recInfo, tputRecBuff := some (malloc (recBuffSize recInfo)) }
  | .recBuff rootCount recBuff, s =>
    match s.tputRecBuff.bind (mpiBcast rootCount (sizeToInt (recBuffSize s.tputRecInfo)) recBuff) with
    | some received => { s with tputRecBuff := some received }
    | none => { s with aborted := true }
  | .aborted, s => { s with aborted := true }

def SlaveCtx.free (s : SlaveCtx) : SlaveCtx := { s with tputRecBuff := none }

variable {ι K : Type} {n : Nat} [DecidableEq K] {lib : Libnf}

/-- The setting of a query: the threads of the slaves, the orders in which libnf iterates, the
buffers, and what MPI buffers. -/
structure Setting (σ ι : Type) (codec : RawCodec lib (Rec K n)) (q : TputQuery n) where
  home : ι → σ
  staffed : ∀ slave, ∃ i, home i = slave
  /-- A thread's memory in iteration order. -/
  order : Table K (Fields n) → List (Rec K n)
  orders : ∀ mem, Orders q.before mem.entries (order mem)
  /-- The master's memory in iteration order, after these writes. -/
  iterate : List (Rec K n) → List (Rec K n)
  iterates : ∀ writes, Orders q.before (writes.foldl (htWrite q.funcs) ∅).entries (iterate writes)
  /-- The iteration order of `found_records`. -/
  foundOrder : List Bytes → List Bytes
  foundPerm : ∀ records, (foundOrder records).Perm records
  malloc : Nat → Bytes
  mallocSize : ∀ size, (malloc size).length = size
  buffs : Nat → ι → BuffPair
  sendBuffers : (ι → List (TputTag × Bytes)) → Prop
  castBuffers : Prop

variable {σ : Type} {codec : RawCodec lib (Rec K n)} {q : TputQuery n}

/-- The records `mem_write_raw_callback` has written since the memory was initialized. -/
def writes (codec : RawCodec lib (Rec K n)) (s : RecvState) : List (Rec K n) := s.calls.map codec.unraw

theorem lookupLoop_found {info : Nat × Nat} {recBuff : Bytes} {lookup : Bytes → Option Bytes} {r : Bytes}
    (member : r ∈ (lookupLoop info recBuff lookup).found) : ∃ received, lookup received = some r := by
  have steps (loops : List Nat) (s : Lookups)
    (inside : r ∈ (loops.foldl (lookupBody info recBuff lookup) s).found) :
      r ∈ s.found ∨ ∃ received, lookup received = some r := by
    induction loops generalizing s with
    | nil => exact .inl inside
    | cons i rest ih =>
      obtain earlier | found := ih _ inside
      · obtain old | new := List.mem_append.mp earlier
        · exact .inl old
        · exact .inr ⟨_, Option.mem_toList.mp new⟩
      · exact .inr found
  obtain none | found := steps _ _ member
  · cases none
  · exact found

namespace Setting

variable (t : Setting σ ι codec q)

/-- The records in the master's memory, in iteration order. -/
def raws (s : RecvState) : List Bytes := (t.iterate (writes codec s)).map codec.raw

variable [Fintype ι]

/-- The broadcasts of `tput_phase_2` and `tput_phase_3`. -/
def cast : Nat → Nat → RecvState → Broadcast
  | 1, 0, s => .threshold (masterThreshold (findBottom q (t.iterate (writes codec s))) (Fintype.card ι))
  | 2, 0, s =>
    match Tput.recInfo lib (t.raws s) with
    | none => .aborted
    | some info => .recInfo info
  | 2, 1, s =>
    match Tput.recInfo lib (t.raws s) with
    | none => .aborted
    | some info =>
      match packLoop info info.1 (t.raws s) 0 (t.malloc (recBuffSize info)) with
      | none => .aborted
      | some packed => .recBuff (sizeToInt (recBuffSize info)) packed
  | _, _, _ => .aborted

omit [Fintype ι] in
/-- The memory `found_records` of a thread. -/
def found (mem : Table K (Fields n)) (slave : SlaveCtx) : List Bytes :=
  t.foundOrder (lookupLoop slave.tputRecInfo (slave.tputRecBuff.getD []) (lookupRaw codec mem)).found

omit [Fintype ι] in
/-- The records of each thread in iteration order. -/
abbrev threadOrder (mems : ι → Table K (Fields n)) (i : ι) : List (Rec K n) := t.order (mems i)

/-- The three exchanges: which memory a thread sends, and up to which limit. -/
def exchanges : Exchanges σ ι (Table K (Fields n)) SlaveCtx Broadcast TputTag lib where
  rounds := 3
  home := t.home
  staffed := t.staffed
  tag
    | 0 => .tput1
    | 1 => .tput2
    | _ => .tput3
  castCnt
    | 0 => 0
    | 1 => 1
    | _ => 2
  casts k later inside := by
    match k with
    | 1 => exact Nat.one_ne_zero
    | 2 => exact (by decide : (2 : Nat) ≠ 0)
  cast := t.cast
  store := SlaveCtx.receive t.malloc
  buffs := t.buffs
  mem
    | 0, mem, _ | 1, mem, _ => codec.mem (t.order mem)
    | _, mem, slave =>
      { recs := t.found mem slave
        sized := by
          intro r member
          obtain ⟨received, found⟩ := lookupLoop_found ((t.foundPerm _).mem_iff.mp member)
          obtain ⟨fields, -, rfl⟩ := Option.map_eq_some_iff.mp found
          exact codec.sized _ }
  limit
    | 0, _, _ => q.recLimit
    | 1, mem, slave => findThresholdCnt q slave.tputThreshold (t.order mem)
    | _, _, _ => 0
  release := SlaveCtx.free
  sendBuffers := t.sendBuffers
  castBuffers := t.castBuffers

abbrev program (mems : ι → Table K (Fields n)) :
    Rounds.Program σ ι RecvState SlaveCtx Broadcast TputTag Bytes :=
  t.exchanges.program mems

abbrev State (_ : Setting σ ι codec q) : Type :=
  Rounds.State σ ι RecvState SlaveCtx Broadcast TputTag Bytes

variable [DecidableEq ι] [DecidableEq σ]

/-- The states of the query; the master's receiving state is that of its last `recv_loop`. -/
def Reachable (mems : ι → Table K (Fields n)) (s : t.State) : Prop :=
  Rounds.Reachable (t.program mems) (recvInit (Fintype.card ι)) {} s

/-- `aggr_main` and the parallel regions of all slaves have come to their ends. -/
def Finished (mems : ι → Table K (Fields n)) (s : t.State) : Prop := s.Finished (t.program mems)

/-- The memory that `aggr_main` prints. -/
def master (s : t.State) : Table K (Fields n) := (writes codec s.data).foldl (htWrite q.funcs) ∅

end Setting

/-- All keys, packed into one buffer, are few enough for the count of `MPI_Bcast`. -/
structure Packable (codec : RawCodec lib (Rec K n)) (mems : ι → Table K (Fields n)) [Fintype ι]
    (length : Nat) : Prop where
  common : ∀ r, (codec.raw r).length = length
  small : (keys fun i => (mems i).entries).card * length < 2 ^ 31

end Fdistdump.Tput
