import Fdistdump.ListMode.Record
import Fdistdump.Slave.ProcessFile
import Mathlib.Data.Fintype.Card
import Mathlib.Logic.Relation

/-!
# List mode as a transition system

Every thread of every slave runs `process_file_mt` on its files: `ff_read_and_send` fills two buffers in
turn and sends them, and the threads of a slave share a record counter and a flag. A step is what a
thread does up to and including one access to shared data or one call of MPI, or the delivery of a
message to `recv_loop`. Messages of one thread arrive in the order in which they were sent.
-/

namespace Fdistdump.ListMode
open ByteBuffer Exchange Slave

variable {R : Type}

/-- The members of `struct slave_ctx` that list mode shares between threads. -/
structure SlaveCtx where
  procRecCntr : Nat := 0        -- a wrap, after 2 ^ 64 records, could only let the threads send more
  recLimitReached : Bool := false
deriving DecidableEq

/-- Where a thread is. The record it has read and not yet written is part of the position. -/
inductive Pc (R : Type)
  | nextFile
  | read
  | full (record : R)           -- no space left: the flag is tested next
  | sendFull (record : R)
  | countFull (record : R)
  | testFull (record : R)       -- sent and counted: the counter is tested next
  | setFull
  | tail
  | countTail
  | testTail
  | setTail
  | done

/-- A thread: its remaining files, the records left in the current file, the local variables of
`ff_read_and_send`, and the messages it has sent that have not been received. -/
structure Thread (R : Type) where
  pc : Pc R := .nextFile
  files : List (FlowFile R)
  recs : List R := []
  buff : Bool → Bytes
  buffIdx : Bool := false
  buffOff : Nat := 0
  buffRecCntr : Nat := 0
  request : Option Bool := none -- the buffer of the send that has not been waited for
  channel : List Bytes := []

/-- What all threads have in common. -/
structure Job (layout : RecordLayout) (R : Type) where
  recLimit : Nat
  accepts : R → Bool            -- `lnf_filter_match`, if there is a filter
  access : Access layout R

variable {layout : RecordLayout}

/-- Write a record into the current buffer. -/
def Thread.store (job : Job layout R) (t : Thread R) (record : R) : Thread R :=
  let written := writeRecord job.access (t.buff t.buffIdx, t.buffOff) record
  { t with
    buff := Function.update t.buff t.buffIdx written.1
    buffOff := written.2
    buffRecCntr := t.buffRecCntr + 1 }

/-- `MPI_Wait` and `MPI_Isend` of the current buffer. -/
def Thread.isend (t : Thread R) : Thread R :=
  { t with request := some t.buffIdx, channel := t.channel ++ [(t.buff t.buffIdx).take t.buffOff] }

/-- The record limit, if there is one, has been reached. -/
def limitReached (job : Job layout R) (s : SlaveCtx) : Bool :=
  job.recLimit != 0 && decide (job.recLimit ≤ s.procRecCntr)

/-- One step of a thread. -/
def threadStep (job : Job layout R) (s : SlaveCtx) (t : Thread R) : SlaveCtx × Thread R :=
  match t.pc with
  | .nextFile =>
    match t.files with
    | [] => (s, { t with pc := .done, channel := t.channel ++ [[]] })
    | file :: rest =>
      if file.opens && !s.recLimitReached then
        (s,
          { t with
            files := rest, recs := file.recs, buffIdx := false, buffOff := 0, buffRecCntr :=
              0, request := none,
            pc := .read })
      else (s, { t with files := rest })
  | .read =>
    match t.recs with
    | [] => (s, { t with pc := .tail })
    | record :: rest =>
      let t := { t with recs := rest }
      if !job.accepts record then (s, t)
      else if t.buffOff + layout.allSizesSum + sizeofXchgRecSize > xchgBuffSize then
        (s, { t with pc := .full record })
      else (s, t.store job record)
  | .full record =>
    if s.recLimitReached then (s, { t with buffRecCntr := 0, pc := .tail })
    else (s, { t with pc := .sendFull record })
  | .sendFull record => (s, { t.isend with pc := .countFull record })
  | .countFull record =>
    ({ s with procRecCntr := s.procRecCntr + t.buffRecCntr },
      { t with buffOff := 0, buffRecCntr := 0, buffIdx := !t.buffIdx, pc := .testFull record })
  | .testFull record =>
    if limitReached job s then (s, { t with pc := .setFull })
    else (s, { t.store job record with pc := .read })
  | .setFull => ({ s with recLimitReached := true }, { t with pc := .tail })
  | .tail =>
    if t.buffRecCntr != 0 then (s, { t.isend with pc := .countTail })
    else (s, { t with pc := .testTail })
  | .countTail => ({ s with procRecCntr := s.procRecCntr + t.buffRecCntr }, { t with pc := .testTail })
  | .testTail =>
    if limitReached job s then (s, { t with pc := .setTail })
    else (s, { t with request := none, pc := .nextFile })
  | .setTail => ({ s with recLimitReached := true }, { t with request := none, pc := .nextFile })
  | .done => (s, t)

/-! ### The whole system -/

variable {σ τ : Type} [DecidableEq σ] [DecidableEq τ]

/-- Slaves, their threads and the master's `recv_loop`. -/
structure State (σ τ R : Type) where
  slaves : σ → SlaveCtx
  threads : τ → Thread R
  master : RecvState

def State.runThread (job : Job layout R) (home : τ → σ) (s : State σ τ R) (i : τ) : State σ τ R :=
  let next := threadStep job (s.slaves (home i)) (s.threads i)
  { s with
    slaves := Function.update s.slaves (home i) next.1
    threads := Function.update s.threads i next.2 }

def State.deliver (job : Job layout R) (s : State σ τ R) (i : τ) (msg : Bytes) (rest : List Bytes) :
    State σ τ R :=
  { s with
    threads := Function.update s.threads i { s.threads i with channel := rest }
    master := recvMessage job.recLimit s.master msg }

inductive Step (job : Job layout R) (home : τ → σ) (s : State σ τ R) : State σ τ R → Prop
  | thread (i : τ) (running : (s.threads i).pc ≠ .done) : Step job home s (s.runThread job home i)
  | deliver (i : τ) {msg : Bytes} {rest : List Bytes} (sent : (s.threads i).channel = msg :: rest)
      (receiving : s.master.activeSources ≠ 0) : Step job home s (s.deliver job i msg rest)

def initial [Fintype τ] (files : τ → List (FlowFile R)) (buffs : τ → BuffPair) : State σ τ R where
  slaves _ := {}
  threads i := { files := files i, buff := (buffs i).buff }
  master := recvInit (Fintype.card τ)

def Reachable [Fintype τ] (job : Job layout R) (home : τ → σ) (files : τ → List (FlowFile R))
    (buffs : τ → BuffPair) (s : State σ τ R) : Prop :=
  Relation.ReflTransGen (Step job home) (initial files buffs) s

def matchingRecs (accepts : R → Bool) (files : List (FlowFile R)) : List R :=
  files.flatMap fun file => if file.opens then file.recs.filter accepts else []

end Fdistdump.ListMode
