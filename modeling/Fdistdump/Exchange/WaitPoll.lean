import Fdistdump.Exchange.RecvLoop
import Fdistdump.Library.Requests

/-!
# Waiting for messages

`mpi_wait_poll` returns when the request has completed, but also when a signal interrupts its sleep, and
its callers do not look at what it returns. The traces of `recv_loop` and of the progress bar's thread
record what they do with the request, the status and the buffers.
-/

namespace Fdistdump.Exchange
open Requests

/-- One round of the polling loop: `MPI_Test` succeeds, or `nanosleep` sleeps or is interrupted. -/
inductive Round
  | completed
  | slept
  | interrupted
deriving DecidableEq, Repr

/-- `mpi_wait_poll` with a nonzero interval: whether the request has completed when it returns, and the
rounds that are left; `none` when it has not returned after the last round. -/
def mpiWaitPoll : List Round → Option (Bool × List Round)
  | [] => none
  | .completed :: rest => some (true, rest)
  | .slept :: rest => mpiWaitPoll rest
  | .interrupted :: rest => some (false, rest)

def waitOps {β : Type} (completed : Bool) : List (Op β) := if completed then [.complete] else []

/-! ### `recv_loop` -/

/-- What one iteration of the receiving loop does after its wait, when the status shows the size of `msg`
and the buffer its bytes. -/
def recvOps (recLimit : Nat) (s : RecvState) (msg : Bytes) : List (Op Bool) :=
  .inspect :: -- the status and the size
    if msg.length = 0 then
      if s.activeSources - 1 ≠ 0 then [.start s.buffIdx] else []
    else
      .start (!s.buffIdx) ::
        -- the callback sees the records of the message, still in the other buffer
        List.replicate ((recvMessage recLimit s msg).recCntr - s.recCntr) (.touch s.buffIdx)

/-- At the head of the loop a receive is outstanding while sources are active. -/
def loopHead (s : RecvState) : List (Op Bool) := if s.activeSources ≠ 0 then [.outstanding 1] else []

/-- The iterations after the first one wait with `MPI_Wait`. -/
def recvRest (recLimit : Nat) (s : RecvState) : List Bytes → List (Op Bool)
  | [] => loopHead s
  | msg :: rest =>
    loopHead s ++
      if s.activeSources = 0 then []
      else waitOps true ++ recvOps recLimit s msg ++ recvRest recLimit (recvMessage recLimit s msg) rest

/-- `recv_loop`: the rounds of the first wait, and what status and buffer show in each iteration. -/
def recvTrace (recLimit sourceCnt : Nat) (rounds : List Round) (first : Bytes) (rest : List Bytes) :
    List (Op Bool) :=
  let s := recvInit sourceCnt
  .start s.buffIdx :: loopHead s ++
    match mpiWaitPoll rounds with
    | none => []
    | some (completed, _) =>
      waitOps completed ++ recvOps recLimit s first ++ recvRest recLimit
        (recvMessage recLimit s first) rest

/-! ### The progress bar -/

/-- The receiving loop of `progress_bar_thread` for `files` files. -/
def progressTrace : Nat → List Round → List (Op Unit)
  | 0, _ => []
  | files + 1, rounds =>
    .start () ::
      match mpiWaitPoll rounds with
      | none => []
      | some (completed, rest) =>
        -- the source in the status, then the counters
        waitOps completed ++ [.inspect, .inspect] ++ progressTrace files rest

/-! ### Waits -/

def waitsEnded (rounds : List Round) : Nat := rounds.countP (· ≠ .slept)

theorem mpiWaitPoll_some {rounds rest : List Round} {completed : Bool}
    (returned : mpiWaitPoll rounds = some (completed, rest)) :
    (.interrupted ∈ rounds ↔ completed = false ∨ .interrupted ∈ rest) ∧
    waitsEnded rounds = waitsEnded rest + 1 := by
  induction rounds with
  | nil => cases returned
  | cons round more ih =>
    cases round with
    | completed =>
      cases returned
      exact ⟨by simp, by simp [waitsEnded]⟩
    | interrupted =>
      cases returned
      exact ⟨by simp, by simp [waitsEnded]⟩
    | slept =>
      obtain ⟨interrupted, ended⟩ := ih returned
      exact ⟨by simpa using interrupted, by simpa [waitsEnded] using ended⟩

theorem mpiWaitPoll_none {rounds : List Round} (waiting : mpiWaitPoll rounds = none) :
    .interrupted ∉ rounds := by
  induction rounds with
  | nil => simp
  | cons round more ih =>
    cases round with
    | slept => simpa using ih waiting
    | _ => cases waiting

theorem not_interrupted_of_ended {rounds : List Round} (ended : waitsEnded rounds = 0) :
    .interrupted ∉ rounds := by
  intro member
  have := List.countP_eq_zero.mp ended _ member
  simp at this

/-! ### Messages that have arrived -/

variable (recLimit : Nat)

theorem recvOps_received (s : RecvState) (msg : Bytes) :
    Always Exclusive [] (recvOps recLimit s msg) ∧ Always Arrived [] (recvOps recLimit s msg) ∧
      after [] (recvOps recLimit s msg) = (recvMessage recLimit s msg).request.toList := by
  unfold recvOps
  by_cases empty : msg.length = 0
  · rw [if_pos empty, recvMessage, if_pos empty]
    dsimp only
    split <;> exact ⟨by simp [Exclusive, step], by simp [Arrived, step], rfl⟩
  · have request : (recvMessage recLimit s msg).request = some !s.buffIdx := by
      rw [recvMessage, if_neg empty]
      dsimp only
      split
      · rfl
      · rw [(recordLoop_sources ..).2.1]
    have free : s.buffIdx ∉ [!s.buffIdx] := by simp
    rw [if_neg empty, request]
    obtain ⟨exclusive, kept⟩ := always_touches Exclusive free (fun _ h => h)
      ((recvMessage recLimit s msg).recCntr - s.recCntr)
    obtain ⟨arrived, -⟩ := always_touches Arrived free (fun _ h => h)
      ((recvMessage recLimit s msg).recCntr - s.recCntr)
    exact ⟨⟨trivial, rfl, exclusive⟩, ⟨rfl, rfl, arrived⟩, kept⟩

theorem recvMessage_listening {s : RecvState} (active : s.activeSources ≠ 0) (msg : Bytes) :
    Listening (recvMessage recLimit s msg) := by
  by_cases empty : msg = []
  · rw [empty]
    exact (recvMessage_terminator recLimit s).2
  · exact (recvMessage_data recLimit empty active).2

theorem loopHead_listening {s : RecvState} (listening : Listening s) :
    Always Exclusive s.request.toList (loopHead s) ∧ Always Arrived s.request.toList (loopHead s) ∧
      after s.request.toList (loopHead s) = s.request.toList := by
  unfold loopHead
  by_cases finished : s.activeSources = 0
  · rw [if_neg (not_not.mpr finished)]
    exact ⟨trivial, trivial, rfl⟩
  · rw [if_pos finished, listening, if_neg finished]
    exact ⟨⟨rfl, trivial⟩, ⟨trivial, trivial⟩, rfl⟩

theorem recvRest_received {s : RecvState} (listening : Listening s) (msgs : List Bytes) :
    Always Exclusive s.request.toList (recvRest recLimit s msgs) ∧
      Always Arrived s.request.toList (recvRest recLimit s msgs) := by
  induction msgs generalizing s with
  | nil => exact ⟨(loopHead_listening listening).1, (loopHead_listening listening).2.1⟩
  | cons msg rest ih =>
    obtain ⟨headExclusive, headArrived, head⟩ := loopHead_listening listening
    rw [recvRest, always_append, always_append, head]
    split
    · exact ⟨⟨headExclusive, trivial⟩, headArrived, trivial⟩
    · rename_i active
      have waited : after s.request.toList (waitOps true) = [] := by
        rw [listening, if_neg active]
        rfl
      obtain ⟨exclusive, arrived, kept⟩ := recvOps_received recLimit s msg
      obtain ⟨restExclusive, restArrived⟩ := ih (recvMessage_listening recLimit active msg)
      rw [always_append, always_append, always_append, always_append, after_append, waited, kept]
      exact ⟨⟨headExclusive, ⟨⟨trivial, trivial⟩, exclusive⟩, restExclusive⟩,
        headArrived, ⟨⟨trivial, trivial⟩, arrived⟩, restArrived⟩

/-! ### Whole runs -/

variable {recLimit}

theorem recvInit_listening {sourceCnt : Nat} (sources : 0 < sourceCnt) :
    Listening (recvInit sourceCnt) := by
  rw [Listening, if_neg (show (recvInit sourceCnt).activeSources ≠ 0 from Nat.ne_of_gt sources)]
  rfl

theorem recvTrace_completed {sourceCnt : Nat} (sources : 0 < sourceCnt) {rounds left : List Round}
    (returned : mpiWaitPoll rounds = some (true, left)) (first : Bytes) (rest : List Bytes) :
    recvTrace recLimit sourceCnt rounds first rest =
      .start false :: recvRest recLimit (recvInit sourceCnt) (first :: rest) := by
  have active : (recvInit sourceCnt).activeSources ≠ 0 := Nat.ne_of_gt sources
  rw [recvTrace, returned, recvRest, if_neg active]
  rfl

theorem recvTrace_uninterrupted {sourceCnt : Nat} (sources : 0 < sourceCnt) {rounds : List Round}
    (uninterrupted : .interrupted ∉ rounds) (first : Bytes) (rest : List Bytes) :
    Always Exclusive [] (recvTrace recLimit sourceCnt rounds first rest) ∧
      Always Arrived [] (recvTrace recLimit sourceCnt rounds first rest) := by
  have listening := recvInit_listening sources
  cases returned : mpiWaitPoll rounds with
  | none =>
    obtain ⟨exclusive, arrived, -⟩ := loopHead_listening listening
    rw [recvTrace, returned]
    dsimp only
    rw [List.append_nil]
    exact ⟨⟨rfl, exclusive⟩, rfl, arrived⟩
  | some result =>
    obtain ⟨completed, left⟩ := result
    have interrupted := (mpiWaitPoll_some returned).1
    have done : completed = true := by
      cases completed with
      | true => rfl
      | false => exact absurd (interrupted.mpr (Or.inl rfl)) uninterrupted
    subst done
    obtain ⟨exclusive, arrived⟩ := recvRest_received recLimit listening (first :: rest)
    rw [recvTrace_completed sources returned]
    exact ⟨⟨rfl, exclusive⟩, rfl, arrived⟩

theorem recvTrace_interrupted {sourceCnt : Nat} (sources : 0 < sourceCnt) {rounds : List Round}
    (ended : waitsEnded rounds ≤ 1) (interrupted : .interrupted ∈ rounds) (first : Bytes)
    (rest : List Bytes) :
    recvTrace recLimit sourceCnt rounds first rest =
      [.start false, .outstanding 1] ++ recvOps recLimit (recvInit sourceCnt) first ++
        recvRest recLimit (recvMessage recLimit (recvInit sourceCnt) first) rest := by
  have active : (recvInit sourceCnt).activeSources ≠ 0 := Nat.ne_of_gt sources
  cases returned : mpiWaitPoll rounds with
  | none => exact absurd interrupted (mpiWaitPoll_none returned)
  | some result =>
    obtain ⟨completed, left⟩ := result
    obtain ⟨found, count⟩ := mpiWaitPoll_some returned
    have last : .interrupted ∉ left := not_interrupted_of_ended (by omega)
    obtain rfl : completed = false := (found.mp interrupted).resolve_right last
    rw [recvTrace, returned, loopHead, if_pos active]
    rfl

theorem recvTrace_arrived_iff {sourceCnt : Nat} (sources : 0 < sourceCnt) {rounds : List Round}
    (ended : waitsEnded rounds ≤ 1) (first : Bytes) (rest : List Bytes) :
    Always Arrived [] (recvTrace recLimit sourceCnt rounds first rest) ↔ .interrupted ∉ rounds := by
  constructor
  · intro arrived interrupted
    rw [recvTrace_interrupted sources ended interrupted] at arrived
    -- the status is read while the receive is outstanding
    obtain ⟨-, -, status, -⟩ := arrived
    cases status
  · exact fun uninterrupted => (recvTrace_uninterrupted sources uninterrupted first rest).2

theorem recvRest_finished {s : RecvState} (finished : s.activeSources = 0) (msgs : List Bytes) :
    recvRest recLimit s msgs = [] := by
  have head : loopHead s = [] := if_neg (not_not.mpr finished)
  cases msgs with
  | nil => exact head
  | cons msg rest => rw [recvRest, head, if_pos finished, List.nil_append]

/-- `recv_loop` keeps exactly one receive outstanding and passes on no record of a busy buffer
exactly when no signal interrupts its first wait, or when a single source seems to have finished
then. -/
theorem recvTrace_exclusive_iff {sourceCnt : Nat} (sources : 0 < sourceCnt) {rounds : List Round}
    (ended : waitsEnded rounds ≤ 1) (first : Bytes) (rest : List Bytes) :
    Always Exclusive [] (recvTrace recLimit sourceCnt rounds first rest) ↔
      .interrupted ∉ rounds ∨ sourceCnt = 1 ∧ first = [] := by
  by_cases interrupted : .interrupted ∈ rounds
  · rw [recvTrace_interrupted sources ended interrupted]
    have active : (recvInit sourceCnt).activeSources = sourceCnt := rfl
    constructor
    · intro exclusive
      apply Or.inr
      obtain ⟨-, -, -, ops⟩ := (always_append.mp exclusive).1
      rw [active] at ops
      by_cases empty : first = []
      · refine ⟨?_, empty⟩
        by_contra several
        rw [if_pos (by simp [empty]), if_pos (by omega)] at ops
        cases ops.1
      · rw [if_neg (by simpa using empty)] at ops
        cases ops.1
    · rintro (uninterrupted | ⟨rfl, rfl⟩)
      · exact absurd interrupted uninterrupted
      · rw [recvRest_finished rfl]
        exact ⟨rfl, rfl, trivial, trivial⟩
  · exact ⟨fun _ => Or.inl interrupted, fun _ =>
      (recvTrace_uninterrupted sources interrupted first rest).1⟩

theorem progressTrace_arrived_iff {files : Nat} {rounds : List Round}
    (ended : waitsEnded rounds ≤ files) :
    Always Arrived [] (progressTrace files rounds) ↔ .interrupted ∉ rounds := by
  induction files generalizing rounds with
  | zero => exact ⟨fun _ => not_interrupted_of_ended (Nat.le_zero.mp ended), fun _ => trivial⟩
  | succ files ih =>
    rw [progressTrace]
    cases returned : mpiWaitPoll rounds with
    | none => exact ⟨fun _ => mpiWaitPoll_none returned, fun _ => ⟨rfl, trivial⟩⟩
    | some result =>
      obtain ⟨completed, left⟩ := result
      obtain ⟨found, count⟩ := mpiWaitPoll_some returned
      rw [found]
      dsimp only
      cases completed with
      | true =>
        have later := ih (show waitsEnded left ≤ files by omega)
        simpa [waitOps, Arrived, step] using later
      | false =>
        constructor
        · rintro ⟨-, status, -⟩
          cases status
        · intro uninterrupted
          exact absurd (Or.inl rfl) uninterrupted

/-- Both callers of `mpi_wait_poll` consume messages only after arrival exactly in the runs in which no
signal interrupts a sleep. -/
theorem consumed_after_arrival_iff {sourceCnt files : Nat} {recvRounds progressRounds : List Round}
    (sources : 0 < sourceCnt) (recvEnded : waitsEnded recvRounds ≤ 1)
    (progressEnded : waitsEnded progressRounds ≤ files) (recLimit : Nat) (first : Bytes)
    (rest : List Bytes) :
    (Always Arrived [] (recvTrace recLimit sourceCnt recvRounds first rest) ↔
      .interrupted ∉ recvRounds) ∧
      (Always Arrived [] (progressTrace files progressRounds) ↔ .interrupted ∉ progressRounds) :=
  ⟨recvTrace_arrived_iff sources recvEnded first rest, progressTrace_arrived_iff progressEnded⟩

theorem consumed_after_arrival_iff_one :
    (Always Arrived [] (recvTrace 0 1 [.slept, .completed] [] []) ↔
        .interrupted ∉ ([.slept, .completed] : List Round)) ∧
      (Always Arrived [] (progressTrace 2 [.completed, .slept, .interrupted]) ↔
        .interrupted ∉ ([.completed, .slept, .interrupted] : List Round)) :=
  consumed_after_arrival_iff (by decide) (by decide) (by decide) 0 [] []

/-- A signal during the first sleep: `recv_loop` reads the status of the pending receive, and the
progress bar's thread counts a file that nobody has reported. -/
theorem signal_consumes_early :
    ¬ Always Arrived [] (recvTrace 0 1 [.interrupted] [] []) ∧
      ¬ Always Arrived [] (progressTrace 1 [.interrupted]) := by
  constructor
  · rintro ⟨-, -, status, -⟩
    cases status
  · rintro ⟨-, status, -⟩
    cases status

end Fdistdump.Exchange
