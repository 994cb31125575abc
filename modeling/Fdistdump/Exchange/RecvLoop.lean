import Fdistdump.Exchange.SendRawMem

/-!
# The receiving side of the exchange

`recvLoop` follows `recv_loop`. The first part shows that the callback sees the records of the
consumed messages, cut at the record limit, whatever the messages contain; the second part counts
the terminators.
-/

namespace Fdistdump.Exchange
open ByteBuffer

/-- Local state of `recv_loop`. -/
structure RecvState where
  activeSources : Nat
  buffIdx : Bool := false
  request : Option Bool := some false -- the buffer of the outstanding receive; `none` is MPI_REQUEST_NULL
  msgCntr : Nat := 0
  recCntr : Nat := 0
  limitExceeded : Bool := false
  calls : List Bytes := []            -- the data `recv_callback` was called with, oldest first

/-- The state on entry: a receive into the first buffer has been started. -/
def recvInit (sourceCnt : Nat) : RecvState := { activeSources := sourceCnt }

/-- The record loop over one message. Every iteration consumes a size prefix, so the length of the
message is enough fuel. -/
def recordLoop (recLimit : Nat) : Nat → Bytes → RecvState → RecvState
  | 0, _, s => s
  | fuel + 1, msg, s =>
    if msg = [] then s
    else
      let recSize := getWord msg
      let data := msg.drop sizeofXchgRecSize
      let s := { s with calls := s.calls ++ [data.take recSize], recCntr := s.recCntr + 1 }
      if s.recCntr = recLimit then { s with limitExceeded := true }
      else recordLoop recLimit fuel (data.drop recSize) s

/-- One iteration of the receiving loop, for the message that completes the outstanding receive. -/
def recvMessage (recLimit : Nat) (s : RecvState) (msg : Bytes) : RecvState :=
  if msg.length = 0 then
    let s := { s with activeSources := s.activeSources - 1, request := none }
    if s.activeSources ≠ 0 then { s with request := some s.buffIdx } else s
  else
    let s := { s with msgCntr := s.msgCntr + 1, buffIdx := !s.buffIdx, request := some !s.buffIdx }
    if s.limitExceeded then s else recordLoop recLimit msg.length msg s

/-- `recv_loop` on the messages in the order in which they complete its receives. The second
component is what it has not received when it returns. -/
def recvLoop (recLimit : Nat) (s : RecvState) : List Bytes → RecvState × List Bytes
  | [] => (s, [])
  | msg :: rest =>
    if s.activeSources = 0 then (s, msg :: rest)
    else recvLoop recLimit (recvMessage recLimit s msg) rest

/-! ### What the callback sees -/

def splitRecs : Nat → Bytes → List Bytes
  | 0, _ => []
  | fuel + 1, msg =>
    if msg = [] then []
    else
      let data := msg.drop sizeofXchgRecSize
      data.take (getWord msg) :: splitRecs fuel (data.drop (getWord msg))

def recordsOf (msg : Bytes) : List Bytes := splitRecs msg.length msg

theorem splitRecs_encodeRecs {records : List Bytes} (small : ∀ r ∈ records, r.length < 2 ^ 32)
    {fuel : Nat} (enough : records.length ≤ fuel) : splitRecs fuel (encodeRecs records) = records := by
  induction records generalizing fuel with
  | nil => cases fuel <;> rfl
  | cons r rest ih =>
    obtain ⟨fuel, rfl⟩ : ∃ k, fuel = k + 1 := ⟨fuel - 1, by simp at enough; omega⟩
    have size : getWord (encodeRecs (r :: rest)) = r.length := by
      rw [encodeRecs_cons, encodeRec, List.append_assoc]
      exact getWord_putWord _ (small r (by simp))
    have data : (encodeRecs (r :: rest)).drop sizeofXchgRecSize = r ++ encodeRecs rest := by
      rw [encodeRecs_cons, encodeRec, List.append_assoc]
      exact drop_putWord _ _
    rw [splitRecs, if_neg (encodeRecs_ne_nil (by simp))]
    dsimp only
    rw [size, data, List.take_left, List.drop_left,
      ih (fun x member => small x (by simp [member])) (by simpa using enough)]

theorem recordsOf_encodeRecs {records : List Bytes} (small : ∀ r ∈ records, r.length < 2 ^ 32) :
    recordsOf (encodeRecs records) = records := by
  apply splitRecs_encodeRecs small
  induction records with
  | nil => simp
  | cons r rest ih =>
    have shorter := ih (fun x member => small x (by simp [member]))
    rw [encodeRecs_cons, List.length_append, encodeRec_length, List.length_cons]
    simp only [sizeofXchgRecSize]
    omega

@[simp] theorem recordsOf_nil : recordsOf [] = [] := recordsOf_encodeRecs (List.forall_mem_nil _)

/-- The callback has seen exactly the first `recLimit` of the `arrived` records. -/
structure Tallied (recLimit : Nat) (arrived : List Bytes) (s : RecvState) : Prop where
  calls : s.calls = limited recLimit arrived
  count : s.recCntr = s.calls.length
  full : s.limitExceeded = true ↔ recLimit ≠ 0 ∧ s.recCntr = recLimit

theorem recvInit_tallied (recLimit sourceCnt : Nat) : Tallied recLimit [] (recvInit sourceCnt) where
  calls := by simp [recvInit]
  count := rfl
  full := by
    simp only [recvInit, Bool.false_eq_true, false_iff, not_and]
    exact fun positive zero => positive zero.symm

theorem Tallied.full_append {recLimit : Nat} {arrived more : List Bytes} {s : RecvState}
    (t : Tallied recLimit arrived s) (full : s.limitExceeded = true) :
    limited recLimit (arrived ++ more) = limited recLimit arrived := by
  obtain ⟨positive, count⟩ := t.full.mp full
  have length := limited_length recLimit arrived
  rw [if_neg positive, ← t.calls, ← t.count, count] at length
  rw [limited_append, if_neg positive, show recLimit - arrived.length = 0 by omega, List.take_zero,
    List.append_nil]

theorem Tallied.open_append {recLimit : Nat} {arrived : List Bytes} {s : RecvState} (record : Bytes)
    (t : Tallied recLimit arrived s) (opened : s.limitExceeded = false) :
    limited recLimit (arrived ++ [record]) = s.calls ++ [record] := by
  rw [limited_append, t.calls]
  split
  · rename_i unlimited
    rw [unlimited, limited_zero]
  · rename_i positive
    have length := limited_length recLimit arrived
    rw [if_neg positive, ← t.calls, ← t.count] at length
    have notFull : s.recCntr ≠ recLimit := by
      intro same
      have := t.full.mpr ⟨positive, same⟩
      simp [opened] at this
    rw [List.take_of_length_le (by simp; omega)]

/-- The record loop passes on every record of the message until the limit is reached. -/
theorem recordLoop_tallied {recLimit fuel : Nat} {msg : Bytes} {arrived : List Bytes} {s : RecvState}
    (t : Tallied recLimit arrived s) (opened : s.limitExceeded = false) :
    Tallied recLimit (arrived ++ splitRecs fuel msg) (recordLoop recLimit fuel msg s) := by
  induction fuel generalizing msg arrived s with
  | zero => simpa [splitRecs, recordLoop] using t
  | succ fuel ih =>
    rw [recordLoop, splitRecs]
    by_cases empty : msg = []
    · simpa [empty] using t
    rw [if_neg empty, if_neg empty]
    dsimp only
    have next : limited recLimit (arrived ++ [(msg.drop sizeofXchgRecSize).take (getWord msg)]) =
      s.calls ++ [(msg.drop sizeofXchgRecSize).take (getWord msg)] := t.open_append _ opened
    split
    · rename_i reached
      have full : Tallied recLimit (arrived ++ [(msg.drop sizeofXchgRecSize).take (getWord msg)])
          { s with
            calls := s.calls ++ [(msg.drop sizeofXchgRecSize).take (getWord msg)]
            recCntr := s.recCntr + 1
            limitExceeded := true } :=
        ⟨next.symm, by simp [t.count], by simp; omega⟩
      rw [List.append_cons]
      exact ⟨full.calls.trans (full.full_append rfl).symm, full.count, full.full⟩
    · rename_i under
      rw [List.append_cons]
      exact ih ⟨next.symm, by simp [t.count], by simp [opened, under]⟩ opened

theorem recvMessage_tallied {recLimit : Nat} {arrived : List Bytes} {s : RecvState} (msg : Bytes)
    (t : Tallied recLimit arrived s) :
    Tallied recLimit (arrived ++ recordsOf msg) (recvMessage recLimit s msg) := by
  unfold recvMessage
  by_cases empty : msg = []
  · subst empty
    simp only [List.length_nil, if_true, recordsOf_nil, List.append_nil]
    split <;> exact ⟨t.calls, t.count, t.full⟩
  rw [if_neg (by simpa using empty)]
  dsimp only
  split
  · rename_i full
    exact ⟨t.calls.trans (t.full_append full).symm, t.count, t.full⟩
  · rename_i opened
    exact recordLoop_tallied ⟨t.calls, t.count, t.full⟩ (by simpa using opened)

/-! ### Terminators -/

theorem recordLoop_sources (recLimit fuel : Nat) (msg : Bytes) (s : RecvState) :
    (recordLoop recLimit fuel msg s).activeSources = s.activeSources ∧
      (recordLoop recLimit fuel msg s).request = s.request ∧
      (recordLoop recLimit fuel msg s).buffIdx = s.buffIdx := by
  induction fuel generalizing msg s with
  | zero => exact ⟨rfl, rfl, rfl⟩
  | succ fuel ih =>
    rw [recordLoop]
    split
    · exact ⟨rfl, rfl, rfl⟩
    · dsimp only
      split
      · exact ⟨rfl, rfl, rfl⟩
      · obtain ⟨sources, request, idx⟩ := ih ((msg.drop sizeofXchgRecSize).drop (getWord msg))
          { s with
            calls := s.calls ++ [(msg.drop sizeofXchgRecSize).take (getWord msg)]
            recCntr := s.recCntr + 1 }
        exact ⟨sources, request, idx⟩

/-- A receive is outstanding exactly while sources are active, always into the current buffer. -/
def Listening (s : RecvState) : Prop :=
  s.request = if s.activeSources = 0 then none else some s.buffIdx

theorem recvMessage_terminator (recLimit : Nat) (s : RecvState) :
    (recvMessage recLimit s []).activeSources = s.activeSources - 1 ∧
      Listening (recvMessage recLimit s []) := by
  simp only [recvMessage, List.length_nil, if_true, Listening]
  by_cases last : s.activeSources - 1 = 0 <;> simp [last]

theorem recvMessage_data (recLimit : Nat) {s : RecvState} {msg : Bytes} (data : msg ≠ [])
    (active : s.activeSources ≠ 0) :
    (recvMessage recLimit s msg).activeSources = s.activeSources ∧
      Listening (recvMessage recLimit s msg) := by
  rw [recvMessage, if_neg (by simpa using data)]
  dsimp only
  split
  · simp [Listening, active]
  · obtain ⟨sources, request, idx⟩ := recordLoop_sources recLimit msg.length msg
      { s with msgCntr := s.msgCntr + 1, buffIdx := !s.buffIdx, request := some !s.buffIdx }
    simp [Listening, sources, request, idx, active]

theorem recvLoop_cons {recLimit : Nat} {s : RecvState} (active : s.activeSources ≠ 0) (msg : Bytes)
    (rest : List Bytes) :
    recvLoop recLimit s (msg :: rest) = recvLoop recLimit (recvMessage recLimit s msg) rest := by
  rw [recvLoop, if_neg active]

end Fdistdump.Exchange
