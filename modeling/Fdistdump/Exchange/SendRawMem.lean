import Fdistdump.Common
import Fdistdump.Library.ByteBuffer
import Fdistdump.Library.WhileLoop

/-!
# The sending side of the memory exchange

`sendRawMem` follows `send_raw_mem`: it cuts the raw records of a libnf memory into buffers, sends
each full buffer and finishes with the empty message. `sendRawMem_returns` shows that it always
returns and describes the messages.
-/

namespace Fdistdump.Exchange
open ByteBuffer

/-- What the exchange needs to know of libnf: `LNF_MAX_RAW_LEN`, checked against the buffer size
when compiling and by the assertion at the head of `send_raw_mem`. -/
structure Libnf where
  maxRawLen : Nat
  fits : sizeofXchgRecSize + maxRawLen ≤ xchgBuffSize

/-- The raw records of a libnf memory in iteration order. -/
structure RawMem (lib : Libnf) where
  recs : List Bytes
  sized : ∀ r ∈ recs, 1 ≤ r.length ∧ r.length ≤ lib.maxRawLen

/-- A thread's pair of record buffers, `XCHG_BUFF_SIZE` bytes each, with any content. -/
structure BuffPair where
  buff : Bool → Bytes
  size : ∀ i, (buff i).length = xchgBuffSize

/-- Local state of `send_raw_mem`. -/
structure SendState where
  cursor : List Bytes           -- the records from the cursor on; no record means NULL
  buff : Bool → Bytes
  buffIdx : Bool := false
  buffOff : Nat := 0
  buffRecCntr : Nat := 0
  recCntr : Nat := 0
  request : Option Bool := none -- the buffer of the send that has not been waited for
  sent : List Bytes := []       -- messages handed to MPI_Isend, oldest first

/-- `lnf_mem_read_raw_c` into `space` bytes; `none` is `LNF_ERR_NOMEM`. -/
def lnfMemReadRawC (record : Bytes) (space : Int) : Option Bytes :=
  if (record.length : Int) ≤ space then some record else none

/-- A record on the wire: its length and its bytes. -/
def encodeRec (record : Bytes) : Bytes := putWord record.length ++ record

/-- `MPI_Wait` followed by `MPI_Isend` of the current buffer. -/
def SendState.isend (s : SendState) : SendState :=
  { s with request := some s.buffIdx, sent := s.sent ++ [(s.buff s.buffIdx).take s.buffOff] }

/-- `buff_remaining`, as `lnf_mem_read_raw_c` receives it: an unsigned difference passed as `int`. -/
def SendState.buffRemaining (s : SendState) : Int :=
  sizeToInt (toSizeT (xchgBuffSize - s.buffOff - sizeofXchgRecSize))

/-- The condition of the record loop. A zero limit is `SIZE_MAX`, which no memory reaches. -/
def sendMore (recLimit : Nat) (s : SendState) : Bool :=
  !s.cursor.isEmpty && (recLimit == 0 || decide (s.recCntr < recLimit))

/-- The two branches after `lnf_mem_read_raw_c`: keep the record and move on, or send the full buffer
and clear and toggle. -/
def sendRead (s : SendState) (next : List Bytes) : Option Bytes → SendState
  | some raw =>
    { s with
      buff := Function.update s.buff s.buffIdx (write (s.buff s.buffIdx) s.buffOff (encodeRec raw))
      buffOff := s.buffOff + (sizeofXchgRecSize + raw.length)
      buffRecCntr := s.buffRecCntr + 1
      recCntr := s.recCntr + 1
      cursor := next }
  | none => { s.isend with buffOff := 0, buffRecCntr := 0, buffIdx := !s.buffIdx }

/-- One iteration of the record loop. -/
def sendBody (s : SendState) : SendState :=
  match s.cursor with
  | [] => s
  | record :: next => sendRead s next (lnfMemReadRawC record s.buffRemaining)

/-- The tail of `send_raw_mem`: flush the last buffer, wait, and send the terminator. With no limit
the loop ends only at the end of the memory, so the abort before the flush cannot fire. -/
def sendTail (s : SendState) : SendState :=
  let s := if s.buffRecCntr != 0 then s.isend else s
  { s with request := none, sent := s.sent ++ [[]] }

def sendInit (buffs : BuffPair) (recs : List Bytes) : SendState :=
  { cursor := recs, buff := buffs.buff }

/-- `send_raw_mem`: the messages sent, or `none` when the record loop outlives the fuel. -/
def sendRawMem (fuel : Nat) (buffs : BuffPair) (recs : List Bytes) (recLimit : Nat) :
    Option (List Bytes) :=
  (WhileLoop.run (sendMore recLimit) sendBody fuel (sendInit buffs recs)).map
    fun s => (sendTail s).sent

/-! ### What the messages contain -/

def encodeRecs (records : List Bytes) : Bytes := records.flatMap encodeRec

theorem encodeRecs_append (xs ys : List Bytes) :
    encodeRecs (xs ++ ys) = encodeRecs xs ++ encodeRecs ys := by
  simp [encodeRecs]

theorem encodeRecs_singleton (record : Bytes) : encodeRecs [record] = encodeRec record := by
  simp [encodeRecs]

theorem encodeRecs_cons (record : Bytes) (rest : List Bytes) :
    encodeRecs (record :: rest) = encodeRec record ++ encodeRecs rest := rfl

theorem encodeRec_length (record : Bytes) :
    (encodeRec record).length = sizeofXchgRecSize + record.length := by
  simp [encodeRec, sizeofXchgRecSize]

theorem encodeRecs_ne_nil {records : List Bytes} (some : records ≠ []) : encodeRecs records ≠ [] := by
  obtain ⟨record, rest, rfl⟩ := List.exists_cons_of_ne_nil some
  simp [encodeRecs_cons, encodeRec, putWord]

/-- The data messages carry the records in groups, none of them empty or too long. -/
structure Packed (records : List Bytes) (groups : List (List Bytes)) : Prop where
  content : groups.flatten = records
  nonempty : ∀ g ∈ groups, g ≠ []
  short : ∀ g ∈ groups, (encodeRecs g).length ≤ xchgBuffSize

theorem Packed.snoc {records group : List Bytes} {groups : List (List Bytes)}
    (packed : Packed records groups) (nonempty : group ≠ [])
    (short : (encodeRecs group).length ≤ xchgBuffSize) :
    Packed (records ++ group) (groups ++ [group]) where
  content := by simp [packed.content]
  nonempty := by
    intro g member
    rcases List.mem_append.mp member with old | new
    · exact packed.nonempty g old
    · rw [List.mem_singleton.mp new]; exact nonempty
  short := by
    intro g member
    rcases List.mem_append.mp member with old | new
    · exact packed.short g old
    · rw [List.mem_singleton.mp new]; exact short

/-- The loop invariant: the records before the cursor are in the sent groups and, from its start on,
in the current buffer. -/
structure SendInv (recs : List Bytes) (recLimit : Nat) (s : SendState) (groups : List (List Bytes))
    (pending : List Bytes) : Prop where
  cursor : s.cursor = recs.drop s.recCntr
  done : groups.flatten ++ pending = recs.take s.recCntr
  within : recLimit = 0 ∨ s.recCntr ≤ recLimit
  size : ∀ i, (s.buff i).length = xchgBuffSize
  room : s.buffOff ≤ xchgBuffSize
  content : (s.buff s.buffIdx).take s.buffOff = encodeRecs pending
  off : s.buffOff = (encodeRecs pending).length
  count : s.buffRecCntr = pending.length
  sent : s.sent = groups.map encodeRecs
  packed : Packed groups.flatten groups

theorem sendInit_inv (buffs : BuffPair) (recs : List Bytes) (recLimit : Nat) :
    SendInv recs recLimit (sendInit buffs recs) [] [] where
  cursor := rfl
  done := rfl
  within := by simp [sendInit]
  size := buffs.size
  room := by simp [sendInit]
  content := rfl
  off := rfl
  count := rfl
  sent := rfl
  packed := ⟨rfl, by simp, by simp⟩

theorem read_fits {s : SendState} {record raw : Bytes} (room : s.buffOff ≤ xchgBuffSize)
    (h : lnfMemReadRawC record s.buffRemaining = some raw) :
    raw = record ∧ s.buffOff + (sizeofXchgRecSize + record.length) ≤ xchgBuffSize := by
  unfold lnfMemReadRawC SendState.buffRemaining at h
  split at h
  · rename_i accepted
    rw [sizeToInt_toSizeT (by simp [sizeofXchgRecSize, xchgBuffSize] at *; omega)
      (by simp [sizeofXchgRecSize, xchgBuffSize] at *; omega)] at accepted
    exact ⟨(Option.some.inj h).symm, by omega⟩
  · cases h

theorem refused_nonempty {lib : Libnf} {s : SendState} {record : Bytes}
    (sized : record.length ≤ lib.maxRawLen) (room : s.buffOff ≤ xchgBuffSize)
    (h : lnfMemReadRawC record s.buffRemaining = none) : 0 < s.buffOff := by
  have fits := lib.fits
  unfold lnfMemReadRawC SendState.buffRemaining at h
  split at h
  · cases h
  · rename_i refused
    rw [sizeToInt_toSizeT (by simp [sizeofXchgRecSize, xchgBuffSize] at *; omega)
      (by simp [sizeofXchgRecSize, xchgBuffSize] at *; omega)] at refused
    omega

theorem sendMore_cursor {recLimit : Nat} {s : SendState} (more : sendMore recLimit s = true) :
    ∃ record next, s.cursor = record :: next ∧ (recLimit = 0 ∨ s.recCntr < recLimit) := by
  simp only [sendMore, Bool.and_eq_true, Bool.not_eq_true', List.isEmpty_eq_false_iff,
    Bool.or_eq_true, beq_iff_eq, decide_eq_true_eq] at more
  obtain ⟨record, next, shape⟩ := List.exists_cons_of_ne_nil more.1
  exact ⟨record, next, shape, more.2⟩

theorem drop_cons {recs next : List Bytes} {record : Bytes} {n : Nat}
    (h : record :: next = recs.drop n) :
    recs.drop (n + 1) = next ∧ recs.take (n + 1) = recs.take n ++ [record] ∧ record ∈ recs := by
  have at_n : recs[n]? = some record := by rw [← List.head?_drop, ← h]; rfl
  refine ⟨?_, ?_, List.mem_of_getElem? at_n⟩
  · rw [← List.drop_drop, ← h]; rfl
  · rw [List.take_add_one, at_n]; rfl

theorem sendBody_cons {s : SendState} {record : Bytes} {next : List Bytes}
    (shape : s.cursor = record :: next) :
    sendBody s = sendRead s next (lnfMemReadRawC record s.buffRemaining) := by
  simp only [sendBody, shape]

theorem sendBody_inv {lib : Libnf} {mem : RawMem lib} {recLimit : Nat} {s : SendState}
    {groups : List (List Bytes)} {pending : List Bytes}
    (inv : SendInv mem.recs recLimit s groups pending) (more : sendMore recLimit s = true) :
    (∃ groups' pending', SendInv mem.recs recLimit (sendBody s) groups' pending') ∧
      2 * (sendBody s).cursor.length + min (sendBody s).buffOff 1 <
        2 * s.cursor.length + min s.buffOff 1 := by
  obtain ⟨record, next, shape, limit⟩ := sendMore_cursor more
  obtain ⟨dropped, taken, member⟩ := drop_cons (shape.symm.trans inv.cursor)
  cases read : lnfMemReadRawC record s.buffRemaining with
  | some raw =>
    obtain ⟨rfl, fits⟩ := read_fits inv.room read
    have body : sendBody s = sendRead s next (some raw) := by rw [sendBody_cons shape, read]
    rw [body, sendRead]
    refine ⟨⟨groups, pending ++ [raw], ?_⟩, by rw [shape, List.length_cons]; dsimp only; omega⟩
    have grown : (encodeRecs (pending ++ [raw])).length =
        s.buffOff + (sizeofXchgRecSize + raw.length) := by
      rw [encodeRecs_append, encodeRecs_singleton, List.length_append, encodeRec_length, inv.off]
    exact {
      cursor := dropped.symm
      done := by rw [← List.append_assoc, inv.done]; exact taken.symm
      within := by dsimp only; omega
      size := by
        intro i
        dsimp only
        by_cases same : i = s.buffIdx
        · subst same
          rw [Function.update_self, write_length (by rw [inv.size, encodeRec_length]; exact fits)]
          exact inv.size _
        · rw [Function.update_of_ne same]; exact inv.size i
      room := fits
      content := by
        dsimp only
        rw [Function.update_self, ← encodeRec_length, take_write _ _ (by rw [inv.size]; exact inv.room),
          inv.content, encodeRecs_append, encodeRecs_singleton]
      off := grown.symm
      count := by simp [inv.count]
      sent := inv.sent
      packed := inv.packed }
  | none =>
    have used := refused_nonempty (mem.sized record member).2 inv.room read
    have body : sendBody s = sendRead s next none := by rw [sendBody_cons shape, read]
    rw [body, sendRead]
    have nonempty : pending ≠ [] := by
      rintro rfl
      rw [inv.off] at used
      simp [encodeRecs] at used
    refine ⟨⟨groups ++ [pending], [], ?_⟩, by simp only [SendState.isend]; omega⟩
    exact {
      cursor := inv.cursor
      done := by simpa [SendState.isend] using inv.done
      within := inv.within
      size := inv.size
      room := by simp
      content := rfl
      off := rfl
      count := rfl
      sent := by simp [SendState.isend, inv.sent, inv.content]
      packed := by
        have step := inv.packed.snoc nonempty (by rw [← inv.off]; exact inv.room)
        simpa using step }

theorem sendDone_records {recs pending : List Bytes} {recLimit : Nat} {s : SendState}
    {groups : List (List Bytes)} (inv : SendInv recs recLimit s groups pending)
    (done : sendMore recLimit s = false) : groups.flatten ++ pending = limited recLimit recs := by
  rw [inv.done]
  by_cases ended : s.cursor = []
  · have all : recs.length ≤ s.recCntr := List.drop_eq_nil_iff.mp (inv.cursor.symm.trans ended)
    rw [List.take_of_length_le all]
    unfold limited
    split
    · rfl
    · exact (List.take_of_length_le (by have := inv.within; omega)).symm
  · have full : recLimit ≠ 0 ∧ recLimit ≤ s.recCntr := by
      simpa [sendMore, ended] using done
    have exactly : s.recCntr = recLimit := by have := inv.within; omega
    rw [limited, if_neg full.1, exactly]

/-- The messages of `send_raw_mem`: the records up to the limit in nonempty groups, then the
terminator. -/
def Messages (recs : List Bytes) (recLimit : Nat) (msgs : List Bytes) : Prop :=
  ∃ groups, msgs = groups.map encodeRecs ++ [[]] ∧ Packed (limited recLimit recs) groups

theorem sendTail_messages {recs pending : List Bytes} {recLimit : Nat} {s : SendState}
    {groups : List (List Bytes)} (inv : SendInv recs recLimit s groups pending)
    (done : sendMore recLimit s = false) : Messages recs recLimit (sendTail s).sent := by
  have records := sendDone_records inv done
  by_cases empty : pending = []
  · subst empty
    refine ⟨groups, ?_, ?_⟩
    · simp [sendTail, inv.count, inv.sent]
    · rw [← records, List.append_nil]; exact inv.packed
  · refine ⟨groups ++ [pending], ?_, ?_⟩
    · simp [sendTail, inv.count, empty, SendState.isend, inv.sent, inv.content]
    · rw [← records]
      exact inv.packed.snoc empty (by rw [← inv.off]; exact inv.room)

theorem sendRawMem_returns {lib : Libnf} (mem : RawMem lib) (buffs : BuffPair) (recLimit : Nat)
    {fuel : Nat} (enough : 2 * mem.recs.length ≤ fuel) :
    ∃ msgs, sendRawMem fuel buffs mem.recs recLimit = some msgs ∧
      Messages mem.recs recLimit msgs := by
  obtain ⟨s, returned, ⟨groups, pending, inv⟩, done⟩ := WhileLoop.run_terminates
    (fun s => ∃ groups pending, SendInv mem.recs recLimit s groups pending)
    (fun s => 2 * s.cursor.length + min s.buffOff 1)
    (fun s ⟨_, _, inv⟩ more => sendBody_inv inv more)
    ⟨_, _, sendInit_inv buffs mem.recs recLimit⟩
    (by simpa [sendInit] using enough : _ ≤ fuel)
  exact ⟨(sendTail s).sent, by rw [sendRawMem, returned]; rfl, sendTail_messages inv done⟩

theorem sendRawMem_messages {lib : Libnf} {mem : RawMem lib} {buffs : BuffPair} {recLimit fuel : Nat}
    {msgs : List Bytes} (h : sendRawMem fuel buffs mem.recs recLimit = some msgs) :
    Messages mem.recs recLimit msgs := by
  obtain ⟨other, returned, described⟩ :=
    sendRawMem_returns mem buffs recLimit (Nat.le_refl (2 * mem.recs.length))
  obtain ⟨s, left, rfl⟩ := Option.map_eq_some_iff.mp h
  obtain ⟨t, right, rfl⟩ := Option.map_eq_some_iff.mp returned
  rw [WhileLoop.run_unique left right]
  exact described

end Fdistdump.Exchange
