import Fdistdump.Exchange.SendRawMem

/-!
# Space left in a buffer

`send_raw_mem` computes the space left as an unsigned difference and lets libnf decide whether the next
record fits. With records of one length the offset runs through the multiples of a fixed width, and the
difference wraps when the last multiple lies too close to the end of the buffer.
-/

namespace Fdistdump.Exchange
open WhileLoop

def SendState.buffRemainingIn (size : Nat) (s : SendState) : Int :=
  sizeToInt (toSizeT (size - s.buffOff - sizeofXchgRecSize))

def sendBodyIn (size : Nat) (s : SendState) : SendState :=
  match s.cursor with
  | [] => s
  | record :: next => sendRead s next (lnfMemReadRawC record (s.buffRemainingIn size))

theorem sendBodyIn_xchgBuffSize : sendBodyIn xchgBuffSize = sendBody := rfl

/-- Every iteration of `send_raw_mem` finds room for a size prefix. -/
def PrefixFits (size recLimit : Nat) (buff : Bool → Bytes) (recs : List Bytes) : Prop :=
  ∀ s, Visits (sendMore recLimit) (sendBodyIn size) { cursor := recs, buff := buff } s →
    sendMore recLimit s = true → s.buffOff + sizeofXchgRecSize ≤ size

theorem sendBodyIn_cons {size : Nat} {s : SendState} {record : Bytes} {next : List Bytes}
    (shape : s.cursor = record :: next) :
    sendBodyIn size s = sendRead s next (lnfMemReadRawC record (s.buffRemainingIn size)) := by
  simp only [sendBodyIn, shape]

/-! ### Buffers that `int` cannot measure -/

theorem prefixFits_huge {size : Nat} (huge : 2 ^ 31 + sizeofXchgRecSize ≤ size) (recLimit : Nat)
    (buff : Bool → Bytes) (recs : List Bytes) : PrefixFits size recLimit buff recs := by
  intro s visits _
  have huge' : 2 ^ 31 + 4 ≤ size := huge
  have far : s.buffOff + 2 ^ 31 + 4 ≤ size := by
    refine visits_invariant (fun s => s.buffOff + 2 ^ 31 + 4 ≤ size) ?_ (by simpa using huge') visits
    intro s far more
    obtain ⟨record, next, shape, -⟩ := sendMore_cursor more
    rw [sendBodyIn_cons shape]
    unfold lnfMemReadRawC
    split
    · rename_i accepted
      rw [SendState.buffRemainingIn, sizeToInt_toSizeT_bmod, Int.bmod_def] at accepted
      simp only [sendRead, sizeofXchgRecSize] at accepted ⊢
      omega
    · simpa [sendRead, SendState.isend] using huge'
  simp only [sizeofXchgRecSize]
  omega

/-! ### Records of one length -/

section Common
variable {size length recLimit : Nat} {recs : List Bytes}

/-- The loop has read `total` records, `inBuffer` of them since the last flush. -/
structure AtRecord (length : Nat) (recs : List Bytes) (total inBuffer : Nat) (s : SendState) : Prop where
  cursor : s.cursor = recs.drop total
  recCntr : s.recCntr = total
  buffOff : s.buffOff = inBuffer * (sizeofXchgRecSize + length)

theorem sendMore_atRecord {total inBuffer : Nat} {s : SendState}
    (here : AtRecord length recs total inBuffer s) :
    sendMore recLimit s = true ↔ total < (limited recLimit recs).length := by
  rw [limited_length]
  simp only [sendMore, here.cursor, here.recCntr, Bool.and_eq_true, Bool.not_eq_true',
    List.isEmpty_eq_false_iff,
    ne_eq, List.drop_eq_nil_iff, not_le, Bool.or_eq_true, beq_iff_eq, decide_eq_true_eq]
  split <;> omega

variable (common : ∀ r ∈ recs, r.length = length) (small : size < 2 ^ 31 + sizeofXchgRecSize)
include common small

theorem sendBodyIn_atRecord {total inBuffer : Nat} {s : SendState}
    (here : AtRecord length recs total inBuffer s) (more : sendMore recLimit s = true)
    (room : inBuffer * (sizeofXchgRecSize + length) ≤ size) :
    if (inBuffer + 1) * (sizeofXchgRecSize + length) ≤ size then
      AtRecord length recs (total + 1) (inBuffer + 1) (sendBodyIn size s)
    else AtRecord length recs total 0 (sendBodyIn size s) := by
  obtain ⟨record, next, shape, -⟩ := sendMore_cursor more
  obtain ⟨dropped, -, member⟩ := drop_cons (shape.symm.trans here.cursor)
  have remaining : s.buffRemainingIn size = size - s.buffOff - sizeofXchgRecSize := by
    have off := here.buffOff
    refine sizeToInt_toSizeT ?_ ?_ <;> simp only [sizeofXchgRecSize] at * <;> omega
  rw [sendBodyIn_cons shape, remaining, lnfMemReadRawC, common record member, here.buffOff,
    Nat.add_one_mul]
  split
  · rename_i accepted
    rw [if_pos (by omega)]
    refine ⟨dropped.symm, by simp only [sendRead, here.recCntr], ?_⟩
    simp only [sendRead, here.buffOff, common record member, Nat.add_one_mul]
  · rename_i refused
    rw [if_neg (by omega)]
    exact ⟨here.cursor, here.recCntr, (Nat.zero_mul _).symm⟩

theorem visits_atRecord {buff : Bool → Bytes} {s : SendState}
    (visits : Visits (sendMore recLimit) (sendBodyIn size) { cursor := recs, buff := buff } s) :
    ∃ total inBuffer, AtRecord length recs total inBuffer s ∧ inBuffer ≤ total ∧
      inBuffer * (sizeofXchgRecSize + length) ≤ size := by
  refine visits_invariant (fun s => ∃ total inBuffer, AtRecord length recs total inBuffer s ∧
    inBuffer ≤ total ∧ inBuffer * (sizeofXchgRecSize + length) ≤ size) ?_
    ⟨0, 0, ⟨rfl, rfl, (Nat.zero_mul _).symm⟩, Nat.le_refl 0, by omega⟩ visits
  intro s ⟨total, inBuffer, here, less, room⟩ more
  have next := sendBodyIn_atRecord common small here more room
  split at next
  · rename_i fits
    exact ⟨total + 1, inBuffer + 1, next, Nat.succ_le_succ less, fits⟩
  · exact ⟨total, 0, next, Nat.zero_le _, by omega⟩

theorem prefixFits_common {buff : Bool → Bytes}
    (spare : (limited recLimit recs).length ≤ size / (sizeofXchgRecSize + length) ∨
      sizeofXchgRecSize ≤ size % (sizeofXchgRecSize + length)) : PrefixFits size recLimit buff recs := by
  intro s visits more
  obtain ⟨total, inBuffer, here, less, room⟩ := visits_atRecord common small visits
  have unread := (sendMore_atRecord here).mp more
  rw [here.buffOff]
  have width : 0 < sizeofXchgRecSize + length := Nat.add_pos_left (by decide) _
  have parts := Nat.div_add_mod' size (sizeofXchgRecSize + length)
  rcases Nat.lt_or_ge inBuffer (size / (sizeofXchgRecSize + length)) with another | last
  · have fits := (Nat.le_div_iff_mul_le width).mp another
    rw [Nat.succ_mul] at fits
    omega
  · obtain rfl : inBuffer = size / (sizeofXchgRecSize + length) :=
      Nat.le_antisymm ((Nat.le_div_iff_mul_le width).mpr room) last
    rcases spare with few | bytes
    · omega
    · omega

theorem not_prefixFits_common {buff : Bool → Bytes}
    (many : size / (sizeofXchgRecSize + length) < (limited recLimit recs).length)
    (bytes : size % (sizeofXchgRecSize + length) < sizeofXchgRecSize) :
    ¬ PrefixFits size recLimit buff recs := by
  have width : 0 < sizeofXchgRecSize + length := Nat.add_pos_left (by decide) _
  have start : AtRecord length recs 0 0 { cursor := recs, buff := buff } :=
    ⟨rfl, rfl, (Nat.zero_mul _).symm⟩
  obtain ⟨s, visits, here⟩ : ∃ s, Visits (sendMore recLimit) (sendBodyIn size)
    { cursor := recs, buff := buff } s ∧
      AtRecord length recs (size / (sizeofXchgRecSize + length))
        (size / (sizeofXchgRecSize + length)) s :=
    visits_family (fun k => AtRecord length recs k k) start fun k t less here => by
      have more : sendMore recLimit t = true := (sendMore_atRecord here).mpr (by omega)
      have fits := (Nat.le_div_iff_mul_le width).mp less
      have next := sendBodyIn_atRecord common small here more (by rw [Nat.succ_mul] at fits; omega)
      rw [if_pos fits] at next
      exact ⟨more, next⟩
  intro prefixFits
  have inside := prefixFits s visits ((sendMore_atRecord here).mpr many)
  have parts := Nat.div_add_mod' size (sizeofXchgRecSize + length)
  rw [here.buffOff] at inside
  omega

end Common

/-- For records of one length the unsigned difference never wraps exactly when the buffer is too
large for `int`, when all the records fit into one buffer, or when a full buffer has room for a
prefix. -/
theorem send_raw_mem_space_iff (size recLimit : Nat) (buff : Bool → Bytes) {length : Nat}
    {recs : List Bytes} (common : ∀ r ∈ recs, r.length = length) :
    PrefixFits size recLimit buff recs ↔
      2 ^ 31 + sizeofXchgRecSize ≤ size ∨
        (limited recLimit recs).length ≤ size / (sizeofXchgRecSize + length) ∨
        sizeofXchgRecSize ≤ size % (sizeofXchgRecSize + length) := by
  rcases Nat.lt_or_ge size (2 ^ 31 + sizeofXchgRecSize) with small | huge
  · constructor
    · intro prefixFits
      apply Or.inr
      by_contra failing
      rw [not_or, not_le, not_le] at failing
      exact not_prefixFits_common common small failing.1 failing.2 prefixFits
    · rintro (huge | spare)
      · exact absurd small (not_lt.mpr huge)
      · exact prefixFits_common common small spare
  · exact ⟨fun _ => Or.inl huge, fun _ => prefixFits_huge huge recLimit buff recs⟩

theorem send_raw_mem_space_iff_two :
    PrefixFits xchgBuffSize 0 (fun _ => List.replicate xchgBuffSize 0) [[1, 2], [3, 4]] ↔
      2 ^ 31 + sizeofXchgRecSize ≤ xchgBuffSize ∨
        (limited 0 ([[1, 2], [3, 4]] : List Bytes)).length ≤ xchgBuffSize / (sizeofXchgRecSize + 2) ∨
        sizeofXchgRecSize ≤ xchgBuffSize % (sizeofXchgRecSize + 2) :=
  send_raw_mem_space_iff _ _ _ (by decide)

/-- 16384 records of 60 bytes fill the buffer to its last byte; the one after them has no room for its
prefix, and the difference wraps. -/
theorem send_raw_mem_space_wraps :
    ¬ PrefixFits xchgBuffSize 0 (fun _ => List.replicate xchgBuffSize 0)
      (List.replicate 16385 (List.replicate 60 0)) := by
  have common : ∀ r ∈ List.replicate 16385 (List.replicate 60 (0 : UInt8)), r.length = 60 :=
    fun r member => by
    rw [List.eq_of_mem_replicate member, List.length_replicate]
  refine not_prefixFits_common common (by decide) ?_ (by decide)
  rw [limited_zero, List.length_replicate]
  decide

end Fdistdump.Exchange
