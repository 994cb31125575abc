import Fdistdump.Exchange.Delivery

/-!
# The broadcast of phase 3

The master packs the records of phase 2 into one buffer and broadcasts it, and every slave thread
looks the records up in its own memory. On the way the number of bytes is passed as the `int` count
of `MPI_Bcast`.
-/

namespace Fdistdump.Tput
open Exchange ByteBuffer

def libnfMemRecCnt (mem : List Bytes) : Nat := toSizeT mem.length

/-- `libnf_mem_rec_len`, the length of the first record; `none` is a failed assertion. -/
def libnfMemRecLen (lib : Libnf) : List Bytes → Option Nat
  | [] => some 0
  | first :: _ =>
    match lnfMemReadRawC first lib.maxRawLen with
    | none => none
    | some raw => if 0 < raw.length then some raw.length else none

/-- `rec_info`: the number of records and their length. -/
def recInfo (lib : Libnf) (mem : List Bytes) : Option (Nat × Nat) :=
  (libnfMemRecLen lib mem).map fun recLen => (libnfMemRecCnt mem, recLen)

/-- `rec_buff_size`, on the master and on the slaves alike. -/
def recBuffSize (info : Nat × Nat) : Nat := toSizeT (info.1 * info.2)

/-- The rest of the buffer, as `lnf_mem_read_raw_c` receives its size. -/
def packRemaining (info : Nat × Nat) (off : Nat) : Int := sizeToInt (toSizeT (recBuffSize info - off))

/-- The assertion on what `lnf_mem_read_raw_c` has read. -/
def assertRead (recLen : Nat) : Option Bytes → Option Bytes
  | none => none
  | some raw => if raw.length = recLen then some raw else none

/-- The packing loop of the master with `left` iterations to go; `none` is a failed assertion. -/
def packLoop (info : Nat × Nat) : Nat → List Bytes → Nat → Bytes → Option Bytes
  | 0, _, _, recBuff => some recBuff
  | _ + 1, [], _, _ => none
  | left + 1, record :: next, off, recBuff => do
    let raw ← assertRead info.2 (lnfMemReadRawC record (packRemaining info off))
    packLoop info left next (toSizeT (off + info.2 : Nat)) (write recBuff off raw)

/-- `MPI_Bcast` of bytes into the buffer of one receiver. A negative count is an error, and so are
counts that differ. -/
def mpiBcast (rootCount count : Int) (root buff : Bytes) : Option Bytes :=
  if rootCount < 0 ∨ count ≠ rootCount then none
  else some (root.take count.toNat ++ buff.drop count.toNat)

/-- What the loop of a slave thread has looked up and found. -/
structure Lookups where
  lookedUp : List Bytes := []
  found : List Bytes := []

/-- One iteration; `lookup` is the record that the thread's memory holds under the key of the
received one. -/
def lookupBody (info : Nat × Nat) (recBuff : Bytes) (lookup : Bytes → Option Bytes) (s : Lookups)
    (i : Nat) :
    Lookups :=
  let receivedRec := (recBuff.drop (toSizeT (i * info.2 : Nat))).take (sizeToInt info.2).toNat
  { lookedUp := s.lookedUp ++ [receivedRec], found := s.found ++ (lookup receivedRec).toList }

def lookupLoop (info : Nat × Nat) (recBuff : Bytes) (lookup : Bytes → Option Bytes) : Lookups :=
  (List.range info.1).foldl (lookupBody info recBuff lookup) {}

/-- Phase 3 up to the answers, for one slave thread. The buffers are as `malloc` returned them. -/
def tputPhase3 (lib : Libnf) (mem : List Bytes) (masterBuff slaveBuff : Bytes)
    (lookup : Bytes → Option Bytes) :
    Option Lookups := do
  let info ← recInfo lib mem
  let packed ← packLoop info info.1 mem 0 masterBuff
  let received ← mpiBcast (sizeToInt (recBuffSize info)) (sizeToInt (recBuffSize info)) packed slaveBuff
  return lookupLoop info received lookup

/-- The records reach every slave as they are in the master's memory. -/
structure RoundTrip (lib : Libnf) (mem : List Bytes) (n length : Nat) : Prop where
  packs : ∀ info masterBuff, recInfo lib mem = some info → masterBuff.length = recBuffSize info →
    ∃ packed, packLoop info info.1 mem 0 masterBuff = some packed ∧ packed.length = n * length ∧
      ∀ i (inside : i < mem.length), (packed.drop (i * length)).take length = mem[i]
  count : ∃ info, recInfo lib mem = some info ∧ sizeToInt (recBuffSize info) = (n * length : Nat)
  answers : ∀ masterBuff slaveBuff lookup, masterBuff.length = n * length →
    slaveBuff.length = n * length →
    tputPhase3 lib mem masterBuff slaveBuff lookup = some ⟨mem, mem.filterMap lookup⟩

/-! ### Packing -/

variable {lib : Libnf} {length : Nat}

theorem recInfo_eq (mem : RawMem lib) (common : ∀ r ∈ mem.recs, r.length = length)
    (small : mem.recs.length < 2 ^ 64) :
    ∃ recLen, recInfo lib mem.recs = some (mem.recs.length, recLen) ∧
    mem.recs.length * recLen = mem.recs.length * length ∧
      ∀ r ∈ mem.recs, r.length = recLen := by
  have cnt : libnfMemRecCnt mem.recs = mem.recs.length := toSizeT_eq rfl small
  unfold recInfo
  rw [cnt]
  cases shape : mem.recs with
  | nil => exact ⟨0, rfl, by simp, by simp⟩
  | cons first rest =>
    rw [shape] at common
    obtain ⟨nonempty, fits⟩ := mem.sized first (by simp [shape])
    have read : lnfMemReadRawC first lib.maxRawLen = some first := if_pos (by omega)
    have firstLength := common first (List.mem_cons_self ..)
    refine ⟨length, ?_, rfl, common⟩
    simp only [libnfMemRecLen, read]
    rw [if_pos (by omega), firstLength]
    rfl

/-- A record has at least one byte. -/
theorem count_le_size (mem : RawMem lib) (common : ∀ r ∈ mem.recs, r.length = length) :
    mem.recs.length ≤ mem.recs.length * length := by
  cases shape : mem.recs with
  | nil => simp
  | cons first rest =>
    have member : first ∈ mem.recs := by simp [shape]
    obtain ⟨positive, -⟩ := mem.sized first member
    exact Nat.le_mul_of_pos_right _ (by rwa [common first member] at positive)

theorem recBuffSize_eq (mem : RawMem lib) (common : ∀ r ∈ mem.recs, r.length = length)
    (small : mem.recs.length * length < 2 ^ 64) {info : Nat × Nat}
    (queried : recInfo lib mem.recs = some info) :
    recBuffSize info = mem.recs.length * length := by
  have few := count_le_size mem common
  obtain ⟨recLen, same, product, -⟩ := recInfo_eq mem common (by omega)
  obtain rfl := Option.some.inj (same.symm.trans queried)
  exact toSizeT_eq (by simp [← product]) small

theorem flatten_length_of_common {recs : List Bytes} (common : ∀ r ∈ recs, r.length = length) :
    recs.flatten.length = recs.length * length := by
  induction recs with
  | nil => simp
  | cons record rest ih =>
    rw [List.flatten_cons, List.length_append, ih fun r member =>
      common r (List.mem_cons_of_mem _ member),
      common record (List.mem_cons_self ..), List.length_cons]
    ring

theorem slice_flatten {recs : List Bytes} (common : ∀ r ∈ recs, r.length = length) {i : Nat}
    (inside : i < recs.length) : (recs.flatten.drop (i * length)).take length = recs[i] := by
  induction recs generalizing i with
  | nil => cases inside
  | cons record rest ih =>
    have here := common record (List.mem_cons_self ..)
    cases i with
    | zero => simp [← here]
    | succ i =>
      have skip : (i + 1) * length = record.length + i * length := by
        rw [here]
        ring
      rw [List.flatten_cons, skip, ← List.drop_drop, List.drop_left, List.getElem_cons_succ]
      exact ih (fun r member => common r (List.mem_cons_of_mem _ member)) _

theorem packLoop_eq {info : Nat × Nat} {recs : List Bytes} (common : ∀ r ∈ recs, r.length = info.2)
    {off : Nat} {recBuff : Bytes} (ends : off + recs.length * info.2 = recBuff.length)
    (size : recBuffSize info = recBuff.length) (small : recBuff.length < 2 ^ 31) :
    packLoop info recs.length recs off recBuff = some (recBuff.take off ++ recs.flatten) := by
  induction recs generalizing off recBuff with
  | nil =>
    have whole : off = recBuff.length := by simpa using ends
    simp [packLoop, whole]
  | cons record rest ih =>
    have here := common record (List.mem_cons_self ..)
    have expand : (rest.length + 1) * info.2 = info.2 + rest.length * info.2 := by ring
    rw [List.length_cons, expand] at ends
    have space : packRemaining info off = recBuff.length - off := by
      rw [packRemaining, size]
      exact sizeToInt_toSizeT (by omega) (by omega)
    have read : assertRead info.2 (lnfMemReadRawC record (packRemaining info off)) = some record := by
      rw [space, lnfMemReadRawC, if_pos (by omega)]
      exact if_pos here
    have next : toSizeT (off + info.2 : Nat) = off + info.2 := toSizeT_eq rfl (by omega)
    have written : (write recBuff off record).length = recBuff.length := write_length (by omega)
    have more : packLoop info rest.length rest (off + info.2) (write recBuff off record) =
        some ((write recBuff off record).take (off + info.2) ++ rest.flatten) :=
      ih (fun r member => common r (List.mem_cons_of_mem _ member)) (by omega) (by omega) (by omega)
    rw [List.length_cons, packLoop, read, Option.bind_eq_bind, Option.bind_some, next, more, ← here,
      take_write _ _ (by omega), List.flatten_cons, List.append_assoc]

/-- With `2 ^ 31` bytes or more to go the rest of the buffer is a negative `int` before some record,
and the assertion on its reading fails. -/
theorem packLoop_none {info : Nat × Nat} (short : info.2 < 2 ^ 31) {left off : Nat} {recs : List Bytes}
    {recBuff : Bytes} {k : Int}
    (rest : (recBuffSize info : Int) - off = (left * info.2 : Nat) + 2 ^ 64 * k)
    (large : 2 ^ 31 ≤ left * info.2) : packLoop info left recs off recBuff = none := by
  induction left generalizing off recs recBuff k with
  | zero => omega
  | succ left ih =>
    cases recs with
    | nil => rfl
    | cons record next =>
      have expand : (left + 1) * info.2 = left * info.2 + info.2 := by ring
      rw [expand] at rest large
      rw [packLoop]
      cases read : assertRead info.2 (lnfMemReadRawC record (packRemaining info off)) with
      | none => rfl
      | some raw =>
        rw [Option.bind_eq_bind, Option.bind_some]
        by_cases more : 2 ^ 31 ≤ left * info.2
        · obtain ⟨wraps, shape⟩ : ∃ wraps : Int, (toSizeT (off + info.2 : Nat) : Int) =
            off + info.2 + 2 ^ 64 * wraps :=
            ⟨-((off + info.2 : Nat) / 2 ^ 64), by unfold toSizeT; omega⟩
          exact ih (k := k - wraps) (by omega) more
        · have space : packRemaining info off < 0 := by
            rw [packRemaining, sizeToInt_toSizeT_bmod, Int.bmod_def]
            omega
          have fails : lnfMemReadRawC record (packRemaining info off) = none := if_neg (by omega)
          rw [fails] at read
          cases read

theorem packLoop_memory_none (mem : RawMem lib) (common : ∀ r ∈ mem.recs, r.length = length)
    (counted : mem.recs.length < 2 ^ 64) (large : 2 ^ 31 ≤ mem.recs.length * length) :
    ∃ info, recInfo lib mem.recs = some info ∧ ∀ masterBuff,
      packLoop info info.1 mem.recs 0 masterBuff = none := by
  obtain ⟨recLen, queried, product, all⟩ := recInfo_eq mem common counted
  have short : recLen < 2 ^ 31 := by
    cases shape : mem.recs with
    | nil => simp [shape] at large
    | cons first rest =>
      have member : first ∈ mem.recs := by simp [shape]
      obtain ⟨-, sized⟩ := mem.sized first member
      have fits := lib.fits
      have buff : xchgBuffSize ≤ 2 ^ 20 := by decide
      rw [all first member] at sized
      omega
  refine ⟨_, queried, ?_⟩
  intro masterBuff
  apply packLoop_none (k := -((mem.recs.length * recLen : Nat) / 2 ^ 64)) short
  · unfold recBuffSize toSizeT
    dsimp only
    omega
  · exact product ▸ large

/-! ### Looking up -/

theorem lookupLoop_eq {info : Nat × Nat} {recs : List Bytes} (cnt : info.1 = recs.length)
    (common : ∀ r ∈ recs, r.length = info.2) (small : recs.length * info.2 < 2 ^ 31)
    (lookup : Bytes → Option Bytes) :
    lookupLoop info recs.flatten lookup = ⟨recs, recs.filterMap lookup⟩ := by
  have upTo (k : Nat) (le : k ≤ recs.length) :
      (List.range k).foldl (lookupBody info recs.flatten lookup) {} =
        ⟨recs.take k, (recs.take k).filterMap lookup⟩ := by
    induction k with
    | zero => rfl
    | succ k ih =>
      have offset : toSizeT (k * info.2 : Nat) = k * info.2 := by
        have less : k * info.2 ≤ recs.length * info.2 := Nat.mul_le_mul_right _ (by omega)
        exact toSizeT_eq rfl (by omega)
      have recLen : (sizeToInt info.2).toNat = info.2 := by
        have less : info.2 ≤ recs.length * info.2 := Nat.le_mul_of_pos_left _ (by omega)
        unfold sizeToInt
        rw [Int.bmod_def]
        omega
      rw [List.range_succ, List.foldl_append, ih (by omega), List.foldl_cons, List.foldl_nil,
        lookupBody, offset, recLen,
        slice_flatten common (by omega), ← List.take_concat_get' recs k (by omega),
        List.filterMap_append]
      cases found : lookup recs[k] <;> simp [found]
  rw [lookupLoop, cnt, upTo _ (Nat.le_refl _), List.take_length]

/-! ### The round trip -/

theorem sizeToInt_lt (n : Nat) : sizeToInt n < 2 ^ 31 := by
  unfold sizeToInt
  rw [Int.bmod_def]
  omega

theorem mpiBcast_all {packed buff : Bytes} {count : Int} (sent : count = packed.length)
    (room : buff.length = packed.length) : mpiBcast count count packed buff = some packed := by
  rw [mpiBcast, if_neg (by omega), sent, Int.toNat_natCast, List.take_length,
    List.drop_of_length_le (by omega),
    List.append_nil]

theorem tputPhase3_eq {mem : List Bytes} {info : Nat × Nat} {masterBuff packed slaveBuff recBuff : Bytes}
    {lookup : Bytes → Option Bytes} (queried : recInfo lib mem = some info)
    (packs : packLoop info info.1 mem 0 masterBuff = some packed)
    (received : mpiBcast (sizeToInt (recBuffSize info)) (sizeToInt (recBuffSize info)) packed
      slaveBuff = some recBuff) :
    tputPhase3 lib mem masterBuff slaveBuff lookup = some (lookupLoop info recBuff lookup) := by
  unfold tputPhase3
  rw [queried, Option.bind_eq_bind, Option.bind_some, packs, Option.bind_eq_bind,
    Option.bind_some, received]
  rfl

theorem roundTrip_of_small (mem : RawMem lib) (common : ∀ r ∈ mem.recs, r.length = length)
    (small : mem.recs.length * length < 2 ^ 31) : RoundTrip lib mem.recs mem.recs.length length := by
  have few := count_le_size mem common
  obtain ⟨recLen, queried, product, common'⟩ := recInfo_eq mem common (by omega)
  have size := recBuffSize_eq mem common (by omega) queried
  have count : sizeToInt (mem.recs.length * length) = (mem.recs.length * length : Nat) := by
    unfold sizeToInt
    rw [Int.bmod_def]
    omega
  have flat := flatten_length_of_common common
  have packs (masterBuff : Bytes) (room : masterBuff.length = mem.recs.length * length) :
      packLoop (mem.recs.length, recLen) mem.recs.length mem.recs 0 masterBuff =
        some mem.recs.flatten := by
    rw [packLoop_eq common' (by simp [product, room]) (size.trans room.symm) (by omega)]
    rfl
  refine ⟨?_, ⟨_, queried, by rw [size, count]⟩, ?_⟩
  · intro info masterBuff same room
    obtain rfl := Option.some.inj (queried.symm.trans same)
    exact ⟨_, packs masterBuff (room.trans size), flat, fun i inside => slice_flatten common inside⟩
  · intro masterBuff slaveBuff lookup masterRoom slaveRoom
    have received : mpiBcast (sizeToInt (mem.recs.length * length))
      (sizeToInt (mem.recs.length * length))
        mem.recs.flatten slaveBuff = some mem.recs.flatten :=
      mpiBcast_all (by rw [count, flat]) (by omega)
    have looked : lookupLoop (mem.recs.length, recLen) mem.recs.flatten lookup =
        ⟨mem.recs, mem.recs.filterMap lookup⟩ :=
      lookupLoop_eq rfl common' (by rw [product]; exact small) lookup
    rw [tputPhase3_eq queried (packs masterBuff masterRoom) (by rw [size]; exact received), looked]

variable (lib) in
/-- Every slave answers for every record exactly when an `int` can count the bytes. -/
theorem tput_phase_3_round_trip_iff (mem : RawMem lib) (common : ∀ r ∈ mem.recs, r.length = length) :
    RoundTrip lib mem.recs mem.recs.length length ↔ mem.recs.length * length < 2 ^ 31 := by
  constructor
  · intro trip
    obtain ⟨info, -, count⟩ := trip.count
    have bound := sizeToInt_lt (recBuffSize info)
    omega
  · exact roundTrip_of_small mem common

def twoRecords : RawMem shortRecords := ⟨[[1, 2], [3, 4]], by decide⟩

theorem tput_phase_3_round_trip_iff_two :
    RoundTrip shortRecords twoRecords.recs 2 2 ↔ 2 * 2 < 2 ^ 31 :=
  tput_phase_3_round_trip_iff shortRecords twoRecords (by decide)

/-- 2^27 records of 16 bytes: the count of `MPI_Bcast` is negative. -/
theorem tput_phase_3_count_negative :
    recInfo shortRecords (List.replicate (2 ^ 27) (List.replicate 16 0)) = some (2 ^ 27, 16) ∧
      sizeToInt (recBuffSize (2 ^ 27, 16)) = -2 ^ 31 ∧
      ¬ RoundTrip shortRecords (List.replicate (2 ^ 27) (List.replicate 16 0)) (2 ^ 27) 16 := by
  have queried : recInfo shortRecords (List.replicate (2 ^ 27) (List.replicate 16 0)) =
      some (2 ^ 27, 16) := by
    have cnt : libnfMemRecCnt (List.replicate (2 ^ 27) (List.replicate 16 0)) = 2 ^ 27 :=
      toSizeT_eq (by rw [List.length_replicate]) (by decide)
    rw [recInfo, cnt]
    rfl
  have count : sizeToInt (recBuffSize (2 ^ 27, 16)) = -2 ^ 31 := by decide
  refine ⟨queried, count, ?_⟩
  intro trip
  obtain ⟨info, same, exact⟩ := trip.count
  obtain rfl := Option.some.inj (queried.symm.trans same)
  rw [count] at exact
  exact absurd exact (by decide)

end Fdistdump.Tput
