import Fdistdump.Tput.Broadcast
import Fdistdump.Tput.Totals

/-!
# A run of TPUT

The three phases as they follow one another, for any order in which messages arrive, and what they
leave in the memory of the master: the kept keys, each with the records of all threads merged, as long as
the broadcast of phase 3 can carry them.
-/

namespace Fdistdump.Tput
open Aggregation Exchange KeyedFold Ranking

variable {ι K : Type} {n : Nat} [Fintype ι] [DecidableEq K] {q : TputQuery n}

/-! ### Values of a table -/

theorem sum_valuesAt {recs : ι → List (Rec K n)} (k : K) :
    (((valuesAt k (∑ i, (recs i : Multiset (Rec K n)))).map (· q.sortKey)).map UInt64.toNat).sum =
      total q recs k := by
  let read : Multiset (Fields n) →+ Nat := Multiset.sumAddMonoidHom.comp
    (Multiset.mapAddMonoidHom fun v => (v q.sortKey).toNat)
  have each : ∀ i, read (valuesAt k (recs i)) = localValue q (recs i) k := fun i => by
    show (((recs i).filter (fun e => e.1 = k)).map Sigma.snd |>.map fun v => (v q.sortKey).toNat).sum = _
    rw [List.map_map]
    rfl
  calc (((valuesAt k (∑ i, (recs i : Multiset (Rec K n)))).map (· q.sortKey)).map UInt64.toNat).sum
      = read (∑ i, valuesAt k (recs i)) := by
        rw [valuesAt_sum, Multiset.map_map]
        rfl
    _ = total q recs k := by rw [map_sum, total, Finset.sum_congr rfl fun i _ => each i]

theorem value_reduce {recs : ι → List (Rec K n)} {k : K} {v : Fields n}
    (small : total q recs k < 2 ^ 64)
    (reduced : reduce (aggregate q.funcs)
      (valuesAt k (∑ i, (recs i : Multiset (Rec K n)))) = some v) :
    q.value (⟨k, v⟩ : Rec K n) = total q recs k := by
  have field := reduce_field q.funcs reduced q.sortKey
  rw [TputQuery.value]
  dsimp only
  rw [field, q.summed, sum_over_toNat, sum_valuesAt, Nat.mod_eq_of_lt small]

omit [Fintype ι] in
theorem table_values {table : Table K (Fields n)} {present : Finset K} {g : K → Nat}
    (same : ∀ k, k ∈ table ↔ k ∈ present)
    (values : ∀ k v, table.lookup k = some v → q.value (⟨k, v⟩ : Rec K n) = g k) :
    (table.entries.map q.value : Multiset Nat) = present.val.map g := by
  have byKey : table.entries.map q.value = table.keys.map g := by
    rw [AList.keys, List.keys, List.map_map]
    apply List.map_congr_left
    intro e member
    exact values e.1 e.2 (AList.mem_lookup_iff.mpr member)
  have keys : (table.keys : Multiset K) = present.val :=
    (Multiset.Nodup.ext (Multiset.coe_nodup.mpr table.keys_nodup) present.nodup).mpr same
  rw [byKey, ← keys]
  rfl

theorem valuesAt_ne_zero {recs : ι → List (Rec K n)} {k : K} :
    valuesAt k (∑ i, (recs i : Multiset (Rec K n))) ≠ 0 ↔ k ∈ keys recs := by
  rw [ne_eq, Multiset.eq_zero_iff_forall_notMem, mem_keys]
  simp only [mem_valuesAt, Multiset.mem_sum, Multiset.mem_coe, Finset.mem_univ, true_and, not_forall,
    not_not]
  constructor
  · rintro ⟨v, i, member⟩
    exact ⟨i, _, member, rfl⟩
  · rintro ⟨i, e, member, rfl⟩
    exact ⟨e.2, i, member⟩

section Written
variable {written : List (Rec K n)} {recs : ι → List (Rec K n)}
  (complete : (written : Multiset (Rec K n)) = ∑ i, (recs i : Multiset (Rec K n)))
include complete

theorem mem_written (k : K) : k ∈ written.foldl (htWrite q.funcs) ∅ ↔ k ∈ keys recs := by
  have looked := lookup_build (aggregate q.funcs) written k
  rw [← valuesAt_ne_zero, ← complete, ne_eq, ← reduce_eq_none (aggregate q.funcs), ← looked,
    AList.lookup_eq_none,
    not_not]
  rfl

theorem written_values (small : ∀ k, total q recs k < 2 ^ 64) :
    ((written.foldl (htWrite q.funcs) ∅).entries.map q.value : Multiset Nat) =
      (keys recs).val.map (total q recs) := by
  refine table_values (mem_written complete) ?_
  intro k v looked
  refine value_reduce (small k) ?_
  rw [← complete, ← looked]
  exact (lookup_build (aggregate q.funcs) written k).symm

end Written

/-! ### The three phases -/

/-- `lnf_mem_lookup_raw_c` and `lnf_mem_read_raw_c`: the thread's own record with the key of the
received one. -/
def lookupRaw {lib : Libnf} (codec : RawCodec lib (Rec K n)) (mem : Table K (Fields n))
    (receivedRec : Bytes) :
    Option Bytes :=
  (mem.lookup (codec.unraw receivedRec).1).map fun fields =>
    codec.raw ⟨(codec.unraw receivedRec).1, fields⟩

variable [DecidableEq ι] {lib : Libnf}

/-- The first two phases of `aggr_main` and the slave threads, up to the records that the master
holds before `tput_phase_3`. -/
structure Selection (codec : RawCodec lib (Rec K n)) (q : TputQuery n)
    (mems : ι → Table K (Fields n)) where
  order : ι → List (Rec K n)
  iterated : ∀ i, Orders q.before (mems i).entries (order i)
  -- phase 1: the first records of every thread, aggregated, give the bottom
  phase1 : RecordRun codec order (fun _ => q.recLimit)
  partials : List (Rec K n)
  partialsIterated : Orders q.before (phase1.written.foldl (htWrite q.funcs) ∅).entries partials
  -- phase 2: the records that satisfy the broadcast threshold
  phase2 : RecordRun codec order fun i =>
    findThresholdCnt q (masterThreshold (findBottom q partials) (Fintype.card ι)) (order i)
  broadcast : List (Rec K n)
  broadcastIterated : broadcast.Perm (phase2.written.foldl (htWrite q.funcs) ∅).entries

/-- `aggr_main` and the slave threads with TPUT, where no assertion and no broadcast fails. -/
structure TputRun (codec : RawCodec lib (Rec K n)) (q : TputQuery n) (mems : ι → Table K (Fields n))
    extends Selection codec q mems where
  -- phase 3: the master packs its records into a buffer as `malloc` returned it
  info : Nat × Nat
  queried : recInfo lib (broadcast.map codec.raw) = some info
  masterBuff : Bytes
  masterAllocated : masterBuff.length = recBuffSize info
  packed : Bytes
  packs : packLoop info info.1 (broadcast.map codec.raw) 0 masterBuff = some packed
  -- every thread has the buffer of its slave, and answers for the keys it holds
  slaveBuff : ι → Bytes
  slaveAllocated : ∀ i, (slaveBuff i).length = recBuffSize info
  received : ι → Bytes
  receives : ∀ i, mpiBcast (sizeToInt (recBuffSize info)) (sizeToInt (recBuffSize info)) packed
    (slaveBuff i) =
    some (received i)
  found : ι → List (Rec K n)
  foundIterated : ∀ i,
    ((found i).map codec.raw).Perm (lookupLoop info (received i) (lookupRaw codec (mems i))).found
  phase3 : RecordRun codec found (fun _ => 0)

variable {codec : RawCodec lib (Rec K n)} {mems : ι → Table K (Fields n)}

/-- The memory that is printed. -/
def TputRun.master (run : TputRun codec q mems) : Table K (Fields n) :=
  run.phase3.written.foldl (htWrite q.funcs) ∅

/-- The records that phase 2 leaves have one length, as `libnf_mem_rec_len` takes for granted, and
an `int` can count their bytes. -/
structure Selection.Fits (selection : Selection codec q mems) (length : Nat) : Prop where
  common : ∀ r, (codec.raw r).length = length
  small : selection.broadcast.length * length < 2 ^ 31

/-! ### The records on their way to the slaves and back -/

omit [Fintype ι] [DecidableEq ι] in
theorem phase3Loop_raw (mem : Table K (Fields n)) (found received : List (Rec K n)) :
    (phase3Loop mem found received).map codec.raw =
      found.map codec.raw ++ (received.map codec.raw).filterMap (lookupRaw codec mem) := by
  induction received generalizing found with
  | nil => simp [phase3Loop]
  | cons e rest ih =>
    rw [phase3Loop, List.map_cons, List.filterMap_cons, lookupRaw, codec.unraw_raw]
    cases looked : mem.lookup e.1 with
    | none =>
      dsimp only [Option.map_none]
      exact ih found
    | some fields =>
      dsimp only [Option.map_some]
      rw [ih, List.map_append, List.append_assoc]
      rfl

theorem unraw_map_raw {R : Type} {codec : RawCodec lib R} (records : List R) :
    (records.map codec.raw).map codec.unraw = records := by
  rw [List.map_map, (funext codec.unraw_raw : codec.unraw ∘ codec.raw = id), List.map_id]

section Fitting
variable {run : TputRun codec q mems} {length : Nat} (fits : run.Fits length)
include fits

theorem TputRun.found_perm (i : ι) : (run.found i).Perm (phase3Loop (mems i) [] run.broadcast) := by
  let mem := codec.mem run.broadcast
  have common : ∀ r ∈ mem.recs, r.length = length := by
    intro r member
    obtain ⟨e, -, rfl⟩ := List.mem_map.mp member
    exact fits.common e
  have small : mem.recs.length * length < 2 ^ 31 := by
    show (run.broadcast.map codec.raw).length * length < 2 ^ 31
    rw [List.length_map]
    exact fits.small
  have size := recBuffSize_eq mem common (by omega) run.queried
  have answers := (roundTrip_of_small mem common small).answers run.masterBuff (run.slaveBuff i)
    (lookupRaw codec (mems i)) (run.masterAllocated.trans size) ((run.slaveAllocated i).trans size)
  have loop := (tputPhase3_eq run.queried run.packs (run.receives i)).symm.trans answers
  have perm := run.foundIterated i
  rw [Option.some.inj loop] at perm
  have looked : (phase3Loop (mems i) [] run.broadcast).map codec.raw = mem.recs.filterMap
      (lookupRaw codec (mems i)) :=
    phase3Loop_raw (mems i) [] run.broadcast
  have same := (looked ▸ perm).map codec.unraw
  rwa [unraw_map_raw, unraw_map_raw] at same

end Fitting

/-! ### What the phases compute -/

section Selecting
variable (selection : Selection codec q mems)

theorem Selection.findBottom_eq [Nonempty ι] (small : ∀ k, total q selection.order k < 2 ^ 64) :
    findBottom q selection.partials = bottom q selection.order := by
  have complete : (selection.phase1.written : Multiset (Rec K n)) =
      ∑ i, (firsts q selection.order i : Multiset (Rec K n)) := by
    rw [selection.phase1.written_multiset]
    exact Finset.sum_congr rfl fun i _ => by rw [limited_pos _ q.limited]; rfl
  have values := written_values (q := q) complete fun k => firsts_total_le.trans_lt (small k)
  have sorted : Orders q.dir.le (selection.partials.map q.value) (selection.partials.map q.value) :=
    ⟨List.Perm.refl _, List.pairwise_map.mpr selection.partialsIterated.pairwise⟩
  have same : (selection.partials.map q.value : Multiset Nat) =
      (keys (firsts q selection.order)).val.map (total q (firsts q selection.order)) := by
    rw [← values]
    exact Multiset.coe_eq_coe.mpr (selection.partialsIterated.perm.map _)
  rw [findBottom_last, bottom, ← same, best_orders sorted, List.map_take]

theorem Selection.threshold_eq [Nonempty ι] (small : ∀ k, total q selection.order k ≤ 2 ^ 53) :
    masterThreshold (findBottom q selection.partials) (Fintype.card ι) =
      threshold q selection.order := by
  rw [selection.findBottom_eq fun k => (small k).trans_lt (by norm_num),
    masterThreshold_exact (bottom_le small) Fintype.card_pos]
  rfl

theorem Selection.broadcast_nodup : selection.broadcast.NodupKeys :=
  (List.perm_nodupKeys selection.broadcastIterated).mpr (AList.nodupKeys _)

theorem Selection.broadcast_keys [Nonempty ι] (small : ∀ k, total q selection.order k ≤ 2 ^ 53) (k : K) :
    k ∈ selection.broadcast.keys ↔ Kept q selection.order k := by
  have iterated : k ∈ selection.broadcast.keys ↔ k ∈ selection.phase2.written.foldl
      (htWrite q.funcs) ∅ :=
    (selection.broadcastIterated.map Sigma.fst).mem_iff
  rw [iterated, mem_written selection.phase2.written_multiset, mem_keys, selection.threshold_eq small]
  refine exists_congr fun i => exists_congr fun e => ?_
  rw [mem_phase2 q (selection.iterated i).pairwise]
  constructor
  · intro ⟨⟨member, sent⟩, same⟩
    exact ⟨member, same, sent⟩
  · intro ⟨member, same, sent⟩
    exact ⟨⟨member, sent⟩, same⟩

/-- The master broadcasts as many records as there are kept keys. -/
theorem Selection.broadcast_length [Nonempty ι] (small : ∀ k, total q selection.order k ≤ 2 ^ 53) :
    selection.broadcast.length = ((keys selection.order).filter (Kept q selection.order)).card := by
  have distinct : selection.broadcast.keys.Nodup := selection.broadcast_nodup
  have kept : selection.broadcast.keys.toFinset = (keys selection.order).filter
      (Kept q selection.order) := by
    ext k
    rw [List.mem_toFinset, selection.broadcast_keys small, Finset.mem_filter]
    exact ⟨fun kept => ⟨kept.mem, kept⟩, And.right⟩
  rw [← kept, List.toFinset_card_of_nodup distinct, List.keys, List.length_map]

/-- The master has no more keys than the threads. -/
theorem Selection.broadcast_length_le [Nonempty ι] :
    selection.broadcast.length ≤ (keys selection.order).card := by
  have distinct : selection.broadcast.keys.Nodup := selection.broadcast_nodup
  have inside : selection.broadcast.keys.toFinset ⊆ keys selection.order := by
    intro k member
    have written : k ∈ selection.phase2.written.foldl (htWrite q.funcs) ∅ :=
      (selection.broadcastIterated.map Sigma.fst).mem_iff.mp (List.mem_toFinset.mp member)
    rw [mem_written selection.phase2.written_multiset, mem_keys] at written
    obtain ⟨i, e, sent, same⟩ := written
    exact mem_keys.mpr ⟨i, e, (limited_sublist _ _).subset sent, same⟩
  calc selection.broadcast.length = selection.broadcast.keys.toFinset.card := by
        rw [List.toFinset_card_of_nodup distinct, List.keys, List.length_map]
    _ ≤ (keys selection.order).card := Finset.card_le_card inside

end Selecting

theorem TputRun.master_lookup [Nonempty ι] (run : TputRun codec q mems) {length : Nat}
    (fits : run.Fits length) (k : K) :
    run.master.lookup k =
      if k ∈ run.broadcast.keys then reduce (aggregate q.funcs) (valuesAt k (allEntries mems))
      else none := by
  have answers : ∀ i, valuesAt k (run.found i : Multiset (Rec K n)) =
      if k ∈ run.broadcast.keys then valuesAt k ((mems i).entries : Multiset (Rec K n))
      else 0 := fun i => by
    rw [Multiset.coe_eq_coe.mpr (TputRun.found_perm fits i), valuesAt_phase3Loop run.broadcast_nodup,
      valuesAt_nodup (mems i).nodupKeys]
    simp [AList.lookup]
  have collected : (run.phase3.written : Multiset (Rec K n)) = ∑ i, (run.found i : Multiset (Rec K n)) :=
    run.phase3.written_multiset
  have looked := lookup_build (aggregate q.funcs) run.phase3.written k
  rw [collected, valuesAt_sum, Finset.sum_congr rfl fun i _ => answers i] at looked
  apply looked.trans
  split
  · rw [allEntries, valuesAt_sum]
  · simp

end Fdistdump.Tput
