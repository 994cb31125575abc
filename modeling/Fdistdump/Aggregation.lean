import Fdistdump.Exchange.Delivery
import Fdistdump.Library.KeyedFold
import Fdistdump.Slave.ProcessFile
import Mathlib.Algebra.BigOperators.Fin

/-!
# Aggregation

In `MODE_AGGR` every thread aggregates its matching records into a hash table; without TPUT it sends
all of them and `aggr_main` aggregates what arrives into a hash table of its own.
-/

namespace Fdistdump.Aggregation
open ByteBuffer Exchange Interleaving KeyedFold Slave

/-- The functions `libnf_mem_init_ht` configures for fields that are not keys. -/
inductive AggrFunc
  | min
  | max
  | sum
  | or
deriving DecidableEq, Repr

/-- How libnf merges two values of a field. -/
def AggrFunc.apply : AggrFunc → UInt64 → UInt64 → UInt64
  | .min, a, b => if a ≤ b then a else b
  | .max, a, b => if a ≤ b then b else a
  | .sum, a, b => a + b
  | .or, a, b => a ||| b

/-- The value that leaves every other one unchanged. -/
def AggrFunc.unit : AggrFunc → UInt64
  | .min => 0xffffffffffffffff
  | .max | .sum | .or => 0

theorem min_toNat (a b : UInt64) : (AggrFunc.min.apply a b).toNat = min a.toNat b.toNat := by
  simp only [AggrFunc.apply, UInt64.le_iff_toNat_le]
  split <;> omega

theorem max_toNat (a b : UInt64) : (AggrFunc.max.apply a b).toNat = max a.toNat b.toNat := by
  simp only [AggrFunc.apply, UInt64.le_iff_toNat_le]
  split <;> omega

instance (func : AggrFunc) : Std.Commutative func.apply where
  comm a b := by
    cases func with
    | min => exact UInt64.toNat_inj.mp (by rw [min_toNat, min_toNat, Nat.min_comm])
    | max => exact UInt64.toNat_inj.mp (by rw [max_toNat, max_toNat, Nat.max_comm])
    | sum => exact UInt64.add_comm a b
    | or => exact UInt64.or_comm a b

instance (func : AggrFunc) : Std.Associative func.apply where
  assoc a b c := by
    cases func with
    | min => exact UInt64.toNat_inj.mp (by simp only [min_toNat, Nat.min_assoc])
    | max => exact UInt64.toNat_inj.mp (by simp only [max_toNat, Nat.max_assoc])
    | sum => exact UInt64.add_assoc a b c
    | or => exact UInt64.or_assoc a b c

theorem apply_unit (func : AggrFunc) (a : UInt64) : func.apply a func.unit = a := by
  have bound := a.toNat_lt
  cases func with
  | min =>
    rw [← UInt64.toNat_inj, min_toNat]
    exact Nat.min_eq_left (by simp only [AggrFunc.unit]; exact Nat.le_of_lt_succ bound)
  | max =>
    rw [← UInt64.toNat_inj, max_toNat, AggrFunc.unit, UInt64.toNat_zero]
    omega
  | sum => exact UInt64.add_zero a
  | or => exact UInt64.or_zero

/-- The function folded over any number of values. -/
def AggrFunc.over (func : AggrFunc) (values : Multiset UInt64) : UInt64 :=
  values.fold func.apply func.unit

theorem sum_over_toNat (values : Multiset UInt64) :
    (AggrFunc.sum.over values).toNat = (values.map UInt64.toNat).sum % 2 ^ 64 := by
  induction values using Multiset.induction with
  | empty => rfl
  | cons a rest ih =>
    rw [AggrFunc.over, Multiset.fold_cons_left, ← AggrFunc.over, AggrFunc.apply, UInt64.toNat_add, ih,
      Multiset.map_cons, Multiset.sum_cons]
    omega

/-! ### Records of a hash table memory -/

/-- The values of the fields that are not keys. -/
abbrev Fields (n : Nat) : Type := Fin n → UInt64

variable {n : Nat}

/-- Records with equal keys are merged field by field. -/
def aggregate (funcs : Fin n → AggrFunc) (a b : Fields n) : Fields n :=
  fun j => (funcs j).apply (a j) (b j)

instance (funcs : Fin n → AggrFunc) : Std.Commutative (aggregate funcs) where
  comm a b := funext fun j => Std.Commutative.comm (a j) (b j)

instance (funcs : Fin n → AggrFunc) : Std.Associative (aggregate funcs) where
  assoc a b c := funext fun j => Std.Associative.assoc (a j) (b j) (c j)

theorem reduce_field (funcs : Fin n → AggrFunc) {records : Multiset (Fields n)} {v : Fields n}
    (reduced : reduce (aggregate funcs) records = some v) (j : Fin n) :
    v j = (funcs j).over (records.map (· j)) :=
  reduce_hom (aggregate funcs) (apply_unit (funcs j)) (h := (· j)) (fun _ _ => rfl) reduced

theorem reduce_eq_some (funcs : Fin n → AggrFunc) {records : Multiset (Fields n)} {v : Fields n} :
    reduce (aggregate funcs) records = some v ↔
      records ≠ 0 ∧ ∀ j, v j = (funcs j).over (records.map (· j)) := by
  constructor
  · intro reduced
    refine ⟨?_, reduce_field funcs reduced⟩
    rintro rfl
    cases reduced
  · intro ⟨occurs, fields⟩
    cases reduced : reduce (aggregate funcs) records with
    | none => exact absurd ((reduce_eq_none _).mp reduced) occurs
    | some w =>
      congr 1
      funext j
      rw [reduce_field funcs reduced j, fields j]

/-! ### The query -/

variable {R K : Type} [DecidableEq K]

/-- A `MODE_AGGR` query. `entry` is what the hash table keeps of a flow record. -/
structure AggrQuery (R K : Type) (n : Nat) where
  filter : Option (R → Bool)
  volume : R → ProcessedSumm
  entry : R → Entry K (Fields n)
  funcs : Fin n → AggrFunc

/-- `lnf_mem_write` and `lnf_mem_write_raw` on a hash table memory. -/
abbrev htWrite (funcs : Fin n → AggrFunc) : Table K (Fields n) → Entry K (Fields n) →
    Table K (Fields n) :=
  KeyedFold.write (aggregate funcs)

def AggrQuery.query (q : AggrQuery R K n) : Query R (Table K (Fields n)) where
  filter := q.filter
  volume := q.volume
  write table record := htWrite q.funcs table (q.entry record)

def emptyThread : ThreadCtx (Table K (Fields n)) := ⟨⟨0, 0, 0⟩, fun _ => 0, ∅⟩

/-- The hash table of a thread after its files. -/
def threadMem (q : AggrQuery R K n) (files : List (FlowFile R)) : Table K (Fields n) :=
  (processFiles q.query files emptyThread).lnfMem

/-- The entries of the matching records. -/
def matchingEntries (q : AggrQuery R K n) (files : List (FlowFile R)) : List (Entry K (Fields n)) :=
  (matching q.query files).map q.entry

theorem threadMem_build (q : AggrQuery R K n) (files : List (FlowFile R)) :
    threadMem q files = build (aggregate q.funcs) (matchingEntries q files) := by
  rw [threadMem, processFiles_mem, matchingEntries, build, List.foldl_map]
  rfl

/-! ### Collecting hash tables -/

section Collect
variable {ι : Type} [Fintype ι] {lib : Libnf}

def allEntries (mems : ι → Table K (Fields n)) : Multiset (Entry K (Fields n)) :=
  ∑ i, ((mems i).entries : Multiset (Entry K (Fields n)))

variable [DecidableEq ι]

/-- One run of `aggr_main` without TPUT: every thread sends its whole hash table. -/
structure AggrRun (codec : RawCodec lib (Entry K (Fields n))) (funcs : Fin n → AggrFunc)
    (mems : ι → Table K (Fields n)) where
  threadOrder : ι → List (Entry K (Fields n))
  threadIterated : ∀ i, (threadOrder i).Perm (mems i).entries
  exchange : RecordRun codec threadOrder (fun _ => 0)

variable {codec : RawCodec lib (Entry K (Fields n))} {funcs : Fin n → AggrFunc}
  {mems : ι → Table K (Fields n)}

/-- The memory `aggr_main` builds. -/
def AggrRun.master (run : AggrRun codec funcs mems) : Table K (Fields n) :=
  run.exchange.written.foldl (htWrite funcs) ∅

omit [DecidableEq K] in
theorem exists_aggrRun (codec : RawCodec lib (Entry K (Fields n))) (funcs : Fin n → AggrFunc)
    (mems : ι → Table K (Fields n)) : Nonempty (AggrRun codec funcs mems) := by
  obtain ⟨exchange⟩ := exists_recordRun codec (fun i => (mems i).entries) (fun _ => 0)
  exact ⟨⟨_, fun i => List.Perm.refl _, exchange⟩⟩

/-- The master holds, for each key, the merge of what the threads hold. -/
theorem AggrRun.master_lookup [Nonempty ι] (run : AggrRun codec funcs mems) (k : K) :
    run.master.lookup k = reduce (aggregate funcs) (valuesAt k (allEntries mems)) := by
  have sent : (run.exchange.written : Multiset (Entry K (Fields n))) = allEntries mems := by
    rw [run.exchange.written_multiset]
    exact Finset.sum_congr rfl fun i _ => Multiset.coe_eq_coe.mpr (run.threadIterated i)
  rw [← sent]
  exact lookup_build (aggregate funcs) _ k

end Collect

/-! ### From files to the master -/

variable {ι : Type} [Fintype ι]

def matchingAll (q : AggrQuery R K n) (files : ι → List (FlowFile R)) : Multiset (Entry K (Fields n)) :=
  ∑ i, (matchingEntries q (files i) : Multiset (Entry K (Fields n)))

theorem reduce_threadMems (q : AggrQuery R K n) (files : ι → List (FlowFile R)) (k : K) :
    reduce (aggregate q.funcs) (valuesAt k (allEntries fun i => threadMem q (files i))) =
      reduce (aggregate q.funcs) (valuesAt k (matchingAll q files)) := by
  simp only [allEntries, matchingAll, valuesAt_sum, threadMem_build, valuesAt_build]
  exact reduce_groups _ _ _

variable {q : AggrQuery R K n} {files : ι → List (FlowFile R)}

theorem mem_valuesAt_matching {k : K} :
    valuesAt k (matchingAll q files) ≠ 0 ↔
      ∃ i, ∃ record ∈ matching q.query (files i), (q.entry record).1 = k := by
  rw [ne_eq, Multiset.eq_zero_iff_forall_notMem]
  simp only [mem_valuesAt, matchingAll, Multiset.mem_sum, Multiset.mem_coe, matchingEntries,
    List.mem_map, Finset.mem_univ, true_and, not_forall, not_not]
  constructor
  · rintro ⟨v, i, record, member, same⟩
    exact ⟨i, record, member, by rw [same]⟩
  · rintro ⟨i, record, member, rfl⟩
    exact ⟨_, i, record, member, rfl⟩

variable [DecidableEq ι] [Nonempty ι] {lib : Libnf} {codec : RawCodec lib (Entry K (Fields n))}

/-- Without TPUT the master ends with one record for each key that occurs, every field of it
aggregated over all matching records with the key; a single thread that reads the same records builds
the same memory. -/
theorem aggregation_independent_of_distribution
    (run : AggrRun codec q.funcs fun i => threadMem q (files i)) :
    run.master.keys.Nodup ∧
    (∀ k v, (⟨k, v⟩ : Entry K (Fields n)) ∈ run.master.entries ↔
      (∃ i, ∃ record ∈ matching q.query (files i), (q.entry record).1 = k) ∧
        ∀ j, v j = (q.funcs j).over ((valuesAt k (matchingAll q files)).map (· j))) ∧
    ∀ all : List (FlowFile R),
      (matching q.query all : Multiset R) = ∑ i, (matching q.query (files i) : Multiset R) →
        run.master.entries.Perm (threadMem q all).entries := by
  refine ⟨run.master.keys_nodup, fun k v => ?_, fun all same => entries_perm fun k => ?_⟩
  · rw [← AList.mem_lookup_iff, Option.mem_def, run.master_lookup, reduce_threadMems, reduce_eq_some,
      mem_valuesAt_matching]
  · have entries : (matchingEntries q all : Multiset (Entry K (Fields n))) = matchingAll q files := by
      have mapped := congrArg (Multiset.mapAddMonoidHom q.entry) same
      rw [map_sum] at mapped
      exact mapped
    rw [run.master_lookup, reduce_threadMems, threadMem_build, lookup_build, entries]

/-- One byte of key and one field, in little-endian order. -/
def keyedCodec : RawCodec shortRecords (Entry UInt8 (Fields 1)) where
  raw e := e.1 :: putLong (e.2 0)
  unraw bytes := ⟨bytes.headD 0, fun _ => getLong (bytes.drop 1)⟩
  unraw_raw e := by
    obtain ⟨key, fields⟩ := e
    have value : (fun _ => getLong (putLong (fields 0) ++ [])) = fields := by
      funext j
      rw [getLong_putLong, Subsingleton.elim j 0]
    rw [List.append_nil] at value
    exact congrArg (Sigma.mk key) value
  sized e := ⟨by simp, by simp; decide⟩

def packetTotals : AggrQuery (UInt8 × UInt64) UInt8 1 where
  filter := some fun record => record.2 ≠ 0
  volume record := ⟨1, record.2, record.2⟩
  entry record := ⟨record.1, fun _ => record.2⟩
  funcs _ := .sum

def packetFiles : Fin 2 → List (FlowFile (UInt8 × UInt64))
  | 0 => [⟨true, fun _ => 0, [(1, 5), (2, 7), (1, 0)]⟩]
  | 1 => [⟨true, fun _ => 0, [(1, 4)]⟩, ⟨false, fun _ => 0, [(3, 1)]⟩]

theorem aggregation_independent_of_distribution_packets :
    ∃ run : AggrRun keyedCodec packetTotals.funcs fun i => threadMem packetTotals (packetFiles i),
      run.master.keys.Nodup ∧
        run.master.entries.Perm (threadMem packetTotals (packetFiles 0 ++ packetFiles 1)).entries := by
  obtain ⟨run⟩ := exists_aggrRun keyedCodec packetTotals.funcs fun i => threadMem packetTotals
    (packetFiles i)
  have correct := aggregation_independent_of_distribution run
  exact ⟨run, correct.1, correct.2.2 _ (by rw [Fin.sum_univ_two]; rfl)⟩

end Fdistdump.Aggregation
