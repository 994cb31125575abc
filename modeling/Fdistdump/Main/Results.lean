import Fdistdump.Main.Completion
import Fdistdump.Tput.Concurrent

/-!
# The results of whole queries

What the master has when all processes have ended, for any schedule of the files, any interleaving
of the processes and threads and any order of the messages.
-/

namespace Fdistdump.Main
open Aggregation Exchange KeyedFold Slave Args Ranking
open ListMode (blankBuffs)
open Summary (Config Stores Lossless lossless_of_none afterFiles_mem fileMatching)

variable {R σ τ : Type} {layout : ListMode.RecordLayout} {lib : Libnf} [DecidableEq σ]
  [DecidableEq τ] [Fintype σ] [Fintype τ]

/-! ### The records of all files -/

section Files

variable {M : Type} (query : Query R M) {home : τ → σ} {files : σ → List (FlowFile R)}
  {assigned : τ → List (FlowFile R)}

theorem matching_bind (list : List (FlowFile R)) : (matching query list : Multiset R) =
    (list : Multiset (FlowFile R)).bind fun file => (fileMatching query file : Multiset R) := by
  rw [Multiset.coe_bind]
  rfl

omit [DecidableEq τ] in
/-- The threads have the records of the files of all slaves. -/
theorem matching_assigned
    (all : ∀ slave, (files slave : Multiset (FlowFile R)) = ∑ i with home i = slave,
      (assigned i : Multiset (FlowFile R))) :
    ∑ i, (matching query (assigned i) : Multiset R) = ∑ slave,
      (matching query (files slave) : Multiset R) := by
  let records : Multiset (FlowFile R) →+ Multiset R :=
    ⟨⟨fun files => files.bind fun file => (fileMatching query file : Multiset R), Multiset.zero_bind _⟩,
      fun a b => Multiset.add_bind a b _⟩
  have each (list : List (FlowFile R)) : (matching query list : Multiset R) = records list :=
    matching_bind query list
  simp only [each, all, map_sum]
  exact (Finset.sum_fiberwise Finset.univ home _).symm

end Files

/-! ### Listing -/

section Listing
open ListMode (Entry Delivered fieldOffset counterAndPort portAccess)
open Interleaving

variable {M H V T : Type} {config : Config layout τ R M} {e : Exchanges σ τ M H V T lib}
  {input : Input σ τ M H R} {s : State σ τ M R H V T}

omit [DecidableEq τ] [Fintype τ] in
/-- The files that an index skips have no matching record. -/
theorem matchingRecs_reads (lossless : Lossless config) (i : τ) (files : List (FlowFile R)) :
    ListMode.matchingRecs config.job.accepts (files.filter (reads config i)) =
      matching config.query files := by
  induction files with
  | nil => rfl
  | cons file rest ih =>
    have more : matching config.query (file :: rest) = fileMatching config.query file ++
      matching config.query rest := rfl
    rw [more, ← ih, List.filter_cons]
    split
    · rfl
    · rename_i skipped
      have none : fileMatching config.query file = [] := by
        rw [fileMatching]
        by_cases opens : file.opens = true
        · have contains : (config.bfindex i).all (fun contains => contains file) = false := by
            simpa [reads, opens] using skipped
          rw [if_pos opens, lossless i file contains]
        · rw [if_neg opens]
      rw [none, List.nil_append]

/-- However a query in list mode is scheduled, the master prints as many matching records of all
slaves as the limit asks for and there are, no occurrence of a record twice, and reads in each what
the slave stored for its fields. -/
theorem list_query_result (list : config.workingMode = .list) (fits : Fits config)
    (lossless : Lossless config) (reached : Reachable config e input s) (finished : s.Finished) :
    ∃ printed : List (Entry R),
      s.listed.calls = printed.map Prod.snd ∧
      ((printed.map Prod.fst : List R) : Multiset R) ≤
        ∑ slave, (matching config.query (input.files slave) : Multiset R) ∧
      printed.length =
        (if config.recLimit = 0 then
          (∑ slave, (matching config.query (input.files slave) : Multiset R)).card
        else
          min config.recLimit
            (∑ slave, (matching config.query (input.files slave) : Multiset R)).card) ∧
      ∀ entry ∈ printed, ∀ p ∈ layout.all.zip (fieldOffset 0 layout.all), ∀ value,
        (config.access.fget entry.1 p.1.id).stored = some value →
        (entry.2.drop p.2).take p.1.size = value := by
  obtain ⟨done, -, returned⟩ := reached.joined.reduced finished
  obtain ⟨assigned, listed⟩ := reached.listed list
  obtain ⟨b, explains⟩ := ListMode.reachable_explained (fits list) listed.run
  obtain ⟨printed, delivered⟩ := explains.delivered (returned list)
  have records := matching_assigned config.query (reached.joined.all_given done listed.given)
  have total : ListMode.totalMatching config.job (fun i => (assigned i).filter (reads config i)) =
      (∑ slave, (matching config.query (input.files slave) : Multiset R)).card := by
    rw [← records, Multiset.card_sum]
    exact Finset.sum_congr rfl fun i _ => by rw [matchingRecs_reads lossless, Multiset.coe_card]
  have texts : s.listed.calls = (printed.map Prod.snd).map Prod.snd := by
    rw [List.map_map]
    exact delivered.texts
  refine ⟨printed.map Prod.snd, texts, ?_, ?_, ?_⟩
  · calc (((printed.map Prod.snd).map Prod.fst : List R) : Multiset R)
        = Multiset.map Prod.fst ((printed.map Prod.snd : List (Entry R)) : Multiset (Entry R)) := rfl
      _ = ∑ i, (((fromSource printed i).map Prod.fst : List R) : Multiset R) := by
          rw [trace_multiset]
          exact map_sum (Multiset.mapAddMonoidHom Prod.fst) _ _
      _ ≤ ∑ i, (matching config.query (assigned i) : Multiset R) := by
          refine Finset.sum_le_sum fun i _ => ?_
          rw [← matchingRecs_reads lossless i]
          exact Multiset.coe_le.mpr (delivered.sublist i).subperm
      _ = _ := records
  · have count := delivered.count
    rwa [total, delivered.texts, List.length_map, ← List.length_map Prod.snd] at count
  · intro entry member
    obtain ⟨e, present, rfl⟩ := List.mem_map.mp member
    exact delivered.stored e present

def portFiles : Fin 2 → List (FlowFile Bool)
  | 0 => [⟨true, fun _ => 0, [true, false]⟩, ⟨true, fun _ => 0, [true]⟩]
  | 1 => [⟨true, fun _ => 0, [true]⟩]

/-- Records that have a port, at most two. -/
def portConfig : Config counterAndPort (Fin 3) Bool Unit :=
  ⟨.list, ⟨some id, fun _ => ⟨1, 1, 1⟩, fun mem _ => mem⟩, 2, portAccess, fun _ => none⟩

def portInput : Input (Fin 2) (Fin 3) Unit Unit Bool := ⟨portFiles, (), fun _ => blankBuffs, ()⟩

theorem list_query_result_ports : ∃ s, Reachable portConfig (noExchange Unit) portInput s ∧ s.Finished ∧
    s.listed.calls.length = 2 := by
  have lossless : Lossless portConfig := lossless_of_none fun _ => rfl
  obtain ⟨s, reached, finished⟩ : ∃ s, Reachable portConfig (noExchange Unit) portInput s ∧ s.Finished :=
    exists_end nofun (fun _ => by decide) .refl
  obtain ⟨printed, texts, -, count, -⟩ :=
    list_query_result rfl (fun _ => by decide) lossless reached finished
  have all : (∑ slave, (matching portConfig.query (portInput.files slave) : Multiset Bool)).card =
    3 := by decide
  rw [all] at count
  exact ⟨s, reached, finished, by rw [texts, List.length_map, count]; rfl⟩

end Listing

/-! ### Sorting -/

section Sorting
open Fdistdump.Sort

variable {K : Type} [LinearOrder K] {codec : RawCodec lib R} {q : SortQuery R K}

def sortConfig (q : SortQuery R K) (access : ListMode.Access layout R)
    (bfindex : τ → Option (FlowFile R → Bool)) :
    Config layout τ R (List R) :=
  ⟨.sort, q.query, q.recLimit, access, bfindex⟩

/-- The threads of the slaves, how `libnf_mem_sort` orders a memory, and what MPI buffers. -/
structure SortSetting (σ τ : Type) (q : SortQuery R K) where
  home : τ → σ
  staffed : ∀ slave, ∃ i, home i = slave
  sorted : List R → List R
  sorts : ∀ mem, Orders q.before mem (sorted mem)
  buffs : τ → BuffPair
  sendBuffers : (τ → List (Unit × Bytes)) → Prop

def SortSetting.exchanges (t : SortSetting σ τ q) (codec : RawCodec lib R) :
    Exchanges σ τ (List R) Unit Unit Unit lib :=
  singleExchange t.home t.staffed () t.buffs (fun mem => codec.mem (t.sorted mem)) q.recLimit
    t.sendBuffers

def sortInput (files : σ → List (FlowFile R)) (buffs : τ → BuffPair) : Input σ τ (List R) Unit R :=
  ⟨files, [], buffs, ()⟩

variable {access : ListMode.Access layout R} {bfindex : τ → Option (FlowFile R → Bool)}
  {t : SortSetting σ τ q}
  {files : σ → List (FlowFile R)} {buffs : τ → BuffPair} {s : State σ τ (List R) R Unit Unit Unit}
  [Nonempty τ]

/-- A sorting query, however it is scheduled, is a run over some distribution of the files of each
slave to its threads. -/
theorem sort_query_run (lossless : Lossless (sortConfig q access bfindex))
    (reached : Reachable (sortConfig q access bfindex) (t.exchanges codec) (sortInput files buffs) s)
    (finished : s.Finished) {masterOrder : List R}
    (masterSorted : Orders q.before ((s.exchange.data.calls.map codec.unraw).foldl listWrite [])
      masterOrder) :
    ∃ (assigned : τ → List (FlowFile R)) (run : SortRun codec q assigned),
      (∀ slave, (files slave : Multiset (FlowFile R)) =
        ∑ i with t.home i = slave, (assigned i : Multiset (FlowFile R))) ∧
      run.masterOrder = masterOrder := by
  obtain ⟨exchanged, assigned, all, mems⟩ := finished_parts (.inl rfl) reached finished
  have memory : memories s.files = fun i => threadMem q (assigned i) := funext fun i => by
    rw [mems, afterFiles_mem lossless i, Fdistdump.Sort.threadMem, processFiles_mem]
    rfl
  have phased := Rounds.finished_phased ((t.exchanges codec).aligned _) reached.exchange exchanged
  rw [memory] at phased
  obtain ⟨exchange, calls, -⟩ := first_exchange (e := t.exchanges codec) rfl phased
  refine ⟨assigned, ⟨_, fun i => t.sorts _, exchange, masterOrder, ?_⟩, all, rfl⟩
  rwa [calls] at masterSorted

omit [DecidableEq σ] [Fintype σ] in
theorem sortRun_extends {assigned : τ → List (FlowFile R)} (run : SortRun codec q assigned) :
    ∃ full : List R, (full : Multiset R) = ∑ i, (matching q.query (assigned i) : Multiset R) ∧
      full.Pairwise q.before ∧ limited q.recLimit run.masterOrder = limited q.recLimit full := by
  have master := run.masterSorted
  rw [foldl_listWrite, List.nil_append] at master
  rw [← run.complete]
  rcases Nat.eq_zero_or_pos q.recLimit with unlimited | positive
  · have all : run.unsent = [] := List.eq_nil_iff_forall_not_mem.mpr fun x member =>
      (run.unsent_late member).1 unlimited
    rw [all, List.append_nil]
    exact ⟨run.masterOrder, Multiset.coe_eq_coe.mpr master.perm, master.pairwise, rfl⟩
  · obtain ⟨full, ordered, same⟩ := master.extend fun x member => by
      rw [upTo_perm x master.perm]
      exact (run.unsent_late member).2
    refine ⟨full, Multiset.coe_eq_coe.mpr ordered.perm, ordered.pairwise, ?_⟩
    rw [limited_pos _ positive, limited_pos _ positive, same]

/-- However a sorting query is scheduled, what it prints is the beginning of an ordering of all
matching records in the files of all slaves. -/
theorem sort_query_result (lossless : Lossless (sortConfig q access bfindex))
    (reached : Reachable (sortConfig q access bfindex) (t.exchanges codec) (sortInput files buffs) s)
    (finished : s.Finished) {masterOrder rows : List R} {printRecords : Output.OutputItem}
    (masterSorted : Orders q.before ((s.exchange.data.calls.map codec.unraw).foldl listWrite [])
      masterOrder)
    (printed : Output.printBatch printRecords q.recLimit masterOrder = some rows) :
    ∃ full : List R, (full : Multiset R) = ∑ slave, (matching q.query (files slave) : Multiset R) ∧
      full.Pairwise (sortsBefore q.dir q.key) ∧ rows = limited q.recLimit full := by
  obtain ⟨assigned, run, all, rfl⟩ := sort_query_run lossless reached finished masterSorted
  rw [Output.printBatch_some printed, ← matching_assigned q.query all]
  exact sortRun_extends run

/-- The memories are sorted by insertion, and MPI buffers nothing. -/
def SortSetting.unbuffered (q : SortQuery R K) (home : τ → σ)
    (staffed : ∀ slave, ∃ i, home i = slave) (buffs : BuffPair) :
    SortSetting σ τ q where
  home
  staffed
  sorted mem := mem.insertionSort q.before
  sorts := orders_insertionSort
  buffs _ := buffs
  sendBuffers _ := False

def largestSetting : SortSetting (Fin 2) (Fin 3) largestBytes :=
  .unbuffered largestBytes twoSlaves twoSlaves_staffed blankBuffs

theorem sort_query_result_bytes :
    ∃ (s : State (Fin 2) (Fin 3) (List UInt8) UInt8 Unit Unit Unit) (masterOrder full : List UInt8),
      s.Finished ∧
      Orders largestBytes.before ((s.exchange.data.calls.map byteCodec.unraw).foldl listWrite [])
        masterOrder ∧
        (full : Multiset UInt8) = {3, 7, 5, 7} ∧ full.Pairwise (sortsBefore .desc UInt8.toNat) ∧
          Output.printRows 2 0 masterOrder = limited 2 full := by
  obtain ⟨s, reached, finished⟩ : ∃ s, Reachable (sortConfig largestBytes noFields fun _ => none)
    (largestSetting.exchanges byteCodec)
      (sortInput byteFiles fun _ => blankBuffs) s ∧ s.Finished := exists_end nofun nofun .refl
  obtain ⟨full, all, sorted, printed⟩ := sort_query_result (by nofun) reached finished
    (orders_insertionSort _) (rfl : Output.printBatch .yes 2 _ = _)
  exact ⟨s, _, full, finished, orders_insertionSort _, all, sorted, printed⟩

end Sorting

/-! ### Aggregation -/

section Aggregating

variable {K : Type} [DecidableEq K] {n : Nat} {codec : RawCodec lib (Entry K (Fields n))}
  {q : AggrQuery R K n}

def aggrConfig (q : AggrQuery R K n) (recLimit : Nat) (access : ListMode.Access layout R)
    (bfindex : τ → Option (FlowFile R → Bool)) : Config layout τ R (Table K (Fields n)) :=
  ⟨.aggr, q.query, recLimit, access, bfindex⟩

def aggrInput {H : Type} (slave : H) (files : σ → List (FlowFile R)) (buffs : τ → BuffPair) :
    Input σ τ (Table K (Fields n)) H R :=
  ⟨files, ∅, buffs, slave⟩

variable {recLimit : Nat} {access : ListMode.Access layout R} {bfindex : τ → Option (FlowFile R → Bool)}
  {files : σ → List (FlowFile R)} {buffs : τ → BuffPair} {assigned : τ → List (FlowFile R)}

omit [DecidableEq τ] in
theorem matchingAll_assigned {home : τ → σ}
    (all : ∀ slave, (files slave : Multiset (FlowFile R)) = ∑ i with home i = slave,
      (assigned i : Multiset (FlowFile R))) :
    matchingAll q assigned = matchingAll q files := by
  have records := matching_assigned q.query all
  have mapped := congrArg (Multiset.mapAddMonoidHom q.entry) records
  rw [map_sum, map_sum] at mapped
  exact mapped

/-- The memories of the threads when they have left the loop through the files. -/
theorem aggr_memories {H V T : Type} {e : Exchanges σ τ (Table K (Fields n)) H V T lib} {slave : H}
    {s : State σ τ (Table K (Fields n)) R H V T}
    (lossless : Lossless (aggrConfig q recLimit access bfindex))
    (reached : Reachable (aggrConfig q recLimit access bfindex) e (aggrInput slave files buffs) s)
    (finished : s.Finished) :
    s.exchange.Finished (e.program (memories s.files)) ∧ ∃ assigned : τ → List (FlowFile R),
      memories s.files = (fun i => threadMem q (assigned i)) ∧
      matchingAll q assigned = matchingAll q files := by
  obtain ⟨exchanged, assigned, all, mems⟩ := finished_parts (.inr rfl) reached finished
  refine ⟨exchanged, assigned, funext fun i => ?_, matchingAll_assigned all⟩
  rw [mems, afterFiles_mem lossless i, threadMem, processFiles_mem]
  rfl

/-- The threads of the slaves, how libnf iterates over a hash table, and what MPI buffers. -/
structure AggrSetting (σ τ K : Type) (n : Nat) where
  home : τ → σ
  staffed : ∀ slave, ∃ i, home i = slave
  order : Table K (Fields n) → List (Entry K (Fields n))
  perm : ∀ mem, (order mem).Perm mem.entries
  buffs : τ → BuffPair
  sendBuffers : (τ → List (Unit × Bytes)) → Prop

def AggrSetting.exchanges (t : AggrSetting σ τ K n) (codec : RawCodec lib (Entry K (Fields n))) :
    Exchanges σ τ (Table K (Fields n)) Unit Unit Unit lib :=
  singleExchange t.home t.staffed () t.buffs (fun mem => codec.mem (t.order mem)) 0 t.sendBuffers

variable {t : AggrSetting σ τ K n} {s : State σ τ (Table K (Fields n)) R Unit Unit Unit} [Nonempty τ]

/-- An aggregating query, however it is scheduled, is a run over some distribution of the files to
the threads. -/
theorem aggr_query_run {funcs : Fin n → AggrFunc} (same : q.funcs = funcs)
    (lossless : Lossless (aggrConfig q recLimit access bfindex))
    (reached : Reachable (aggrConfig q recLimit access bfindex) (t.exchanges codec)
      (aggrInput () files buffs) s)
    (finished : s.Finished) :
    ∃ (assigned : τ → List (FlowFile R)) (run : AggrRun codec funcs fun i => threadMem q (assigned i)),
      matchingAll q assigned = matchingAll q files ∧
        (s.exchange.data.calls.map codec.unraw).foldl (htWrite funcs) ∅ = run.master := by
  subst same
  obtain ⟨exchanged, assigned, memory, entries⟩ := aggr_memories lossless reached finished
  have phased := Rounds.finished_phased ((t.exchanges codec).aligned _) reached.exchange exchanged
  rw [memory] at phased
  obtain ⟨exchange, calls, -⟩ := first_exchange (e := t.exchanges codec) rfl phased
  refine ⟨assigned, ⟨_, fun i => t.perm _, exchange⟩, entries, ?_⟩
  rw [calls]
  rfl

/-- However an aggregating query is scheduled, the master ends with one record for each key, merged
from all matching records of all slaves with that key. -/
theorem aggr_query_result (lossless : Lossless (aggrConfig q recLimit access bfindex))
    (reached : Reachable (aggrConfig q recLimit access bfindex) (t.exchanges codec)
      (aggrInput () files buffs) s)
    (finished : s.Finished) (k : K) :
    ((s.exchange.data.calls.map codec.unraw).foldl (htWrite q.funcs) ∅).lookup k =
      reduce (aggregate q.funcs) (valuesAt k (matchingAll q files)) := by
  obtain ⟨assigned, run, entries, master⟩ := aggr_query_run rfl lossless reached finished
  rw [master, ← entries, ← reduce_threadMems]
  exact run.master_lookup k

/-- A hash table is iterated in the order of its list, and MPI buffers nothing. -/
def AggrSetting.unbuffered (home : τ → σ) (staffed : ∀ slave, ∃ i, home i = slave) (buffs : BuffPair) :
    AggrSetting σ τ K n where
  home
  staffed
  order := AList.entries
  perm mem := List.Perm.refl mem.entries
  buffs _ := buffs
  sendBuffers _ := False

def packetSetting : AggrSetting (Fin 2) (Fin 3) UInt8 1 :=
  .unbuffered twoSlaves twoSlaves_staffed blankBuffs

theorem aggr_query_result_packets :
    ∃ s : State (Fin 2) (Fin 3) (Table UInt8 (Fields 1)) (UInt8 × UInt64) Unit Unit Unit, s.Finished ∧
      ((s.exchange.data.calls.map keyedCodec.unraw).foldl (htWrite packetTotals.funcs) ∅).lookup 1 =
        some fun _ => 9 := by
  obtain ⟨s, reached, finished⟩ : ∃ s, Reachable (aggrConfig packetTotals 0 noFields fun _ => none)
    (packetSetting.exchanges keyedCodec)
      (aggrInput () packetFiles fun _ => blankBuffs) s ∧ s.Finished := exists_end nofun nofun .refl
  refine ⟨s, finished, ?_⟩
  rw [aggr_query_result (by nofun) reached finished]
  decide

end Aggregating

/-! ### Top-N queries -/

section Topping
open Tput

variable {K : Type} [DecidableEq K] {n : Nat} {codec : RawCodec lib (Entry K (Fields n))}
  {aq : AggrQuery R K n} {q : TputQuery n}

/-- Aggregating the records of a thread keeps their sums, as long as they fit. -/
theorem localValue_build {entries : List (Entry K (Fields n))} {k : K}
    (small : localValue q entries k < 2 ^ 64) :
    localValue q (build (aggregate q.funcs) entries).entries k = localValue q entries k := by
  let alone : Unit → List (Rec K n) := fun _ => entries
  have total_alone : total q alone k = localValue q entries k := by simp [total, alone]
  have values_alone : valuesAt k (∑ i, (alone i : Multiset (Rec K n))) = valuesAt k entries := by
    rw [Fintype.sum_unique]
  have looked := lookup_build (aggregate q.funcs) entries k
  cases present : (build (aggregate q.funcs) entries).lookup k with
  | none =>
    have absent : ∀ e ∈ (build (aggregate q.funcs) entries).entries, e.1 ≠ k := by
      rintro e member rfl
      rw [AList.lookup_eq_none] at present
      exact present (List.mem_map_of_mem member)
    rw [localValue_absent absent]
    rw [present, eq_comm, reduce_eq_none, Multiset.eq_zero_iff_forall_notMem] at looked
    symm
    apply localValue_absent
    rintro e member rfl
    exact looked e.2 (mem_valuesAt.mpr member)
  | some v =>
    have member := AList.mem_lookup_iff.mp present
    rw [localValue_mem (AList.nodupKeys _) member]
    rw [present] at looked
    have value : q.value (⟨k, v⟩ : Rec K n) = total q alone k := by
      apply value_reduce
      · rwa [total_alone]
      · rw [values_alone]
        exact looked.symm
    exact value.trans total_alone

variable {files : σ → List (FlowFile R)} {assigned : τ → List (FlowFile R)}

/-- The entries of the matching records of each slave. -/
abbrev slaveEntries (aq : AggrQuery R K n) (files : σ → List (FlowFile R)) (slave : σ) :
    List (Rec K n) :=
  matchingEntries aq (files slave)

omit [DecidableEq σ] [DecidableEq τ] in
theorem total_assigned
    (same : aq.funcs = q.funcs) (entries : matchingAll aq assigned = matchingAll aq files)
    (small : ∀ k, total q (slaveEntries aq files) k < 2 ^ 64) :
    total q (fun i => (threadMem aq (assigned i)).entries) = total q (slaveEntries aq files) := by
  funext k
  have raw : total q (fun i => matchingEntries aq (assigned i)) k =
      total q (slaveEntries aq files) k := by
    have sums :=
      congrArg (fun all => (((valuesAt k all).map (· q.sortKey)).map UInt64.toNat).sum) entries
    exact (sum_valuesAt k).symm.trans (sums.trans (sum_valuesAt k))
  rw [← raw]
  apply Finset.sum_congr rfl
  intro i _
  dsimp only
  rw [threadMem_build, same]
  apply localValue_build
  have part : localValue q (matchingEntries aq (assigned i)) k ≤
      total q (fun i => matchingEntries aq (assigned i)) k :=
    Finset.single_le_sum (f := fun i => localValue q (matchingEntries aq (assigned i)) k)
      (fun _ _ => Nat.zero_le _)
      (Finset.mem_univ i)
  exact part.trans_lt (raw ▸ small k)

omit [DecidableEq σ] [DecidableEq τ] in
theorem keys_assigned (entries : matchingAll aq assigned = matchingAll aq files) :
    keys (fun i => (threadMem aq (assigned i)).entries) = keys (slaveEntries aq files) := by
  ext k
  have merged := reduce_threadMems aq assigned k
  rw [entries] at merged
  rw [← valuesAt_ne_zero, ← valuesAt_ne_zero, ne_eq, ne_eq, ← reduce_eq_none (aggregate aq.funcs),
    ← reduce_eq_none (aggregate aq.funcs)]
  exact not_congr (Eq.congr_left merged)

variable {recLimit : Nat} {access : ListMode.Access layout R}
  {bfindex : τ → Option (FlowFile R → Bool)} {buffs : τ → BuffPair}
  {t : Setting σ τ codec q} {s : State σ τ (Table K (Fields n)) R SlaveCtx Broadcast TputTag}
  [Nonempty τ] {length : Nat}

/-- A top-N query, however it is scheduled, is a run of the three phases over some distribution of
the files to the threads. -/
theorem tput_query_run (common : ∀ r, (codec.raw r).length = length)
    (packs : (keys (slaveEntries aq files)).card * length < 2 ^ 31)
    (lossless : Lossless (aggrConfig aq recLimit access bfindex))
    (reached : Reachable (aggrConfig aq recLimit access bfindex) t.exchanges
      (aggrInput {} files buffs) s)
    (finished : s.Finished) :
    ∃ (assigned : τ → List (FlowFile R)) (run : TputRun codec q fun i => threadMem aq (assigned i)),
      matchingAll aq assigned = matchingAll aq files ∧ run.Fits length ∧
      t.master s.exchange = run.master := by
  obtain ⟨exchanged, assigned, memory, entries⟩ := aggr_memories lossless reached finished
  have all := keys_assigned entries
  have reached' : t.Reachable (fun i => threadMem aq (assigned i)) s.exchange :=
    memory ▸ reached.exchange
  have exchanged' : t.Finished (fun i => threadMem aq (assigned i)) s.exchange := memory ▸ exchanged
  have packable : Packable codec (fun i => threadMem aq (assigned i)) length := ⟨common, by rwa [all]⟩
  obtain ⟨run, -, fits, master⟩ := Setting.finished_run (Setting.fits_of_packable packable) reached'
    exchanged'
  exact ⟨assigned, run, entries, fits, master⟩

/-- However a descending top-N query is scheduled, every record the master ends with is merged from
all matching records with its key, and its first values are the largest totals over all files of all
slaves. -/
theorem tput_query_result (same : aq.funcs = q.funcs) (desc : q.dir = .desc)
    (bounded : ∀ k, total q (slaveEntries aq files) k ≤ 2 ^ 53)
    (common : ∀ r, (codec.raw r).length = length)
    (packs : (keys (slaveEntries aq files)).card * length < 2 ^ 31)
    (lossless : Lossless (aggrConfig aq recLimit access bfindex))
    (reached : Reachable (aggrConfig aq recLimit access bfindex) t.exchanges
      (aggrInput {} files buffs) s)
    (finished : s.Finished) :
    (∀ k v, (t.master s.exchange).lookup k = some v →
      ∀ j, v j = (q.funcs j).over ((valuesAt k (matchingAll aq files)).map (· j))) ∧
    topValues q (t.master s.exchange) =
      best q.dir.le q.recLimit
        ((keys (slaveEntries aq files)).val.map (total q (slaveEntries aq files))) := by
  obtain ⟨assigned, run, entries, fits, master⟩ := tput_query_run common packs lossless reached finished
  have totals := total_assigned same entries fun k => (bounded k).trans_lt (by norm_num)
  have boundedMems : Bounded q fun i => threadMem aq (assigned i) := fun k => by
    rw [totals]
    exact bounded k
  rw [master]
  refine ⟨?_, ?_⟩
  · intro k v present j
    rw [run.master_lookup fits] at present
    split at present
    · rw [← same, reduce_threadMems, entries, same] at present
      exact reduce_field q.funcs present j
    · cases present
  · rw [run.descending_values fits desc boundedMems, totals, keys_assigned entries]

def topPackets : Setting (Fin 2) (Fin 3) keyedCodec (topOne .desc) :=
  .unbuffered keyedCodec (topOne .desc) twoSlaves twoSlaves_staffed blankBuffs

theorem tput_query_result_packets :
    ∃ s : State (Fin 2) (Fin 3) (Table UInt8 (Fields 1)) (UInt8 × UInt64) SlaveCtx Broadcast
      TputTag, s.Finished ∧
      topValues (topOne .desc) (topPackets.master s.exchange) = [9] := by
  obtain ⟨s, reached, finished⟩ : ∃ s, Reachable (aggrConfig packetTotals 1 noFields fun _ => none)
    (topPackets.exchanges)
      (aggrInput {} packetFiles fun _ => blankBuffs) s ∧ s.Finished := exists_end nofun nofun .refl
  refine ⟨s, finished, ?_⟩
  have bounded : ∀ k, total (topOne .desc) (slaveEntries packetTotals packetFiles) k ≤ 2 ^ 53 := by
    intro k
    calc total (topOne .desc) (slaveEntries packetTotals packetFiles) k
      _ ≤ ∑ i, ((slaveEntries packetTotals packetFiles i).map (topOne .desc).value).sum :=
        Finset.sum_le_sum fun i _ => localValue_le_sum _ k
      _ ≤ 2 ^ 53 := by decide
  have common : ∀ r, (keyedCodec.raw r).length = 9 := fun _ => rfl
  rw [(tput_query_result rfl rfl bounded common (by decide) (by nofun) reached finished).2]
  decide

end Topping

end Fdistdump.Main
