import Fdistdump.Tput.Run

/-!
# TPUT against the naive method

The memory TPUT leaves is compared with the memory that results when every thread sends everything.
In descending order the first values agree; in ascending order they agree exactly when pruning was
safe, which the data decide. All this is about runs whose phase 3 broadcast can carry the kept records.
-/

namespace Fdistdump.Tput
open Aggregation Exchange KeyedFold Ranking

variable {ι K : Type} {n : Nat} [Fintype ι] [DecidableEq ι] [DecidableEq K] {lib : Libnf}
  {codec : RawCodec lib (Rec K n)} {q : TputQuery n} {mems : ι → Table K (Fields n)}

/-- Per-key totals are at most `2 ^ 53`. -/
def Bounded (q : TputQuery n) (mems : ι → Table K (Fields n)) : Prop :=
  ∀ k, total q (fun i => (mems i).entries) k ≤ 2 ^ 53

theorem Selection.small (selection : Selection codec q mems) (bounded : Bounded q mems) (k : K) :
    total q selection.order k ≤ 2 ^ 53 := by
  rw [total_perm fun i => (selection.iterated i).perm]
  exact bounded k

theorem Selection.allEntries_order (selection : Selection codec q mems) :
    allEntries mems = ∑ i, (selection.order i : Multiset (Rec K n)) :=
  Finset.sum_congr rfl fun i _ => (Multiset.coe_eq_coe.mpr (selection.iterated i).perm).symm

variable [Nonempty ι] (run : TputRun codec q mems) (naive : AggrRun codec q.funcs mems) {length : Nat}

theorem naive_values (bounded : Bounded q mems) :
    (naive.master.entries.map q.value : Multiset Nat) = (keys run.order).val.map
      (total q run.order) := by
  have perm : ∀ i, (run.order i).Perm (naive.threadOrder i) := fun i =>
    (run.iterated i).perm.trans (naive.threadIterated i).symm
  rw [keys_perm perm, total_perm perm]
  refine written_values naive.exchange.written_multiset ?_
  intro k
  rw [← total_perm perm]
  exact (run.small bounded k).trans_lt (by norm_num)

theorem naive_value (bounded : Bounded q mems) {e : Rec K n} (present : e ∈ naive.master.entries) :
    e.1 ∈ keys run.order ∧ q.value e = total q run.order e.1 := by
  have reduced : reduce (aggregate q.funcs) (valuesAt e.1 (∑ i, (run.order i : Multiset (Rec K n)))) =
      some e.2 := by
    rw [← run.allEntries_order, ← naive.master_lookup]
    exact AList.mem_lookup_iff.mpr present
  refine ⟨valuesAt_ne_zero.mp fun none => ?_, value_reduce ?_ reduced⟩
  · rw [none] at reduced
    cases reduced
  · exact (run.small bounded e.1).trans_lt (by norm_num)

theorem TputRun.mem_master (fits : run.Fits length) (bounded : Bounded q mems) (k : K) :
    k ∈ run.master ↔ k ∈ (keys run.order).filter (Kept q run.order) := by
  have received := run.broadcast_keys (run.small bounded) k
  rw [Finset.mem_filter, ← AList.lookup_isSome, run.master_lookup fits]
  by_cases kept : Kept q run.order k
  · have occurs := valuesAt_ne_zero.mpr kept.mem
    rw [← run.allEntries_order, ne_eq, ← reduce_eq_none (aggregate q.funcs)] at occurs
    rw [if_pos (received.mpr kept), Option.isSome_iff_ne_none]
    exact ⟨fun _ => ⟨kept.mem, kept⟩, fun _ => occurs⟩
  · rw [if_neg (mt received.mp kept)]
    exact ⟨fun none => absurd none (by simp), fun both => absurd both.2 kept⟩

theorem TputRun.master_values (fits : run.Fits length) (bounded : Bounded q mems) :
    (run.master.entries.map q.value : Multiset Nat) =
      ((keys run.order).filter (Kept q run.order)).val.map (total q run.order) := by
  refine table_values (run.mem_master fits bounded) ?_
  intro k v looked
  refine value_reduce ((run.small bounded k).trans_lt (by norm_num)) ?_
  rw [run.master_lookup fits] at looked
  split at looked
  · rw [← run.allEntries_order]
    exact looked
  · cases looked

/-- Pruning was safe: every pruned key has `N` kept keys before it. -/
def Safe (q : TputQuery n) (orders : ι → List (Rec K n)) : Prop :=
  ∀ k ∈ keys orders, ¬ Kept q orders k → q.recLimit ≤ ((keys orders).filter fun k' =>
    Kept q orders k' ∧ q.dir.le (total q orders k') (total q orders k)).card

instance (orders : ι → List (Rec K n)) : Decidable (Safe q orders) :=
  inferInstanceAs (Decidable (∀ k ∈ keys orders, _))

theorem topValues_eq_iff (fits : run.Fits length) (bounded : Bounded q mems) :
    topValues q run.master = topValues q naive.master ↔ Safe q run.order := by
  have parts : (keys run.order).val.map (total q run.order) =
      ((keys run.order).filter (Kept q run.order)).val.map (total q run.order) +
        ((keys run.order).filter fun k => ¬ Kept q run.order k).val.map (total q run.order) := by
    rw [← Multiset.map_add, Finset.filter_val, Finset.filter_val, Multiset.filter_add_not]
  rw [topValues, topValues, run.master_values fits bounded, naive_values run naive bounded,
    parts, eq_comm,
    best_add]
  have count : ∀ x, (((keys run.order).filter (Kept q run.order)).val.map (total q run.order)).countP
      (fun y => q.dir.le y x) = ((keys run.order).filter fun k' =>
        Kept q run.order k' ∧ q.dir.le (total q run.order k') x).card := fun x => by
    rw [Multiset.countP_map, ← Finset.filter_filter]
    rfl
  constructor
  · intro late k member pruned
    rw [← count]
    exact late _ (Multiset.mem_map.mpr ⟨k, Finset.mem_filter.mpr ⟨member, pruned⟩, rfl⟩)
  · intro safe x outside
    obtain ⟨k, inside, rfl⟩ := Multiset.mem_map.mp outside
    obtain ⟨member, pruned⟩ := Finset.mem_filter.mp inside
    rw [count]
    exact safe k member pruned

/-! ### Descending order -/

theorem TputRun.master_exact (fits : run.Fits length) {k : K} {v : Fields n}
    (present : run.master.lookup k = some v) :
    naive.master.lookup k = some v ∧
      ∀ j, v j = (q.funcs j).over ((valuesAt k (allEntries mems)).map (· j)) := by
  rw [run.master_lookup fits] at present
  split at present
  · exact ⟨naive.master_lookup k ▸ present, reduce_field q.funcs present⟩
  · cases present

/-- What a memory has in common with that of the naive method: its records are exact, it misses no
key with a total above the `N`-th largest, and its `N` largest values are the right ones. -/
structure DescendingAgrees (q : TputQuery n) (mems : ι → Table K (Fields n))
    (master naive : Table K (Fields n)) :
    Prop where
  exact : ∀ k v, master.lookup k = some v → naive.lookup k = some v ∧
    ∀ j, v j = (q.funcs j).over ((valuesAt k (allEntries mems)).map (· j))
  above : ∀ e ∈ naive.entries,
    (∀ b, (topValues q naive)[q.recLimit - 1]? = some b → b < q.value e) → e ∈ master.entries
  values : topValues q master = topValues q naive

theorem TputRun.descending_agrees (fits : run.Fits length) (desc : q.dir = .desc)
    (bounded : Bounded q mems) :
    DescendingAgrees q mems run.master naive.master := by
  have distinct : ∀ i, (run.order i).NodupKeys := fun i =>
    (List.perm_nodupKeys (run.iterated i).perm).mpr (mems i).nodupKeys
  have safe : Safe q run.order := fun k member pruned => descending_safe desc distinct member pruned
  have agree := (topValues_eq_iff run naive fits bounded).mpr safe
  refine ⟨fun k v present => run.master_exact naive fits present, fun e present above => ?_, agree⟩
  obtain ⟨member, value⟩ := naive_value run naive bounded present
  by_cases kept : Kept q run.order e.1
  · apply AList.mem_lookup_iff.mp
    rw [run.master_lookup fits, if_pos ((run.broadcast_keys (run.small bounded) e.1).mpr kept),
      ← naive.master_lookup]
    exact AList.mem_lookup_iff.mpr present
  · -- a pruned key is no better than the N-th value
    have ahead : q.recLimit ≤ (naive.master.entries.map q.value : Multiset Nat).countP
        fun y => q.dir.le y (q.value e) := by
      rw [naive_values run naive bounded, Multiset.countP_map, value]
      have weaker : ((keys run.order).filter fun k' => Kept q run.order k' ∧
          q.dir.le (total q run.order k') (total q run.order e.1)) ⊆ (keys run.order).filter fun k' =>
            q.dir.le (total q run.order k') (total q run.order e.1) :=
        Finset.monotone_filter_right _ fun _ _ both => both.2
      exact (safe e.1 member kept).trans (Finset.card_le_card weaker)
    have long : q.recLimit - 1 < (topValues q naive.master).length := by
      rw [topValues, best_length]
      have := ahead.trans (Multiset.countP_le_card _ _)
      have := q.limited
      omega
    have last := above _ (List.getElem?_eq_getElem long)
    have before := best_before ahead _ (List.getElem_mem long)
    rw [desc] at before
    exact absurd last (not_lt.mpr before)

def topOne (dir : SortDir) : TputQuery 1 where
  funcs _ := .sum
  sortKey := ⟨0, Nat.one_pos⟩
  summed := rfl
  dir := dir
  recLimit := 1
  limited := Nat.one_pos

/-- Key 2 lies on one thread only; keys 1 and 3 are spread unevenly over two. -/
def unevenMems : Fin 2 → Table UInt8 (Fields 1)
  | 0 => ⟨[⟨1, fun _ => 1⟩, ⟨2, fun _ => 3⟩, ⟨3, fun _ => 100⟩],
    by simp [List.NodupKeys]⟩
  | 1 => ⟨[⟨3, fun _ => 1⟩, ⟨1, fun _ => 100⟩], by simp [List.NodupKeys]⟩

theorem unevenMems_bounded (dir : SortDir) : Bounded (topOne dir) unevenMems := fun k =>
  calc total (topOne dir) (fun i => (unevenMems i).entries) k
      ≤ ∑ i, ((unevenMems i).entries.map (topOne dir).value).sum :=
        Finset.sum_le_sum fun i _ => localValue_le_sum _ k
    _ ≤ 2 ^ 53 := by cases dir <;> decide

/-! ### Ascending order -/

/-- In ascending order a key is pruned when every share of it is above the threshold, on threads that
hold some record within the threshold. -/
def PrunedAscending (q : TputQuery n) (orders : ι → List (Rec K n)) (k : K) : Prop :=
  ∀ i, ∀ e ∈ orders i, e.1 = k →
    threshold q orders < q.value e ∧ ∃ e' ∈ orders i, q.value e' ≤ threshold q orders

instance (orders : ι → List (Rec K n)) : DecidablePred (PrunedAscending q orders) := fun k =>
  inferInstanceAs (Decidable (∀ i, ∀ e ∈ orders i, e.1 = k → _))

omit [DecidableEq ι] [Nonempty ι] in
theorem kept_ascending (asc : q.dir = .asc) (orders : ι → List (Rec K n)) (k : K) :
    Kept q orders k ↔ ¬ PrunedAscending q orders k := by
  simp only [Kept, PrunedAscending, TputQuery.meets, asc, SortDir.le]
  constructor
  · rintro ⟨i, e, member, same, sent⟩ pruned
    obtain ⟨above, e', member', within⟩ := pruned i e member same
    exact sent.elim (not_le.mpr above) fun none => none e' member' within
  · intro kept
    by_contra unsent
    refine kept fun i e member same => ⟨?_, ?_⟩
    · by_contra within
      exact unsent ⟨i, e, member, same, Or.inl (not_lt.mp within)⟩
    · by_contra none
      exact unsent ⟨i, e, member, same, Or.inr fun e' member' within => none ⟨e', member', within⟩⟩

/-- Every pruned key has `N` others at or below its total that were not pruned. -/
def AscendingSafe (q : TputQuery n) (orders : ι → List (Rec K n)) : Prop :=
  ∀ k ∈ keys orders, PrunedAscending q orders k → q.recLimit ≤ ((keys orders).filter fun k' =>
    ¬ PrunedAscending q orders k' ∧ total q orders k' ≤ total q orders k).card

/-- In ascending order TPUT finds the `N` smallest totals exactly when no key among them was pruned. -/
theorem TputRun.ascending_agrees_iff (fits : run.Fits length) (asc : q.dir = .asc)
    (bounded : Bounded q mems) :
    topValues q run.master = topValues q naive.master ↔ AscendingSafe q run.order := by
  rw [topValues_eq_iff run naive fits bounded, Safe, AscendingSafe]
  simp only [kept_ascending asc, not_not, asc, SortDir.le]

end Fdistdump.Tput
