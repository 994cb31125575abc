import Fdistdump.Tput.Phases

/-!
# Totals, partial sums and pruning

What TPUT is about, stated on the memories of the threads alone: the total of a key, the partial sum
phase 1 sees of it, the threshold, and which keys phase 2 lets through.
-/

namespace Fdistdump.Tput
open Aggregation KeyedFold Ranking

variable {ι K : Type} {n : Nat} [Fintype ι] [DecidableEq K] (q : TputQuery n)

def localValue (recs : List (Rec K n)) (k : K) : Nat :=
  ((recs.filter fun e => e.1 = k).map q.value).sum

def total (orders : ι → List (Rec K n)) (k : K) : Nat := ∑ i, localValue q (orders i) k

def keys (orders : ι → List (Rec K n)) : Finset K :=
  Finset.univ.biUnion fun i => ((orders i).map Sigma.fst).toFinset

omit [Fintype ι] [DecidableEq K] in
def firsts (orders : ι → List (Rec K n)) (i : ι) : List (Rec K n) := (orders i).take q.recLimit

/-- The `N`-th best partial sum, the last one if there are fewer, zero if there are none. -/
def bottom (orders : ι → List (Rec K n)) : Nat :=
  (best q.dir.le q.recLimit
    ((keys (firsts q orders)).val.map (total q (firsts q orders)))).getLast?.getD 0

def topValues (q : TputQuery n) (table : Table K (Fields n)) : List Nat :=
  best q.dir.le q.recLimit (table.entries.map q.value)

def threshold (orders : ι → List (Rec K n)) : Nat :=
  (bottom q orders + Fintype.card ι - 1) / Fintype.card ι

/-- Some thread sends the key in phase 2: its record meets the threshold, or no record there does. -/
def Kept (orders : ι → List (Rec K n)) (k : K) : Prop :=
  ∃ i, ∃ e ∈ orders i, e.1 = k ∧
    (q.meets (threshold q orders) e ∨ ∀ e' ∈ orders i, ¬ q.meets (threshold q orders) e')

instance (orders : ι → List (Rec K n)) : DecidablePred (Kept q orders) := fun k =>
  inferInstanceAs (Decidable (∃ i, ∃ e ∈ orders i, e.1 = k ∧ _))

variable {q} {orders : ι → List (Rec K n)} {k : K}

theorem mem_keys : k ∈ keys orders ↔ ∃ i, ∃ e ∈ orders i, e.1 = k := by
  simp [keys]

theorem Kept.mem (kept : Kept q orders k) : k ∈ keys orders := by
  obtain ⟨i, e, member, same, -⟩ := kept
  exact mem_keys.mpr ⟨i, e, member, same⟩

omit [Fintype ι] in
theorem localValue_sublist {xs ys : List (Rec K n)} (inside : xs.Sublist ys) :
    localValue q xs k ≤ localValue q ys k :=
  ((inside.filter _).map _).sum_le_sum (by simp)

omit [Fintype ι] in
theorem localValue_le_sum (recs : List (Rec K n)) (k : K) :
    localValue q recs k ≤ (recs.map q.value).sum :=
  (List.filter_sublist.map _).sum_le_sum (by simp)

theorem total_perm {orders orders' : ι → List (Rec K n)} (perm : ∀ i, (orders i).Perm (orders' i)) :
    total q orders = total q orders' := by
  funext k
  exact Finset.sum_congr rfl fun i _ => (((perm i).filter _).map _).sum_eq

theorem keys_perm {orders orders' : ι → List (Rec K n)} (perm : ∀ i, (orders i).Perm (orders' i)) :
    keys orders = keys orders' := by
  ext k
  simp [mem_keys, (perm _).mem_iff]

theorem firsts_total_le : total q (firsts q orders) k ≤ total q orders k :=
  Finset.sum_le_sum fun _ _ => localValue_sublist (List.take_sublist _ _)

theorem keys_firsts_subset : keys (firsts q orders) ⊆ keys orders := fun k member => by
  obtain ⟨i, e, first, same⟩ := mem_keys.mp member
  exact mem_keys.mpr ⟨i, e, List.mem_of_mem_take first, same⟩

variable (q orders) in
theorem bottom_partial : bottom q orders = 0 ∨ ∃ k ∈ keys (firsts q orders),
    bottom q orders = total q (firsts q orders) k := by
  unfold bottom
  cases last : (best q.dir.le q.recLimit
    ((keys (firsts q orders)).val.map (total q (firsts q orders)))).getLast? with
  | none => exact Or.inl rfl
  | some x =>
    obtain ⟨k, member, same⟩ := Multiset.mem_map.mp (best_subset (List.mem_of_getLast? last))
    exact Or.inr ⟨k, member, same.symm⟩

theorem bottom_le {bound : Nat} (bounded : ∀ k, total q orders k ≤ bound) : bottom q orders ≤ bound := by
  rcases bottom_partial q orders with zero | ⟨k, -, same⟩
  · omega
  · rw [same]
    exact firsts_total_le.trans (bounded k)

variable (q orders) in
/-- At least `N` partial sums, or all of them, are as good as the bottom. -/
theorem bottom_reached :
    min q.recLimit (keys (firsts q orders)).card ≤
      ((keys (firsts q orders)).filter fun k => q.dir.le (total q (firsts q orders) k)
        (bottom q orders)).card := by
  have length := best_length (r := q.dir.le) q.recLimit
    ((keys (firsts q orders)).val.map (total q (firsts q orders)))
  rw [Multiset.card_map] at length
  unfold bottom
  cases last : (best q.dir.le q.recLimit
    ((keys (firsts q orders)).val.map (total q (firsts q orders)))).getLast? with
  | none =>
    rw [List.getLast?_eq_none_iff.mp last] at length
    exact length ▸ Nat.zero_le _
  | some x =>
    have reached := best_getLast last
    rw [Multiset.card_map, Multiset.countP_map] at reached
    exact reached

omit [Fintype ι] in
theorem localValue_mem {recs : List (Rec K n)} (distinct : recs.NodupKeys) {e : Rec K n}
    (member : e ∈ recs) : localValue q recs e.1 = q.value e := by
  induction recs with
  | nil => cases member
  | cons a rest ih =>
    obtain ⟨absent, distinct⟩ := List.nodupKeys_cons.mp distinct
    have none : ∀ b ∈ rest, b.1 ≠ a.1 := fun b inside same =>
      absent (same ▸ List.mem_map_of_mem inside)
    rcases List.mem_cons.mp member with rfl | inside
    · rw [localValue, List.filter_cons_of_pos (by simp), List.filter_eq_nil_iff.mpr
        (by simpa using none)]
      simp
    · rw [localValue, List.filter_cons_of_neg (by simpa using (none e inside).symm)]
      exact ih distinct inside

omit [Fintype ι] in
theorem localValue_absent {recs : List (Rec K n)} (absent : ∀ e ∈ recs, e.1 ≠ k) :
    localValue q recs k = 0 := by
  rw [localValue, List.filter_eq_nil_iff.mpr (by simpa using absent)]
  rfl

/-! ### Descending order -/

theorem total_lt_of_shares {bottom : Nat} (distinct : ∀ i, (orders i).NodupKeys)
    (member : k ∈ keys orders)
    (below : ∀ j, ∀ a ∈ orders j, a.1 = k → q.value a < (bottom + Fintype.card ι - 1) / Fintype.card ι) :
    total q orders k < bottom := by
  obtain ⟨i, e, present, rfl⟩ := mem_keys.mp member
  obtain ⟨part, shape⟩ : ∃ part, part = (bottom + Fintype.card ι - 1) / Fintype.card ι := ⟨_, rfl⟩
  rw [← shape] at below
  have positive : 0 < part := Nat.zero_lt_of_lt (below i e present rfl)
  have shares : ∀ j, localValue q (orders j) e.1 ≤ part - 1 := fun j => by
    by_cases holds : ∃ a ∈ orders j, a.1 = e.1
    · obtain ⟨a, inside, same⟩ := holds
      rw [← same, localValue_mem (distinct j) inside]
      have := below j a inside same
      omega
    · rw [localValue_absent fun a inside same => holds ⟨a, inside, same⟩]
      exact Nat.zero_le _
  have divided : part * Fintype.card ι ≤ bottom + Fintype.card ι - 1 := shape ▸ Nat.div_mul_le_self _ _
  have threads : 0 < Fintype.card ι := Fintype.card_pos_iff.mpr ⟨i⟩
  have spread : (part - 1) * Fintype.card ι + Fintype.card ι = part * Fintype.card ι := by
    rw [← Nat.succ_mul, Nat.succ_eq_add_one, Nat.sub_add_cancel positive]
  calc total q orders e.1 ≤ ∑ _j : ι, (part - 1) := Finset.sum_le_sum fun j _ => shares j
    _ = (part - 1) * Fintype.card ι := by simp [mul_comm]
    _ < bottom := by omega

/-- A key that is pruned has a total below the bottom: each of its shares is below the threshold. -/
theorem pruned_total_lt (desc : q.dir = .desc) (distinct : ∀ i, (orders i).NodupKeys)
    (member : k ∈ keys orders) (pruned : ¬ Kept q orders k) : total q orders k < bottom q orders := by
  apply total_lt_of_shares distinct member
  intro j a inside same
  by_contra reaches
  refine pruned ⟨j, a, inside, same, Or.inl ?_⟩
  rw [TputQuery.meets, desc]
  exact Nat.le_of_not_lt reaches

omit [Fintype ι] in
theorem card_keys_of_nodup {recs : List (Rec K n)} (distinct : recs.NodupKeys) :
    (recs.map Sigma.fst).toFinset.card = recs.length := by
  exact (List.toFinset_card_of_nodup distinct).trans (List.length_map _)

theorem firsts_all (distinct : ∀ i, (orders i).NodupKeys)
    (few : (keys (firsts q orders)).card < q.recLimit) : firsts q orders = orders := by
  funext i
  apply List.take_of_length_le
  by_contra long
  have part : ((firsts q orders i).map Sigma.fst).toFinset ⊆ keys (firsts q orders) :=
    Finset.subset_biUnion_of_mem (fun i => ((firsts q orders i).map Sigma.fst).toFinset)
      (Finset.mem_univ i)
  have nodup : (firsts q orders i).NodupKeys := (distinct i).sublist (List.take_sublist _ _)
  have count := Finset.card_le_card part
  rw [card_keys_of_nodup nodup, firsts, List.length_take] at count
  omega

theorem descending_safe (desc : q.dir = .desc) (distinct : ∀ i, (orders i).NodupKeys)
    (member : k ∈ keys orders) (pruned : ¬ Kept q orders k) :
    q.recLimit ≤ ((keys orders).filter fun k' =>
      Kept q orders k' ∧ q.dir.le (total q orders k') (total q orders k)).card := by
  have below := pruned_total_lt desc distinct member pruned
  have reached := bottom_reached q orders
  by_cases enough : q.recLimit ≤ (keys (firsts q orders)).card
  · rw [Nat.min_eq_left enough] at reached
    refine reached.trans (Finset.card_le_card fun k' inside => ?_)
    obtain ⟨first, high⟩ := Finset.mem_filter.mp inside
    rw [desc] at high
    have high : bottom q orders ≤ total q orders k' := high.trans firsts_total_le
    have present := keys_firsts_subset first
    refine Finset.mem_filter.mpr ⟨present, ?_, ?_⟩
    · by_contra lost
      exact absurd (pruned_total_lt desc distinct present lost) (not_lt.mpr high)
    · rw [desc]
      exact below.le.trans high
  · rw [Nat.min_eq_right (by omega)] at reached
    have all := Finset.eq_of_subset_of_card_le (Finset.filter_subset _ _) reached
    have same := firsts_all (q := q) distinct (by omega)
    have inside : k ∈ keys (firsts q orders) := by rw [same]; exact member
    rw [← all] at inside
    have high := (Finset.mem_filter.mp inside).2
    rw [desc, same] at high
    exact absurd below (not_lt.mpr high)

end Fdistdump.Tput
