import Mathlib.Data.List.AList
import Mathlib.Data.Multiset.Fold
import Mathlib.Algebra.BigOperators.Group.Finset.Basic

/-!
# Folding by key

A table keeps one value per key; writing an entry merges it into the value stored under its key. With
an associative and commutative merge, what a table holds depends only on the multiset of the written
entries, and tables can be merged in any grouping.
-/

namespace KeyedFold

variable {K V : Type}

abbrev Entry (K V : Type) : Type := (_ : K) × V

/-- A finite map: a list of entries with distinct keys. -/
abbrev Table (K V : Type) : Type := AList fun _ : K => V

section Reduce
variable (f : V → V → V) [Std.Commutative f] [Std.Associative f]

/-- All values merged into one; `none` when there are none. -/
def reduce (values : Multiset V) : Option V := (values.map some).fold (Option.merge f) none

@[simp] theorem reduce_zero : reduce f 0 = none := rfl

@[simp] theorem reduce_singleton (v : V) : reduce f {v} = some v := by
  rw [reduce, Multiset.map_singleton, Multiset.fold_singleton]
  rfl

theorem reduce_add (s t : Multiset V) : reduce f (s + t) = (reduce f s).merge f (reduce f t) := by
  rw [reduce, Multiset.map_add]
  exact @Multiset.fold_add _ (Option.merge f) _ _ none none _ _

theorem reduce_cons (v : V) (s : Multiset V) :
    reduce f (v ::ₘ s) = (some v).merge f (reduce f s) := by
  rw [← Multiset.singleton_add, reduce_add, reduce_singleton]

theorem reduce_eq_none {s : Multiset V} : reduce f s = none ↔ s = 0 := by
  induction s using Multiset.induction with
  | empty => simp
  | cons v s ih => simp [reduce_cons]

/-- The values of an option, none or one. -/
def ofOption : Option V → Multiset V
  | none => 0
  | some v => {v}

theorem reduce_ofOption (o : Option V) : reduce f (ofOption o) = o := by
  cases o <;> simp [ofOption]

theorem reduce_groups {ι : Type} (groups : Finset ι) (values : ι → Multiset V) :
    reduce f (∑ i ∈ groups, ofOption (reduce f (values i))) = reduce f (∑ i ∈ groups, values i) := by
  classical
  induction groups using Finset.induction_on with
  | empty => rfl
  | insert i rest absent ih =>
    rw [Finset.sum_insert absent, Finset.sum_insert absent, reduce_add, reduce_add, ih,
      reduce_ofOption]

theorem reduce_hom {W : Type} {g : W → W → W} [Std.Commutative g] [Std.Associative g] {unit : W}
    (neutral : ∀ w, g w unit = w) {h : V → W} (hom : ∀ a b, h (f a b) = g (h a) (h b))
    {s : Multiset V} {v : V} (reduced : reduce f s = some v) : h v = (s.map h).fold g unit := by
  induction s using Multiset.induction generalizing v with
  | empty => simp at reduced
  | cons w s ih =>
    rw [reduce_cons] at reduced
    rw [Multiset.map_cons, Multiset.fold_cons_left]
    cases rest : reduce f s with
    | none =>
      rw [(reduce_eq_none f).mp rest, Multiset.map_zero, Multiset.fold_zero, neutral]
      rw [rest] at reduced
      exact congrArg h (Option.some.inj reduced.symm)
    | some u =>
      rw [rest] at reduced
      rw [← ih rest, ← hom]
      exact congrArg h (Option.some.inj reduced.symm)

end Reduce

variable [DecidableEq K]

def valuesAt (k : K) (entries : Multiset (Entry K V)) : Multiset V :=
  (entries.filter fun e => e.1 = k).map Sigma.snd

@[simp] theorem valuesAt_zero (k : K) : valuesAt k (0 : Multiset (Entry K V)) = 0 := rfl

theorem valuesAt_add (k : K) (s t : Multiset (Entry K V)) :
    valuesAt k (s + t) = valuesAt k s + valuesAt k t := by
  simp [valuesAt]

theorem valuesAt_cons (k : K) (e : Entry K V) (s : Multiset (Entry K V)) :
    valuesAt k (e ::ₘ s) = (if e.1 = k then {e.2} else 0) + valuesAt k s := by
  by_cases same : e.1 = k <;> simp [valuesAt, same]

theorem valuesAt_sum {ι : Type} (k : K) (groups : Finset ι) (entries : ι → Multiset (Entry K V)) :
    valuesAt k (∑ i ∈ groups, entries i) = ∑ i ∈ groups, valuesAt k (entries i) := by
  classical
  induction groups using Finset.induction_on with
  | empty => rfl
  | insert i rest absent ih =>
    rw [Finset.sum_insert absent, Finset.sum_insert absent, valuesAt_add, ih]

theorem mem_valuesAt {k : K} {v : V} {entries : Multiset (Entry K V)} :
    v ∈ valuesAt k entries ↔ ⟨k, v⟩ ∈ entries := by
  simp only [valuesAt, Multiset.mem_map, Multiset.mem_filter]
  constructor
  · rintro ⟨⟨_, _⟩, ⟨member, rfl⟩, rfl⟩
    exact member
  · intro member
    exact ⟨⟨k, v⟩, ⟨member, rfl⟩, rfl⟩

theorem valuesAt_nodup {entries : List (Entry K V)} (distinct : entries.NodupKeys) (k : K) :
    valuesAt k (entries : Multiset (Entry K V)) = ofOption (entries.dlookup k) := by
  induction entries with
  | nil => rfl
  | cons e rest ih =>
    obtain ⟨absent, distinct⟩ := List.nodupKeys_cons.mp distinct
    rw [← Multiset.cons_coe, valuesAt_cons, ih distinct]
    by_cases same : e.1 = k
    · subst same
      rw [List.dlookup_cons_eq, if_pos rfl, List.dlookup_eq_none.mpr absent]
      rfl
    · rw [List.dlookup_cons_ne rest e (Ne.symm same), if_neg same, zero_add]

/-! ### Writing a table -/

def write (f : V → V → V) (table : Table K V) (e : Entry K V) : Table K V :=
  table.insert e.1 (match table.lookup e.1 with
    | none => e.2
    | some stored => f stored e.2)

def build (f : V → V → V) (entries : List (Entry K V)) : Table K V := entries.foldl (write f) ∅

variable (f : V → V → V) [Std.Commutative f] [Std.Associative f]

theorem lookup_write (table : Table K V) (e : Entry K V) (k : K) :
    (write f table e).lookup k =
      (table.lookup k).merge f (reduce f (valuesAt k {e})) := by
  have single : valuesAt k {e} = if e.1 = k then {e.2} else 0 := by
    rw [← Multiset.cons_zero, valuesAt_cons, valuesAt_zero, add_zero]
  rw [single, write]
  by_cases same : e.1 = k
  · subst same
    rw [AList.lookup_insert, if_pos rfl, reduce_singleton]
    cases table.lookup e.1 <;> rfl
  · rw [AList.lookup_insert_ne (Ne.symm same), if_neg same, reduce_zero]
    cases table.lookup k <;> rfl

theorem lookup_foldl_write (entries : List (Entry K V)) (table : Table K V) (k : K) :
    (entries.foldl (write f) table).lookup k =
      (table.lookup k).merge f (reduce f (valuesAt k entries)) := by
  induction entries generalizing table with
  | nil => simp
  | cons e rest ih =>
    rw [List.foldl_cons, ih, lookup_write, ← Multiset.cons_coe, ← Multiset.singleton_add,
      valuesAt_add, reduce_add]
    exact @Std.Associative.assoc _ (Option.merge f) _ _ _ _

theorem lookup_build (entries : List (Entry K V)) (k : K) :
    (build f entries).lookup k = reduce f (valuesAt k entries) := by
  rw [build, lookup_foldl_write]
  simp

theorem valuesAt_build (entries : List (Entry K V)) (k : K) :
    valuesAt k ((build f entries).entries : Multiset (Entry K V)) =
      ofOption (reduce f (valuesAt k entries)) := by
  rw [valuesAt_nodup (build f entries).nodupKeys, ← lookup_build]
  rfl

omit [Std.Commutative f] [Std.Associative f] in
theorem entries_perm {s t : Table K V} (same : ∀ k, s.lookup k = t.lookup k) :
    s.entries.Perm t.entries :=
  List.lookup_ext s.nodupKeys t.nodupKeys fun k v => by
    have := same k
    simp only [AList.lookup] at this
    rw [this]

end KeyedFold
