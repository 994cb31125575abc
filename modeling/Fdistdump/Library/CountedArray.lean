import Mathlib.Data.List.Nodup

/-!
# Arrays with an element counter

A fixed-size array whose first elements are in use and whose remaining elements are zero, and the
positions at which the distinct elements of a list stand.
-/

namespace CountedArray

variable {α : Type}

def pad (size : Nat) (zero : α) (used : List α) : List α :=
  used ++ List.replicate (size - used.length) zero

@[simp] theorem pad_nil (size : Nat) (zero : α) : pad size zero [] = List.replicate size zero := rfl

@[simp] theorem take_pad (size : Nat) (zero : α) (used : List α) :
    (pad size zero used).take used.length = used := by
  simp [pad]

theorem take_pad_map {β : Type} (size : Nat) (zero : β) (f : α → β) (used : List α) :
    (pad size zero (used.map f)).take used.length = used.map f := by
  simpa using take_pad size zero (used.map f)

theorem drop_pad_map {β : Type} (size : Nat) (zero : β) (f : α → β) (used : List α) :
    (pad size zero (used.map f)).drop used.length = List.replicate (size - used.length) zero := by
  simp [pad]

theorem pad_getElem? {size : Nat} {zero : α} {used : List α} {i : Nat} (below : i < used.length) :
    (pad size zero used)[i]? = used[i]? :=
  List.getElem?_append_left below

theorem set_pad {size : Nat} (zero : α) (used : List α) (x : α) (room : used.length < size) :
    (pad size zero used).set used.length x = pad size zero (used ++ [x]) := by
  obtain ⟨rest, split⟩ : ∃ rest, size - used.length = rest + 1 := ⟨size - used.length - 1, by omega⟩
  have shorter : size - (used ++ [x]).length = rest := by
    rw [List.length_append, List.length_singleton]
    omega
  rw [pad, pad, shorter, split, List.replicate_succ, List.set_append_right _ _ (Nat.le_refl _),
    Nat.sub_self,
    List.set_cons_zero, List.append_assoc, List.singleton_append]

section Positions

variable [DecidableEq α] {xs : List α} {a b : α}

theorem idxOf?_append_of_mem (present : a ∈ xs) (ys : List α) : (xs ++ ys).idxOf? a = xs.idxOf? a := by
  obtain ⟨i, found⟩ := Option.isSome_iff_exists.mp (List.isSome_idxOf?.mpr present)
  rw [List.idxOf?] at found ⊢
  rw [List.findIdx?_append, found, Option.some_or]

theorem idxOf?_append_self (absent : a ∉ xs) : (xs ++ [a]).idxOf? a = some xs.length := by
  have missing := List.idxOf?_eq_none_iff.mpr absent
  rw [List.idxOf?] at missing ⊢
  simp [List.findIdx?_append, missing]

theorem idxOf?_getElem (distinct : xs.Nodup) {i : Nat} (below : i < xs.length) :
    xs.idxOf? xs[i] = some i := by
  refine List.idxOf?_eq_some_iff.mpr ⟨below, rfl, fun j earlier same => ?_⟩
  exact (Nat.ne_of_lt earlier) ((distinct.getElem_inj_iff).mp same)

theorem map_idxOf? (distinct : xs.Nodup) : xs.map xs.idxOf? = (List.range xs.length).map some := by
  refine List.ext_getElem (by simp) ?_
  intro i left right
  simp only [List.getElem_map, List.getElem_range]
  exact idxOf?_getElem distinct _

theorem idxOf?_inj (present : a ∈ xs) (same : xs.idxOf? a = xs.idxOf? b) : a = b := by
  obtain ⟨i, found⟩ := Option.isSome_iff_exists.mp (List.isSome_idxOf?.mpr present)
  obtain ⟨_, atA, -⟩ := List.idxOf?_eq_some_iff.mp found
  obtain ⟨_, atB, -⟩ := List.idxOf?_eq_some_iff.mp (same ▸ found)
  exact atA.symm.trans atB

end Positions

end CountedArray
