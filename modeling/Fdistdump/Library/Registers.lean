import Mathlib.Data.List.Basic

/-!
# Registers

A loop over items, each of which may give a value to a register. After the loop the register holds
the last value that it was given, or what it held before.
-/

namespace Registers

variable {σ ι α : Type} {step : σ → ι → σ}

/-- The last value that an item gives. -/
def last (gives : ι → Option α) (items : List ι) : Option α := (items.filterMap gives).getLast?

theorem last_cons (gives : ι → Option α) (item : ι) (rest : List ι) :
    last gives (item :: rest) = (last gives rest).or (gives item) := by
  unfold last
  rw [List.filterMap_cons]
  cases gives item with
  | none => exact (Option.or_none).symm
  | some value =>
    dsimp only
    rw [List.getLast?_cons]
    cases (rest.filterMap gives).getLast? <;> rfl

theorem exists_of_last {gives : ι → Option α} {items : List ι} {value : α}
    (given : last gives items = some value) :
    ∃ item ∈ items, gives item = some value :=
  List.mem_filterMap.mp (List.mem_of_getLast? given)

theorem foldl_register (register : σ → α) (gives : ι → Option α) {items : List ι}
    (writes : ∀ item ∈ items, ∀ s, register (step s item) = (gives item).getD (register s)) (s : σ) :
    register (items.foldl step s) = (last gives items).getD (register s) := by
  induction items generalizing s with
  | nil => rfl
  | cons item rest ih =>
    obtain ⟨here, later⟩ := List.forall_mem_cons.mp writes
    rw [List.foldl_cons, ih later, here, last_cons]
    cases last gives rest <;> rfl

/-- A register that may be empty. -/
theorem foldl_option (register : σ → Option α) (gives : ι → Option α)
    (writes : ∀ item s, register (step s item) = (gives item).or (register s)) (s : σ) (items : List ι) :
    register (items.foldl step s) = (last gives items).or (register s) := by
  induction items generalizing s with
  | nil => rfl
  | cons item rest ih => rw [List.foldl_cons, ih, writes, last_cons, Option.or_assoc]

/-- A switch stays where the items put it. -/
theorem foldl_switch [DecidableEq ι] (register : σ → α) (switch : ι) {value : α}
    (writes : ∀ item s, register (step s item) = if item = switch then value else register s) (s : σ)
    (items : List ι) :
    register (items.foldl step s) = if switch ∈ items then value else register s := by
  induction items generalizing s with
  | nil => simp
  | cons item rest ih =>
    rw [List.foldl_cons, ih, writes]
    by_cases later : switch ∈ rest
    · rw [if_pos later, if_pos (List.mem_cons_of_mem _ later)]
    · rw [if_neg later]
      refine if_congr ?_ rfl rfl
      rw [List.mem_cons, or_iff_left later, eq_comm]

end Registers
