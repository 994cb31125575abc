import Mathlib.Data.List.Nodup
import Mathlib.Order.Bounds.Basic

/-!
# Slots of a fixed width

The multiples of a width around an instant, and the half-open slots of that width that start at a
given instant and before another one. `slots_of_le` and `slots_of_lt` are the equations of the loop
that enumerates them, `exists_unique_slot` says that they partition the range.
-/

namespace Slots

variable (width : Int)

/-- The last multiple of `width` that is not after `x`. -/
def floorTo (x : Int) : Int := width * (x / width)

/-- The first multiple of `width` that is not before `x`. -/
def ceilTo (x : Int) : Int := -floorTo width (-x)

variable {width} (pos : 0 < width)

include pos

theorem floorTo_isGreatest (x : Int) : IsGreatest {m | width ∣ m ∧ m ≤ x} (floorTo width x) := by
  refine ⟨⟨Int.dvd_mul_right width _, Int.mul_ediv_self_le (Int.ne_of_gt pos)⟩, ?_⟩
  rintro m ⟨⟨k, rfl⟩, le⟩
  exact Int.mul_le_mul_of_nonneg_left
    ((Int.le_ediv_iff_mul_le pos).mpr (by rw [Int.mul_comm]; exact le)) (Int.le_of_lt pos)

theorem ceilTo_isLeast (x : Int) : IsLeast {m | width ∣ m ∧ x ≤ m} (ceilTo width x) := by
  obtain ⟨⟨divides, below⟩, greatest⟩ := floorTo_isGreatest pos (-x)
  refine ⟨⟨(Int.dvd_neg).mpr divides, by unfold ceilTo; omega⟩, ?_⟩
  intro m ⟨multiple, le⟩
  have bound : -m ≤ floorTo width (-x) := greatest ⟨(Int.dvd_neg).mpr multiple, by omega⟩
  unfold ceilTo
  omega

omit pos

variable (width) in
def count (first last : Int) : Nat := ((last - first + (width - 1)) / width).toNat

variable (width) in
def slots (first last : Int) : List Int :=
  (List.range (count width first last)).map fun i : Nat => first + width * i

include pos

theorem lt_count {first last : Int} {i : Nat} :
    i < count width first last ↔ first + width * i < last := by
  have reach := Int.le_ediv_iff_mul_le (a := i + 1) (b := last - first + (width - 1)) pos
  rw [Int.add_mul, Int.mul_comm] at reach
  unfold count
  omega

theorem count_of_le {first last : Int} (le : last ≤ first) : count width first last = 0 := by
  by_contra some_slot
  have starts := (lt_count pos (i := 0)).mp (Nat.pos_of_ne_zero some_slot)
  omega

theorem count_of_lt {first last : Int} (lt : first < last) :
    count width first last = count width (first + width) last + 1 := by
  have nonneg := Int.ediv_nonneg (show 0 ≤ last - (first + width) + (width - 1) by omega)
    (Int.le_of_lt pos)
  have shift : last - first + (width - 1) = last - (first + width) + (width - 1) + width := by omega
  unfold count
  rw [shift, Int.add_ediv_of_dvd_right (Int.dvd_refl width), Int.ediv_self (Int.ne_of_gt pos)]
  omega

theorem slots_of_le {first last : Int} (le : last ≤ first) : slots width first last = [] := by
  rw [slots, count_of_le pos le, List.range_zero, List.map_nil]

theorem slots_of_lt {first last : Int} (lt : first < last) :
    slots width first last = first :: slots width (first + width) last := by
  rw [slots, count_of_lt pos lt, List.range_succ_eq_map, List.map_cons, List.map_map, slots]
  congr 1
  · simp
  · apply List.map_congr_left
    intro i _
    simp only [Function.comp, Nat.succ_eq_add_one, Int.natCast_add, Int.mul_add]
    omega

theorem mem_slots {first last s : Int} :
    s ∈ slots width first last ↔ ∃ i : Nat, s = first + width * i ∧ s < last := by
  simp only [slots, List.mem_map, List.mem_range, lt_count pos]
  constructor
  · rintro ⟨i, before, rfl⟩
    exact ⟨i, rfl, before⟩
  · rintro ⟨i, rfl, before⟩
    exact ⟨i, before, rfl⟩

theorem lt_of_mem_slots {first last s : Int} (member : s ∈ slots width first last) : first < last := by
  by_contra ended
  rw [slots_of_le pos (by omega)] at member
  cases member

theorem slots_ascending (first last : Int) : (slots width first last).Pairwise (· < ·) := by
  refine List.Pairwise.map _ (fun i j less => ?_) List.pairwise_lt_range
  have := Int.mul_lt_mul_of_pos_left (Int.ofNat_lt.mpr less) pos
  omega

theorem exists_unique_slot {first last x : Int} (from_first : first ≤ x) (to_last : x < last) :
    ∃! s, s ∈ slots width first last ∧ s ≤ x ∧ x < s + width := by
  obtain ⟨i, place⟩ :=
    Int.eq_ofNat_of_zero_le (Int.ediv_nonneg (show 0 ≤ x - first by omega) (Int.le_of_lt pos))
  have split := Int.mul_ediv_add_emod (x - first) width
  have small := Int.emod_lt_of_pos (x - first) pos
  have nonneg := Int.emod_nonneg (x - first) (Int.ne_of_gt pos)
  rw [place] at split
  refine ⟨first + width * i, ⟨(mem_slots pos).mpr ⟨i, rfl, by omega⟩, by omega, by omega⟩, ?_⟩
  intro s ⟨member, below, above⟩
  obtain ⟨j, rfl, -⟩ := (mem_slots pos).mp member
  have same : (x - first) / width = j :=
    (Int.ediv_eq_iff_of_pos pos).mpr ⟨by rw [Int.mul_comm]; omega, by rw [Int.mul_comm]; omega⟩
  rw [show (i : Int) = j by omega]

theorem slot_within {first last s : Int} (whole : width ∣ last - first)
    (member : s ∈ slots width first last) :
    first ≤ s ∧ s + width ≤ last := by
  obtain ⟨i, rfl, before⟩ := (mem_slots pos).mp member
  obtain ⟨k, length⟩ := whole
  have nonneg : 0 ≤ width * (i : Int) := Int.mul_nonneg (Int.le_of_lt pos) (Int.natCast_nonneg i)
  have less : (i : Int) + 1 ≤ k := by
    have := Int.lt_of_mul_lt_mul_left (show width * (i : Int) < width * k by omega) (Int.le_of_lt pos)
    omega
  have := Int.mul_le_mul_of_nonneg_left less (Int.le_of_lt pos)
  rw [Int.mul_add, Int.mul_one] at this
  omega

end Slots
