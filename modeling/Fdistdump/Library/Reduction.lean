import Mathlib.Algebra.BigOperators.Group.Finset.Basic

/-!
# Reductions

A reduction combines one contribution of each party in an order of its own. In a commutative monoid the
order does not matter. What the parties of one group hold between them changes by what one of them
gains.
-/

namespace Reduction

/-- An order in which contributions are combined. -/
inductive Schedule (ρ : Type)
  | rank (r : ρ)
  | combine (first second : Schedule ρ)

variable {ρ V : Type}

def Schedule.ranks : Schedule ρ → List ρ
  | rank r => [r]
  | combine first second => first.ranks ++ second.ranks

def Schedule.value [Add V] (contribution : ρ → V) : Schedule ρ → V
  | rank r => contribution r
  | combine first second => first.value contribution + second.value contribution

theorem value_eq_sum [AddCommMonoid V] (contribution : ρ → V) (schedule : Schedule ρ) :
    schedule.value contribution = (schedule.ranks.map contribution).sum := by
  induction schedule with
  | rank r => simp [Schedule.value, Schedule.ranks]
  | combine first second ihFirst ihSecond =>
    rw [Schedule.value, Schedule.ranks, List.map_append, List.sum_append, ihFirst, ihSecond]

/-- Every rank takes part exactly once. -/
def Schedule.Complete [Fintype ρ] (schedule : Schedule ρ) : Prop :=
  (schedule.ranks : Multiset ρ) = Finset.univ.val

theorem value_of_complete [AddCommMonoid V] [Fintype ρ] (contribution : ρ → V) {schedule : Schedule ρ}
    (complete : schedule.Complete) : schedule.value contribution = ∑ r, contribution r := by
  rw [value_eq_sum, Finset.sum, ← complete, Multiset.map_coe, Multiset.sum_coe]

theorem exists_schedule (r : ρ) (rest : List ρ) :
    ∃ schedule : Schedule ρ, schedule.ranks = r :: rest := by
  induction rest generalizing r with
  | nil => exact ⟨.rank r, rfl⟩
  | cons next rest ih =>
    obtain ⟨schedule, ranks⟩ := ih next
    exact ⟨.combine (.rank r) schedule, by rw [Schedule.ranks, ranks]; rfl⟩

theorem exists_complete [Fintype ρ] [Inhabited ρ] : ∃ schedule : Schedule ρ, schedule.Complete := by
  have nonempty : (Finset.univ : Finset ρ).toList ≠ [] := by
    rw [Ne, Finset.toList_eq_nil]
    exact Finset.ne_empty_of_mem (Finset.mem_univ default)
  obtain ⟨r, rest, ranks⟩ := List.exists_cons_of_ne_nil nonempty
  obtain ⟨schedule, same⟩ := exists_schedule r rest
  exact ⟨schedule, by rw [Schedule.Complete, same, ← ranks, Finset.coe_toList]⟩

variable {τ σ W : Type} [Fintype τ] [DecidableEq τ] [AddCommMonoid V]

theorem sum_update (holding : W → V) (parties : τ → W) (i : τ) (party : W) :
    ∑ j, holding (Function.update parties i party j) + holding (parties i) =
      ∑ j, holding (parties j) + holding party := by
  have others : ∑ j ∈ Finset.univ.erase i, holding (Function.update parties i party j) =
      ∑ j ∈ Finset.univ.erase i, holding (parties j) :=
    Finset.sum_congr rfl fun j member => by rw [Function.update_of_ne (Finset.ne_of_mem_erase member)]
  rw [← Finset.add_sum_erase _ _ (Finset.mem_univ i), others, Function.update_self,
    ← Finset.add_sum_erase _ (fun j => holding (parties j)) (Finset.mem_univ i), add_assoc,
    add_comm _ (holding (parties i)), add_comm (holding party)]

omit [AddCommMonoid V] in
theorem sum_update_lt (measure : W → Nat) (parties : τ → W) {i : τ} {party : W}
    (less : measure party < measure (parties i)) :
    ∑ j, measure (Function.update parties i party j) < ∑ j, measure (parties j) := by
  have moved := sum_update measure parties i party
  omega

variable [DecidableEq σ]

theorem sum_group_update (home : τ → σ) (holding : W → V) (parties : τ → W) {i : τ} {party : W}
    {gain : V} (grown : holding party = holding (parties i) + gain) (group : σ) :
    ∑ j with home j = group, holding (Function.update parties i party j) =
      ∑ j with home j = group, holding (parties j) + if home i = group then gain else 0 := by
  have other (j : τ) (ne : j ≠ i) : holding (Function.update parties i party j) =
      holding (parties j) := by
    rw [Function.update_of_ne ne]
  by_cases inside : home i = group
  · have member : i ∈ Finset.univ.filter fun j => home j = group := by simp [inside]
    rw [if_pos inside, ← Finset.add_sum_erase _ _ member, ← Finset.add_sum_erase _ _ member,
      Function.update_self, grown, Finset.sum_congr rfl fun j mem =>
        other j (Finset.ne_of_mem_erase mem)]
    exact add_right_comm _ _ _
  · rw [if_neg inside, add_zero]
    refine Finset.sum_congr rfl fun j mem => other j ?_
    rintro rfl
    exact inside (Finset.mem_filter.mp mem).2

end Reduction
