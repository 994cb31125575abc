import Mathlib.Algebra.BigOperators.Group.Finset.Basic
import Mathlib.Algebra.BigOperators.Group.Finset.Piecewise

/-!
# Interleavings of finitely many sources

A trace records each item together with the source it came from. `Interleaves queues trace`
says that the trace keeps the order of every source and contains nothing else.
-/

namespace Interleaving

variable {ι α β : Type} [DecidableEq ι]

/-- What source `i` contributed to the trace, in order. -/
def fromSource (trace : List (ι × α)) (i : ι) : List α :=
  (trace.filter (fun entry => entry.1 = i)).map Prod.snd

@[simp] theorem fromSource_nil (i : ι) : fromSource ([] : List (ι × α)) i = [] := rfl

theorem fromSource_cons (entry : ι × α) (trace : List (ι × α)) (i : ι) :
    fromSource (entry :: trace) i =
      if entry.1 = i then entry.2 :: fromSource trace i else fromSource trace i := by
  unfold fromSource
  by_cases same : entry.1 = i <;> simp [same]

theorem fromSource_append (xs ys : List (ι × α)) (i : ι) :
    fromSource (xs ++ ys) i = fromSource xs i ++ fromSource ys i := by
  simp [fromSource]

def tag (i : ι) (xs : List α) : List (ι × α) := xs.map (i, ·)

omit [DecidableEq ι] in
@[simp] theorem tag_snd (i : ι) (xs : List α) : (tag i xs).map Prod.snd = xs := by
  simp [tag, Function.comp_def]

theorem fromSource_tag (i j : ι) (xs : List α) :
    fromSource (tag i xs) j = if i = j then xs else [] := by
  induction xs with
  | nil => simp [tag]
  | cons x rest ih =>
    rw [tag, List.map_cons, fromSource_cons]
    rw [tag] at ih
    by_cases same : i = j <;> simp_all

def expand (f : α → List β) (trace : List (ι × α)) : List (ι × β) :=
  trace.flatMap (fun entry => tag entry.1 (f entry.2))

omit [DecidableEq ι] in
theorem expand_cons (f : α → List β) (entry : ι × α) (trace : List (ι × α)) :
    expand f (entry :: trace) = tag entry.1 (f entry.2) ++ expand f trace := by
  simp [expand]

omit [DecidableEq ι] in
theorem expand_snd (f : α → List β) (trace : List (ι × α)) :
    (expand f trace).map Prod.snd = (trace.map Prod.snd).flatMap f := by
  induction trace with
  | nil => rfl
  | cons entry rest ih => rw [expand_cons, List.map_append, ih, tag_snd]; simp

theorem fromSource_expand (f : α → List β) (trace : List (ι × α)) (i : ι) :
    fromSource (expand f trace) i = (fromSource trace i).flatMap f := by
  induction trace with
  | nil => rfl
  | cons entry rest ih =>
    rw [expand_cons, fromSource_append, fromSource_tag, fromSource_cons, ih]
    by_cases same : entry.1 = i <;> simp [same]

theorem fromSource_map (f : α → β) (trace : List (ι × α)) (i : ι) :
    fromSource (trace.map (Prod.map id f)) i = (fromSource trace i).map f := by
  induction trace with
  | nil => rfl
  | cons entry rest ih =>
    rw [List.map_cons, fromSource_cons, fromSource_cons, ih]
    by_cases same : entry.1 = i <;> simp [same]

/-- The trace delivers every queue completely and in order, and nothing else. -/
def Interleaves (queues : ι → List α) (trace : List (ι × α)) : Prop :=
  ∀ i, fromSource trace i = queues i

theorem interleaves_sublist {queues : ι → List α} {trace : List (ι × α)}
    (h : Interleaves queues trace) (i : ι) : (queues i).Sublist (trace.map Prod.snd) := by
  rw [← h i]
  exact List.filter_sublist.map Prod.snd

section Finite
variable [Fintype ι]

theorem trace_multiset (trace : List (ι × α)) :
    ((trace.map Prod.snd : List α) : Multiset α) = ∑ i, (fromSource trace i : Multiset α) := by
  induction trace with
  | nil => simp
  | cons entry rest ih =>
    have split : ∀ i, ((fromSource (entry :: rest) i : List α) : Multiset α) =
        (if entry.1 = i then {entry.2} else 0) + (fromSource rest i : Multiset α) := by
      intro i
      rw [fromSource_cons]
      by_cases same : entry.1 = i
      · rw [if_pos same, if_pos same, ← Multiset.cons_coe, Multiset.singleton_add]
      · rw [if_neg same, if_neg same, zero_add]
    rw [List.map_cons, ← Multiset.cons_coe, ih, Finset.sum_congr rfl (fun i _ => split i),
      Finset.sum_add_distrib, Finset.sum_ite_eq, if_pos (Finset.mem_univ _), Multiset.singleton_add]

theorem interleaves_multiset {queues : ι → List α} {trace : List (ι × α)}
    (h : Interleaves queues trace) :
    ((trace.map Prod.snd : List α) : Multiset α) = ∑ i, (queues i : Multiset α) := by
  rw [trace_multiset]
  exact Finset.sum_congr rfl (fun i _ => by rw [h i])

theorem exists_interleaves (queues : ι → List α) : ∃ trace, Interleaves queues trace := by
  have prefixes : ∀ (order : List ι), order.Nodup →
      Interleaves (fun i => if i ∈ order then queues i else [])
        (order.flatMap fun i => tag i (queues i)) := by
    intro order
    induction order with
    | nil => intro _ i; simp
    | cons j rest ih =>
      intro distinct i
      obtain ⟨absent, distinct⟩ := List.nodup_cons.mp distinct
      rw [List.flatMap_cons, fromSource_append, fromSource_tag, ih distinct i]
      by_cases same : j = i
      · subst same; simp [absent]
      · simp [same, Ne.symm same]
  refine ⟨_, fun i => (prefixes Finset.univ.toList (Finset.nodup_toList _) i).trans ?_⟩
  simp

end Finite

end Interleaving
