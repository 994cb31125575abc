import Mathlib.Data.List.Sort
import Mathlib.Data.Multiset.AddSub
import Mathlib.Data.Multiset.Count

/-!
# Orderings and their first elements

`Orders r content order` says that `order` arranges `content` along the total preorder `r`. What
follows is about the first `n` elements: when more content leaves them unchanged, and, for a linear
order, exactly when.
-/

namespace Ranking

variable {α : Type} (r : α → α → Prop)

/-- The content, arranged along `r`. -/
structure Orders (content order : List α) : Prop where
  perm : order.Perm content
  pairwise : order.Pairwise r

variable [DecidableRel r]

def upTo (x : α) (l : List α) : Nat := l.countP fun y => r y x

@[simp] theorem upTo_nil (x : α) : upTo r x [] = 0 := rfl

theorem upTo_cons (x y : α) (l : List α) :
    upTo r x (y :: l) = upTo r x l + if r y x then 1 else 0 := by
  by_cases h : r y x <;> simp [upTo, h]

theorem upTo_append (x : α) (xs ys : List α) : upTo r x (xs ++ ys) = upTo r x xs + upTo r x ys :=
  List.countP_append

variable {r}

theorem upTo_perm {xs ys : List α} (x : α) (perm : xs.Perm ys) : upTo r x xs = upTo r x ys :=
  perm.countP_eq _

theorem upTo_all {x : α} {l : List α} (all : ∀ y ∈ l, r y x) : upTo r x l = l.length :=
  List.countP_eq_length.mpr fun y member => by simpa using all y member

variable [IsTrans α r]

theorem upTo_take {l : List α} (sorted : l.Pairwise r) (x : α) (n : Nat) :
    upTo r x (l.take n) = min n (upTo r x l) := by
  induction l generalizing n with
  | nil => simp
  | cons y rest ih =>
    cases n with
    | zero => simp
    | succ n =>
      obtain ⟨first, sorted⟩ := List.pairwise_cons.mp sorted
      rw [List.take_succ_cons, upTo_cons, upTo_cons, ih sorted]
      by_cases before : r y x
      · simp only [if_pos before]
        omega
      · have none : upTo r x rest = 0 := List.countP_eq_zero.mpr fun z member => by
          simpa using fun h => before (trans_of r (first z member) h)
        simp [before, none]

theorem le_upTo {l : List α} (sorted : l.Pairwise r) {x : α} {n : Nat} :
    n ≤ upTo r x l ↔ n ≤ l.length ∧ ∀ y ∈ l.take n, r y x := by
  have counted := upTo_take sorted x n
  constructor
  · intro enough
    have long : n ≤ l.length := enough.trans List.countP_le_length
    refine ⟨long, ?_⟩
    intro y member
    rw [Nat.min_eq_left enough] at counted
    have full : upTo r x (l.take n) = (l.take n).length := by
      rw [counted, List.length_take, Nat.min_eq_left long]
    simpa using List.countP_eq_length.mp full y member
  · intro ⟨long, all⟩
    rw [upTo_all all, List.length_take, Nat.min_eq_left long] at counted
    omega

omit [DecidableRel r] [IsTrans α r] in
theorem takeWhile_eq_filter {l : List α} (sorted : l.Pairwise r) {p : α → Bool}
    (closed : ∀ a b, r a b → p b → p a) : l.takeWhile p = l.filter p := by
  induction l with
  | nil => rfl
  | cons a rest ih =>
    obtain ⟨first, sorted⟩ := List.pairwise_cons.mp sorted
    rw [List.takeWhile_cons, List.filter_cons, ih sorted]
    split
    · rfl
    · rename_i fails
      exact (List.filter_eq_nil_iff.mpr fun b member holds =>
        fails (closed a b (first b member) holds)).symm

variable [Std.Total r]

theorem orders_insertionSort (content : List α) : Orders r content (content.insertionSort r) :=
  ⟨List.perm_insertionSort r content, List.pairwise_insertionSort r content⟩

theorem Orders.extend {content order more : List α} {n : Nat} (orders : Orders r content order)
    (late : ∀ x ∈ more, n ≤ upTo r x order) :
    ∃ full, Orders r (content ++ more) full ∧ full.take n = order.take n := by
  have rest := orders_insertionSort (r := r) (order.drop n ++ more)
  refine ⟨order.take n ++ (order.drop n ++ more).insertionSort r, ⟨?_, ?_⟩, ?_⟩
  · calc (order.take n ++ (order.drop n ++ more).insertionSort r)
        |>.Perm (order.take n ++ (order.drop n ++ more)) := rest.perm.append_left _
      _ = order ++ more := by rw [← List.append_assoc, List.take_append_drop]
      List.Perm _ (content ++ more) := orders.perm.append_right _
  · have sorted := orders.pairwise
    rw [← List.take_append_drop n order] at sorted
    obtain ⟨front, -, cross⟩ := List.pairwise_append.mp sorted
    refine List.pairwise_append.mpr ⟨front, rest.pairwise, ?_⟩
    intro y early x member
    rcases List.mem_append.mp (rest.perm.mem_iff.mp member) with later | added
    · exact cross y early x later
    · exact ((le_upTo orders.pairwise).mp (late x added)).2 y early
  · by_cases long : n ≤ order.length
    · exact List.take_left' (by simp [long])
    · have none : more = [] := List.eq_nil_iff_forall_not_mem.mpr fun x member =>
        long ((late x member).trans List.countP_le_length)
      subst none
      rw [List.drop_of_length_le (by omega)]
      simp [List.take_of_length_le]

/-! ### First values of a linear order -/

variable [Std.Antisymm r]

theorem Orders.unique {content order : List α} (orders : Orders r content order) :
    order = content.insertionSort r :=
  (orders.perm.trans (List.perm_insertionSort r content).symm).eq_of_pairwise' orders.pairwise
    (List.pairwise_insertionSort r content)

variable (r) in
def best (n : Nat) (values : Multiset α) : List α :=
  Quot.liftOn values (fun l => (l.insertionSort r).take n) fun xs ys perm => by
    rw [Orders.unique ⟨(List.perm_insertionSort r xs).trans perm, List.pairwise_insertionSort r xs⟩]

theorem best_orders {content order : List α} (orders : Orders r content order) (n : Nat) :
    best r n (content : Multiset α) = order.take n := by
  rw [orders.unique]
  rfl

theorem upTo_best (x : α) (n : Nat) (values : List α) :
    upTo r x (best r n (values : Multiset α)) = min n (upTo r x values) := by
  have orders := orders_insertionSort (r := r) values
  rw [best_orders orders, upTo_take orders.pairwise, upTo_perm x orders.perm]

/-- More values leave the first `n` unchanged exactly when each of them is preceded by `n` others. -/
theorem best_add {values more : Multiset α} {n : Nat} :
    best r n (values + more) = best r n values ↔
      ∀ x ∈ more, n ≤ values.countP fun y => r y x := by
  induction values, more using Quotient.inductionOn₂ with | _ values more
  show best r n (values ++ more : List α) = best r n (values : Multiset α) ↔
    ∀ x ∈ more, n ≤ upTo r x values
  constructor
  · intro same x member
    have counted := upTo_best (r := r) x n (values ++ more)
    rw [same, upTo_best, upTo_append] at counted
    have self : 0 < upTo r x more :=
      List.countP_pos_iff.mpr ⟨x, member, by simpa using total_of r x x⟩
    omega
  · intro late
    have orders := orders_insertionSort (r := r) values
    obtain ⟨full, ordered, same⟩ := orders.extend fun x member => by
      rw [upTo_perm x orders.perm]
      exact late x member
    rw [best_orders ordered, best_orders orders, same]

theorem best_subset {n : Nat} {values : Multiset α} {x : α} (member : x ∈ best r n values) :
    x ∈ values := by
  induction values using Quotient.inductionOn with | _ values
  have orders := orders_insertionSort (r := r) values
  have inside : x ∈ best r n (values : Multiset α) := member
  rw [best_orders orders] at inside
  exact orders.perm.mem_iff.mp (List.mem_of_mem_take inside)

theorem best_length (n : Nat) (values : Multiset α) :
    (best r n values).length = min n (Multiset.card values) := by
  induction values using Quotient.inductionOn with | _ values
  show ((values.insertionSort r).take n).length = min n values.length
  simp

theorem best_before {n : Nat} {values : Multiset α} {x : α} (enough : n ≤ values.countP fun y => r y x) :
    ∀ y ∈ best r n values, r y x := by
  induction values using Quotient.inductionOn with | _ values
  have orders := orders_insertionSort (r := r) values
  have enough : n ≤ upTo r x (values.insertionSort r) := by
    rw [upTo_perm x orders.perm]
    exact enough
  exact ((le_upTo orders.pairwise).mp enough).2

theorem best_getLast {n : Nat} {values : Multiset α} {x : α}
    (last : (best r n values).getLast? = some x) :
    min n (Multiset.card values) ≤ values.countP fun y => r y x := by
  induction values using Quotient.inductionOn with | _ values
  have orders := orders_insertionSort (r := r) values
  have last : (best r n (values : Multiset α)).getLast? = some x := last
  rw [best_orders orders] at last
  show min n values.length ≤ upTo r x values
  obtain ⟨front, shape⟩ := List.getLast?_eq_some_iff.mp last
  have sorted := orders.pairwise.sublist (List.take_sublist n _)
  rw [shape] at sorted
  have all : ∀ y ∈ front ++ [x], r y x := fun y member => by
    rcases List.mem_append.mp member with earlier | self
    · exact (List.pairwise_append.mp sorted).2.2 y earlier x (by simp)
    · rw [List.mem_singleton.mp self]
      simpa using total_of r x x
  calc min n values.length = ((values.insertionSort r).take n).length := by simp
    _ = upTo r x ((values.insertionSort r).take n) := by rw [shape, upTo_all all]
    _ ≤ upTo r x (values.insertionSort r) := (List.take_sublist n _).countP_le
    _ = upTo r x values := upTo_perm x orders.perm

end Ranking
