import Fdistdump.Library.Ranking

/-!
# Sort keys and directions

A sorted libnf memory is iterated along `sortsBefore`. Records with equal sort keys may come in any
order.
-/

namespace Fdistdump

/-- `LNF_SORT_ASC` and `LNF_SORT_DESC`. -/
inductive SortDir
  | asc
  | desc
deriving DecidableEq, Repr

variable {K R : Type} [LinearOrder K]

/-- `x` may precede `y`. -/
def SortDir.le : SortDir → K → K → Prop
  | .asc, x, y => x ≤ y
  | .desc, x, y => y ≤ x

instance (dir : SortDir) : DecidableRel (dir.le (K := K)) := fun _ _ => by
  cases dir <;> unfold SortDir.le <;> infer_instance

instance (dir : SortDir) : Std.Total (dir.le (K := K)) where
  total x y := by
    cases dir with
    | asc => exact le_total x y
    | desc => exact le_total y x

instance (dir : SortDir) : IsTrans K dir.le where
  trans _ _ _ first second := by
    cases dir with
    | asc => exact le_trans first second
    | desc => exact le_trans second first

instance (dir : SortDir) : Std.Antisymm (dir.le (K := K)) where
  antisymm _ _ first second := by
    cases dir with
    | asc => exact le_antisymm first second
    | desc => exact le_antisymm second first

def sortsBefore (dir : SortDir) (key : R → K) (a b : R) : Prop := dir.le (key a) (key b)

instance (dir : SortDir) (key : R → K) : DecidableRel (sortsBefore dir key) := fun a b =>
  inferInstanceAs (Decidable (dir.le (key a) (key b)))

instance (dir : SortDir) (key : R → K) : Std.Total (sortsBefore dir key) where
  total a b := total_of dir.le (key a) (key b)

instance (dir : SortDir) (key : R → K) : IsTrans R (sortsBefore dir key) where
  trans _ _ _ first second := trans_of dir.le first second

end Fdistdump
