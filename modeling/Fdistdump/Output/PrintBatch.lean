import Fdistdump.Common

/-!
# Printing a memory

`printBatch` follows the record loop of `print_batch`: it prints the memory in iteration order up to
the record limit.
-/

namespace Fdistdump.Output

inductive OutputItem
  | unset
  | yes
  | no
deriving DecidableEq, Repr

variable {R : Type}

/-- The record loop. A zero limit is `UINT64_MAX`, which no memory reaches. -/
def printRows (recLimit recCntr : Nat) : List R → List R
  | [] => []
  | record :: rest =>
    if recLimit = 0 ∨ recLimit > recCntr then record :: printRows recLimit (recCntr + 1) rest else []

/-- The records `print_batch` prints; `none` when records are not to be printed. -/
def printBatch (printRecords : OutputItem) (recLimit : Nat) (mem : List R) : Option (List R) :=
  if printRecords ≠ .yes then none else some (printRows recLimit 0 mem)

theorem printRows_limited (recLimit recCntr : Nat) (mem : List R)
    (under : recLimit = 0 ∨ recCntr ≤ recLimit) :
    printRows recLimit recCntr mem = if recLimit = 0 then mem else mem.take (recLimit - recCntr) := by
  induction mem generalizing recCntr with
  | nil => simp [printRows]
  | cons record rest ih =>
    rw [printRows]
    by_cases unlimited : recLimit = 0
    · rw [if_pos (Or.inl unlimited), ih (recCntr + 1) (Or.inl unlimited), if_pos unlimited,
        if_pos unlimited]
    · rw [if_neg unlimited]
      by_cases more : recLimit > recCntr
      · rw [if_pos (Or.inr more), ih (recCntr + 1) (Or.inr more), if_neg unlimited,
          show recLimit - recCntr = recLimit - (recCntr + 1) + 1 by omega, List.take_succ_cons]
      · rw [if_neg (by omega), show recLimit - recCntr = 0 by omega, List.take_zero]

theorem printBatch_some {printRecords : OutputItem} {recLimit : Nat} {mem rows : List R}
    (printed : printBatch printRecords recLimit mem = some rows) : rows = limited recLimit mem := by
  unfold printBatch at printed
  split at printed
  · cases printed
  · rw [← Option.some.inj printed, printRows_limited recLimit 0 mem (Or.inr (Nat.zero_le _))]
    rfl

end Fdistdump.Output
