import Fdistdump.Time.FillFromTime

/-!
# Path arrays

`path_array_ctx` collects the names of the files to be processed. `add_path` appends to it and
doubles the array whenever it is full; `Holds` says what the array has in it.
-/

namespace Fdistdump.Paths
open Time

def pathArrayInitSize : Nat := 50

def pathArrayGrowthFactor : Nat := 2

/-- A pointer that has not been stored yet is `none`. -/
structure PathArrayCtx where
  names : List (Option Path)
  namesCnt : Nat
  namesSize : Nat
deriving DecidableEq

/-- The context that `path_array_gen` starts with. -/
def PathArrayCtx.init : PathArrayCtx where
  names := List.replicate pathArrayInitSize none
  namesCnt := 0
  namesSize := pathArrayInitSize

/-- The old pointers are kept as far as they fit, the others are indeterminate. -/
def realloc (names : List (Option Path)) (size : Nat) : List (Option Path) :=
  names.take size ++ List.replicate (size - names.length) none

def PathArrayCtx.reserve (ctx : PathArrayCtx) : PathArrayCtx :=
  if ctx.namesCnt = ctx.namesSize then
    let namesSize := ctx.namesSize * pathArrayGrowthFactor
    { ctx with namesSize, names := realloc ctx.names namesSize }
  else ctx

def addPath (ctx : PathArrayCtx) (name : Path) : PathArrayCtx :=
  let ctx := ctx.reserve
  { ctx with names := ctx.names.set ctx.namesCnt (some name), namesCnt := ctx.namesCnt + 1 }

/-- The array is as large as its size says, and its first `names_cnt` pointers are the stored names. -/
structure PathArrayCtx.Holds (ctx : PathArrayCtx) (stored : List Path) : Prop where
  cnt : ctx.namesCnt = stored.length
  inside : ctx.namesCnt ≤ ctx.namesSize
  positive : 0 < ctx.namesSize
  allocated : ctx.names.length = ctx.namesSize
  names : ctx.names.take ctx.namesCnt = stored.map some

theorem PathArrayCtx.holds_init : PathArrayCtx.init.Holds [] where
  cnt := rfl
  inside := by decide
  positive := by decide
  allocated := List.length_replicate
  names := rfl

variable {ctx : PathArrayCtx} {stored : List Path}

theorem realloc_larger {names : List (Option Path)} {size : Nat} (larger : names.length ≤ size) :
    realloc names size = names ++ List.replicate (size - names.length) none := by
  rw [realloc, List.take_of_length_le larger]

theorem PathArrayCtx.Holds.reserve (holds : ctx.Holds stored) :
    ctx.reserve.Holds stored ∧ ctx.reserve.namesCnt < ctx.reserve.namesSize := by
  obtain ⟨cnt, inside, positive, allocated, names⟩ := holds
  unfold PathArrayCtx.reserve
  split
  · rename_i full
    have larger : ctx.names.length ≤ ctx.namesSize * pathArrayGrowthFactor := by
      unfold pathArrayGrowthFactor
      omega
    dsimp only
    rw [realloc_larger larger]
    unfold pathArrayGrowthFactor at *
    refine ⟨⟨cnt, by dsimp only; omega, by dsimp only; omega, ?_, ?_⟩, by omega⟩
    · rw [List.length_append, List.length_replicate]
      dsimp only
      omega
    · dsimp only
      rw [List.take_append_of_le_length (by omega), names]
  · rename_i room
    exact ⟨⟨cnt, inside, positive, allocated, names⟩, by omega⟩

theorem PathArrayCtx.Holds.addPath (holds : ctx.Holds stored) (name : Path) :
    (addPath ctx name).Holds (stored ++ [name]) := by
  obtain ⟨⟨cnt, inside, positive, allocated, names⟩, room⟩ := holds.reserve
  have slot : ctx.reserve.namesCnt < ctx.reserve.names.length := by omega
  refine ⟨?_, room, positive, ?_, ?_⟩
  · rw [List.length_append, ← cnt]
    rfl
  · exact List.length_set.trans allocated
  · change List.take (ctx.reserve.namesCnt + 1) (ctx.reserve.names.set ctx.reserve.namesCnt
      (some name)) = _
    rw [List.take_add_one, List.take_set_of_le (Nat.le_refl _), names, List.getElem?_set_self slot,
      List.map_append]
    rfl

theorem PathArrayCtx.Holds.addPaths (holds : ctx.Holds stored) (added : List Path) :
    (added.foldl Paths.addPath ctx).Holds (stored ++ added) := by
  induction added generalizing ctx stored with
  | nil => rwa [List.append_nil]
  | cons name added ih =>
    rw [List.append_cons]
    exact ih (holds.addPath name)

end Fdistdump.Paths
