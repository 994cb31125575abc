import Mathlib.Algebra.Group.Int.Defs
import Mathlib.Algebra.Group.Nat.Defs
import Mathlib.Data.List.TakeDrop

/-!
# Shared constants and conventions

Constants of `common.h`, the C integer conversions the code relies on and the convention that a
record limit of zero means no limit.
-/

namespace Fdistdump

abbrev Bytes := List UInt8

/-- `error_code_t`. A failed assertion returns none of the codes; as an outcome it is `assertion`. -/
inductive ErrorCode
  | ok
  | help
  | eof
  | mem
  | mpi
  | lnf
  | internal
  | arg
  | path
  | bfindex
  | assertion
deriving DecidableEq, Repr

def xchgBuffSize : Nat := 1024 * 1024

def sizeofXchgRecSize : Nat := 4

/-- `FLOW_FILE_ROTATION_INTERVAL`, in seconds. -/
def flowFileRotationInterval : Int := 300

/-- Conversion to the 64-bit `size_t`. -/
def toSizeT (x : Int) : Nat := (x % 2 ^ 64).toNat

theorem toSizeT_eq {x : Int} {n : Nat} (value : x = n) (fits : n < 2 ^ 64) : toSizeT x = n := by
  unfold toSizeT
  omega

def sizeToInt (n : Nat) : Int := (n : Int).bmod (2 ^ 32)

theorem sizeToInt_toSizeT_bmod (x : Int) : sizeToInt (toSizeT x) = x.bmod (2 ^ 32) := by
  unfold sizeToInt toSizeT
  rw [Int.bmod_def, Int.bmod_def]
  omega

theorem sizeToInt_toSizeT {x : Int} (low : -2 ^ 31 ≤ x) (high : x < 2 ^ 31) :
    sizeToInt (toSizeT x) = x := by
  rw [sizeToInt_toSizeT_bmod, Int.bmod_def]
  omega

/-- The first `limit` elements, all of them when the limit is zero. -/
def limited {α : Type} (limit : Nat) (xs : List α) : List α :=
  if limit = 0 then xs else xs.take limit

@[simp] theorem limited_zero {α : Type} (xs : List α) : limited 0 xs = xs := rfl

@[simp] theorem limited_nil {α : Type} (limit : Nat) : limited limit ([] : List α) = [] := by
  simp [limited]

theorem limited_pos {α : Type} {limit : Nat} (xs : List α) (pos : 0 < limit) :
    limited limit xs = xs.take limit := by
  rw [limited, if_neg (by omega)]

theorem limited_sublist {α : Type} (limit : Nat) (xs : List α) : (limited limit xs).Sublist xs := by
  unfold limited
  split
  · exact List.Sublist.refl _
  · exact List.take_sublist _ _

theorem limited_map {α β : Type} (limit : Nat) (f : α → β) (xs : List α) :
    limited limit (xs.map f) = (limited limit xs).map f := by
  unfold limited
  split
  · rfl
  · exact (List.map_take).symm

theorem limited_length {α : Type} (limit : Nat) (xs : List α) :
    (limited limit xs).length = if limit = 0 then xs.length else min limit xs.length := by
  unfold limited
  split
  · rfl
  · exact List.length_take

theorem limited_append {α : Type} (limit : Nat) (xs ys : List α) :
    limited limit (xs ++ ys) =
      if limit = 0 then xs ++ ys else limited limit xs ++ ys.take (limit - xs.length) := by
  unfold limited
  split
  · rfl
  · exact List.take_append

end Fdistdump
