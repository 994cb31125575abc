import Mathlib.Data.List.TakeDrop
import Mathlib.Tactic.Ring

/-!
# Flat buffers

A buffer is a list of fixed length, written in place. The lemmas describe a write by the
prefix it leaves behind. `putWord` and `getWord` are the four little-endian bytes of a word, `putLong`
and `getLong` the eight of two.
-/

namespace ByteBuffer

variable {α : Type}

/-- Overwrite the buffer from `off` on. Elements past the written ones keep their old value. -/
def write (buff : List α) (off : Nat) (items : List α) : List α :=
  buff.take off ++ items ++ buff.drop (off + items.length)

theorem write_length {buff items : List α} {off : Nat} (room : off + items.length ≤ buff.length) :
    (write buff off items).length = buff.length := by
  simp only [write, List.length_append, List.length_take, List.length_drop]
  omega

theorem write_nil {buff : List α} {off : Nat} : write buff off [] = buff := by
  simp [write]

/-- After a write, the prefix that ends with it is the old prefix followed by the written items. -/
theorem take_write (buff items : List α) {off : Nat} (inside : off ≤ buff.length) :
    (write buff off items).take (off + items.length) = buff.take off ++ items := by
  have len : (buff.take off ++ items).length = off + items.length := by
    simp [List.length_take, Nat.min_eq_left inside]
  rw [write, ← len, List.take_left]

theorem write_write (buff xs ys : List α) {off : Nat} (inside : off ≤ buff.length) :
    write (write buff off xs) (off + xs.length) ys = write buff off (xs ++ ys) := by
  have len : (buff.take off ++ xs).length = off + xs.length := by
    simp [List.length_take, Nat.min_eq_left inside]
  have front : (write buff off xs).take (off + xs.length) = buff.take off ++ xs :=
    take_write buff xs inside
  have back : (write buff off xs).drop (off + xs.length + ys.length) =
      buff.drop (off + xs.length + ys.length) := by
    rw [write, List.drop_append, len, List.drop_of_length_le (by rw [len]; omega), List.nil_append,
      List.drop_drop]
    congr 1
    omega
  rw [write, front, back, write, List.length_append]
  simp only [List.append_assoc, Nat.add_assoc]

theorem drop_write (buff items : List α) {off : Nat} (inside : off ≤ buff.length) :
    (write buff off items).drop (off + items.length) = buff.drop (off + items.length) := by
  have len : (buff.take off ++ items).length = off + items.length := by
    simp [List.length_take, Nat.min_eq_left inside]
  rw [write, ← len, List.drop_left]

theorem write_same {buff : List α} {off n : Nat} (inside : off + n ≤ buff.length) :
    write buff off ((buff.drop off).take n) = buff := by
  have len : ((buff.drop off).take n).length = n := by
    rw [List.length_take, List.length_drop]
    omega
  rw [write, len, ← List.drop_drop, List.append_assoc, List.take_append_drop, List.take_append_drop]

/-- The four little-endian bytes of `n`. -/
def putWord (n : Nat) : List UInt8 :=
  [UInt8.ofNat n, UInt8.ofNat (n / 256), UInt8.ofNat (n / 65536), UInt8.ofNat (n / 16777216)]

/-- The word in the first four bytes. -/
def getWord (bytes : List UInt8) : Nat :=
  (bytes.take 4).foldr (fun byte acc => byte.toNat + 256 * acc) 0

@[simp] theorem putWord_length (n : Nat) : (putWord n).length = 4 := rfl

theorem getWord_putWord {n : Nat} (rest : List UInt8) (small : n < 2 ^ 32) :
    getWord (putWord n ++ rest) = n := by
  simp only [getWord, putWord, List.cons_append, List.nil_append, List.take_succ_cons,
    List.take_zero, List.foldr_cons, List.foldr_nil, UInt8.toNat_ofNat']
  omega

theorem drop_putWord (n : Nat) (rest : List UInt8) : (putWord n ++ rest).drop 4 = rest := rfl

def putLong (x : UInt64) : List UInt8 := putWord (x.toNat % 2 ^ 32) ++ putWord (x.toNat / 2 ^ 32)

def getLong (bytes : List UInt8) : UInt64 :=
  UInt64.ofNat (getWord bytes + 2 ^ 32 * getWord (bytes.drop 4))

@[simp] theorem putLong_length (x : UInt64) : (putLong x).length = 8 := rfl

theorem getLong_putLong (x : UInt64) (rest : List UInt8) : getLong (putLong x ++ rest) = x := by
  have bound := x.toNat_lt
  rw [getLong, putLong, List.append_assoc, getWord_putWord _ (Nat.mod_lt _ (by decide)), drop_putWord,
    getWord_putWord _ (by omega), Nat.mod_add_div, UInt64.ofNat_toNat]

theorem drop_putLong (x : UInt64) (rest : List UInt8) : (putLong x ++ rest).drop 8 = rest := rfl

end ByteBuffer
