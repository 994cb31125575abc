import Fdistdump.Output.FieldText
import Mathlib.Algebra.GroupWithZero.Nat

/-!
# Lengths of the texts

The `to_str` functions write into buffers of `MAX_STR_LEN` bytes, so the length of a text is an `int`.
-/

namespace Fdistdump.Output

/-- What the C library writes into the buffers is cut there. -/
structure ShortLibc extends Libc where
  fixed1_short : ∀ x, (fixed1 x).length < maxStrLen
  dateTime_short : ∀ seconds, (dateTime seconds).length < maxStrLen
  inetNtop4_short : ∀ data, (inetNtop4 data).length < maxStrLen
  inetNtop6_short : ∀ data, (inetNtop6 data).length < maxStrLen

/-! ### Numbers -/

theorem foldr_bytes_lt (bytes : Bytes) :
    bytes.foldr (fun byte acc => byte.toNat + 256 * acc) 0 < 256 ^ bytes.length := by
  induction bytes with
  | nil => exact Nat.one_pos
  | cons byte rest ih =>
    have small := byte.toNat_lt
    rw [List.foldr_cons, List.length_cons, Nat.pow_succ]
    omega

theorem uintLe_lt (width : Nat) (data : Bytes) : uintLe width data < 256 ^ width := by
  refine Nat.lt_of_lt_of_le (foldr_bytes_lt (data.take width)) ?_
  exact Nat.pow_le_pow_right (by decide) (List.length_take_le ..)

theorem foldl_bytes_lt (bytes : Bytes) (front : Nat) :
    bytes.foldl (fun acc byte => 256 * acc + byte.toNat) front < 256 ^ bytes.length * (front + 1) := by
  induction bytes generalizing front with
  | nil => simp
  | cons byte rest ih =>
    have small := byte.toNat_lt
    rw [List.foldl_cons, List.length_cons, Nat.pow_succ, Nat.mul_assoc]
    refine Nat.lt_of_lt_of_le (ih _) (Nat.mul_le_mul_left _ ?_)
    omega

theorem uintBe_lt (width : Nat) (data : Bytes) : uintBe width data < 256 ^ width := by
  refine Nat.lt_of_lt_of_le (foldl_bytes_lt (data.take width) 0) ?_
  rw [Nat.zero_add, Nat.mul_one]
  exact Nat.pow_le_pow_right (by decide) (List.length_take_le ..)

theorem toString_length {n k : Nat} (positive : 0 < k) (below : n < 10 ^ k) : (toString n).length ≤ k :=
  (Nat.length_repr_le_iff positive).mpr below

theorem zeroPadded_length (width : Nat) {n k : Nat} (positive : 0 < k) (below : n < 10 ^ k) :
    (zeroPadded width n).length ≤ width + k := by
  have digits := toString_length positive below
  rw [zeroPadded, String.length_append, String.length_ofList, List.length_replicate]
  omega

theorem word64_length (data : Bytes) : (toString (uintLe 8 data)).length ≤ 20 :=
  toString_length (by decide) (Nat.lt_trans (uintLe_lt 8 data) (by decide))

theorem word32_length (data : Bytes) : (toString (uintBe 4 data)).length ≤ 20 :=
  toString_length (by decide) (Nat.lt_trans (uintBe_lt 4 data) (by decide))

theorem uintToStr_length {width : Nat} (small : width ≤ 8) (data : Bytes) :
    (uintToStr width data).length ≤ 20 := by
  refine toString_length (by decide) (Nat.lt_of_lt_of_le (uintLe_lt width data) ?_)
  exact Nat.le_trans (Nat.pow_le_pow_right (by decide) small) (by decide)

/-! ### Texts -/

variable (libc : ShortLibc) (params : OutputParams)

theorem timestampToStr_short (data : Bytes) :
    (timestampToStr libc.toLibc params data).length < 2 * maxStrLen := by
  unfold timestampToStr
  cases params.tsConv with
  | none => exact Nat.lt_of_le_of_lt (word64_length data) (by decide)
  | pretty =>
    have date := libc.dateTime_short (uintLe 8 data / 1000)
    have rest : (zeroPadded 3 (uintLe 8 data % 1000)).length ≤ 3 + 3 :=
      zeroPadded_length 3 (by decide) (by omega)
    have dot : ".".length = 1 := rfl
    simp only [String.length_append, dot, maxStrLen] at date ⊢
    omega

theorem durationToStr_short (data : Bytes) : (durationToStr params data).length < 2 * maxStrLen := by
  unfold durationToStr
  cases params.durationConv with
  | none => exact Nat.lt_of_le_of_lt (word64_length data) (by decide)
  | str =>
    have word := uintLe_lt 8 data
    have hours : (zeroPadded 2 (uintLe 8 data / 1000 / 60 / 60)).length ≤ 2 + 20 :=
      zeroPadded_length 2 (by decide) (by omega)
    have min : (zeroPadded 2 (uintLe 8 data / 1000 / 60 % 60)).length ≤ 2 + 2 :=
      zeroPadded_length 2 (by decide) (by omega)
    have sec : (zeroPadded 2 (uintLe 8 data / 1000 % 60)).length ≤ 2 + 2 :=
      zeroPadded_length 2 (by decide) (by omega)
    have msec : (zeroPadded 3 (uintLe 8 data % 1000)).length ≤ 3 + 3 :=
      zeroPadded_length 3 (by decide) (by omega)
    have colon : ":".length = 1 := rfl
    have dot : ".".length = 1 := rfl
    simp only [String.length_append, colon, dot, maxStrLen]
    omega

theorem scaleVolume_unit (libc : Libc) (threshold : Nat) (volume : libc.Double) (units : List String) :
    (scaleVolume libc threshold volume units).2 ∈ "" :: units := by
  fun_induction scaleVolume libc threshold volume units with
  | case1 volume => exact List.mem_cons_self
  | case2 volume unit => exact List.mem_cons_of_mem _ List.mem_cons_self
  | case3 volume unit next rest exceeds ih =>
    rcases List.mem_cons.mp ih with none | later
    · exact List.mem_cons.mpr (Or.inl none)
    · exact List.mem_cons_of_mem _ (List.mem_cons_of_mem _ later)
  | case4 volume unit next rest exceeds => exact List.mem_cons_of_mem _ List.mem_cons_self

theorem scaledToStr_short (threshold : Nat) {units : List String}
    (short : ∀ unit ∈ "" :: units, unit.length ≤ 2) (volume : libc.Double) :
    (scaledToStr libc.toLibc threshold units volume).length < 2 * maxStrLen := by
  have number := libc.fixed1_short (scaleVolume libc.toLibc threshold volume units).1
  have unit := short _ (scaleVolume_unit libc.toLibc threshold volume units)
  have space : " ".length = 1 := rfl
  simp only [scaledToStr, String.length_append, space, maxStrLen] at number ⊢
  omega

theorem decimalUnits_short : ∀ unit ∈ "" :: decimalUnitTable, unit.length ≤ 2 := by decide

theorem binaryUnits_short : ∀ unit ∈ "" :: binaryUnitTable, unit.length ≤ 2 := by decide

theorem fixed1_short (volume : libc.Double) : (libc.fixed1 volume).length < 2 * maxStrLen :=
  Nat.lt_trans (libc.fixed1_short volume) (by decide)

theorem doubleVolumeToStr_short (data : Bytes) :
    (doubleVolumeToStr libc.toLibc params data).length < 2 * maxStrLen := by
  unfold doubleVolumeToStr
  cases params.volumeConv with
  | none => exact fixed1_short libc _
  | metricPrefix => exact scaledToStr_short libc _ decimalUnits_short _
  | binaryPrefix => exact scaledToStr_short libc _ binaryUnits_short _

theorem volumeToStr_short (data : Bytes) :
    (volumeToStr libc.toLibc params data).length < 2 * maxStrLen := by
  unfold volumeToStr
  cases params.volumeConv with
  | none => exact Nat.lt_of_le_of_lt (word64_length data) (by decide)
  | metricPrefix => exact scaledToStr_short libc _ decimalUnits_short _
  | binaryPrefix => exact scaledToStr_short libc _ binaryUnits_short _

theorem tcpFlagsToStr_short (data : Bytes) : (tcpFlagsToStr params data).length < 2 * maxStrLen := by
  unfold tcpFlagsToStr
  cases params.tcpFlagsConv with
  | none => exact Nat.lt_of_le_of_lt (uintToStr_length (by decide) data) (by decide)
  | str =>
    rw [String.length_ofList, List.length_map, List.length_range]
    decide

theorem ipProtoStr_short (proto : Nat) : (ipProtoStr proto).length < 2 * maxStrLen := by
  have table : ∀ name ∈ ipProtoStrTable, name.length < 2 * maxStrLen := by decide +kernel
  unfold ipProtoStr
  split
  · decide
  · split
    · decide
    · rw [List.getD_eq_getElem?_getD]
      cases found : ipProtoStrTable[proto]? with
      | none => decide
      | some name => exact table name (List.mem_of_getElem? found)

theorem ipProtoToStr_short (data : Bytes) : (ipProtoToStr params data).length < 2 * maxStrLen := by
  unfold ipProtoToStr
  cases params.ipProtoConv with
  | none => exact Nat.lt_of_le_of_lt (uintToStr_length (by decide) data) (by decide)
  | str => exact ipProtoStr_short _

theorem libnfAddrToStr_short (data : Bytes) :
    (libnfAddrToStr libc.toLibc params data).length < 2 * maxStrLen := by
  unfold libnfAddrToStr
  cases params.ipAddrConv with
  | none =>
    have first := word32_length data
    have second := word32_length (data.drop 4)
    have third := word32_length (data.drop 8)
    have fourth := word32_length (data.drop 12)
    have colon : ":".length = 1 := rfl
    simp only [String.length_append, colon, maxStrLen]
    omega
  | str =>
    dsimp only
    split
    · exact Nat.lt_trans (libc.inetNtop4_short _) (by decide)
    · exact Nat.lt_trans (libc.inetNtop6_short _) (by decide)

theorem libnfMacToStr_length (data : Bytes) : (libnfMacToStr data).length = 17 := by
  have byte (b : UInt8) : (hexByte b).length = 2 := String.length_ofList
  have colon : ":".length = 1 := rfl
  have text : libnfMacToStr data =
      hexByte (data.getD 0 0) ++ ":" ++ hexByte (data.getD 1 0) ++ ":" ++ hexByte
        (data.getD 2 0) ++ ":" ++
        hexByte (data.getD 3 0) ++ ":" ++ hexByte (data.getD 4 0) ++ ":" ++ hexByte
          (data.getD 5 0) := rfl
  simp only [text, String.length_append, byte, colon]

theorem FieldToStr.apply_short (cb : FieldToStr) (data : Bytes) :
    (cb.apply libc.toLibc params data).length < 2 * maxStrLen := by
  have number {width : Nat} (small : width ≤ 8) : (uintToStr width data).length < 2 * maxStrLen :=
    Nat.lt_of_le_of_lt (uintToStr_length small data) (by decide)
  cases cb with
  | timestamp => exact timestampToStr_short libc params data
  | volume => exact volumeToStr_short libc params data
  | tcpFlags => exact tcpFlagsToStr_short params data
  | ipProto => exact ipProtoToStr_short params data
  | duration => exact durationToStr_short params data
  | doubleVolume => exact doubleVolumeToStr_short libc params data
  | uint8 | uint16 | uint32 | uint64 => exact number (by decide)
  | double => exact fixed1_short libc _
  | libnfAddr => exact libnfAddrToStr_short libc params data
  | libnfMac =>
    rw [apply, libnfMacToStr_length]
    decide
  | libnfBrec =>
    rw [apply, ← String.length_toList, libnfBrecToStr_toList, List.length_take]
    exact Nat.lt_of_le_of_lt (Nat.min_le_left _ _) (by decide)
  | string =>
    rw [apply, stringToStr, String.length_ofList, List.length_map, List.length_take]
    exact Nat.lt_of_le_of_lt (Nat.min_le_left _ _) (by decide)

end Fdistdump.Output
