import Fdistdump.Output.FieldText
import Fdistdump.Library.Delimited

/-!
# Reading texts back

The texts of most callbacks determine their values: `readField` is a left inverse. It depends on the
conversions, and is none for names of protocols, for addresses in their usual notation, and for
rounded numbers.
-/

namespace Fdistdump.Output

/-! ### Bytes of a number -/

def bytesLe : Nat → Nat → Bytes
  | 0, _ => []
  | width + 1, n => UInt8.ofNat n :: bytesLe width (n / 256)

theorem uintLe_cons (width : Nat) (byte : UInt8) (rest : Bytes) :
    uintLe (width + 1) (byte :: rest) = byte.toNat + 256 * uintLe width rest := rfl

theorem bytesLe_uintLe {width : Nat} {value : Bytes} (size : value.length = width) :
    bytesLe width (uintLe width value) = value := by
  induction width generalizing value with
  | zero => rw [List.length_eq_zero_iff.mp size, bytesLe]
  | succ width ih =>
    obtain ⟨byte, rest, rfl⟩ := List.exists_cons_of_length_eq_add_one size
    have small := byte.toNat_lt
    have low : UInt8.ofNat (byte.toNat + 256 * uintLe width rest) = byte := by
      rw [← UInt8.toNat_inj, UInt8.toNat_ofNat']
      omega
    have high : (byte.toNat + 256 * uintLe width rest) / 256 = uintLe width rest := by omega
    rw [uintLe_cons, bytesLe, low, high, ih (Nat.succ.inj size)]

def bytesBe (width n : Nat) : Bytes := (bytesLe width n).reverse

theorem uintBe_eq {width : Nat} {value : Bytes} (size : value.length = width) :
    uintBe width value = uintLe width value.reverse := by
  rw [uintBe, uintLe, List.take_of_length_le (by omega),
    List.take_of_length_le (by rw [List.length_reverse]; omega),
    List.foldr_reverse]
  exact congrFun (congrFun (congrArg _ (funext fun acc => funext fun byte => Nat.add_comm _ _)) _) _

theorem bytesBe_uintBe {width : Nat} {value : Bytes} (size : value.length = width) :
    bytesBe width (uintBe width value) = value := by
  rw [bytesBe, uintBe_eq size, bytesLe_uintLe (by rwa [List.length_reverse]), List.reverse_reverse]

/-! ### Numbers -/

def decimal (text : List Char) : Nat := Nat.ofDigitChars 10 text 0

theorem decimal_toString (n : Nat) : decimal (toString n).toList = n := by
  rw [show (toString n).toList = Nat.toDigits 10 n from Nat.toList_repr]
  exact Nat.ofDigitChars_ten_toDigits

theorem decimal_zeroPadded (width n : Nat) : decimal (zeroPadded width n).toList = n := by
  rw [zeroPadded, String.toList_append, String.toList_ofList, decimal, Nat.ofDigitChars_append,
    Nat.ofDigitChars_replicate_zero, Nat.mul_zero]
  exact decimal_toString n

/-- The letters that occur in texts which can be read back. -/
def plainLetters : List Char := ":.CEUAPRSFabcdef".toList

def plainChar (c : Char) : Bool := c.isDigit || plainLetters.contains c

theorem toString_digits {n : Nat} {c : Char} (member : c ∈ (toString n).toList) : c.isDigit = true := by
  rw [show (toString n).toList = Nat.toDigits 10 n from Nat.toList_repr] at member
  exact Nat.isDigit_of_mem_toDigits (by decide) (by decide) member

theorem zeroPadded_digits {width n : Nat} {c : Char} (member : c ∈ (zeroPadded width n).toList) :
    c.isDigit = true := by
  rw [zeroPadded, String.toList_append, String.toList_ofList, List.mem_append] at member
  rcases member with zero | digit
  · rw [List.eq_of_mem_replicate zero]
    rfl
  · exact toString_digits digit

/-! ### Readers -/

def readUint (width : Nat) (text : List Char) : Bytes := bytesLe width (decimal text)

def readDuration (text : List Char) : Bytes :=
  match text.splitOn ':' with
  | [hours, min, rest] =>
    match rest.splitOn '.' with
    | [sec, msec] =>
      bytesLe 8 (((decimal hours * 60 + decimal min) * 60 + decimal sec) * 1000 + decimal msec)
    | _ => []
  | _ => []

def readFlags (text : List Char) : Bytes :=
  [UInt8.ofNat (text.foldl (fun flags c => 2 * flags + if c = tcpFlagUnsetChar then 0 else 1) 0)]

def readAddr (text : List Char) : Bytes :=
  (text.splitOn ':').flatMap fun word => bytesBe 4 (decimal word)

def hexValue (c : Char) : Nat := if c.isDigit then c.toNat - '0'.toNat else c.toNat - 'a'.toNat + 10

def readMac (text : List Char) : Bytes :=
  (text.splitOn ':').map fun byte => UInt8.ofNat (byte.foldl (fun n c => 16 * n + hexValue c) 0)

/-- The callback's text has all of the value. -/
def FieldToStr.Exact (params : OutputParams) : FieldToStr → Bool
  | .timestamp => params.tsConv = .none
  | .volume => params.volumeConv = .none
  | .ipProto => params.ipProtoConv = .none
  | .libnfAddr => params.ipAddrConv = .none
  | .tcpFlags | .duration | .uint8 | .uint16 | .uint32 | .uint64 | .libnfMac => true
  | .doubleVolume | .double | .libnfBrec | .string => false

def readField (params : OutputParams) : FieldToStr → List Char → Bytes
  | .timestamp | .volume | .uint64 => readUint 8
  | .duration => match params.durationConv with
    | .none => readUint 8
    | .str => readDuration
  | .tcpFlags => match params.tcpFlagsConv with
    | .none => readUint 1
    | .str => readFlags
  | .ipProto | .uint8 => readUint 1
  | .uint16 => readUint 2
  | .uint32 => readUint 4
  | .libnfAddr => readAddr
  | .libnfMac => readMac
  | _ => fun _ => []

variable (libc : Libc) {params : OutputParams} {value : Bytes}

theorem readUint_uintToStr {width : Nat} (size : value.length = width) :
    readUint width (uintToStr width value).toList = value := by
  rw [uintToStr, readUint, decimal_toString, bytesLe_uintLe size]

theorem digits_notMem {c : Char} {text : List Char} (digits : ∀ d ∈ text, d.isDigit = true)
    (other : c.isDigit = false) : c ∉ text := by
  intro member
  rw [digits c member] at other
  cases other

theorem readDuration_durationToStr (conv : params.durationConv = .str) (size : value.length = 8) :
    readDuration (durationToStr params value).toList = value := by
  have colon {width n : Nat} : ':' ∉ (zeroPadded width n).toList :=
    digits_notMem (fun _ => zeroPadded_digits) rfl
  have dot {width n : Nat} : '.' ∉ (zeroPadded width n).toList :=
    digits_notMem (fun _ => zeroPadded_digits) rfl
  have text : (durationToStr params value).toList =
      (zeroPadded 2 (uintLe 8 value / 1000 / 60 / 60)).toList ++ ':' ::
        ((zeroPadded 2 (uintLe 8 value / 1000 / 60 % 60)).toList ++ ':' ::
          ((zeroPadded 2 (uintLe 8 value / 1000 % 60)).toList ++ '.' ::
            (zeroPadded 3 (uintLe 8 value % 1000)).toList)) := by
    simp [durationToStr, conv, List.append_assoc]
  have rest : ':' ∉ (zeroPadded 2 (uintLe 8 value / 1000 % 60)).toList ++ '.' ::
      (zeroPadded 3 (uintLe 8 value % 1000)).toList := by
    simp only [List.mem_append, List.mem_cons, not_or]
    exact ⟨colon, by decide, colon⟩
  have total : ((uintLe 8 value / 1000 / 60 / 60 * 60 + uintLe 8 value / 1000 / 60 % 60) * 60 +
    uintLe 8 value / 1000 % 60) *
      1000 + uintLe 8 value % 1000 = uintLe 8 value := by omega
  rw [text, readDuration, List.splitOn_append_cons_self_of_not_mem colon,
    List.splitOn_append_cons_self_of_not_mem colon,
    List.splitOn_eq_singleton rest]
  dsimp only
  rw [List.splitOn_append_cons_self_of_not_mem dot, List.splitOn_eq_singleton dot]
  dsimp only
  rw [decimal_zeroPadded, decimal_zeroPadded, decimal_zeroPadded, decimal_zeroPadded, total,
    bytesLe_uintLe size]

theorem readFlags_flags (flags : Fin 256) :
    readFlags ((List.range 8).map fun idx =>
      if (flags : Nat).testBit (7 - idx) then tcpFlagsTable.getD idx tcpFlagUnsetChar
      else tcpFlagUnsetChar) =
        [UInt8.ofNat flags] := by
  decide +revert +kernel

theorem readFlags_tcpFlagsToStr (conv : params.tcpFlagsConv = .str) (size : value.length = 1) :
    readFlags (tcpFlagsToStr params value).toList = value := by
  obtain ⟨flags, rfl⟩ := List.length_eq_one_iff.mp size
  rw [tcpFlagsToStr, conv]
  dsimp only
  rw [String.toList_ofList]
  exact (readFlags_flags ⟨flags.toNat, flags.toNat_lt⟩).trans
    (congrArg (fun byte => [byte]) UInt8.ofNat_toNat)

theorem readAddr_libnfAddrToStr (conv : params.ipAddrConv = .none) (size : value.length = 16) :
    readAddr (libnfAddrToStr libc params value).toList = value := by
  have colon {n : Nat} : ':' ∉ (toString n).toList := digits_notMem (fun _ => toString_digits) rfl
  have text : (libnfAddrToStr libc params value).toList =
      (toString (uintBe 4 value)).toList ++ ':' :: ((toString (uintBe 4 (value.drop 4))).toList ++ ':' ::
        ((toString (uintBe 4 (value.drop 8))).toList ++ ':' ::
          (toString (uintBe 4 (value.drop 12))).toList)) := by
    simp [libnfAddrToStr, conv, List.append_assoc]
  have word {data : Bytes} (enough : 4 ≤ data.length) : bytesBe 4 (uintBe 4 data) = data.take 4 := by
    have front : uintBe 4 (data.take 4) = uintBe 4 data := by
      rw [uintBe, List.take_take]
      rfl
    rw [← front]
    exact bytesBe_uintBe (by rw [List.length_take]; omega)
  have parts (k : Nat) : (value.drop k).take 4 ++ value.drop (k + 4) = value.drop k := by
    rw [← List.drop_drop, List.take_append_drop]
  rw [text, readAddr, List.splitOn_append_cons_self_of_not_mem colon,
    List.splitOn_append_cons_self_of_not_mem colon,
    List.splitOn_append_cons_self_of_not_mem colon, List.splitOn_eq_singleton colon]
  simp only [List.flatMap_cons, List.flatMap_nil, List.append_nil, decimal_toString]
  rw [word (by omega), word (by rw [List.length_drop]; omega), word (by rw [List.length_drop]; omega),
    word (by rw [List.length_drop]; omega), List.take_of_length_le (l := value.drop 12)
      (by rw [List.length_drop]; omega)]
  exact (congrArg _ ((congrArg _ (parts 8)).trans (parts 4))).trans (List.take_append_drop 4 value)

theorem hexValue_digitChar (n : Fin 16) : hexValue (Nat.digitChar n) = n := by
  decide +revert

theorem hexByte_hex {byte : UInt8} {c : Char} (member : c ∈ (hexByte byte).toList) :
    ∃ n : Fin 16, c = Nat.digitChar n := by
  have small := byte.toNat_lt
  rw [hexByte, String.toList_ofList, List.mem_pair] at member
  rcases member with rfl | rfl
  · exact ⟨⟨byte.toNat / 16, by omega⟩, rfl⟩
  · exact ⟨⟨byte.toNat % 16, by omega⟩, rfl⟩

theorem hexByte_value (byte : UInt8) :
    UInt8.ofNat ((hexByte byte).toList.foldl (fun n c => 16 * n + hexValue c) 0) = byte := by
  have small := byte.toNat_lt
  have high := hexValue_digitChar ⟨byte.toNat / 16, by omega⟩
  have low := hexValue_digitChar ⟨byte.toNat % 16, by omega⟩
  dsimp only at high low
  rw [hexByte, String.toList_ofList, List.foldl_cons, List.foldl_cons, List.foldl_nil, high, low,
    show 16 * (16 * 0 + byte.toNat / 16) + byte.toNat % 16 = byte.toNat by omega, UInt8.ofNat_toNat]

theorem readMac_libnfMacToStr (size : value.length = 6) :
    readMac (libnfMacToStr value).toList = value := by
  have colon : ∀ cell ∈ (List.range 6).map (fun i => (hexByte (value.getD i 0)).toList), ':' ∉ cell := by
    refine List.forall_mem_map.mpr fun i _ colon => ?_
    obtain ⟨n, hex⟩ := hexByte_hex colon
    revert hex
    revert n
    decide
  have bytes : (List.range 6).map (fun i => value.getD i 0) = value := by
    refine List.ext_getElem (by simp [size]) fun i _ inside => ?_
    simp [List.getElem?_eq_getElem inside]
  have text : (libnfMacToStr value).toList = [':'].intercalate ((List.range 6).map fun i =>
    (hexByte (value.getD i 0)).toList) := by
    simp [libnfMacToStr, String.toList_intercalate, List.map_map]
    rfl
  rw [text, readMac, List.splitOn_intercalate ':' colon (by simp), List.map_map]
  exact (List.map_congr_left fun i _ => hexByte_value _).trans bytes

theorem readField_apply {cb : FieldToStr} (exact' : cb.Exact params = true)
    (size : value.length = cb.width libc) :
    readField params cb (cb.apply libc params value).toList = value := by
  cases cb with
  | timestamp =>
    have conv : params.tsConv = .none := by simpa [FieldToStr.Exact] using exact'
    simp only [FieldToStr.apply, timestampToStr, conv]
    exact readUint_uintToStr size
  | volume =>
    have conv : params.volumeConv = .none := by simpa [FieldToStr.Exact] using exact'
    simp only [FieldToStr.apply, volumeToStr, conv]
    exact readUint_uintToStr size
  | ipProto =>
    have conv : params.ipProtoConv = .none := by simpa [FieldToStr.Exact] using exact'
    simp only [FieldToStr.apply, ipProtoToStr, conv]
    exact readUint_uintToStr size
  | libnfAddr =>
    have conv : params.ipAddrConv = .none := by simpa [FieldToStr.Exact] using exact'
    exact readAddr_libnfAddrToStr libc conv size
  | tcpFlags =>
    cases conv : params.tcpFlagsConv with
    | none =>
      simp only [readField, FieldToStr.apply, tcpFlagsToStr, conv]
      exact readUint_uintToStr size
    | str =>
      simp only [readField, conv]
      exact readFlags_tcpFlagsToStr conv size
  | duration =>
    cases conv : params.durationConv with
    | none =>
      simp only [readField, FieldToStr.apply, durationToStr, conv]
      exact readUint_uintToStr size
    | str =>
      simp only [readField, conv]
      exact readDuration_durationToStr conv size
  | uint8 | uint16 | uint32 | uint64 => exact readUint_uintToStr size
  | libnfMac => exact readMac_libnfMacToStr size
  | doubleVolume | double | libnfBrec | string => cases exact'

/-! ### The letters of the texts -/

theorem plain_digit {c : Char} (digit : c.isDigit = true) : plainChar c = true := by
  rw [plainChar, digit, Bool.true_or]

theorem plain_hex (n : Fin 16) : plainChar (Nat.digitChar n) = true := by
  decide +revert

theorem plain_toString {n : Nat} : ∀ c ∈ (toString n).toList, plainChar c = true :=
  fun _ member => plain_digit (toString_digits member)

theorem plain_zeroPadded {width n : Nat} : ∀ c ∈ (zeroPadded width n).toList, plainChar c = true :=
  fun _ member => plain_digit (zeroPadded_digits member)

theorem plain_append {s t : String} (first : ∀ c ∈ s.toList, plainChar c = true)
    (second : ∀ c ∈ t.toList, plainChar c = true) : ∀ c ∈ (s ++ t).toList, plainChar c = true := by
  rw [String.toList_append]
  exact List.forall_mem_append.mpr ⟨first, second⟩

theorem apply_plain {cb : FieldToStr} (exact' : cb.Exact params = true) (value : Bytes) :
    ∀ c ∈ (cb.apply libc params value).toList, plainChar c = true := by
  have colon : ∀ c ∈ (":" : String).toList, plainChar c = true := by
    rw [show (":" : String).toList = [':'] from rfl, List.forall_mem_singleton]
    decide
  have dot : ∀ c ∈ ("." : String).toList, plainChar c = true := by
    rw [show ("." : String).toList = ['.'] from rfl, List.forall_mem_singleton]
    decide
  cases cb with
  | timestamp =>
    have conv : params.tsConv = .none := by simpa [FieldToStr.Exact] using exact'
    simp only [FieldToStr.apply, timestampToStr, conv]
    exact plain_toString
  | volume =>
    have conv : params.volumeConv = .none := by simpa [FieldToStr.Exact] using exact'
    simp only [FieldToStr.apply, volumeToStr, conv]
    exact plain_toString
  | ipProto =>
    have conv : params.ipProtoConv = .none := by simpa [FieldToStr.Exact] using exact'
    simp only [FieldToStr.apply, ipProtoToStr, conv]
    exact plain_toString
  | libnfAddr =>
    have conv : params.ipAddrConv = .none := by simpa [FieldToStr.Exact] using exact'
    simp only [FieldToStr.apply, libnfAddrToStr, conv]
    exact plain_append
      (plain_append (plain_append (plain_append (plain_append (plain_append plain_toString colon)
      plain_toString) colon) plain_toString) colon) plain_toString
  | tcpFlags =>
    cases conv : params.tcpFlagsConv with
    | none =>
      simp only [FieldToStr.apply, tcpFlagsToStr, conv]
      exact plain_toString
    | str =>
      simp only [FieldToStr.apply, tcpFlagsToStr, conv, String.toList_ofList]
      refine List.forall_mem_map.mpr fun idx inside => ?_
      have letters : ∀ idx ∈ List.range 8, plainChar (tcpFlagsTable.getD idx tcpFlagUnsetChar) =
        true := by decide
      split
      · exact letters idx inside
      · rfl
  | duration =>
    cases conv : params.durationConv with
    | none =>
      simp only [FieldToStr.apply, durationToStr, conv]
      exact plain_toString
    | str =>
      simp only [FieldToStr.apply, durationToStr, conv]
      exact plain_append
        (plain_append
          (plain_append (plain_append (plain_append (plain_append plain_zeroPadded colon)
        plain_zeroPadded) colon) plain_zeroPadded) dot) plain_zeroPadded
  | uint8 | uint16 | uint32 | uint64 => exact plain_toString
  | libnfMac =>
    simp only [FieldToStr.apply, libnfMacToStr, String.toList_intercalate, List.map_map]
    refine Delimited.forall_mem_intercalate (by decide) (List.forall_mem_map.mpr fun i _ c member => ?_)
    obtain ⟨n, rfl⟩ := hexByte_hex member
    exact plain_hex n
  | doubleVolume | double | libnfBrec | string => cases exact'

end Fdistdump.Output
