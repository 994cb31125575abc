import Fdistdump.Output.FieldToStr

/-!
# Properties of the texts

A callback reads no more than its value, and zero bytes are never printed like a missing value.
-/

namespace Fdistdump.Output

variable (libc : Libc) (params : OutputParams)

/-! ### Reads -/

theorem uintLe_append {width : Nat} {value : Bytes} (rest : Bytes) (fits : width ≤ value.length) :
    uintLe width (value ++ rest) = uintLe width value := by
  rw [uintLe, uintLe, List.take_append_of_le_length fits]

theorem uintBe_append (width off : Nat) {value : Bytes} (rest : Bytes)
    (fits : off + width ≤ value.length) :
    uintBe width ((value ++ rest).drop off) = uintBe width (value.drop off) := by
  rw [uintBe, uintBe, List.drop_append_of_le_length (by omega),
    List.take_append_of_le_length (by rw [List.length_drop]; omega)]

theorem libnfAddrToStr_append {value : Bytes} (rest : Bytes) (fits : 16 ≤ value.length) :
    libnfAddrToStr libc params (value ++ rest) = libnfAddrToStr libc params value := by
  have word (off : Nat) (inside : off + 4 ≤ 16) := uintBe_append 4 off rest (Nat.le_trans inside fits)
  have first : uintBe 4 (value ++ rest) = uintBe 4 value := word 0 (by decide)
  have front : uintBe 12 (value ++ rest) = uintBe 12 value :=
    uintBe_append 12 0 rest (Nat.le_trans (by decide) fits)
  have last : ((value ++ rest).drop 12).take 4 = (value.drop 12).take 4 := by
    rw [List.drop_append_of_le_length (by omega), List.take_append_of_le_length
      (by rw [List.length_drop]; omega)]
  unfold libnfAddrToStr in6IsAddrV4Compat
  rw [first, front, word 4 (by decide), word 8 (by decide), word 12 (by decide), last,
    List.take_append_of_le_length fits]

theorem libnfMacToStr_append {value : Bytes} (rest : Bytes) (fits : 6 ≤ value.length) :
    libnfMacToStr (value ++ rest) = libnfMacToStr value := by
  unfold libnfMacToStr
  congr 1
  apply List.map_congr_left
  intro i inside
  have below : i < value.length := Nat.lt_of_lt_of_le (List.mem_range.mp inside) fits
  rw [List.getD_eq_getElem?_getD, List.getD_eq_getElem?_getD, List.getElem?_append_left below]

theorem stringToStr_append {value : Bytes} (rest : Bytes) (terminated : 0 ∈ value) :
    stringToStr (value ++ rest) = stringToStr value := by
  have same : (value ++ rest).takeWhile (· ≠ 0) = value.takeWhile (· ≠ 0) := by
    induction value with
    | nil => simp at terminated
    | cons byte value ih =>
      rw [List.cons_append, List.takeWhile_cons, List.takeWhile_cons]
      by_cases zero : byte = 0
      · simp [zero]
      · rw [ih (by simpa [Ne.symm zero] using terminated)]
  rw [stringToStr, stringToStr, same]

theorem FieldToStr.apply_append {cb : FieldToStr} {value : Bytes} (rest : Bytes)
    (fits : cb.Fits libc value) : cb.apply libc params (value ++ rest) = cb.apply libc params value := by
  obtain ⟨wide, terminated⟩ := fits
  cases cb with
  | libnfAddr => exact libnfAddrToStr_append libc params rest wide
  | libnfMac => exact libnfMacToStr_append rest wide
  | libnfBrec =>
    have wide : libc.brec1Size ≤ value.length := wide
    simp only [apply, libnfBrecToStr, List.take_append_of_le_length wide]
  | string => exact stringToStr_append rest (terminated rfl)
  | tcpFlags | ipProto | uint8 =>
    have read : uintLe 1 (value ++ rest) = uintLe 1 value := uintLe_append rest wide
    simp only [apply, tcpFlagsToStr, ipProtoToStr, uintToStr, read]
  | uint16 | uint32 => exact congrArg toString (uintLe_append rest wide)
  | _ =>
    have read : uintLe 8 (value ++ rest) = uintLe 8 value := uintLe_append rest wide
    simp only [apply, timestampToStr, volumeToStr, durationToStr, doubleVolumeToStr, doubleToStr,
      uintToStr,
      read]

/-! ### Texts of zero bytes -/

theorem foldr_zeros (n : Nat) :
    (List.replicate n (0 : UInt8)).foldr (fun byte acc => byte.toNat + 256 * acc) 0 = 0 := by
  induction n with
  | zero => rfl
  | succ n ih => rw [List.replicate_succ, List.foldr_cons, ih]; rfl

theorem foldl_zeros (n : Nat) :
    (List.replicate n (0 : UInt8)).foldl (fun acc byte => 256 * acc + byte.toNat) 0 = 0 := by
  induction n with
  | zero => rfl
  | succ n ih => rw [List.replicate_succ, List.foldl_cons]; exact ih

@[simp] theorem uintLe_zeros (width n : Nat) : uintLe width (List.replicate n 0) = 0 := by
  rw [uintLe, List.take_replicate, foldr_zeros]

@[simp] theorem uintBe_zeros (width n : Nat) : uintBe width (List.replicate n 0) = 0 := by
  rw [uintBe, List.take_replicate, foldl_zeros]

theorem ne_of_mem_toList {c : Char} {s text : String} (present : c ∈ s.toList)
    (absent : c ∉ text.toList) :
    s ≠ text := fun same => absent (same ▸ present)

theorem scaledToStr_space (threshold : Nat) (units : List String) (volume : libc.Double) :
    ' ' ∈ (scaledToStr libc threshold units volume).toList := by
  simp [scaledToStr]

theorem timestampToStr_pretty (data : Bytes) (pretty : params.tsConv = .pretty) :
    '.' ∈ (timestampToStr libc params data).toList := by
  simp [timestampToStr, pretty]

/-- The text is the beginning of everything appended so far; once it is cut, nothing fits any more. -/
structure Appended.Holds (s : Appended) (whole : List Char) : Prop where
  text : s.text.toList = whole.take (maxStrLen - 1)
  room : s.remaining = 0 ∧ maxStrLen - 1 ≤ whole.length ∨
    0 < s.remaining ∧ s.remaining + whole.length = maxStrLen

theorem snprintfAppend_holds {s : Appended} {whole : List Char} (str : String) (holds : s.Holds whole) :
    (snprintfAppend s str).Holds (whole ++ str.toList) := by
  obtain ⟨text, room⟩ := holds
  have length : str.toList.length = str.length := String.length_toList
  unfold snprintfAppend
  rcases room with ⟨none, cut⟩ | ⟨some, room⟩
  · rw [if_pos (by omega), none]
    refine ⟨?_, Or.inl ⟨rfl, ?_⟩⟩
    · simp [text, List.take_append_of_le_length cut]
    · rw [List.length_append]
      omega
  · have uncut : s.text.toList = whole := by rw [text, List.take_of_length_le (by omega)]
    split
    · refine ⟨?_, Or.inl ⟨rfl, ?_⟩⟩
      · rw [String.toList_append, String.toList_ofList, uncut, List.take_append,
          List.take_of_length_le (l := whole) (by omega), show maxStrLen - 1 - whole.length =
            s.remaining - 1 by omega]
      · rw [List.length_append]
        omega
    · refine ⟨?_, Or.inr ⟨by dsimp only; omega, by rw [List.length_append]; dsimp only; omega⟩⟩
      rw [String.toList_append, uncut, List.take_of_length_le (by rw [List.length_append]; omega)]

theorem foldl_snprintfAppend_holds {s : Appended} {whole : List Char} (parts : List String)
    (holds : s.Holds whole) :
    (parts.foldl snprintfAppend s).Holds (whole ++ parts.flatMap String.toList) := by
  induction parts generalizing s whole with
  | nil => simpa using holds
  | cons str rest ih =>
    rw [List.foldl_cons, List.flatMap_cons, ← List.append_assoc]
    exact ih (snprintfAppend_holds str holds)

theorem libnfBrecToStr_toList (data : Bytes) :
    (libnfBrecToStr libc params data).toList =
      ((libnfBrecParts libc params (libc.brec1 (data.take libc.brec1Size))).flatMap String.toList).take
        (maxStrLen - 1) := by
  have empty : ({} : Appended).Holds [] := ⟨rfl, Or.inr ⟨by decide, rfl⟩⟩
  exact (foldl_snprintfAppend_holds _ empty).text

/-- Nine of the parts end with a separator or are padded. -/
theorem libnfBrecToStr_length (data : Bytes) : 9 ≤ (libnfBrecToStr libc params data).length := by
  rw [← String.length_toList, libnfBrecToStr_toList, List.length_take]
  refine Nat.le_min_of_le_of_le (by decide) ?_
  unfold libnfBrecParts
  cases params.format with
  | pretty =>
    simp only [List.flatMap_cons, List.length_append, leftAligned, String.toList_append,
      String.toList_ofList,
      List.length_replicate, String.length_toList]
    omega
  | csv =>
    have separator : csvSep.length = 1 := rfl
    simp only [List.flatMap_cons, List.length_append, String.toList_append, String.length_toList,
      separator]
    omega

/-- Zero bytes are never printed as a text that stands for a missing value. -/
theorem FieldToStr.apply_zeros_ne (cb : FieldToStr) (n : Nat) {text : String}
    (missing : text = nanStr ∨ text = absentStr) : cb.apply libc params (List.replicate n 0) ≠ text := by
  have noDot : '.' ∉ text.toList := by rcases missing with rfl | rfl <;> decide
  have noSpace : ' ' ∉ text.toList := by rcases missing with rfl | rfl <;> decide
  have noColon : ':' ∉ text.toList := by rcases missing with rfl | rfl <;> decide
  have zero : toString 0 ≠ text := by rcases missing with rfl | rfl <;> decide
  have zeroDouble : libc.fixed1 (libc.ofBits 0) ≠ text := by
    rw [libc.fixed1_zero]
    rcases missing with rfl | rfl <;> decide
  cases cb with
  | timestamp =>
    cases conv : params.tsConv with
    | none => simpa [apply, timestampToStr, conv] using zero
    | pretty => exact ne_of_mem_toList (timestampToStr_pretty libc params _ conv) noDot
  | volume =>
    cases conv : params.volumeConv with
    | none => simpa [apply, volumeToStr, conv] using zero
    | _ =>
      simp only [apply, volumeToStr, conv]
      exact ne_of_mem_toList (scaledToStr_space libc _ _ _) noSpace
  | tcpFlags =>
    cases conv : params.tcpFlagsConv with
    | none => simpa [apply, tcpFlagsToStr, uintToStr, conv] using zero
    | str =>
      simp only [apply, tcpFlagsToStr, conv, uintLe_zeros]
      exact ne_of_mem_toList (c := '.') (by decide) noDot
  | ipProto =>
    cases conv : params.ipProtoConv with
    | none => simpa [apply, ipProtoToStr, uintToStr, conv] using zero
    | str =>
      simp only [apply, ipProtoToStr, conv, uintLe_zeros]
      rcases missing with rfl | rfl <;> decide
  | duration =>
    cases conv : params.durationConv with
    | none => simpa [apply, durationToStr, conv] using zero
    | str =>
      simp only [apply, durationToStr, conv, uintLe_zeros]
      exact ne_of_mem_toList (c := ':') (by decide) noColon
  | doubleVolume =>
    cases conv : params.volumeConv with
    | none => simpa [apply, doubleVolumeToStr, conv] using zeroDouble
    | _ =>
      simp only [apply, doubleVolumeToStr, conv]
      exact ne_of_mem_toList (scaledToStr_space libc _ _ _) noSpace
  | double => simpa [apply, doubleToStr] using zeroDouble
  | libnfAddr =>
    have text : ':' ∈ (libnfAddrToStr libc params (List.replicate n 0)).toList := by
      cases conv : params.ipAddrConv with
      | none => simp [libnfAddrToStr, conv]
      | str =>
        have zeros := libc.inetNtop6_zero (List.replicate (min 16 n) 0) (by simp)
        simp [libnfAddrToStr, conv, in6IsAddrV4Compat, zeros]
    exact ne_of_mem_toList text noColon
  | libnfMac =>
    have text : libnfMacToStr (List.replicate n 0) = "00:00:00:00:00:00" := by
      have byte (i : Nat) : (List.replicate n (0 : UInt8)).getD i 0 = 0 := by
        rw [List.getD_eq_getElem?_getD, List.getElem?_replicate]
        split <;> rfl
      simp only [libnfMacToStr, byte]
      decide
    rw [apply, text]
    exact ne_of_mem_toList (c := ':') (by decide) noColon
  | libnfBrec =>
    intro same
    have length := libnfBrecToStr_length libc params (List.replicate n 0)
    rw [apply] at same
    rw [same] at length
    rcases missing with rfl | rfl <;> revert length <;> decide
  | string =>
    have text : stringToStr (List.replicate n 0) = "" := by
      cases n <;> rfl
    rw [apply, text]
    rcases missing with rfl | rfl <;> decide
  | _ => simpa [apply, uintToStr] using zero

end Fdistdump.Output
