import Fdistdump.Output.FieldText

/-!
# Printing one cell

`print_field` of `output.c` and the column widths it is called with. In the pretty format a cell is
put together in an array whose length is the column width and the protective padding.
-/

namespace Fdistdump.Output

inductive Alignment
  | left
  | right
deriving DecidableEq, Repr

def protectivePadding : Nat := 4

def ellipsis : String := "..."

/-! ### The cell -/

/-- `memcpy` from a string; what lies behind the string is shown as null bytes. -/
def memcpyFrom (string : List Char) (n : Nat) : List Char := string.takeD n '\x00'

/-- `aligned_and_padded_string`: its declared length and the characters before its terminator. -/
structure AlignedAndPadded where
  declared : Nat
  text : List Char
deriving DecidableEq, Repr

/-- The number of characters written, the terminator included. -/
def AlignedAndPadded.written (cell : AlignedAndPadded) : Nat := cell.text.length + 1

/-- The cell up to its trailing spaces, and `padding_width`. -/
def ellipsizeOrAlign (ellipsize : Bool) (string : String) (colWidth colWidthRemainder : Int)
    (alignment : Alignment) : List Char × Nat :=
  if colWidthRemainder < 0 ∧ ellipsize then
    let copyLen := toSizeT (colWidth - ellipsis.length)
    (memcpyFrom string.toList copyLen ++ ellipsis.toList, protectivePadding)
  else
    let spaces := if alignment = .right ∧ 0 < colWidthRemainder then toSizeT colWidthRemainder else 0
    let paddingWidth :=
      if 0 ≤ colWidthRemainder then
        match alignment with
        | .left => toSizeT (colWidthRemainder + protectivePadding)
        | .right => protectivePadding
      else if colWidthRemainder ≤ protectivePadding then 1
      else toSizeT (protectivePadding - -colWidthRemainder)
    (List.replicate spaces ' ' ++ string.toList, paddingWidth)

/-- `print_field` in the pretty format. The difference of the `int` and the `size_t` is a `size_t`,
stored in an `ssize_t`. -/
def alignedAndPadded (ellipsize : Bool) (string : String) (colWidth : Int) (alignment : Alignment)
    (last : Bool) : AlignedAndPadded :=
  let stringLen := string.length
  let colWidthRemainder := (colWidth - stringLen).bmod (2 ^ 64)
  let cell := ellipsizeOrAlign ellipsize string colWidth colWidthRemainder alignment
  { declared := toSizeT (stringLen + colWidthRemainder + protectivePadding)
    text := if last then cell.1 else cell.1 ++ List.replicate cell.2 ' ' }

def printField (params : OutputParams) (ellipsize : Bool) (string : String) (colWidth : Int)
    (alignment : Alignment) (last : Bool) : String :=
  match params.format with
  | .pretty => String.ofList (alignedAndPadded ellipsize string colWidth alignment last).text
  | .csv => if last then string else string ++ csvSep

/-! ### Column widths -/

variable (libc : Libc) (params : OutputParams)

def timestampToStrStrlen : Nat :=
  match params.tsConv with
  | .none => (toString (2 ^ 64 - 1)).length
  | .pretty => "YYYY-MM-DD HH:mm:ss.mls".length

/-- `DOUBLE_PRINT_MAX` with `DOUBLE_FORMAT`. -/
def doubleToStrStrlen : Nat := "9999999999.0".length

def scaledStrlen (largest : String) (units : List String) : Nat :=
  (largest ++ " " ++ units.headD "").length

def doubleVolumeToStrStrlen : Nat :=
  match params.volumeConv with
  | .none => doubleToStrStrlen
  | .metricPrefix => scaledStrlen "999.9" decimalUnitTable
  | .binaryPrefix => scaledStrlen "1023.9" binaryUnitTable

def volumeToStrStrlen : Nat :=
  match params.volumeConv with
  | .none => (toString (2 ^ 64 - 1)).length
  | .metricPrefix => scaledStrlen "999.9" decimalUnitTable
  | .binaryPrefix => scaledStrlen "1023.9" binaryUnitTable

def uintToStrStrlen (width : Nat) : Nat := (toString (2 ^ (8 * width) - 1)).length

def tcpFlagsToStrStrlen : Nat :=
  match params.tcpFlagsConv with
  | .none => uintToStrStrlen 1
  | .str => tcpFlagsTable.length

def ipProtoToStrStrlen : Nat :=
  match params.ipProtoConv with
  | .none => uintToStrStrlen 1
  | .str => 9

def durationToStrStrlen : Nat :=
  match params.durationConv with
  | .none => (toString (2 ^ 64 - 1)).length
  | .str => "00:00:00.000".length

def libnfAddrToStrStrlen : Nat :=
  match params.ipAddrConv with
  | .none => 4 * uintToStrStrlen 4 + 3 * ":".length
  | .str => "255.255.255.255".length

def getColumnWidthEstimate : FieldToStr → Nat
  | .timestamp => timestampToStrStrlen params
  | .doubleVolume => doubleVolumeToStrStrlen params
  | .volume => volumeToStrStrlen params
  | .tcpFlags => tcpFlagsToStrStrlen params
  | .ipProto => ipProtoToStrStrlen params
  | .duration => durationToStrStrlen params
  | .libnfAddr => libnfAddrToStrStrlen params
  | .libnfMac => "00:00:00:00:00:00".length
  | .uint8 => uintToStrStrlen 1
  | .uint16 => uintToStrStrlen 2
  | .uint32 => uintToStrStrlen 4
  | .uint64 => uintToStrStrlen 8
  | .double => doubleToStrStrlen
  | .string => 10
  | .libnfBrec => (libnfBrecToStr libc params (List.replicate libc.brec1Size 0)).length

def maxAssign (a b : Nat) : Nat := if b < a then a else b

/-- The values of `column_width[i]`: the estimate of `output_init`, which the header functions and
`set_column_widths_exactly` widen by the lengths of a column's names and texts. These are kept in
buffers of 256 and `MAX_STR_LEN` bytes or are names of libnf; what matters is that `int` holds them. -/
inductive ColumnWidth (cb : FieldToStr) : Nat → Prop
  | outputInit : ColumnWidth cb (getColumnWidthEstimate libc params cb)
  | widened {width : Nat} (string : String) (short : string.length < 2 ^ 31)
      (before : ColumnWidth cb width) : ColumnWidth cb (maxAssign width string.length)

/-- Every estimate has room for an ellipsis and is shorter than the buffers of the callbacks. -/
theorem estimate_bounds (cb : FieldToStr) :
    3 ≤ getColumnWidthEstimate libc params cb ∧ getColumnWidthEstimate libc params cb < maxStrLen := by
  cases cb with
  | timestamp =>
    simp only [getColumnWidthEstimate, timestampToStrStrlen]
    cases params.tsConv <;> decide
  | volume =>
    simp only [getColumnWidthEstimate, volumeToStrStrlen]
    cases params.volumeConv <;> decide
  | doubleVolume =>
    simp only [getColumnWidthEstimate, doubleVolumeToStrStrlen]
    cases params.volumeConv <;> decide
  | tcpFlags =>
    simp only [getColumnWidthEstimate, tcpFlagsToStrStrlen]
    cases params.tcpFlagsConv <;> decide
  | ipProto =>
    simp only [getColumnWidthEstimate, ipProtoToStrStrlen]
    cases params.ipProtoConv <;> decide
  | duration =>
    simp only [getColumnWidthEstimate, durationToStrStrlen]
    cases params.durationConv <;> decide
  | libnfAddr =>
    simp only [getColumnWidthEstimate, libnfAddrToStrStrlen]
    cases params.ipAddrConv <;> decide
  | libnfBrec =>
    have long := libnfBrecToStr_length libc params (List.replicate libc.brec1Size 0)
    have cut : (libnfBrecToStr libc params (List.replicate libc.brec1Size 0)).length ≤
        maxStrLen - 1 := by
      rw [← String.length_toList, libnfBrecToStr_toList, List.length_take]
      exact Nat.min_le_left _ _
    exact ⟨Nat.le_trans (by decide) long, Nat.lt_of_le_of_lt cut (by decide)⟩
  | _ =>
    simp only [getColumnWidthEstimate]
    decide

theorem maxAssign_eq (a b : Nat) : maxAssign a b = max a b := by
  unfold maxAssign
  split <;> omega

variable {libc params} {cb : FieldToStr} {width : Nat}

theorem ColumnWidth.bounds (produced : ColumnWidth libc params cb width) :
    3 ≤ width ∧ width < 2 ^ 31 := by
  induction produced with
  | outputInit =>
    obtain ⟨low, high⟩ := estimate_bounds libc params cb
    exact ⟨low, Nat.lt_trans high (by decide)⟩
  | widened string short before ih =>
    rw [maxAssign_eq]
    omega

/-! ### Lengths -/

variable {string : String} {alignment : Alignment} {last ellipsize : Bool}

theorem sizeToInt_width (narrow : width < 2 ^ 31) : sizeToInt width = width := by
  unfold sizeToInt
  rw [Int.bmod_def]
  omega

theorem remainder_eq (narrow : width < 2 ^ 31) (short : string.length < 2 ^ 63) :
    (sizeToInt width - string.length).bmod (2 ^ 64) = (width : Int) - string.length := by
  rw [sizeToInt_width narrow, Int.bmod_def]
  omega

theorem declared_eq (narrow : width < 2 ^ 31) (short : string.length < 2 ^ 63) :
    (alignedAndPadded ellipsize string (sizeToInt width) alignment last).declared =
      width + protectivePadding := by
  simp only [alignedAndPadded, remainder_eq narrow short]
  exact toSizeT_eq (by omega) (by unfold protectivePadding; omega)

theorem fitting_cell {spare : Nat} (narrow : string.length + spare < 2 ^ 31) (colWidth : Int) :
    ellipsizeOrAlign ellipsize string colWidth spare alignment =
      match alignment with
      | .left => (string.toList, spare + protectivePadding)
      | .right => (List.replicate spare ' ' ++ string.toList, protectivePadding) := by
  have spaces : toSizeT (spare : Int) = spare := toSizeT_eq rfl (by omega)
  have padding : toSizeT ((spare : Int) + protectivePadding) = spare + protectivePadding :=
    toSizeT_eq rfl (by unfold protectivePadding; omega)
  have aligned : (0 : Int) ≤ spare := Int.natCast_nonneg spare
  unfold ellipsizeOrAlign
  rw [if_neg (by omega)]
  cases alignment with
  | left => simp [padding]
  | right =>
    simp only [spaces, if_pos aligned]
    cases spare <;> simp

theorem ellipsized_cell (room : 3 ≤ width) (narrow : width < 2 ^ 31) (long : width < string.length) :
    ellipsizeOrAlign true string width (width - string.length) alignment =
      (string.toList.take (width - 3) ++ ellipsis.toList, protectivePadding) := by
  have copied : toSizeT ((width : Int) - ellipsis.length) = width - 3 :=
    toSizeT_eq (Int.ofNat_sub room).symm (by omega)
  have inside : memcpyFrom string.toList (width - 3) = string.toList.take (width - 3) :=
    List.takeD_eq_take _ (by rw [String.length_toList]; omega)
  unfold ellipsizeOrAlign
  rw [if_pos ⟨by omega, rfl⟩, copied, ← inside]

/-- Behind a longer string that is printed whole comes one space: the remainder is compared with the
protective padding by its signed value. -/
theorem whole_cell (long : width < string.length) (colWidth : Int) :
    ellipsizeOrAlign false string colWidth (width - string.length) alignment = (string.toList, 1) := by
  have below : (width : Int) - string.length ≤ protectivePadding :=
    Int.le_trans (show (width : Int) - string.length ≤ 0 by omega) (by decide)
  unfold ellipsizeOrAlign
  rw [if_neg (by simp), if_neg (by omega)]
  simp only [if_neg (show ¬ (0 : Int) ≤ width - string.length by omega), if_pos below]
  rfl

/-! ### What is written -/

theorem text_length (room : 3 ≤ width) (narrow : width < 2 ^ 31) (short : string.length < 2 ^ 63) :
    (alignedAndPadded ellipsize string (sizeToInt width) alignment last).text.length =
      if string.length ≤ width then
        if last then (match alignment with | .left => string.length | .right => width)
        else width + protectivePadding
      else if ellipsize then if last then width else width + protectivePadding
      else if last then string.length else string.length + 1 := by
  simp only [alignedAndPadded, remainder_eq narrow short]
  rw [sizeToInt_width narrow]
  have chars : string.toList.length = string.length := String.length_toList
  by_cases fits : string.length ≤ width
  · obtain ⟨spare, rfl⟩ := Nat.exists_eq_add_of_le fits
    have remainder : ((string.length + spare : Nat) : Int) - string.length = spare := by omega
    rw [if_pos fits, remainder, fitting_cell narrow]
    cases alignment <;> cases last <;> simp [chars] <;> omega
  · rw [if_neg fits]
    cases ellipsize with
    | true =>
      rw [ellipsized_cell room narrow (by omega)]
      have dots : ellipsis.toList.length = 3 := rfl
      have inside : min (width - 3) string.length = width - 3 := by omega
      cases last <;> simp [chars, dots, inside] <;> omega
    | false =>
      rw [whole_cell (by omega)]
      cases last <;> simp [chars]

/-- A cell overflows its array unless it is the last one, ellipsized or at most three characters too
long, or a string one or two characters too long that is printed whole. -/
theorem print_field_fits_iff (produced : ColumnWidth libc params cb width)
    (short : string.length < 2 ^ 63) :
    (alignedAndPadded ellipsize string (sizeToInt width) alignment last).written ≤
        (alignedAndPadded ellipsize string (sizeToInt width) alignment last).declared ↔
      if last then ellipsize = true ∨ string.length ≤ width + 3
      else ellipsize = false ∧ width < string.length ∧ string.length ≤ width + 2 := by
  obtain ⟨room, narrow⟩ := produced.bounds
  rw [AlignedAndPadded.written, declared_eq narrow short, text_length room narrow short]
  unfold protectivePadding
  cases last <;> cases ellipsize <;> cases alignment <;> simp <;> split <;> omega

def unitLibc : Libc where
  Double := Unit
  ofUInt64 _ := ()
  ofBits _ := ()
  exceeds _ _ := false
  divide _ _ := ()
  fixed1 _ := "0.0"
  dateTime _ := ""
  inetNtop4 _ := "0.0.0.0"
  inetNtop6 _ := "::"
  brec1Size := 0
  brec1 _ := ⟨[], [], [], [], [], [], [], [], [], []⟩
  fixed1_zero := rfl
  inetNtop6_zero _ _ := rfl

def prettyParams : OutputParams := ⟨.pretty, .pretty, .none, .str, .str, .str, .str⟩

theorem uint8_column : ColumnWidth unitLibc prettyParams .uint8 3 := .outputInit

theorem print_field_fits_iff_uint8 :
    (alignedAndPadded true "255" (sizeToInt 3) .right true).written ≤
      (alignedAndPadded true "255" (sizeToInt 3) .right true).declared :=
  (print_field_fits_iff uint8_column (by decide)).mpr (Or.inl rfl)

/-- A number in front of another column: three characters, four spaces and the terminator. -/
theorem print_field_overflows : ColumnWidth unitLibc prettyParams .uint8 3 ∧
    ¬ (alignedAndPadded true "255" (sizeToInt 3) .right false).written ≤
      (alignedAndPadded true "255" (sizeToInt 3) .right false).declared :=
  ⟨uint8_column, by decide⟩

end Fdistdump.Output
