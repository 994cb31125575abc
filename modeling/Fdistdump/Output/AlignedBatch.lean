import Fdistdump.Output.CellWidth
import Fdistdump.Output.FieldLength
import Fdistdump.Output.Header
import Fdistdump.Output.PrintBatch

/-!
# Aligned output

Without an ellipsis `print_batch` goes through the memory twice. The first loop widens the columns
to the texts that the second one prints, the header widens them once more before the first row.
-/

namespace Fdistdump.Output
open FieldSet ListMode

def uint64Max : Nat := 2 ^ 64 - 1

section Source
variable {libc : Libc} {layout : RecordLayout} {R : Type} (params : OutputParams)
  (columns : Columns libc layout) (access : Access layout R)

/-- The loop over the fields in `set_column_widths_exactly`. -/
def widenColumns (fget : Int → Fget) : List Field → List Nat → Bytes → List Nat × Bytes
  | f :: rest, width :: widths, buff =>
    let (cell, buff) := getFieldStr params columns f (fget f.id) buff
    let (widths, buff) := widenColumns fget rest widths buff
    (maxAssign width cell.length :: widths, buff)
  | _, widths, buff => (widths, buff)

def setColumnWidthsExactly (recLimit : Nat) : Nat → List R → List Nat → Bytes → List Nat
  | _, [], columnWidth, _ => columnWidth
  | recCntr, record :: rest, columnWidth, buff =>
    if recLimit > recCntr then
      let (columnWidth, buff) :=
        widenColumns params columns (access.fget record) layout.all columnWidth buff
      setColumnWidthsExactly recLimit (recCntr + 1) rest columnWidth buff
    else columnWidth

def outputInitWidth : List Nat :=
  layout.all.map fun f => getColumnWidthEstimate libc params (columns.fieldToStrCb f.id)

def outputInitAlignment : List Alignment :=
  layout.all.map fun f => getColumnAlignment (columns.fieldToStrCb f.id)

variable (lib : HeaderLibnf) (fields : Fields)

def printLines (columnWidth : List Nat) (recLimit : Nat) : Nat → List R → Bytes → List (List FieldCall)
  | _, [], _ => []
  | recCntr, record :: rest, buff =>
    if recLimit > recCntr then
      let (texts, buff) := printBatchRow params columns (access.fget record) layout.all buff
      rowCalls fields (outputInitAlignment columns) columnWidth texts ::
        printLines columnWidth recLimit (recCntr + 1) rest buff
    else []

/-- The lines of `print_batch`, the header first. The loops have buffers of their own. -/
def printBatchLines (printRecords : OutputItem) (ellipsize richHeader : Bool) (recLimit : Nat)
    (mem : List R) (widthsBuff buff : Bytes) : Option (List (List FieldCall)) :=
  if printRecords ≠ .yes then some []
  else
    let recLimit := if recLimit = 0 then uint64Max else recLimit
    let columnWidth :=
      if ellipsize then outputInitWidth params columns
      else
        setColumnWidthsExactly params columns access recLimit 0 mem
          (outputInitWidth params columns) widthsBuff
    (printBatchHeader lib fields (outputInitAlignment columns) richHeader columnWidth).map fun header =>
      header.cells :: printLines params columns access fields header.columnWidth recLimit 0 mem buff

def FieldCall.text (ellipsize : Bool) (call : FieldCall) : String :=
  printField params ellipsize call.string (sizeToInt call.colWidth) call.alignment call.last

def cellStart (ellipsize : Bool) (row : List FieldCall) (k : Nat) : Nat :=
  ((row.take k).map fun call => (call.text params ellipsize).length).sum

/-- Every line has all cells, each is printed whole, and it starts where it starts in the other lines. -/
structure Aligned (ellipsize : Bool) (lines : List (List FieldCall)) : Prop where
  count : ∀ row ∈ lines, row.length = fields.allCnt
  whole : ∀ row ∈ lines, ∀ call ∈ row, call.string.toList <:+: (call.text params ellipsize).toList
  starts : ∀ row ∈ lines, ∀ row' ∈ lines, ∀ k < fields.allCnt,
    cellStart params ellipsize row k = cellStart params ellipsize row' k

end Source

/-! ### Lines of fitting cells -/

structure FieldCall.Fits (call : FieldCall) : Prop where
  room : 3 ≤ call.colWidth
  narrow : call.colWidth < 2 ^ 31
  fits : call.string.length ≤ call.colWidth

variable {params : OutputParams} {call : FieldCall} {fields : Fields}

theorem FieldCall.Fits.text_whole (fits : call.Fits) (pretty : params.format = .pretty)
    (ellipsize : Bool) :
    call.string.toList <:+: (call.text params ellipsize).toList := by
  obtain ⟨spare, width⟩ := Nat.exists_eq_add_of_le fits.fits
  have narrow : call.string.length + spare < 2 ^ 31 := width ▸ fits.narrow
  have remainder : ((call.string.length + spare : Nat) : Int) - call.string.length = spare := by omega
  rw [text, printField, pretty]
  dsimp only
  rw [String.toList_ofList, width, alignedAndPadded, remainder_eq narrow (by omega), remainder,
    fitting_cell narrow]
  cases call.alignment with
  | left =>
    cases call.last with
    | true => exact List.infix_rfl
    | false => exact (List.prefix_append _ _).isInfix
  | right =>
    cases call.last with
    | true => exact (List.suffix_append _ _).isInfix
    | false => exact List.infix_append ..

theorem FieldCall.Fits.text_length (fits : call.Fits) (pretty : params.format = .pretty)
    (ellipsize : Bool) (other : call.last = false) :
    (call.text params ellipsize).length = call.colWidth + protectivePadding := by
  obtain ⟨room, narrow, inside⟩ := fits
  rw [text, printField, pretty]
  dsimp only
  rw [String.length_ofList, Output.text_length room narrow (by omega), if_pos inside, other]
  rfl

theorem cellStart_eq (pretty : params.format = .pretty) (ellipsize : Bool) {row : List FieldCall}
    {cnt k : Nat} (fits : ∀ call ∈ row, call.Fits)
    (last : ∀ j call, row[j]? = some call → (call.last = true ↔ j + 1 = cnt)) (before : k < cnt) :
    cellStart params ellipsize row k =
      (((row.map FieldCall.column).take k).map fun column => column.1 + protectivePadding).sum := by
  rw [cellStart, ← List.map_take, List.map_map]
  refine congrArg List.sum (List.map_congr_left fun call member => ?_)
  obtain ⟨j, at'⟩ := List.mem_iff_getElem?.mp member
  have inside : j < k := by
    obtain ⟨below, -⟩ := List.getElem?_eq_some_iff.mp at'
    rw [List.length_take] at below
    omega
  rw [List.getElem?_take, if_pos inside] at at'
  have other : call.last = false := by
    rw [← Bool.not_eq_true, last j call at']
    omega
  exact (fits call (List.mem_of_getElem? at')).text_length pretty ellipsize other

theorem aligned_of_columns (pretty : params.format = .pretty) (ellipsize : Bool)
    {lines : List (List FieldCall)}
    {header : List FieldCall} (count : header.length = fields.allCnt)
    (last : ∀ j call, header[j]? = some call → (call.last = true ↔ j + 1 = fields.allCnt))
    (columns : ∀ row ∈ lines, row.map FieldCall.column = header.map FieldCall.column)
    (fits : ∀ row ∈ lines, ∀ call ∈ row, call.Fits) : Aligned params fields ellipsize lines := by
  have lastOf (row : List FieldCall) (member : row ∈ lines) (j : Nat) (call : FieldCall)
      (at' : row[j]? = some call) : call.last = true ↔ j + 1 = fields.allCnt := by
    have same := congrArg (·[j]?) (columns row member)
    simp only [List.getElem?_map, at', Option.map_some] at same
    obtain ⟨cell, atHeader, column⟩ := Option.map_eq_some_iff.mp same.symm
    rw [← last j cell atHeader]
    simp only [FieldCall.column, Prod.mk.injEq] at column
    rw [column.2.2]
  refine ⟨?_, ?_, ?_⟩
  · intro row member
    have length := congrArg List.length (columns row member)
    rwa [List.length_map, List.length_map, count] at length
  · intro row member call isCell
    exact (fits row member call isCell).text_whole pretty ellipsize
  · intro row member row' member' k before
    rw [cellStart_eq pretty ellipsize (fits row member) (lastOf row member) before,
      cellStart_eq pretty ellipsize (fits row' member') (lastOf row' member') before, columns row member,
      columns row' member']

/-! ### Column widths -/

def widened (columnWidth : List Nat) (texts : List String) : List Nat :=
  columnWidth.zipWith (fun width text => maxAssign width text.length) texts

/-- Every column has room for an ellipsis and is an `int`. -/
def Wide (columnWidth : List Nat) : Prop := ∀ width ∈ columnWidth, 3 ≤ width ∧ width < 2 ^ 31

theorem widened_length {columnWidth : List Nat} {texts : List String}
    (same : texts.length = columnWidth.length) :
    (widened columnWidth texts).length = columnWidth.length := by
  rw [widened, List.length_zipWith, same, Nat.min_self]

theorem widened_getD (columnWidth : List Nat) (texts : List String)
    (same : texts.length = columnWidth.length) (k : Nat) : (widened columnWidth texts).getD k 0 =
      max (columnWidth.getD k 0) ((texts[k]?).elim 0 String.length) := by
  simp only [widened, List.getD_eq_getElem?_getD, List.getElem?_zipWith]
  by_cases inside : k < texts.length
  · rw [List.getElem?_eq_getElem inside, List.getElem?_eq_getElem (same ▸ inside)]
    exact maxAssign_eq _ _
  · rw [List.getElem?_eq_none (by omega), List.getElem?_eq_none (by omega)]
    rfl

theorem Wide.widened {columnWidth : List Nat} {texts : List String} (wide : Wide columnWidth)
    (short : ∀ text ∈ texts, text.length < 2 ^ 31) : Wide (widened columnWidth texts) := by
  intro width member
  rw [Output.widened, List.mem_iff_getElem?] at member
  obtain ⟨k, at'⟩ := member
  rw [List.getElem?_zipWith] at at'
  cases old : columnWidth[k]? with
  | none => simp [old] at at'
  | some width' =>
    cases new : texts[k]? with
    | none => simp [old, new] at at'
    | some text =>
      simp only [old, new, Option.some.injEq] at at'
      obtain ⟨room, narrow⟩ := wide width' (List.mem_of_getElem? old)
      have brief := short text (List.mem_of_getElem? new)
      rw [← at', maxAssign_eq]
      omega

theorem foldl_widened {rows : List (List String)} {columnWidth : List Nat}
    (same : ∀ row ∈ rows, row.length = columnWidth.length) (wide : Wide columnWidth)
    (short : ∀ row ∈ rows, ∀ text ∈ row, text.length < 2 ^ 31) :
    (rows.foldl widened columnWidth).length = columnWidth.length ∧
    Wide (rows.foldl widened columnWidth) ∧
      ∀ k, columnWidth.getD k 0 ≤ (rows.foldl widened columnWidth).getD k 0 ∧
        ∀ row ∈ rows, (row[k]?).elim 0 String.length ≤ (rows.foldl widened columnWidth).getD k 0 := by
  induction rows generalizing columnWidth with
  | nil => exact ⟨rfl, wide, fun k => ⟨Nat.le_refl _, List.forall_mem_nil _⟩⟩
  | cons row rest ih =>
    obtain ⟨sameHere, sameLater⟩ := List.forall_mem_cons.mp same
    obtain ⟨shortHere, shortLater⟩ := List.forall_mem_cons.mp short
    have length := widened_length sameHere
    obtain ⟨kept, wideAfter, grown⟩ :=
      ih (fun other member => (sameLater other member).trans length.symm)
        (wide.widened shortHere) shortLater
    rw [List.foldl_cons]
    refine ⟨kept.trans length, wideAfter, ?_⟩
    intro k
    obtain ⟨before, others⟩ := grown k
    rw [widened_getD columnWidth row sameHere k] at before
    exact ⟨by omega, List.forall_mem_cons.mpr ⟨by omega, others⟩⟩

/-! ### The loops visit the same records -/

variable {libc : Libc} {layout : RecordLayout} {R : Type} {columns : Columns libc layout}
  {access : Access layout R}

variable (params) in
theorem widenColumns_eq (typed : Typed columns access) (record : R) {fields : List Field}
    (subset : ∀ f ∈ fields, f ∈ layout.all) {columnWidth : List Nat}
    (same : columnWidth.length = fields.length)
    {buff : Bytes} (room : buff.length = maxFieldSize layout) :
    ∃ buff', buff'.length = maxFieldSize layout ∧
      widenColumns params columns (access.fget record) fields columnWidth buff =
        (widened columnWidth (fields.map fun f => fieldText params columns f
          (access.fget record f.id)), buff') := by
  induction fields generalizing columnWidth buff with
  | nil =>
    obtain rfl := List.length_eq_zero_iff.mp same
    exact ⟨buff, room, rfl⟩
  | cons f rest ih =>
    obtain ⟨width, widths, rfl⟩ := List.exists_cons_of_length_eq_add_one same
    obtain ⟨here, others⟩ := List.forall_mem_cons.mp subset
    obtain ⟨between, kept, cell⟩ := getFieldStr_eq params typed record here room
    obtain ⟨last, room', cells⟩ := ih others (Nat.add_right_cancel same) kept
    refine ⟨last, room', ?_⟩
    rw [widenColumns, cell]
    dsimp only
    rw [cells]
    rfl

theorem batchRow_length (record : R) :
    (batchRow params columns access record).length = layout.all.length :=
  List.length_map _

variable (params) in
theorem setColumnWidthsExactly_eq (typed : Typed columns access) (recLimit recCntr : Nat) (mem : List R)
    {columnWidth : List Nat} (same : columnWidth.length = layout.all.length) {buff : Bytes}
    (room : buff.length = maxFieldSize layout) :
    setColumnWidthsExactly params columns access recLimit recCntr mem columnWidth buff =
      ((mem.take (recLimit - recCntr)).map (batchRow params columns access)).foldl widened
        columnWidth := by
  induction mem generalizing recCntr columnWidth buff with
  | nil => rw [setColumnWidthsExactly, List.take_nil, List.map_nil, List.foldl_nil]
  | cons record rest ih =>
    rw [setColumnWidthsExactly]
    by_cases more : recLimit > recCntr
    · obtain ⟨buff', room', row⟩ :=
        widenColumns_eq params typed record (fun _ member => member) same room
      have length : (widened columnWidth (batchRow params columns access record)).length =
          layout.all.length := by
        rw [widened_length ((batchRow_length record).trans same.symm), same]
      rw [if_pos more, row, show recLimit - recCntr = recLimit - (recCntr + 1) + 1 by omega,
        List.take_succ_cons]
      exact ih (recCntr + 1) length room'
    · rw [if_neg more, show recLimit - recCntr = 0 by omega]
      rfl

variable (params fields) in
theorem printLines_eq (typed : Typed columns access) (columnWidth : List Nat)
    (recLimit recCntr : Nat) (mem : List R)
    {buff : Bytes} (room : buff.length = maxFieldSize layout) :
    printLines params columns access fields columnWidth recLimit recCntr mem buff =
      (mem.take (recLimit - recCntr)).map fun record =>
        rowCalls fields (outputInitAlignment columns) columnWidth
          (batchRow params columns access record) := by
  induction mem generalizing recCntr buff with
  | nil => rw [printLines, List.take_nil, List.map_nil]
  | cons record rest ih =>
    rw [printLines]
    by_cases more : recLimit > recCntr
    · obtain ⟨buff', room', row⟩ := printBatchRow_eq params typed record (fun _ member => member) room
      rw [if_pos more, row, show recLimit - recCntr = recLimit - (recCntr + 1) + 1 by omega,
        List.take_succ_cons,
        List.map_cons, ← ih (recCntr + 1) room']
      rfl
    · rw [if_neg more, show recLimit - recCntr = 0 by omega]
      rfl

/-! ### The lines fit -/

variable {lib : HeaderLibnf} {columntAlignment : List Alignment} {columnWidth : List Nat}

theorem Wide.getD (wide : Wide columnWidth) {k : Nat} (inside : k < columnWidth.length) :
    3 ≤ columnWidth.getD k 0 ∧ columnWidth.getD k 0 < 2 ^ 31 := by
  rw [List.getD_eq_getElem?_getD, List.getElem?_eq_getElem inside]
  exact wide _ (List.getElem_mem inside)

theorem names_short {ids : List Int} {names : List String}
    (titles : List.Forall₂ (Title lib fields richHeader) ids names) :
    ∀ name ∈ names, name.length < 2 ^ 31 := by
  induction titles with
  | nil => exact List.forall_mem_nil _
  | cons here _ ih => exact List.forall_mem_cons.mpr ⟨here.short, ih⟩

theorem NamesInOrder.fits {header : HeaderRun}
    (inOrder : NamesInOrder lib fields richHeader columntAlignment columnWidth header)
    (count : fields.usedAll.length = fields.allCnt) (width : columnWidth.length = fields.allCnt)
    (wide : Wide columnWidth) :
    header.columnWidth.length = fields.allCnt ∧ Wide header.columnWidth ∧
      (∀ k, columnWidth.getD k 0 ≤ header.columnWidth.getD k 0) ∧ ∀ cell ∈ header.cells, cell.Fits := by
  obtain ⟨names, titles, printed⟩ := inOrder
  have length : names.length = columnWidth.length := by
    rw [← titles.length_eq, List.length_map, count, width]
  have short := names_short titles
  obtain ⟨kept, widths, cells⟩ := foldl_printName fields columntAlignment names { columnWidth }
    (show 0 + names.length ≤ columnWidth.length by omega)
  rw [← printed] at kept widths cells
  have same : header.columnWidth = widened columnWidth names := by
    refine List.ext_getElem (by rw [widened_length length]; exact kept) ?_
    intro k below below'
    have left := widths k
    have right := widened_getD columnWidth names length k
    rw [← maxAssign_eq] at right
    simp only [Nat.zero_le, if_true, Nat.sub_zero, List.getD_eq_getElem?_getD] at left right
    rw [← right, List.getElem?_eq_getElem below, List.getElem?_eq_getElem below'] at left
    exact left
  refine ⟨kept.trans width, same ▸ wide.widened short, ?_, ?_⟩
  · intro k
    rw [same, widened_getD columnWidth names length]
    omega
  · intro cell member
    rw [cells, List.nil_append] at member
    obtain ⟨k, below, rfl⟩ := List.mem_mapIdx.mp member
    have start := wide.getD (show k < columnWidth.length by omega)
    have brief := short names[k] (List.getElem_mem below)
    have column : maxAssign (columnWidth.getD (0 + k) 0) names[k].length =
        max (columnWidth.getD k 0) names[k].length := by rw [maxAssign_eq, Nat.zero_add]
    refine ⟨?_, ?_, ?_⟩ <;> dsimp only <;> rw [column] <;> omega

theorem rowCalls_fits {texts : List String} (wide : Wide columnWidth)
    (same : texts.length = columnWidth.length)
    (short : ∀ k, (texts[k]?).elim 0 String.length ≤ columnWidth.getD k 0) :
    ∀ call ∈ rowCalls fields columntAlignment columnWidth texts, call.Fits := by
  intro call member
  obtain ⟨k, below, rfl⟩ := List.mem_mapIdx.mp member
  obtain ⟨room, narrow⟩ := wide.getD (show k < columnWidth.length by omega)
  have fits := short k
  rw [List.getElem?_eq_getElem below] at fits
  exact ⟨room, narrow, fits⟩

theorem wide_outputInitWidth (params : OutputParams) (columns : Columns libc layout) :
    Wide (outputInitWidth params columns) := by
  intro width member
  obtain ⟨f, -, rfl⟩ := List.mem_map.mp member
  obtain ⟨room, narrow⟩ := estimate_bounds libc params (columns.fieldToStrCb f.id)
  exact ⟨room, Nat.lt_trans narrow (by decide)⟩

theorem batchRow_short {libc : ShortLibc} {columns : Columns libc.toLibc layout} (record : R) :
    ∀ text ∈ batchRow params columns access record, text.length < 2 ^ 31 := by
  intro text member
  obtain ⟨f, -, rfl⟩ := List.mem_map.mp member
  cases access.fget record f.id with
  | ok value => exact Nat.lt_trans (FieldToStr.apply_short libc params _ value) (by decide)
  | nan => exact show nanStr.length < 2 ^ 31 by decide
  | notset => exact show absentStr.length < 2 ^ 31 by decide

variable (params access) in
theorem widened_batchRows {libc : ShortLibc} (columns : Columns libc.toLibc layout) (records : List R) :
    let columnWidth := (records.map (batchRow params columns access)).foldl widened
      (outputInitWidth params columns)
    columnWidth.length = layout.all.length ∧ Wide columnWidth ∧
      ∀ record ∈ records, ∀ k,
        ((batchRow params columns access record)[k]?).elim 0 String.length ≤ columnWidth.getD k 0 := by
  intro columnWidth
  have start : (outputInitWidth params columns).length = layout.all.length := List.length_map _
  have same : ∀ row ∈ records.map (batchRow params columns access),
      row.length = (outputInitWidth params columns).length := by
    refine List.forall_mem_map.mpr ?_
    intro record _
    rw [batchRow_length, start]
  have short : ∀ row ∈ records.map (batchRow params columns access), ∀ text ∈ row,
      text.length < 2 ^ 31 :=
    List.forall_mem_map.mpr fun record _ => batchRow_short record
  obtain ⟨kept, wide, grown⟩ := foldl_widened same (wide_outputInitWidth params columns) short
  refine ⟨kept.trans start, wide, ?_⟩
  intro record member k
  exact (grown k).2 _ (List.mem_map_of_mem member)

theorem rowCalls_strings (texts : List String) :
    (rowCalls fields columntAlignment columnWidth texts).map FieldCall.string = texts := by
  refine List.ext_getElem? ?_
  intro k
  simp only [rowCalls, List.getElem?_map, List.getElem?_mapIdx, Option.map_map]
  exact Option.map_id'

/-- The lines of `print_batch` are aligned: the rows are those of the records that have widened the
columns. -/
theorem batch_aligned {libc : ShortLibc} {calls : List Call}
    (callsValid : ∀ call ∈ calls, call.Valid lib.toLibnf) (ordered : calls.Pairwise Call.MayPrecede)
    (isLayout : layout.all = (build lib.toLibnf calls).usedAll)
    {columns : Columns libc.toLibc layout} (typed : Typed columns access)
    (pretty : params.format = .pretty)
    (richHeader : Bool) (recLimit : Nat) (mem : List R) {widthsBuff buff : Bytes}
    (widthsRoom : widthsBuff.length = maxFieldSize layout) (room : buff.length = maxFieldSize layout) :
    let fields := build lib.toLibnf calls
    let visited := mem.take (if recLimit = 0 then uint64Max else recLimit)
    ∃ header rows,
      printBatchLines params columns access lib fields .yes false richHeader recLimit mem
        widthsBuff buff =
        some (header :: rows) ∧
      rows.map (List.map FieldCall.string) = visited.map (batchRow params columns access) ∧
      Aligned params fields false (header :: rows) := by
  obtain ⟨roles, valid, built, -⟩ := build_roles callsValid ordered
  intro fields visited
  have sameFields : fields = roles.toFields lib.toLibnf := built
  have laid : Laid lib fields := sameFields ▸ laid_toFields valid
  have count : layout.all.length = fields.allCnt := isLayout ▸ laid.count
  have rowLength (record : R) : (batchRow params columns access record).length = fields.allCnt := by
    rw [batchRow_length, count]
  have exactly := setColumnWidthsExactly_eq params typed
    (if recLimit = 0 then uint64Max else recLimit) 0 mem
    (show (outputInitWidth params columns).length = layout.all.length from List.length_map _) widthsRoom
  obtain ⟨kept, wide, grown⟩ := widened_batchRows params access columns visited
  set columnWidth := (visited.map (batchRow params columns access)).foldl widened
    (outputInitWidth params columns)
  have width : columnWidth.length = fields.allCnt := kept.trans count
  obtain ⟨header, printed, inOrder⟩ :=
    printBatchHeader_inOrder laid (outputInitAlignment columns) richHeader columnWidth
  have matching := matchesColumns_of_namesInOrder laid.count width inOrder
  obtain ⟨headerWidth, headerWide, wider, headerFits⟩ := inOrder.fits laid.count width wide
  refine ⟨header.cells, visited.map fun record =>
    rowCalls fields (outputInitAlignment columns) header.columnWidth
      (batchRow params columns access record), ?_, ?_, ?_⟩
  · rw [printBatchLines, if_neg (by decide)]
    dsimp only
    rw [if_neg Bool.false_ne_true, exactly]
    show (printBatchHeader lib fields (outputInitAlignment columns) richHeader columnWidth).map _ = _
    rw [printed, Option.map_some, printLines_eq params fields typed header.columnWidth _ 0 mem room]
    rfl
  · rw [List.map_map]
    apply List.map_congr_left
    intro record _
    exact rowCalls_strings _
  · refine aligned_of_columns pretty false matching.count matching.last ?_ ?_
    · refine List.forall_mem_cons.mpr ⟨rfl, List.forall_mem_map.mpr ?_⟩
      intro record _
      exact matching.columns _ (rowLength record)
    · refine List.forall_mem_cons.mpr ⟨headerFits, List.forall_mem_map.mpr ?_⟩
      intro record isVisited
      refine rowCalls_fits headerWide (by rw [rowLength, headerWidth]) ?_
      intro k
      exact Nat.le_trans (grown record isVisited k) (wider k)

def shortLibc : ShortLibc where
  toLibc := unitLibc
  fixed1_short := fun _ => show "0.0".length < maxStrLen by decide
  dateTime_short := fun _ => show "".length < maxStrLen by decide
  inetNtop4_short := fun _ => show "0.0.0.0".length < maxStrLen by decide
  inetNtop6_short := fun _ => show "::".length < maxStrLen by decide

def uniformAccess : Access basicLayout UInt8 where
  fget := fun byte id => .ok (List.replicate (basicFields.infoSize id) byte)
  sized := by
    have sizes : ∀ f ∈ basicLayout.all, basicFields.infoSize f.id = f.size := by decide
    rintro byte f member _ ⟨⟩
    rw [List.length_replicate, sizes f member]

theorem uniformAccess_typed : @Typed unitLibc basicLayout UInt8 basicColumns uniformAccess := by
  have sizes : ∀ f ∈ basicLayout.all, 8 ≤ basicFields.infoSize f.id := by decide
  rintro byte f member _ ⟨⟩
  refine ⟨?_, fun isString => by cases isString⟩
  rw [List.length_replicate]
  exact sizes f member

theorem batch_aligned_uniform :
    ∃ header rows,
      printBatchLines prettyParams basicColumns uniformAccess basicNames
        (build basicNames.toLibnf basicCalls) .yes false
          true 2 [1, 200, 3] (List.replicate 16 0) (List.replicate 16 0) = some (header :: rows) ∧
        rows.map (List.map FieldCall.string) = [1, 200].map
          (batchRow prettyParams basicColumns uniformAccess) ∧
        Aligned prettyParams (build basicNames.toLibnf basicCalls) false (header :: rows) :=
  @batch_aligned prettyParams basicLayout UInt8 uniformAccess basicNames shortLibc basicCalls
    basicCalls_valid
    basicCalls_ordered rfl basicColumns uniformAccess_typed rfl true 2 [1, 200, 3] _ _ (by decide)
      (by decide)

end Fdistdump.Output
