import Fdistdump.Output.AlignedBatch
import Fdistdump.Output.ReadBack

/-!
# Reading the CSV output back

In the CSV format the output of `print_batch` has all that it was made of: the records that were
visited, in order, and for each field its value or why it has none. The header may be any of the
three.
-/

namespace Fdistdump.Output
open FieldSet ListMode

/-! ### The text of the lines -/

section Source
variable {libc : Libc} {layout : RecordLayout} (params : OutputParams) (columns : Columns libc layout)

/-- What is put out for the lines. -/
def linesText (ellipsize : Bool) (lines : List (List FieldCall)) : List Char :=
  lines.flatMap fun row => (row.flatMap fun call => (call.text params ellipsize).toList) ++ ['\n']

def readCell (cb : FieldToStr) (text : List Char) : Fget :=
  if text = nanStr.toList then .nan none
  else if text = absentStr.toList then .notset none
  else .ok (readField params cb text)

def readRow (cells : List (List Char)) : List Fget :=
  layout.all.zipWith (fun f cell => readCell params (columns.fieldToStrCb f.id) cell) cells

/-- The values in the lines behind the header. -/
def readCsv (text : List Char) : List (List Fget) :=
  (Delimited.readTable ',' '\n' text).tail.map (readRow params columns)

end Source

/-- What is printed of a result: the value, or why there is none. -/
def shown : Fget → Fget
  | .ok value => .ok value
  | .nan _ => .nan none
  | .notset _ => .notset none

/-! ### Headers are single lines -/

section Header
variable {lib : HeaderLibnf} {fields : Fields} {columntAlignment : List Alignment}

def SingleLine (text : String) : Prop := '\n' ∉ text.toList

instance (text : String) : Decidable (SingleLine text) := inferInstanceAs (Decidable (_ ∉ _))

def HeaderRun.SingleLine (run : HeaderRun) : Prop := ∀ cell ∈ run.cells, Output.SingleLine cell.string

theorem SingleLine.append {s t : String} (first : SingleLine s) (second : SingleLine t) :
    SingleLine (s ++ t) := by
  rw [SingleLine, String.toList_append, List.mem_append, not_or]
  exact ⟨first, second⟩

theorem SingleLine.nameBuff {text : String} (single : SingleLine text) : SingleLine (nameBuff text) := by
  rw [SingleLine, Output.nameBuff, String.toList_ofList]
  exact fun member => single (List.mem_of_mem_take member)

theorem printName_singleLine {run : HeaderRun} (single : run.SingleLine) {name : String}
    (plain : SingleLine name) :
    (printName fields columntAlignment run name).SingleLine :=
  List.forall_mem_append.mpr ⟨single, List.forall_mem_singleton.mpr plain⟩

theorem printNames_singleLine {α : Type} {name : α → Option String}
    (plain : ∀ item text, name item = some text → SingleLine text) {items : List α}
    {run run' : HeaderRun}
    (single : run.SingleLine) (printed : printNames fields columntAlignment name items run = some run') :
    run'.SingleLine := by
  induction items generalizing run with
  | nil => exact Option.some.inj printed ▸ single
  | cons item rest ih =>
    obtain ⟨text, named, printed⟩ := Option.bind_eq_some_iff.mp printed
    exact ih (printName_singleLine single (plain item text named)) printed

theorem libnfSortDirToStr_singleLine {sortDir : Int} {text : String}
    (known : libnfSortDirToStr lib sortDir = some text) :
    SingleLine text := by
  unfold libnfSortDirToStr at known
  split at known
  · cases known
    decide
  · split at known
    · cases known
      decide
    · cases known

theorem libnfAggrFuncToStr_singleLine {aggrFunc : Int} {text : String}
    (known : libnfAggrFuncToStr lib aggrFunc = some text) : SingleLine text := by
  unfold libnfAggrFuncToStr at known
  split_ifs at known
  all_goals
    cases known
    decide

section Names
variable (names : ∀ id, SingleLine (lib.infoName id))
include names

theorem sortKeyName_singleLine {text : String} (known : sortKeyName lib fields = some text) :
    SingleLine text := by
  obtain ⟨direction, spelled, rfl⟩ := Option.map_eq_some_iff.mp known
  exact ((((names _).append (by decide)).append (libnfSortDirToStr_singleLine spelled)).append
    (by decide)).nameBuff

theorem aggrKeyName_singleLine (key : AggrKey) (text : String)
    (known : aggrKeyName lib fields key = some text) :
    SingleLine text := by
  unfold aggrKeyName at known
  dsimp only at known
  split at known
  · obtain ⟨direction, spelled, rfl⟩ := Option.map_eq_some_iff.mp known
    exact ((((names _).append (by decide)).append (libnfSortDirToStr_singleLine spelled)).append
      (by decide)).nameBuff
  · cases known
    exact ((names _).append (by decide)).nameBuff

theorem outputFieldName_singleLine (output : OutputField) (text : String)
    (known : outputFieldName lib fields output = some text) : SingleLine text := by
  unfold outputFieldName at known
  dsimp only at known
  obtain ⟨func, spelled, rfl⟩ := Option.map_eq_some_iff.mp known
  have single : SingleLine func := by
    split at spelled
    · cases spelled
      decide
    · exact libnfAggrFuncToStr_singleLine spelled
  exact ((((names _).append (by decide)).append single).append (by decide)).nameBuff

theorem printSortKeyName_singleLine {keys : List AggrKey} {run run' : HeaderRun}
    (single : run.SingleLine)
    (printed : printSortKeyName lib fields columntAlignment keys run = some run') : run'.SingleLine := by
  unfold printSortKeyName at printed
  dsimp only at printed
  split at printed
  · obtain ⟨name, named, rfl⟩ := Option.map_eq_some_iff.mp printed
    exact printName_singleLine single (sortKeyName_singleLine names named)
  · cases printed
    exact single

theorem printNamesOnly_singleLine (columnWidth : List Nat) :
    (printNamesOnly lib fields columntAlignment columnWidth).SingleLine := by
  have all : ∀ (used : List Field) (run : HeaderRun), run.SingleLine →
      (used.foldl (fun run field => printName fields columntAlignment run (lib.infoName field.id))
        run).SingleLine := by
    intro used
    induction used with
    | nil => exact fun run single => single
    | cons field rest ih => exact fun run single => ih _ (printName_singleLine single (names field.id))
  exact all _ _ (List.forall_mem_nil _)

theorem printBatchHeader_singleLine {richHeader : Bool} {columnWidth : List Nat} {header : HeaderRun}
    (printed : printBatchHeader lib fields columntAlignment richHeader columnWidth = some header) :
    header.SingleLine := by
  have empty : HeaderRun.SingleLine { columnWidth } := List.forall_mem_nil _
  unfold printBatchHeader at printed
  split at printed
  · obtain ⟨keys, printedKeys, printed⟩ := Option.bind_eq_some_iff.mp printed
    obtain ⟨sorted, printedSort, printed⟩ := Option.bind_eq_some_iff.mp printed
    have afterKeys := printNames_singleLine (aggrKeyName_singleLine names) empty printedKeys
    exact printNames_singleLine (outputFieldName_singleLine names)
      (printSortKeyName_singleLine names afterKeys printedSort)
      printed
  · split at printed
    · obtain ⟨name, named, printed⟩ := Option.bind_eq_some_iff.mp printed
      refine printNames_singleLine ?_
        (printName_singleLine empty (sortKeyName_singleLine names named)) printed
      rintro output text ⟨⟩
      exact names _
    · cases printed
      exact printNamesOnly_singleLine names columnWidth

end Names

end Header

/-! ### Rows are lines of cells -/

variable {libc : Libc} {layout : RecordLayout} {R : Type} {params : OutputParams}
  {columns : Columns libc layout} {access : Access layout R} {lib : HeaderLibnf}

theorem csv_text (csv : params.format = .csv) (ellipsize : Bool) (call : FieldCall) :
    (call.text params ellipsize).toList = call.string.toList ++ if call.last then [] else [','] := by
  rw [FieldCall.text, printField, csv]
  dsimp only
  cases call.last with
  | true => rw [if_pos rfl, if_pos rfl, List.append_nil]
  | false => rw [if_neg Bool.false_ne_true, if_neg Bool.false_ne_true, String.toList_append]; rfl

/-- A separator behind every cell but the last. -/
theorem flatten_separated (texts : List String) {off cnt : Nat} (count : off + texts.length = cnt) :
    (texts.mapIdx fun i text => text.toList ++ if off + i + 1 = cnt then [] else [',']).flatten =
      [','].intercalate (texts.map String.toList) := by
  induction texts generalizing off with
  | nil => rfl
  | cons text rest ih =>
    have later := ih (show off + 1 + rest.length = cnt by rw [List.length_cons] at count; omega)
    have shift : (fun i (text : String) =>
      text.toList ++ if off + (i + 1) + 1 = cnt then [] else [',']) =
        fun i (text : String) => text.toList ++ if off + 1 + i + 1 = cnt then [] else [','] := by
      funext i text
      rw [show off + (i + 1) + 1 = off + 1 + i + 1 by omega]
    rw [List.mapIdx_cons, List.flatten_cons, shift, later]
    cases rest with
    | nil =>
      rw [if_pos (by simpa using count)]
      simp
    | cons next rest =>
      rw [List.length_cons, List.length_cons] at count
      rw [if_neg (by omega)]
      simp only [List.map_cons, List.intercalate_cons_cons]

theorem csv_row (csv : params.format = .csv) (ellipsize : Bool) {fields : Fields}
    (columntAlignment : List Alignment)
    (columnWidth : List Nat) {texts : List String} (count : texts.length = fields.allCnt) :
    ((rowCalls fields columntAlignment columnWidth texts).flatMap fun call =>
      (call.text params ellipsize).toList) =
      [','].intercalate (texts.map String.toList) := by
  rw [← flatten_separated texts ((Nat.zero_add _).trans count), List.flatMap_def, rowCalls]
  refine congrArg List.flatten (List.ext_getElem? fun i => ?_)
  simp only [List.getElem?_map, List.getElem?_mapIdx, Option.map_map]
  refine congrArg (Option.map · texts[i]?) (funext fun text => ?_)
  rw [Function.comp_apply, csv_text csv]
  dsimp only
  simp only [Nat.zero_add, decide_eq_true_eq]

/-! ### What the cells say -/

/-- The text of a field says what libnf has returned, and stays in its cell. -/
theorem readCell_fieldText {f : Field} (exact' : (columns.fieldToStrCb f.id).Exact params = true)
    {result : Fget}
    (sized : ∀ value, result = .ok value → value.length = (columns.fieldToStrCb f.id).width libc) :
    readCell params (columns.fieldToStrCb f.id) (fieldText params columns f result).toList =
      shown result ∧
      ',' ∉ (fieldText params columns f result).toList ∧
      '\n' ∉ (fieldText params columns f result).toList := by
  cases result with
  | ok value =>
    have plain := apply_plain libc exact' value
    have other (c : Char) (foreign : plainChar c = false) :
        c ∉ (fieldText params columns f (.ok value)).toList := by
      intro member
      rw [plain c member] at foreign
      cases foreign
    refine ⟨?_, other ',' (by decide), other '\n' (by decide)⟩
    have notNan : (fieldText params columns f (.ok value)).toList ≠ nanStr.toList := by
      intro same
      exact other 'N' (by decide) (same ▸ (by decide : 'N' ∈ nanStr.toList))
    have notAbsent : (fieldText params columns f (.ok value)).toList ≠ absentStr.toList := by
      intro same
      exact other 's' (by decide) (same ▸ (by decide : 's' ∈ absentStr.toList))
    rw [readCell, if_neg notNan, if_neg notAbsent]
    exact congrArg Fget.ok (readField_apply libc exact' (sized value rfl))
  | nan _ => exact ⟨if_pos rfl, show ',' ∉ nanStr.toList by decide, show '\n' ∉ nanStr.toList by decide⟩
  | notset _ =>
    refine ⟨?_, show ',' ∉ absentStr.toList by decide, show '\n' ∉ absentStr.toList by decide⟩
    exact (if_neg (show absentStr.toList ≠ nanStr.toList by decide)).trans (if_pos rfl)

/-- Every value is printed completely, and fills its field. -/
structure AllExact (params : OutputParams) (columns : Columns libc layout) : Prop where
  exact : ∀ f ∈ layout.all, (columns.fieldToStrCb f.id).Exact params = true
  sized : ∀ f ∈ layout.all, f.size = (columns.fieldToStrCb f.id).width libc

theorem header_line (csv : params.format = .csv) (ellipsize : Bool) {header : HeaderRun}
    (single : header.SingleLine) :
    '\n' ∉ header.cells.flatMap fun call => (call.text params ellipsize).toList := by
  intro member
  obtain ⟨call, isCell, member⟩ := List.mem_flatMap.mp member
  rw [csv_text csv, List.mem_append] at member
  rcases member with inside | separator
  · exact single call isCell inside
  · split at separator
    · cases separator
    · exact absurd separator (by decide)

theorem readCell_cell (allExact : AllExact params columns) (access : Access layout R) (record : R)
    {f : Field} (member : f ∈ layout.all) :
    readCell params (columns.fieldToStrCb f.id)
      (fieldText params columns f (access.fget record f.id)).toList =
        shown (access.fget record f.id) ∧
      ',' ∉ (fieldText params columns f (access.fget record f.id)).toList ∧
        '\n' ∉ (fieldText params columns f (access.fget record f.id)).toList := by
  apply readCell_fieldText (allExact.exact f member)
  intro value result
  rw [access.sized record f member value (by rw [result]; rfl), allExact.sized f member]

theorem readRow_batchRow (allExact : AllExact params columns) (access : Access layout R) (record : R) :
    readRow params columns ((batchRow params columns access record).map String.toList) =
      layout.all.map fun f => shown (access.fget record f.id) := by
  rw [readRow, batchRow, List.map_map, List.zipWith_map_right, List.zipWith_self]
  exact List.map_congr_left fun f member => (readCell_cell allExact access record member).1

theorem batchRow_plain (allExact : AllExact params columns) (access : Access layout R)
    (records : List R) :
    ∀ cells ∈ records.map fun record => (batchRow params columns access record).map String.toList,
      ∀ cell ∈ cells, ',' ∉ cell ∧ '\n' ∉ cell := by
  refine List.forall_mem_map.mpr fun record _ => List.forall_mem_map.mpr (List.forall_mem_map.mpr ?_)
  intro f member
  exact (readCell_cell allExact access record member).2

/-- The text of a batch is a headline and a table of the rows. -/
theorem linesText_batch (csv : params.format = .csv) (ellipsize : Bool) {fields : Fields}
    (count : layout.all.length = fields.allCnt) (header : List FieldCall)
    (columntAlignment : List Alignment) (columnWidth : List Nat) (records : List R) :
    linesText params ellipsize (header :: records.map fun record =>
        rowCalls fields columntAlignment columnWidth (batchRow params columns access record)) =
      (header.flatMap fun call => (call.text params ellipsize).toList) ++ ['\n'] ++
        Delimited.table ',' '\n' (records.map fun record =>
          (batchRow params columns access record).map String.toList) := by
  rw [linesText, List.flatMap_cons, Delimited.table, List.flatMap_map, List.flatMap_map]
  refine congrArg _ (List.flatMap_congr fun record _ => ?_)
  rw [csv_row csv ellipsize _ _ ((batchRow_length record).trans count)]
  rfl

/-- The output of `print_batch` in the CSV format, with any header and any widths, is read back as
what the visited records are. -/
theorem csv_reads_back {calls : List Call} (callsValid : ∀ call ∈ calls, call.Valid lib.toLibnf)
    (ordered : calls.Pairwise Call.MayPrecede)
    (isLayout : layout.all = (build lib.toLibnf calls).usedAll)
    (names : ∀ id, SingleLine (lib.infoName id)) (typed : Typed columns access)
    (csv : params.format = .csv)
    (allExact : AllExact params columns) (ellipsize richHeader : Bool) (recLimit : Nat) (mem : List R)
    {widthsBuff buff : Bytes} (room : buff.length = maxFieldSize layout) :
    ∃ lines, printBatchLines params columns access lib (build lib.toLibnf calls) .yes ellipsize
      richHeader recLimit mem
        widthsBuff buff = some lines ∧
      readCsv params columns (linesText params ellipsize lines) =
        (mem.take (if recLimit = 0 then uint64Max else recLimit)).map fun record =>
          layout.all.map fun f => shown (access.fget record f.id) := by
  obtain ⟨roles, valid, built, -⟩ := build_roles callsValid ordered
  have laid : Laid lib (build lib.toLibnf calls) := built ▸ laid_toFields valid
  have count : layout.all.length = (build lib.toLibnf calls).allCnt := isLayout ▸ laid.count
  generalize build lib.toLibnf calls = fields at laid count
  unfold printBatchLines
  rw [if_neg (by decide)]
  dsimp only
  generalize (if ellipsize = true then outputInitWidth params columns else _) = columnWidth
  generalize (if recLimit = 0 then uint64Max else recLimit) = limit
  obtain ⟨header, printed, -⟩ :=
    printBatchHeader_inOrder laid (outputInitAlignment columns) richHeader columnWidth
  have single := printBatchHeader_singleLine names printed
  rw [printed, Option.map_some]
  refine ⟨_, rfl, ?_⟩
  rw [printLines_eq params fields typed header.columnWidth limit 0 mem room, Nat.sub_zero]
  rw [linesText_batch csv ellipsize count, readCsv, Delimited.readTable_headed (by decide)
    (header_line csv ellipsize single) (batchRow_plain allExact access _), List.map_map, List.map_map]
  refine List.map_congr_left fun record _ => ?_
  rw [← readRow_batchRow allExact access record, Function.comp_apply, Function.comp_apply]
  split
  · rename_i empty
    have none : layout.all = [] := by simpa [batchRow] using empty
    simp [readRow, none]
  · rfl

def csvParams : OutputParams := ⟨.csv, .none, .none, .none, .none, .none, .none⟩

def csvColumns : Columns unitLibc basicLayout where
  fieldToStrCb id := if id = 6 then .libnfAddr else .uint64
  wide := by decide

theorem csvColumns_exact : AllExact csvParams csvColumns where
  exact := by decide
  sized := by decide

/-- Some records have the address only. -/
def csvAccess : Access basicLayout Bool where
  fget whole id := if whole || id = 6 then .ok (List.replicate (if id = 6 then 16 else 8) 7)
    else .notset none
  sized := by
    intro whole f member value stored
    have size : ∀ f ∈ basicLayout.all, f.size = if f.id = 6 then 16 else 8 := by decide
    split at stored
    · cases stored
      rw [size f member, List.length_replicate]
    · cases stored

theorem csvAccess_typed : Typed csvColumns csvAccess := by
  intro whole f member value stored
  have length := csvAccess.sized whole f member value stored
  refine ⟨by rw [length]; exact csvColumns.wide f member, fun text => ?_⟩
  have number : ∀ f ∈ basicLayout.all, csvColumns.fieldToStrCb f.id ≠ .string := by decide
  exact absurd text (number f member)

theorem csv_reads_back_two :
    ∃ lines, printBatchLines csvParams csvColumns csvAccess basicNames
      (build basicNames.toLibnf basicCalls) .yes true
        true 2 [true, false, true] [] (List.replicate (maxFieldSize basicLayout) 0) = some lines ∧
      readCsv csvParams csvColumns (linesText csvParams true lines) =
        [true, false].map fun record => basicLayout.all.map fun f =>
          shown (csvAccess.fget record f.id) := by
  have names : ∀ id, SingleLine (basicNames.infoName id) := fun id => by
    simp only [basicNames]
    split_ifs <;> decide
  have isLayout : basicLayout.all = (build basicNames.toLibnf basicCalls).usedAll := rfl
  have csv : csvParams.format = .csv := rfl
  exact csv_reads_back basicCalls_valid basicCalls_ordered isLayout names csvAccess_typed csv
    csvColumns_exact true true 2
    [true, false, true] List.length_replicate

end Fdistdump.Output
