import Fdistdump.FieldSet.MemInit
import Fdistdump.ListMode.Cells
import Fdistdump.Output.PrintField

/-!
# Headers

Three functions print the header. They go through the roles of the fields and count the columns,
while the rows go through `all`; both come to the same columns because of the layout of
`struct fields`.
-/

namespace Fdistdump.Output
open FieldSet ListMode

/-- What the header takes from libnf. Names are kept in a buffer of `LNF_INFO_BUFSIZE` bytes. -/
structure HeaderLibnf extends Libnf where
  aggrMax : Int
  aggrSum : Int
  aggrOr : Int
  fldCalcDuration : Int
  infoName : Int → String
  infoName_short : ∀ id, (infoName id).length < 2 ^ 31
  infoAggr_func : ∀ id, lnfFldZero < id → id < fldTerm →
    infoAggr id ∈ [aggrMin, aggrMax, aggrSum, aggrOr, aggrKey]

/-- The arguments of a call of `print_field`. -/
structure FieldCall where
  string : String
  colWidth : Nat
  alignment : Alignment
  last : Bool
deriving DecidableEq, Repr

def getColumnAlignment : FieldToStr → Alignment
  | .timestamp | .tcpFlags | .ipProto | .duration | .libnfAddr | .libnfMac | .string | .libnfBrec =>
    .left
  | .doubleVolume | .volume | .uint8 | .uint16 | .uint32 | .uint64 | .double => .right

/-- `column_width`, `fields_cntr` and the cells printed so far. -/
structure HeaderRun where
  columnWidth : List Nat
  fieldsCntr : Nat := 0
  cells : List FieldCall := []
deriving DecidableEq, Repr

section Source
variable (lib : HeaderLibnf) (fields : Fields) (columntAlignment : List Alignment)

/-- `libnf_sort_dir_to_str`, which aborts on anything else. -/
def libnfSortDirToStr (sortDir : Int) : Option String :=
  if sortDir = lib.sortAsc then some "asc" else if sortDir = lib.sortDesc then some "desc" else none

/-- `libnf_aggr_func_to_str`, which aborts on anything else. -/
def libnfAggrFuncToStr (aggrFunc : Int) : Option String :=
  if aggrFunc = lib.aggrMin then some "min"
  else if aggrFunc = lib.aggrMax then some "max"
  else if aggrFunc = lib.aggrSum then some "sum"
  else if aggrFunc = lib.aggrOr then some "or"
  else none

/-- `snprintf` into `buff`. -/
def nameBuff (string : String) : String := String.ofList (string.toList.take 255)

def printName (run : HeaderRun) (name : String) : HeaderRun :=
  let i := run.fieldsCntr
  let columnWidth := run.columnWidth.set i (maxAssign (run.columnWidth.getD i 0) name.length)
  { columnWidth := columnWidth
    fieldsCntr := i + 1
    cells := run.cells ++
      [{ string := name
         colWidth := columnWidth.getD i 0
         alignment := columntAlignment.getD i .left
         last := i + 1 = fields.allCnt }] }

def aggrKeyName (key : AggrKey) : Option String :=
  let fieldName := lib.infoName (fields.idAt key.field)
  if isSortKey fields key.field then
    (libnfSortDirToStr lib fields.sortKey.direction).map fun direction =>
      nameBuff (fieldName ++ " (key)\x7b" ++ direction ++ "\x7d")
  else some (nameBuff (fieldName ++ " (key)"))

def sortKeyName : Option String :=
  (libnfSortDirToStr lib fields.sortKey.direction).map fun direction =>
    nameBuff (lib.infoName (fields.idAt fields.sortKey.field) ++ " \x7b" ++ direction ++ "\x7d")

def outputFieldName (output : OutputField) : Option String :=
  let id := fields.idAt output.field
  let func :=
    if lib.fldCalcDuration ≤ id ∧ id ≤ lib.fldCalcBpp then some "calc"
    else libnfAggrFuncToStr lib output.aggrFunc
  func.map fun func => nameBuff (lib.infoName id ++ " [" ++ func ++ "]")

/-- The loop over some fields whose names may not be known. -/
def printNames {α : Type} (name : α → Option String) : List α → HeaderRun → Option HeaderRun
  | [], run => some run
  | field :: rest, run =>
    (name field).bind fun name' => printNames name rest
      (printName fields columntAlignment run name')

/-- The column of a sort key that is not one of the aggregation keys. -/
def printSortKeyName (keys : List AggrKey) (run : HeaderRun) : Option HeaderRun :=
  let sortKeyIsOne := keys.any fun key => isSortKey fields key.field
  if fields.sortKey.field.isSome && !sortKeyIsOne then
    (sortKeyName lib fields).map (printName fields columntAlignment run)
  else some run

def printNamesEnrichedAggr (columnWidth : List Nat) : Option HeaderRun :=
  let keys := fields.aggrKeys.take fields.aggrKeysCnt
  let outputs := fields.outputFields.take fields.outputFieldsCnt
  (printNames fields columntAlignment (aggrKeyName lib fields) keys { columnWidth }).bind fun run =>
    (printSortKeyName lib fields columntAlignment keys run).bind
      (printNames fields columntAlignment (outputFieldName lib fields) outputs)

def printNamesEnrichedSort (columnWidth : List Nat) : Option HeaderRun :=
  let outputs := fields.outputFields.take fields.outputFieldsCnt
  (sortKeyName lib fields).bind fun name =>
    printNames fields columntAlignment (fun output : OutputField =>
      some (lib.infoName (fields.idAt output.field)))
      outputs (printName fields columntAlignment { columnWidth } name)

def printNamesOnly (columnWidth : List Nat) : HeaderRun :=
  (fields.all.take fields.allCnt).foldl (fun run field => printName fields columntAlignment run
    (lib.infoName field.id))
    { columnWidth }

def printBatchHeader (richHeader : Bool) (columnWidth : List Nat) : Option HeaderRun :=
  if richHeader && 0 < fields.aggrKeysCnt then
    printNamesEnrichedAggr lib fields columntAlignment columnWidth
  else if richHeader && fields.sortKey.field.isSome then
    printNamesEnrichedSort lib fields columntAlignment columnWidth
  else some (printNamesOnly lib fields columntAlignment columnWidth)

/-- The calls for the texts of a row, in `print_batch` and in `print_stream_next`. -/
def rowCalls (columnWidth : List Nat) (texts : List String) : List FieldCall :=
  texts.mapIdx fun i string =>
    { string
      colWidth := columnWidth.getD i 0
      alignment := columntAlignment.getD i .left
      last := i + 1 = fields.allCnt }

end Source

/-! ### Cells and columns -/

/-- What stands behind a field's name in a rich header, by the role of the field. -/
inductive Decoration (lib : HeaderLibnf) (fields : Fields) (id : Int) : String → Prop
  | key {key : AggrKey} (member : key ∈ fields.usedKeys) (here : fields.idAt key.field = id)
      (unsorted : isSortKey fields key.field = false) : Decoration lib fields id " (key)"
  | sortedKey {key : AggrKey} {direction : String} (member : key ∈ fields.usedKeys)
    (here : fields.idAt key.field = id)
      (sorted : isSortKey fields key.field = true)
      (known : libnfSortDirToStr lib fields.sortKey.direction = some direction) :
      Decoration lib fields id (" (key)\x7b" ++ direction ++ "\x7d")
  | sortKey {direction : String} (own : fields.sortKey.field ∈ fields.sortOnly)
      (here : fields.idAt fields.sortKey.field = id)
      (known : libnfSortDirToStr lib fields.sortKey.direction = some direction) :
      Decoration lib fields id (" \x7b" ++ direction ++ "\x7d")
  | calculated {output : OutputField} (aggregates : 0 < fields.aggrKeysCnt)
    (member : output ∈ fields.usedOutputs)
      (here : fields.idAt output.field = id)
      (computed : lib.fldCalcDuration ≤ id ∧ id ≤ lib.fldCalcBpp) :
      Decoration lib fields id " [calc]"
  | aggregated {output : OutputField} {func : String} (aggregates : 0 < fields.aggrKeysCnt)
      (member : output ∈ fields.usedOutputs) (here : fields.idAt output.field = id)
      (notComputed : ¬ (lib.fldCalcDuration ≤ id ∧ id ≤ lib.fldCalcBpp))
      (known : libnfAggrFuncToStr lib output.aggrFunc = some func) :
      Decoration lib fields id (" [" ++ func ++ "]")

/-- The text over the column of a field: its name alone, or with the decoration of its role, as far
as the buffer holds it. -/
inductive Title (lib : HeaderLibnf) (fields : Fields) (richHeader : Bool) (id : Int) : String → Prop
  | name (plain : richHeader = false ∨ fields.aggrKeysCnt = 0 ∧
      (fields.sortKey.field = none ∨ ∃ output ∈ fields.usedOutputs, fields.idAt output.field = id)) :
      Title lib fields richHeader id (lib.infoName id)
  | decorated {decoration : String} (rich : richHeader = true)
    (role : Decoration lib fields id decoration) :
      Title lib fields richHeader id (nameBuff (lib.infoName id ++ decoration))

theorem Title.short {lib : HeaderLibnf} {fields : Fields} {richHeader : Bool} {id : Int} {text : String}
    (title : Title lib fields richHeader id text) : text.length < 2 ^ 31 := by
  cases title with
  | name => exact lib.infoName_short id
  | decorated =>
    rw [nameBuff, String.length_ofList, List.length_take]
    omega

def FieldCall.column (call : FieldCall) : Nat × Alignment × Bool :=
  (call.colWidth, call.alignment, call.last)

/-- There is a cell for each field, in order, and it is printed like the cells of the rows. -/
structure MatchesColumns (lib : HeaderLibnf) (fields : Fields) (richHeader : Bool)
    (columntAlignment : List Alignment) (header : HeaderRun) : Prop where
  names : List.Forall₂ (fun field cell => Title lib fields richHeader field.id cell.string)
    fields.usedAll header.cells
  count : header.cells.length = fields.allCnt
  width : header.columnWidth.length = fields.allCnt
  columns : ∀ texts : List String, texts.length = fields.allCnt →
    (rowCalls fields columntAlignment header.columnWidth texts).map FieldCall.column =
      header.cells.map FieldCall.column
  last : ∀ k cell, header.cells[k]? = some cell → (cell.last = true ↔ k + 1 = fields.allCnt)

variable {lib : HeaderLibnf} {fields : Fields} {richHeader : Bool} {columntAlignment : List Alignment}

/-! ### A run of names -/

section
variable (fields columntAlignment)

theorem printName_length (run : HeaderRun) (name : String) :
    (printName fields columntAlignment run name).columnWidth.length = run.columnWidth.length :=
  List.length_set

theorem printName_getD (run : HeaderRun) (name : String)
    (here : run.fieldsCntr < run.columnWidth.length) (j : Nat) :
    (printName fields columntAlignment run name).columnWidth.getD j 0 =
      if run.fieldsCntr = j then maxAssign (run.columnWidth.getD j 0) name.length
      else run.columnWidth.getD j 0 := by
  simp only [printName, List.getD_eq_getElem?_getD, List.getElem?_set, here]
  split
  · rename_i same
    subst same
    rfl
  · rfl

theorem printName_cells (run : HeaderRun) (name : String)
    (here : run.fieldsCntr < run.columnWidth.length) :
    (printName fields columntAlignment run name).cells = run.cells ++
      [{ string := name
         colWidth := maxAssign (run.columnWidth.getD run.fieldsCntr 0) name.length
         alignment := columntAlignment.getD run.fieldsCntr .left
         last := run.fieldsCntr + 1 = fields.allCnt }] := by
  have width := printName_getD fields columntAlignment run name here run.fieldsCntr
  rw [if_pos rfl] at width
  rw [← width]
  rfl

theorem foldl_printName (names : List String) (run : HeaderRun)
    (inside : run.fieldsCntr + names.length ≤ run.columnWidth.length) :
    (names.foldl (printName fields columntAlignment) run).columnWidth.length = run.columnWidth.length ∧
    (∀ j, (names.foldl (printName fields columntAlignment) run).columnWidth.getD j 0 =
      if run.fieldsCntr ≤ j then
        maxAssign (run.columnWidth.getD j 0) ((names[j - run.fieldsCntr]?).elim 0 String.length)
      else run.columnWidth.getD j 0) ∧
    (names.foldl (printName fields columntAlignment) run).cells = run.cells ++ names.mapIdx fun k name =>
      { string := name
        colWidth := maxAssign (run.columnWidth.getD (run.fieldsCntr + k) 0) name.length
        alignment := columntAlignment.getD (run.fieldsCntr + k) .left
        last := run.fieldsCntr + k + 1 = fields.allCnt } := by
  induction names generalizing run with
  | nil =>
    refine ⟨rfl, ?_, (List.append_nil _).symm⟩
    intro j
    simp [maxAssign]
  | cons name rest ih =>
    rw [List.length_cons] at inside
    have here : run.fieldsCntr < run.columnWidth.length := by omega
    have next := printName_length fields columntAlignment run name
    have widened := printName_getD fields columntAlignment run name here
    obtain ⟨length, widths, cells⟩ := ih (printName fields columntAlignment run name)
      (show run.fieldsCntr + 1 + rest.length ≤ _ by omega)
    have counter : (printName fields columntAlignment run name).fieldsCntr = run.fieldsCntr + 1 := rfl
    rw [List.foldl_cons]
    refine ⟨length.trans next, ?_, ?_⟩
    · intro j
      rw [widths, widened, counter]
      by_cases same : run.fieldsCntr = j
      · subst same
        simp
      · by_cases later : run.fieldsCntr + 1 ≤ j
        · obtain ⟨k, rfl⟩ := Nat.exists_eq_add_of_le later
          have shift : run.fieldsCntr + 1 + k - run.fieldsCntr = k + 1 := by omega
          have after : run.fieldsCntr ≤ run.fieldsCntr + 1 + k := by omega
          simp [same, later, after, shift]
        · have before : ¬ run.fieldsCntr ≤ j := by omega
          simp [same, later, before]
    · rw [cells, counter, List.mapIdx_cons, printName_cells fields columntAlignment run name here,
        List.append_assoc,
        List.singleton_append]
      refine congrArg _ (congrArg _ ?_)
      refine congrArg (List.mapIdx · rest) (funext fun k => funext fun name' => ?_)
      have other : ¬ run.fieldsCntr = run.fieldsCntr + 1 + k := by omega
      rw [widened, if_neg other, Nat.add_right_comm run.fieldsCntr 1 k, Nat.add_assoc run.fieldsCntr k 1]

theorem printNames_eq {α : Type} {name : α → Option String} {P : α → String → Prop} {items : List α}
    (known : ∀ item ∈ items, ∃ text, name item = some text ∧ P item text) (run : HeaderRun) :
    ∃ names, List.Forall₂ P items names ∧
      printNames fields columntAlignment name items run =
        some (names.foldl (printName fields columntAlignment) run) := by
  induction items generalizing run with
  | nil => exact ⟨[], .nil, rfl⟩
  | cons item rest ih =>
    obtain ⟨⟨text, here, holds⟩, others⟩ := List.forall_mem_cons.mp known
    obtain ⟨names, all, printed⟩ := ih others (printName fields columntAlignment run text)
    exact ⟨text :: names, .cons holds all, by rw [printNames, here, Option.bind_some, printed,
      List.foldl_cons]⟩

end

/-- One name for each field, printed one after the other from the first column on. -/
def NamesInOrder (lib : HeaderLibnf) (fields : Fields) (richHeader : Bool)
    (columntAlignment : List Alignment) (columnWidth : List Nat) (header : HeaderRun) : Prop :=
  ∃ names, List.Forall₂ (Title lib fields richHeader) (fields.usedAll.map Field.id) names ∧
    header = names.foldl (printName fields columntAlignment) { columnWidth }

theorem matchesColumns_of_namesInOrder {columnWidth : List Nat} {header : HeaderRun}
    (count : fields.usedAll.length = fields.allCnt) (width : columnWidth.length = fields.allCnt)
    (inOrder : NamesInOrder lib fields richHeader columntAlignment columnWidth header) :
    MatchesColumns lib fields richHeader columntAlignment header := by
  obtain ⟨names, titles, printed⟩ := inOrder
  have length : names.length = fields.allCnt := by rw [← titles.length_eq, List.length_map, count]
  obtain ⟨widthKept, widths, cells⟩ := foldl_printName fields columntAlignment names
    { columnWidth } (show 0 + names.length ≤ columnWidth.length by omega)
  rw [List.nil_append] at cells
  rw [← printed] at widthKept widths cells
  refine ⟨?_, ?_, widthKept.trans width, fun texts sameLength => ?_, fun k cell at' => ?_⟩
  · have strings : header.cells.map FieldCall.string = names := by
      rw [cells]
      apply List.ext_getElem?
      intro k
      simp only [List.getElem?_map, List.getElem?_mapIdx, Option.map_map]
      exact Option.map_id'
    rw [← strings] at titles
    exact List.forall₂_map_left_iff.mp (List.forall₂_map_right_iff.mp titles)
  · rw [cells, List.length_mapIdx, length]
  · rw [cells]
    apply List.ext_getElem?
    intro k
    simp only [rowCalls, List.getElem?_map, List.getElem?_mapIdx, Option.map_map]
    by_cases inside : k < fields.allCnt
    · have text : texts[k]? = some texts[k] := List.getElem?_eq_getElem (by omega)
      have name : names[k]? = some names[k] := List.getElem?_eq_getElem (by omega)
      have width : header.columnWidth.getD k 0 = maxAssign (columnWidth.getD k 0) names[k].length := by
        have at' := widths k
        simp only [Nat.zero_le, if_true, Nat.sub_zero, name, Option.elim_some] at at'
        exact at'
      rw [text, name]
      simp only [Option.map_some, Function.comp_apply, FieldCall.column, width, Nat.zero_add]
    · rw [List.getElem?_eq_none (by omega), List.getElem?_eq_none (by omega), Option.map_none,
        Option.map_none]
  · rw [cells, List.getElem?_mapIdx] at at'
    obtain ⟨name, -, rfl⟩ := Option.map_eq_some_iff.mp at'
    simp

/-! ### The three headers -/

/-- What the header functions rely on: the layout of `all`, and directions and functions that have
names. -/
structure Laid (lib : HeaderLibnf) (fields : Fields) : Prop where
  count : fields.usedAll.length = fields.allCnt
  ids : fields.usedAll.map Field.id =
    fields.usedKeys.map (fun key => fields.idAt key.field) ++ fields.sortOnly.map fields.idAt ++
      fields.usedOutputs.map fun output => fields.idAt output.field
  direction : fields.sortKey.field ≠ none → ∃ text,
    libnfSortDirToStr lib fields.sortKey.direction = some text
  functions : ∀ output ∈ fields.usedOutputs, ∃ text, libnfAggrFuncToStr lib output.aggrFunc = some text

theorem aggrKeyName_known (laid : Laid lib fields) (key : AggrKey) (member : key ∈ fields.usedKeys) :
    ∃ text, aggrKeyName lib fields key = some text ∧
      Title lib fields true (fields.idAt key.field) text := by
  unfold aggrKeyName
  split
  · rename_i isSort
    obtain ⟨direction, known⟩ := laid.direction (isSortKey_iff.mp isSort).1
    refine ⟨_, by rw [known]; rfl, ?_⟩
    have title : Title lib fields true _ _ := .decorated rfl (.sortedKey member rfl isSort known)
    rwa [← String.append_assoc, ← String.append_assoc] at title
  · rename_i notSort
    exact ⟨_, rfl, .decorated rfl (.key member rfl (Bool.eq_false_iff.mpr notSort))⟩

theorem sortKeyName_known (laid : Laid lib fields) (own : fields.sortKey.field ∈ fields.sortOnly)
    (set : fields.sortKey.field ≠ none) :
    ∃ text, sortKeyName lib fields = some text ∧
      Title lib fields true (fields.idAt fields.sortKey.field) text := by
  obtain ⟨direction, known⟩ := laid.direction set
  refine ⟨_, by rw [sortKeyName, known]; rfl, ?_⟩
  have title : Title lib fields true _ _ := .decorated rfl (.sortKey own rfl known)
  rwa [← String.append_assoc, ← String.append_assoc] at title

theorem outputFieldName_known (laid : Laid lib fields) (aggregates : 0 < fields.aggrKeysCnt)
    (output : OutputField) (member : output ∈ fields.usedOutputs) :
    ∃ text, outputFieldName lib fields output = some text ∧
      Title lib fields true (fields.idAt output.field) text := by
  unfold outputFieldName
  dsimp only
  split
  · rename_i computed
    refine ⟨_, rfl, ?_⟩
    have title : Title lib fields true _ _ := .decorated rfl (.calculated aggregates member rfl computed)
    have parts : " [calc]" = " [" ++ "calc" ++ "]" := by decide
    rwa [parts, ← String.append_assoc, ← String.append_assoc] at title
  · rename_i notComputed
    obtain ⟨func, known⟩ := laid.functions output member
    refine ⟨_, by rw [known]; rfl, ?_⟩
    have title : Title lib fields true _ _ :=
      .decorated rfl (.aggregated aggregates member rfl notComputed known)
    rwa [← String.append_assoc, ← String.append_assoc] at title

theorem printNamesOnly_inOrder (columnWidth : List Nat)
    (plain : richHeader = false ∨ fields.aggrKeysCnt = 0 ∧ fields.sortKey.field = none) :
    NamesInOrder lib fields richHeader columntAlignment columnWidth
      (printNamesOnly lib fields columntAlignment columnWidth) := by
  refine ⟨(fields.usedAll.map Field.id).map lib.infoName, ?_, ?_⟩
  · rw [List.forall₂_map_right_iff, List.forall₂_same]
    exact fun id _ => .name (plain.imp_right fun ⟨noKeys, unsorted⟩ => ⟨noKeys, .inl unsorted⟩)
  · rw [List.map_map, List.foldl_map]
    rfl

variable (columntAlignment) in
theorem printSortKeyName_eq (laid : Laid lib fields) :
    ∃ names, List.Forall₂ (Title lib fields true) (fields.sortOnly.map fields.idAt) names ∧
      ∀ run, printSortKeyName lib fields columntAlignment fields.usedKeys run =
        some (names.foldl (printName fields columntAlignment) run) := by
  have cases : fields.sortOnly = _ := sortOnly_eq
  split at cases
  · rename_i own
    have set : fields.sortKey.field ≠ none := Option.isSome_iff_ne_none.mp (Bool.and_eq_true _ _ ▸ own).1
    obtain ⟨text, known, title⟩ := sortKeyName_known laid (cases ▸ List.mem_singleton_self _) set
    refine ⟨[text], cases ▸ .cons title .nil, ?_⟩
    intro run
    exact (if_pos own).trans (by rw [known]; rfl)
  · rename_i shared
    exact ⟨[], cases ▸ .nil, fun run => if_neg shared⟩

theorem printNamesEnrichedAggr_inOrder (laid : Laid lib fields) (aggregates : 0 < fields.aggrKeysCnt)
    (columnWidth : List Nat) :
    ∃ header, printNamesEnrichedAggr lib fields columntAlignment columnWidth = some header ∧
      NamesInOrder lib fields true columntAlignment columnWidth header := by
  obtain ⟨keyNames, keys, printedKeys⟩ := printNames_eq fields columntAlignment
    (aggrKeyName_known laid) { columnWidth }
  obtain ⟨sortNames, sort, printedSort⟩ := printSortKeyName_eq columntAlignment laid
  obtain ⟨outputNames, outputs, printedOutputs⟩ :=
    printNames_eq fields columntAlignment (outputFieldName_known laid aggregates)
      (sortNames.foldl (printName fields columntAlignment)
        (keyNames.foldl (printName fields columntAlignment) { columnWidth }))
  refine ⟨_, ?_, keyNames ++ sortNames ++ outputNames, ?_, rfl⟩
  · show (printNames fields columntAlignment (aggrKeyName lib fields) fields.usedKeys
      { columnWidth }).bind _ = _
    rw [printedKeys, Option.bind_some]
    show (printSortKeyName lib fields columntAlignment fields.usedKeys _).bind _ = _
    rw [printedSort, Option.bind_some]
    show printNames fields columntAlignment (outputFieldName lib fields) fields.usedOutputs _ = _
    rw [printedOutputs, List.foldl_append, List.foldl_append]
  · rw [laid.ids]
    exact List.rel_append (List.rel_append (List.forall₂_map_left_iff.mpr keys) sort)
      (List.forall₂_map_left_iff.mpr outputs)

theorem printNamesEnrichedSort_inOrder (laid : Laid lib fields) (noKeys : fields.aggrKeysCnt = 0)
    (set : fields.sortKey.field ≠ none) (columnWidth : List Nat) :
    ∃ header, printNamesEnrichedSort lib fields columntAlignment columnWidth = some header ∧
      NamesInOrder lib fields true columntAlignment columnWidth header := by
  have keys : fields.usedKeys = [] := by rw [Fields.usedKeys, noKeys, List.take_zero]
  have own : fields.sortOnly = [fields.sortKey.field] := by
    rw [Fields.sortOnly, keys]
    simp [set]
  obtain ⟨text, known, title⟩ := sortKeyName_known laid (own ▸ List.mem_singleton_self _) set
  have names : ∀ output ∈ fields.usedOutputs, ∃ text,
      (fun output : OutputField => some (lib.infoName (fields.idAt output.field))) output = some text ∧
        Title lib fields true (fields.idAt output.field) text :=
    fun output member => ⟨_, rfl, .name (.inr ⟨noKeys, .inr ⟨output, member, rfl⟩⟩)⟩
  obtain ⟨outputNames, outputs, printed⟩ := printNames_eq fields columntAlignment names
    (printName fields columntAlignment { columnWidth } text)
  refine ⟨_, ?_, text :: outputNames, ?_, rfl⟩
  · rw [printNamesEnrichedSort, known]
    exact printed
  · rw [laid.ids, keys, own]
    exact .cons title (List.forall₂_map_left_iff.mpr outputs)

theorem printBatchHeader_inOrder (laid : Laid lib fields) (columntAlignment : List Alignment)
    (richHeader : Bool) (columnWidth : List Nat) :
    ∃ header, printBatchHeader lib fields columntAlignment richHeader columnWidth = some header ∧
      NamesInOrder lib fields richHeader columntAlignment columnWidth header := by
  unfold printBatchHeader
  cases richHeader with
  | false => exact ⟨_, rfl, printNamesOnly_inOrder columnWidth (.inl rfl)⟩
  | true =>
    simp only [Bool.true_and, decide_eq_true_eq]
    split
    · rename_i aggregates
      exact printNamesEnrichedAggr_inOrder laid aggregates columnWidth
    · rename_i notAggr
      have noKeys : fields.aggrKeysCnt = 0 := by omega
      split
      · rename_i sorted
        exact printNamesEnrichedSort_inOrder laid noKeys (Option.isSome_iff_ne_none.mp sorted)
          columnWidth
      · rename_i unsorted
        exact ⟨_, rfl, printNamesOnly_inOrder columnWidth (.inr ⟨noKeys, by simpa using unsorted⟩)⟩

/-! ### Fields that calls build -/

theorem libnfSortDirToStr_known {sortDir : Int}
    (known : sortDir = lib.sortAsc ∨ sortDir = lib.sortDesc) :
    ∃ text, libnfSortDirToStr lib sortDir = some text := by
  unfold libnfSortDirToStr
  split
  · exact ⟨_, rfl⟩
  · rename_i notAsc
    exact ⟨_, if_pos (known.resolve_left notAsc)⟩

theorem libnfAggrFuncToStr_known {aggrFunc : Int}
    (known : aggrFunc ∈ [lib.aggrMin, lib.aggrMax, lib.aggrSum, lib.aggrOr]) :
    ∃ text, libnfAggrFuncToStr lib aggrFunc = some text := by
  rw [← Option.isSome_iff_exists]
  simp only [List.mem_cons, List.not_mem_nil, or_false] at known
  unfold libnfAggrFuncToStr
  split_ifs with notMin notMax notSum notOr
  iterate 4 rfl
  exact absurd known (by simp only [notMin, notMax, notSum, notOr, or_self, not_false_eq_true])

theorem fieldGetAggrFunc_known {id : Int} (inRange : lib.inRangeExcl id) :
    fieldGetAggrFunc lib.toLibnf id ∈ [lib.aggrMin, lib.aggrMax, lib.aggrSum, lib.aggrOr] := by
  obtain ⟨above, below⟩ := Libnf.inRangeExcl_iff.mp inRange
  have func := lib.infoAggr_func id above below
  unfold fieldGetAggrFunc
  split
  · exact List.mem_cons_self
  · rename_i notKey
    simp only [List.mem_cons, List.not_mem_nil, notKey, or_false] at func ⊢
    exact func

theorem laid_toFields {roles : Roles} (valid : roles.Valid lib.toLibnf) :
    Laid lib (roles.toFields lib.toLibnf) where
  count := by
    rw [Roles.usedAll_toFields, List.length_map]
    rfl
  ids := by
    rw [Roles.usedAll_ids, Roles.usedKeys_ids, Roles.sortOnly_ids, Roles.usedOutputs_ids, Roles.ids]
  direction set := by
    cases sort : roles.sort with
    | none => exact absurd (by simp only [Roles.toFields, Roles.sortKeyOf, sort]) set
    | some key =>
      simp only [Roles.toFields, Roles.sortKeyOf, sort]
      exact libnfSortDirToStr_known (valid.directed key sort)
  functions output member := by
    rw [Roles.usedOutputs_toFields] at member
    obtain ⟨id, isOutput, rfl⟩ := List.mem_map.mp member
    exact libnfAggrFuncToStr_known
      (fieldGetAggrFunc_known (valid.inRange id (Roles.mem_ids_of_mem_outputs isOutput)))

/-! ### Rows -/

variable {libc : Libc} {layout : RecordLayout} {params : OutputParams}

/-- The texts of a row are the values of the fields, in order. -/
structure RowOf (layout : RecordLayout) (value : Nat → Field → String → Prop)
    (texts : List String) : Prop where
  count : texts.length = layout.all.length
  values : ∀ k field text, layout.all[k]? = some field → texts[k]? = some text → value k field text

/-- The text of `get_field_str`, whatever its buffer holds. -/
def BatchCell (params : OutputParams) (columns : Columns libc layout) (fget : Int → Fget) (_ : Nat)
    (field : Field) (text : String) : Prop :=
  ∃ buff, (getFieldStr params columns field (fget field.id) buff).1 = text

/-- The text of the field's callback at the field's offset. -/
def StreamCell (params : OutputParams) (columns : Columns libc layout) (data : Bytes) (k : Nat)
    (field : Field) (text : String) : Prop :=
  (columns.fieldToStrCb field.id).apply libc params
    (data.drop ((layout.all.take k).map Field.size).sum) = text

variable (params) in
theorem printBatchRow_rowOf (columns : Columns libc layout) (fget : Int → Fget) (buff : Bytes) :
    RowOf layout (BatchCell params columns fget)
      (printBatchRow params columns fget layout.all buff).1 := by
  have row : ∀ (fields : List Field) (buff : Bytes),
      List.Forall₂ (BatchCell params columns fget 0) fields
        (printBatchRow params columns fget fields buff).1 := by
    intro fields
    induction fields with
    | nil => exact fun _ => .nil
    | cons field rest ih => exact fun buff => .cons ⟨buff, rfl⟩ (ih _)
  obtain ⟨count, values⟩ := List.forall₂_iff_get.mp (row layout.all buff)
  refine ⟨count.symm, ?_⟩
  intro k field text atField atText
  obtain ⟨below, rfl⟩ := List.getElem?_eq_some_iff.mp atField
  obtain ⟨below', rfl⟩ := List.getElem?_eq_some_iff.mp atText
  exact values k below below'

theorem fieldOffset_getElem? (off : Nat) (fields : List Field) (k : Nat) :
    (fieldOffset off fields)[k]? =
      if k < fields.length then some (off + ((fields.take k).map Field.size).sum) else none := by
  induction fields generalizing off k with
  | nil => rfl
  | cons f rest ih =>
    cases k with
    | zero => simp [fieldOffset]
    | succ k =>
      simp only [fieldOffset, List.getElem?_cons_succ, ih, List.length_cons, Nat.add_lt_add_iff_right,
        List.take_succ_cons, List.map_cons, List.sum_cons, Nat.add_assoc]

variable (params) in
theorem printStreamNext_rowOf (columns : Columns libc layout) (data : Bytes) :
    RowOf layout (StreamCell params columns data) (printStreamNext params columns data) := by
  have offsets : (fieldOffset 0 layout.all).length = layout.all.length := by
    have length : ∀ (off : Nat) (fields : List Field), (fieldOffset off fields).length =
        fields.length := by
      intro off fields
      induction fields generalizing off with
      | nil => rfl
      | cons f rest ih => rw [fieldOffset, List.length_cons, List.length_cons, ih]
    exact length 0 layout.all
  refine ⟨by rw [printStreamNext, List.length_map, List.length_zip, offsets, Nat.min_self],
    fun k field text atField atText => ?_⟩
  obtain ⟨below, -⟩ := List.getElem?_eq_some_iff.mp atField
  have offset := fieldOffset_getElem? 0 layout.all k
  rw [if_pos below, Nat.zero_add] at offset
  have zipped : (layout.all.zip (fieldOffset 0 layout.all))[k]? =
      some (field, ((layout.all.take k).map Field.size).sum) :=
    List.getElem?_zip_eq_some.mpr ⟨atField, offset⟩
  rw [printStreamNext, List.getElem?_map, zipped, Option.map_some] at atText
  exact Option.some.inj atText

/-- The header of either printing function matches the columns of its rows. -/
theorem header_matches_columns {calls : List Call} (callsValid : ∀ call ∈ calls, call.Valid lib.toLibnf)
    (ordered : calls.Pairwise Call.MayPrecede) {columnWidth : List Nat}
    (width : columnWidth.length = (build lib.toLibnf calls).allCnt) (columntAlignment : List Alignment)
    (richHeader : Bool) (isLayout : layout.all = (build lib.toLibnf calls).usedAll)
    (params : OutputParams) (columns : Columns libc layout) :
    let fields := build lib.toLibnf calls
    (∃ header, printBatchHeader lib fields columntAlignment richHeader columnWidth = some header ∧
      MatchesColumns lib fields richHeader columntAlignment header) ∧
    MatchesColumns lib fields false columntAlignment
      (printNamesOnly lib fields columntAlignment columnWidth) ∧
    layout.all.length = fields.allCnt ∧
    (∀ fget buff,
      RowOf layout (BatchCell params columns fget)
        (printBatchRow params columns fget layout.all buff).1) ∧
    ∀ data, RowOf layout (StreamCell params columns data) (printStreamNext params columns data) := by
  obtain ⟨roles, valid, built, -⟩ := build_roles callsValid ordered
  intro fields
  have same : fields = roles.toFields lib.toLibnf := built
  have laid : Laid lib fields := same ▸ laid_toFields valid
  obtain ⟨header, printed, inOrder⟩ :=
    printBatchHeader_inOrder laid columntAlignment richHeader columnWidth
  exact ⟨⟨header, printed, matchesColumns_of_namesInOrder laid.count width inOrder⟩,
    matchesColumns_of_namesInOrder laid.count width (printNamesOnly_inOrder columnWidth (.inl rfl)),
    isLayout ▸ laid.count, printBatchRow_rowOf params columns, printStreamNext_rowOf params columns⟩

def basicNames : HeaderLibnf where
  toLibnf := basicFields.toLibnf
  aggrMax := 2
  aggrSum := 3
  aggrOr := 4
  fldCalcDuration := 8
  infoName := fun id =>
    if id = 1 then "first" else if id = 2 then "last" else if id = 3 then "bytes"
    else if id = 4 then "pkts"
    else if id = 5 then "flows" else "srcip"
  infoName_short := fun id => by split_ifs <;> decide
  infoAggr_func := fun id _ _ => by
    simp only [basicFields]
    split_ifs <;> decide

def basicLayout : RecordLayout :=
  recordLayout (wellFormed_build basicCalls_valid basicCalls_ordered)

def basicColumns : Columns unitLibc basicLayout where
  fieldToStrCb := fun _ => .uint64
  wide := by decide

theorem header_matches_columns_basic :
    ∃ header,
      printBatchHeader basicNames (build basicNames.toLibnf basicCalls) (List.replicate 6 .right) true
        (List.replicate 6 20) = some header ∧
      MatchesColumns basicNames (build basicNames.toLibnf basicCalls) true
        (List.replicate 6 .right) header :=
  (@header_matches_columns basicNames unitLibc basicLayout basicCalls basicCalls_valid basicCalls_ordered
    (List.replicate 6 20) (by decide) (List.replicate 6 .right) true rfl prettyParams basicColumns).1

example :
    ((printBatchHeader basicNames (build basicNames.toLibnf basicCalls)
      (List.replicate 6 .right) true
    (List.replicate 6 20)).map fun header => header.cells.map FieldCall.string) =
    some ["srcip (key)\x7bdesc\x7d", "flows [sum]", "last [max]", "first [min]", "pkts [sum]",
      "bytes [sum]"] := by
  decide

end Fdistdump.Output
