import Fdistdump.ListMode.Record
import Fdistdump.Output.FieldText
import Mathlib.Data.List.Forall2

/-!
# Cells of list mode and of batch printing

Batch printing asks libnf for each field and prints a text of its own for a missing value; list mode
prints whatever bytes are in the message. The two print the same exactly when no value is missing,
unless libnf itself stores bytes that read like the text.
-/

namespace Fdistdump.ListMode
open ByteBuffer Exchange FieldSet Output

variable {libc : Libc} {layout : RecordLayout} {R : Type}

/-! ### Batch printing -/

/-- `o_ctx.max_field_size`. -/
def maxFieldSize (layout : RecordLayout) : Nat := layout.all.foldl (fun size f => max size f.size) 0

/-- `get_field_str`; the second component is its buffer afterwards. -/
def getFieldStr (params : OutputParams) (columns : Columns libc layout) (f : Field) (result : Fget)
    (buff : Bytes) : String × Bytes :=
  let buff := fgetInto buff 0 result
  match result with
  | .ok _ => ((columns.fieldToStrCb f.id).apply libc params buff, buff)
  | .nan _ => (nanStr, buff)
  | .notset _ => (absentStr, buff)

def printBatchRow (params : OutputParams) (columns : Columns libc layout) (fget : Int → Fget) :
    List Field → Bytes → List String × Bytes
  | [], buff => ([], buff)
  | f :: rest, buff =>
    let (cell, buff) := getFieldStr params columns f (fget f.id) buff
    let (cells, buff) := printBatchRow params columns fget rest buff
    (cell :: cells, buff)

def printBatchRows (params : OutputParams) (columns : Columns libc layout) (access : Access layout R) :
    List R → Bytes → List (List String)
  | [], _ => []
  | record :: rest, buff =>
    let (cells, buff) := printBatchRow params columns (access.fget record) layout.all buff
    cells :: printBatchRows params columns access rest buff

/-! ### List mode -/

/-- The message that carries the records, written into a buffer with any content. -/
def listMessage (access : Access layout R) (recs : List R) (buff : Bytes) : Bytes :=
  let (buff, buffOff) := recs.foldl (writeRecord access) (buff, 0)
  buff.take buffOff

def listRows (params : OutputParams) (columns : Columns libc layout) (access : Access layout R)
    (recs : List R) (buff : Bytes) : List (List String) :=
  (recvMessage 0 (recvInit 1) (listMessage access recs buff)).calls.map (printStreamNext params columns)

/-- Both paths print the same rows, whatever is in the buffers. -/
def PathsAgree (params : OutputParams) (columns : Columns libc layout) (access : Access layout R)
    (recs : List R) : Prop :=
  (∀ buff fieldBuff : Bytes, buff.length = xchgBuffSize → fieldBuff.length = maxFieldSize layout →
    listRows params columns access recs buff = printBatchRows params columns access recs fieldBuff) ∧
  ∀ buff buff' : Bytes, buff.length = xchgBuffSize → buff'.length = xchgBuffSize →
    listRows params columns access recs buff = listRows params columns access recs buff'

/-- The field has a value, or libnf stores bytes that print as the text for the missing value. -/
def HasText (params : OutputParams) (columns : Columns libc layout) (access : Access layout R)
    (record : R) (f : Field) : Prop :=
  match access.fget record f.id with
  | .ok _ => True
  | .nan stored => ∃ value ∈ stored, (columns.fieldToStrCb f.id).apply libc params value = nanStr
  | .notset stored => ∃ value ∈ stored, (columns.fieldToStrCb f.id).apply libc params value = absentStr

/-- Values have the types their callbacks read. -/
def Typed (columns : Columns libc layout) (access : Access layout R) : Prop :=
  ∀ record, ∀ f ∈ layout.all, ∀ value, (access.fget record f.id).stored = some value →
    (columns.fieldToStrCb f.id).Fits libc value

variable {params : OutputParams} {columns : Columns libc layout} {access : Access layout R}

/-! ### Batch rows -/

def fieldText (params : OutputParams) (columns : Columns libc layout) (f : Field) : Fget → String
  | .ok value => (columns.fieldToStrCb f.id).apply libc params value
  | .nan _ => nanStr
  | .notset _ => absentStr

theorem size_le_maxFieldSize {f : Field} (member : f ∈ layout.all) : f.size ≤ maxFieldSize layout := by
  have grows : ∀ (fields : List Field) (size : Nat),
      size ≤ fields.foldl (fun size f => max size f.size) size ∧
        ∀ f ∈ fields, f.size ≤ fields.foldl (fun size f => max size f.size) size := by
    intro fields
    induction fields with
    | nil => simp
    | cons g rest ih =>
      intro size
      obtain ⟨start, others⟩ := ih (max size g.size)
      rw [List.foldl_cons]
      exact ⟨by omega, List.forall_mem_cons.mpr ⟨by omega, others⟩⟩
  exact (grows layout.all 0).2 f member

variable (params) in
theorem getFieldStr_eq (typed : Typed columns access) (record : R) {f : Field} (member : f ∈ layout.all)
    {buff : Bytes} (room : buff.length = maxFieldSize layout) :
    ∃ buff', buff'.length = maxFieldSize layout ∧
      getFieldStr params columns f (access.fget record f.id) buff =
        (fieldText params columns f (access.fget record f.id), buff') := by
  have kept : (fgetInto buff 0 (access.fget record f.id)).length = maxFieldSize layout := by
    unfold fgetInto
    cases stored : (access.fget record f.id).stored with
    | none => exact room
    | some value =>
      have size := access.sized record f member value stored
      have largest := size_le_maxFieldSize member
      rw [write_length (by omega), room]
  refine ⟨_, kept, ?_⟩
  unfold getFieldStr fieldText
  cases result : access.fget record f.id with
  | ok value =>
    have fits := typed record f member value (by rw [result]; rfl)
    have behind : fgetInto buff 0 (.ok value) = value ++ buff.drop (0 + value.length) := rfl
    simp only [behind, FieldToStr.apply_append libc params _ fits]
  | _ => rfl

variable (params) in
theorem printBatchRow_eq (typed : Typed columns access) (record : R) {fields : List Field}
    (subset : ∀ f ∈ fields, f ∈ layout.all) {buff : Bytes} (room : buff.length = maxFieldSize layout) :
    ∃ buff', buff'.length = maxFieldSize layout ∧
      printBatchRow params columns (access.fget record) fields buff =
        (fields.map fun f => fieldText params columns f (access.fget record f.id), buff') := by
  induction fields generalizing buff with
  | nil => exact ⟨buff, room, rfl⟩
  | cons f rest ih =>
    obtain ⟨here, others⟩ := List.forall_mem_cons.mp subset
    obtain ⟨between, kept, cell⟩ := getFieldStr_eq params typed record here room
    obtain ⟨last, room', cells⟩ := ih others kept
    refine ⟨last, room', ?_⟩
    rw [printBatchRow, cell]
    dsimp only
    rw [cells, List.map_cons]

def batchRow (params : OutputParams) (columns : Columns libc layout) (access : Access layout R)
    (record : R) :
    List String :=
  layout.all.map fun f => fieldText params columns f (access.fget record f.id)

theorem printBatchRows_eq (typed : Typed columns access) (recs : List R) {buff : Bytes}
    (room : buff.length = maxFieldSize layout) :
    printBatchRows params columns access recs buff = recs.map (batchRow params columns access) := by
  induction recs generalizing buff with
  | nil => rfl
  | cons record rest ih =>
    obtain ⟨next, kept, row⟩ :=
      printBatchRow_eq params typed record (fun _ member => member) room
    rw [printBatchRows, row, List.map_cons, ← ih kept, batchRow]

/-! ### List rows -/

/-- The record's bytes, written somewhere behind `off` in the buffer. -/
def Behind (access : Access layout R) (buff : Bytes) (off : Nat) (record : R) (data : Bytes) : Prop :=
  ∃ k, off ≤ k ∧ k + layout.allSizesSum ≤ buff.length ∧ data = access.bytes record (buff.drop k)

theorem Behind.length {buff data : Bytes} {off : Nat} {record : R}
    (behind : Behind access buff off record data) :
    data.length = layout.allSizesSum := by
  obtain ⟨k, -, inside, rfl⟩ := behind
  exact access.bytes_length record (by rw [List.length_drop]; omega)

variable (access) in
theorem foldl_writeRecord (recs : List R) {buff : Bytes} {off : Nat}
    (room : off + recs.length * layout.space ≤ buff.length) :
    ∃ buff' contents,
      recs.foldl (writeRecord access) (buff, off) = (buff', off + recs.length * layout.space) ∧
      buff'.take (off + recs.length * layout.space) = buff.take off ++ encodeRecs contents ∧
      List.Forall₂ (Behind access buff off) recs contents := by
  induction recs generalizing buff off with
  | nil => exact ⟨buff, [], by simp, by simp [encodeRecs], .nil⟩
  | cons record rest ih =>
    rw [List.length_cons, Nat.succ_mul] at room
    have fits : sizeofXchgRecSize + layout.allSizesSum = layout.space := rfl
    set data := access.bytes record (buff.drop (off + sizeofXchgRecSize)) with data_eq
    have length : (encodeRec data).length = layout.space := by
      rw [encodeRec_length, data_eq, access.bytes_length record (by rw [List.length_drop]; omega), fits]
    have written := writeRecord_eq access record (show off + layout.space ≤ buff.length by omega)
    have kept : (write buff off (encodeRec data)).length = buff.length := write_length (by omega)
    have front := take_write buff (encodeRec data) (show off ≤ buff.length by omega)
    have behind := drop_write buff (encodeRec data) (show off ≤ buff.length by omega)
    rw [length] at front behind
    obtain ⟨buff', contents, ran, taken, held⟩ :=
      ih (show off + layout.space + rest.length * layout.space ≤
        (write buff off (encodeRec data)).length by
        rw [kept]; omega)
    have total : off + layout.space + rest.length * layout.space = off + (record :: rest).length *
        layout.space := by
      rw [List.length_cons, Nat.succ_mul]
      omega
    rw [total] at ran taken
    refine ⟨buff', data :: contents, ?_, ?_, ?_⟩
    · rw [List.foldl_cons, written, ran]
    · rw [taken, front, encodeRecs_cons, List.append_assoc]
    · refine .cons ⟨off + sizeofXchgRecSize, by omega, by omega, rfl⟩ (held.imp fun r content => ?_)
      rintro ⟨k, past, inside, same⟩
      obtain ⟨more, rfl⟩ := Nat.exists_eq_add_of_le past
      rw [kept] at inside
      exact ⟨_, by omega, inside, by rw [same, ← List.drop_drop, behind, List.drop_drop]⟩

theorem recvMessage_calls (sourceCnt : Nat) (msg : Bytes) :
    (recvMessage 0 (recvInit sourceCnt) msg).calls = recordsOf msg := by
  simpa using (recvMessage_tallied msg (recvInit_tallied 0 sourceCnt)).calls

variable (access) in
theorem listMessage_calls (recs : List R) {buff : Bytes} (size : buff.length = xchgBuffSize)
    (room : recs.length * layout.space ≤ xchgBuffSize) :
    ∃ contents, (recvMessage 0 (recvInit 1) (listMessage access recs buff)).calls = contents ∧
      List.Forall₂ (Behind access buff 0) recs contents := by
  obtain ⟨buff', contents, ran, taken, held⟩ :=
    foldl_writeRecord access recs (show 0 + recs.length * layout.space ≤ buff.length by omega)
  refine ⟨contents, ?_, held⟩
  have small : ∀ data ∈ contents, data.length < 2 ^ 32 := by
    clear ran taken
    induction held with
    | nil => simp
    | cons behind _ ih =>
      have length := behind.length
      obtain ⟨k, -, inside, -⟩ := behind
      rw [List.length_cons, Nat.succ_mul] at room
      refine List.forall_mem_cons.mpr ⟨?_, ih (by omega)⟩
      simp only [xchgBuffSize] at size
      omega
  have message : listMessage access recs buff = encodeRecs contents := by
    rw [listMessage, ran]
    simpa using taken
  rw [recvMessage_calls, message, recordsOf_encodeRecs small]

/-! ### Comparison -/

theorem cell_of_stored (typed : Typed columns access) (record : R) {f : Field} (member : f ∈ layout.all)
    (shown : HasText params columns access record f) (before rest : Bytes) :
    (columns.fieldToStrCb f.id).apply libc params
      ((access.fget record f.id).stored.getD before ++ rest) =
      fieldText params columns f (access.fget record f.id) := by
  have read {value : Bytes} (stored : (access.fget record f.id).stored = some value) :
      (columns.fieldToStrCb f.id).apply libc params
        ((access.fget record f.id).stored.getD before ++ rest) =
        (columns.fieldToStrCb f.id).apply libc params value := by
    rw [stored, Option.getD_some, FieldToStr.apply_append libc params rest
      (typed record f member value stored)]
  unfold HasText at shown
  cases result : access.fget record f.id with
  | ok value => rw [← result, read (by rw [result]; rfl), result, fieldText]
  | nan stored | notset stored =>
    rw [result] at shown
    obtain ⟨value, present, text⟩ := shown
    rw [← result, read (by rw [result]; exact present), result, fieldText, text]

/-- Over zero bytes a missing value is printed as its text only when libnf stores such bytes. -/
theorem hasText_of_cell (typed : Typed columns access) (record : R) {f : Field} (member : f ∈ layout.all)
    (n : Nat) (rest : Bytes) (enough : f.size ≤ n)
    (same : (columns.fieldToStrCb f.id).apply libc params
      ((access.fget record f.id).stored.getD ((List.replicate n 0).take f.size) ++ rest) =
        fieldText params columns f (access.fget record f.id)) :
    HasText params columns access record f := by
  have zeroFits : (columns.fieldToStrCb f.id).Fits libc (List.replicate f.size 0) := by
    have wide := columns.wide f member
    refine ⟨by simpa using wide, fun string => ?_⟩
    rw [string] at wide
    exact List.mem_replicate.mpr ⟨Nat.ne_of_gt wide, rfl⟩
  rw [List.take_replicate, Nat.min_eq_left enough] at same
  have missing {text : String} (isText : text = nanStr ∨ text = absentStr) {stored : Option Bytes}
      (result : (access.fget record f.id).stored = stored)
      (same : (columns.fieldToStrCb f.id).apply libc params
        (stored.getD (List.replicate f.size 0) ++ rest) = text) :
      ∃ value ∈ stored, (columns.fieldToStrCb f.id).apply libc params value = text := by
    cases stored with
    | none =>
      rw [Option.getD_none, FieldToStr.apply_append libc params rest zeroFits] at same
      exact absurd same (FieldToStr.apply_zeros_ne libc params _ _ isText)
    | some value =>
      rw [Option.getD_some, FieldToStr.apply_append libc params rest
        (typed record f member value result)] at same
      exact ⟨value, rfl, same⟩
  unfold HasText
  cases result : access.fget record f.id with
  | ok value => trivial
  | nan stored =>
    rw [result] at same
    exact missing (.inl rfl) (by rw [result]; rfl) same
  | notset stored =>
    rw [result] at same
    exact missing (.inr rfl) (by rw [result]; rfl) same

theorem batchRow_zip (record : R) :
    batchRow params columns access record = (layout.all.zip (fieldOffset 0 layout.all)).map fun p =>
      fieldText params columns p.1 (access.fget record p.1.id) := by
  rw [batchRow]
  conv_lhs => rw [← zip_fieldOffset_fst 0 layout.all, List.map_map]
  rfl

theorem printStreamNext_of_hasText (typed : Typed columns access) {buff data : Bytes} {record : R}
    (behind : Behind access buff 0 record data)
    (shown : ∀ f ∈ layout.all, HasText params columns access record f) :
    printStreamNext params columns data = batchRow params columns access record := by
  obtain ⟨k, -, inside, rfl⟩ := behind
  have room : sizesSum layout.all ≤ (buff.drop k).length := by
    rw [List.length_drop, ← layout.sum_eq]
    omega
  rw [batchRow_zip, printStreamNext]
  apply List.map_congr_left
  intro p member
  obtain ⟨j, rest, -, read⟩ := recordBytes_read (access.sized record) room rfl p member
  have field := (List.of_mem_zip member).1
  dsimp only
  rw [Access.bytes, read]
  exact cell_of_stored typed record field (shown p.1 field) _ rest

theorem hasText_of_printStreamNext (typed : Typed columns access) {n : Nat} {data : Bytes} {record : R}
    (behind : Behind access (List.replicate n 0) 0 record data)
    (same : printStreamNext params columns data = batchRow params columns access record) :
    ∀ f ∈ layout.all, HasText params columns access record f := by
  obtain ⟨k, -, inside, rfl⟩ := behind
  have room : sizesSum layout.all ≤ ((List.replicate n (0 : UInt8)).drop k).length := by
    rw [List.length_drop, ← layout.sum_eq]
    omega
  rw [batchRow_zip, printStreamNext] at same
  intro f member
  obtain ⟨p, paired, rfl⟩ : ∃ p ∈ layout.all.zip (fieldOffset 0 layout.all), p.1 = f := by
    rw [← zip_fieldOffset_fst 0 layout.all] at member
    exact List.mem_map.mp member
  have cell := List.map_inj_left.mp same p paired
  obtain ⟨j, rest, enough, read⟩ := recordBytes_read (access.sized record) room rfl p paired
  dsimp only at cell
  rw [Access.bytes, read, List.drop_replicate, List.drop_replicate] at cell
  rw [List.length_drop, List.length_replicate] at enough
  exact hasText_of_cell typed record member _ rest (by omega) cell

variable {recs : List R}

theorem pathsAgree_of_hasText (typed : Typed columns access)
    (room : recs.length * layout.space ≤ xchgBuffSize)
    (shown : ∀ record ∈ recs, ∀ f ∈ layout.all, HasText params columns access record f) :
    PathsAgree params columns access recs := by
  have rows (buff : Bytes) (size : buff.length = xchgBuffSize) :
      listRows params columns access recs buff = recs.map (batchRow params columns access) := by
    obtain ⟨contents, calls, held⟩ := listMessage_calls access recs size room
    rw [listRows, calls]
    clear calls room
    induction held with
    | nil => rfl
    | cons behind _ ih =>
      obtain ⟨here, others⟩ := List.forall_mem_cons.mp shown
      rw [List.map_cons, List.map_cons, printStreamNext_of_hasText typed behind here, ih others]
  refine ⟨fun buff fieldBuff size fieldSize => ?_, fun buff buff' size size' => ?_⟩
  · rw [rows buff size, printBatchRows_eq typed recs fieldSize]
  · rw [rows buff size, rows buff' size']

theorem hasText_of_pathsAgree (typed : Typed columns access)
    (room : recs.length * layout.space ≤ xchgBuffSize)
    (agree : PathsAgree params columns access recs) :
    ∀ record ∈ recs, ∀ f ∈ layout.all, HasText params columns access record f := by
  have blank := agree.1 (List.replicate xchgBuffSize 0) (List.replicate (maxFieldSize layout) 0)
    List.length_replicate List.length_replicate
  obtain ⟨contents, calls, held⟩ := listMessage_calls access recs
    (List.length_replicate (n := xchgBuffSize) (a := 0)) room
  rw [listRows, calls, printBatchRows_eq typed recs List.length_replicate] at blank
  clear calls room agree
  induction held with
  | nil => simp
  | cons behind _ ih =>
    rw [List.map_cons, List.map_cons, List.cons.injEq] at blank
    exact List.forall_mem_cons.mpr ⟨hasText_of_printStreamNext typed behind blank.1, ih blank.2⟩

/-- For records that fit a buffer, list mode prints what batch printing prints, whatever the buffers
held before, if and only if every field has a value or libnf itself stores the text's bytes. -/
theorem list_cells_agree_iff (typed : Typed columns access)
    (room : recs.length * layout.space ≤ xchgBuffSize) :
    PathsAgree params columns access recs ↔
      ∀ record ∈ recs, ∀ f ∈ layout.all, HasText params columns access record f :=
  ⟨hasText_of_pathsAgree typed room, pathsAgree_of_hasText typed room⟩

/-! ### A port that is not set -/

def plainLibc : Libc where
  Double := Nat
  ofUInt64 n := n
  ofBits n := n
  exceeds threshold n := threshold < n
  divide threshold n := n / threshold
  fixed1 n := toString n ++ ".0"
  dateTime seconds := toString seconds
  inetNtop4 _ := "0.0.0.0"
  inetNtop6 _ := "::"
  brec1Size := 0
  brec1 _ := ⟨[], [], [], [], [], [], [], [], [], []⟩
  fixed1_zero := by decide
  inetNtop6_zero _ _ := rfl

def plainParams : OutputParams := ⟨.csv, .none, .none, .none, .none, .none, .none⟩

def counterAndPortColumns : Columns plainLibc counterAndPort where
  fieldToStrCb id := if id = 1 then .uint64 else .uint16
  wide := by decide

theorem portAccess_typed : Typed counterAndPortColumns portAccess := by
  rintro (_ | _) f member value stored
  all_goals
    rcases List.mem_pair.mp member with rfl | rfl
    all_goals
      cases stored
      try exact ⟨by decide, nofun⟩

theorem list_cells_agree_iff_port :
    PathsAgree plainParams counterAndPortColumns portAccess [true, true] :=
  (list_cells_agree_iff portAccess_typed (by decide)).mpr fun record member f field => by
    obtain rfl : record = true := by simpa using member
    rcases List.mem_pair.mp field with rfl | rfl <;> trivial

theorem list_mode_prints_missing_port :
    ¬ PathsAgree plainParams counterAndPortColumns portAccess [false] := by
  intro agree
  obtain ⟨value, stored, -⟩ := hasText_of_pathsAgree portAccess_typed (by decide) agree false
    List.mem_cons_self ⟨2, 2⟩ (by decide)
  cases stored

end Fdistdump.ListMode
