import Fdistdump.Exchange.RecvLoop
import Fdistdump.FieldSet.WellFormed
import Fdistdump.Output.FieldToStr

/-!
# Records in list mode

`ff_read_and_send` writes the fields of a record into the send buffer one after the other;
`print_stream_next` reads them at the offsets that `output_init` computed.
-/

namespace Fdistdump.ListMode
open ByteBuffer Exchange FieldSet Output

/-- What `lnf_rec_fget` returns, `LNF_OK`, `LNF_ERR_NAN` or `LNF_ERR_NOTSET`, and what it stores at its
destination. -/
inductive Fget
  | ok (value : Bytes)
  | nan (stored : Option Bytes)
  | notset (stored : Option Bytes)
deriving DecidableEq, Repr

def Fget.stored : Fget → Option Bytes
  | .ok value => some value
  | .nan stored => stored
  | .notset stored => stored

/-- The fields of a record, in order, and their `all_sizes_sum`. -/
structure RecordLayout where
  all : List Field
  allSizesSum : Nat
  sum : allSizesSum = (all.map Field.size).sum

/-- The layout that a well-formed fields structure gives. -/
def recordLayout {lib : FieldSet.Libnf} {fields : Fields} (wellFormed : WellFormed lib fields) :
    RecordLayout where
  all := fields.usedAll
  allSizesSum := fields.allSizesSum
  sum := wellFormed.sizesSum

def RecordLayout.space (layout : RecordLayout) : Nat := sizeofXchgRecSize + layout.allSizesSum

/-- `lnf_rec_fget` on the fields of a layout: what it stores has the size of the field. -/
structure Access (layout : RecordLayout) (R : Type) where
  fget : R → Int → Fget
  sized : ∀ record, ∀ f ∈ layout.all, ∀ value, (fget record f.id).stored = some value →
    value.length = f.size

/-! ### The slave's side -/

/-- `lnf_rec_fget` into the buffer. -/
def fgetInto (buff : Bytes) (off : Nat) (result : Fget) : Bytes :=
  match result.stored with
  | some value => write buff off value
  | none => buff

/-- The loop over the fields; the state is the buffer and `buff_off`. The status is not looked at. -/
def writeFields (fget : Int → Fget) : List Field → Bytes × Nat → Bytes × Nat
  | [], s => s
  | f :: rest, (buff, off) => writeFields fget rest (fgetInto buff off (fget f.id), off + f.size)

variable {layout : RecordLayout} {R : Type}

def writeRecord (access : Access layout R) (s : Bytes × Nat) (record : R) : Bytes × Nat :=
  writeFields (access.fget record) layout.all
    (write s.1 s.2 (putWord layout.allSizesSum), s.2 + sizeofXchgRecSize)

/-! ### The master's side -/

/-- `o_ctx.field_offset`, from `off` on. -/
def fieldOffset : Nat → List Field → List Nat
  | _, [] => []
  | off, f :: rest => off :: fieldOffset (off + f.size) rest

/-- `o_ctx.field_to_str_cb` by field ID; a callback reads a type of the field's size. -/
structure Columns (libc : Libc) (layout : RecordLayout) where
  fieldToStrCb : Int → FieldToStr
  wide : ∀ f ∈ layout.all, (fieldToStrCb f.id).width libc ≤ f.size

variable {libc : Libc}

/-- The cells of `print_stream_next`. -/
def printStreamNext (params : OutputParams) (columns : Columns libc layout) (data : Bytes) :
    List String :=
  (layout.all.zip (fieldOffset 0 layout.all)).map fun (f, off) =>
    (columns.fieldToStrCb f.id).apply libc params (data.drop off)

/-! ### What a record looks like on the wire -/

def recordBytes (fget : Int → Fget) : List Field → Bytes → Bytes
  | [], _ => []
  | f :: rest, old =>
    (fget f.id).stored.getD (old.take f.size) ++ recordBytes fget rest (old.drop f.size)

def sizesSum (fields : List Field) : Nat := (fields.map Field.size).sum

theorem sizesSum_cons (f : Field) (rest : List Field) :
    sizesSum (f :: rest) = f.size + sizesSum rest := rfl

/-- Everything stored has the size of its field. -/
def Sized (fget : Int → Fget) (fields : List Field) : Prop :=
  ∀ f ∈ fields, ∀ value, (fget f.id).stored = some value → value.length = f.size

section
variable {fget : Int → Fget} {fields : List Field}

theorem Sized.getD_length {f : Field} {rest : List Field} {old : Bytes} (sized : Sized fget (f :: rest))
    (room : f.size ≤ old.length) : ((fget f.id).stored.getD (old.take f.size)).length = f.size := by
  cases stored : (fget f.id).stored with
  | none => simpa using room
  | some value => exact sized f List.mem_cons_self value stored

theorem recordBytes_length {old : Bytes} (sized : Sized fget fields)
    (room : sizesSum fields ≤ old.length) :
    (recordBytes fget fields old).length = sizesSum fields := by
  induction fields generalizing old with
  | nil => rfl
  | cons f rest ih =>
    rw [sizesSum_cons] at room
    have rested := ih (fun g member => sized g (List.mem_cons_of_mem _ member))
      (show sizesSum rest ≤ (old.drop f.size).length by rw [List.length_drop]; omega)
    rw [recordBytes, List.length_append, sized.getD_length (by omega), rested, sizesSum_cons]

theorem fgetInto_eq {f : Field} {buff : Bytes} {off : Nat}
    (room : off + f.size ≤ buff.length) :
    fgetInto buff off (fget f.id) =
      write buff off ((fget f.id).stored.getD ((buff.drop off).take f.size)) := by
  unfold fgetInto
  cases stored : (fget f.id).stored with
  | none => exact (write_same room).symm
  | some value => rfl

theorem writeFields_eq {buff : Bytes} {off : Nat} (sized : Sized fget fields)
    (room : off + sizesSum fields ≤ buff.length) :
    writeFields fget fields (buff, off) =
      (write buff off (recordBytes fget fields (buff.drop off)), off + sizesSum fields) := by
  induction fields generalizing buff off with
  | nil => simp [writeFields, recordBytes, sizesSum, write_nil]
  | cons f rest ih =>
    rw [sizesSum_cons] at room
    have length :=
      sized.getD_length (show f.size ≤ (buff.drop off).length by rw [List.length_drop]; omega)
    have inside : off + ((fget f.id).stored.getD ((buff.drop off).take f.size)).length ≤
        buff.length := by
      omega
    have behind := drop_write buff ((fget f.id).stored.getD ((buff.drop off).take f.size))
      (show off ≤ buff.length by omega)
    rw [length] at behind
    rw [writeFields, fgetInto_eq (by omega),
      ih (fun g member => sized g (List.mem_cons_of_mem _ member))
        (by rw [write_length inside]; omega), behind]
    have joined := write_write buff ((fget f.id).stored.getD ((buff.drop off).take f.size))
      (recordBytes fget rest (buff.drop (off + f.size))) (show off ≤ buff.length by omega)
    rw [length] at joined
    rw [joined, recordBytes, List.drop_drop, sizesSum_cons, Nat.add_assoc]

theorem recordBytes_read {data old : Bytes} {start : Nat} (sized : Sized fget fields)
    (room : sizesSum fields ≤ old.length) (here : data.drop start = recordBytes fget fields old) :
    ∀ p ∈ fields.zip (fieldOffset start fields), ∃ k rest, k + p.1.size ≤ old.length ∧
      data.drop p.2 = (fget p.1.id).stored.getD ((old.drop k).take p.1.size) ++ rest := by
  induction fields generalizing old start with
  | nil => simp [fieldOffset]
  | cons f rest ih =>
    rw [sizesSum_cons] at room
    have length := sized.getD_length (show f.size ≤ old.length by omega)
    rw [fieldOffset, List.zip_cons_cons]
    refine List.forall_mem_cons.mpr
      ⟨⟨0, recordBytes fget rest (old.drop f.size), by dsimp only; omega, here⟩, ?_⟩
    have next : data.drop (start + f.size) = recordBytes fget rest (old.drop f.size) := by
      rw [← List.drop_drop, here, recordBytes, List.drop_left' length]
    intro p member
    obtain ⟨k, more, inside, read⟩ := ih (fun g member => sized g (List.mem_cons_of_mem _ member))
      (by rw [List.length_drop]; omega) next p member
    rw [List.length_drop] at inside
    exact ⟨f.size + k, more, by omega, by rw [read, List.drop_drop]⟩

end

theorem fieldOffset_length (start : Nat) (fields : List Field) :
    (fieldOffset start fields).length = fields.length := by
  induction fields generalizing start with
  | nil => rfl
  | cons f rest ih => rw [fieldOffset, List.length_cons, List.length_cons, ih]

theorem zip_fieldOffset_fst (start : Nat) (fields : List Field) :
    (fields.zip (fieldOffset start fields)).map Prod.fst = fields :=
  List.map_fst_zip (by rw [fieldOffset_length])

theorem RecordLayout.sum_eq (layout : RecordLayout) : layout.allSizesSum = sizesSum layout.all :=
  layout.sum

variable (access : Access layout R) (record : R)

def Access.bytes (old : Bytes) : Bytes := recordBytes (access.fget record) layout.all old

theorem Access.bytes_length {old : Bytes} (room : layout.allSizesSum ≤ old.length) :
    (access.bytes record old).length = layout.allSizesSum := by
  rw [layout.sum_eq] at room ⊢
  exact recordBytes_length (access.sized record) room

theorem writeRecord_eq {buff : Bytes} {off : Nat} (room : off + layout.space ≤ buff.length) :
    writeRecord access (buff, off) record =
      (write buff off (encodeRec (access.bytes record (buff.drop (off + sizeofXchgRecSize)))),
        off + layout.space) := by
  simp only [RecordLayout.space, sizeofXchgRecSize] at room ⊢
  have prefixed : (write buff off (putWord layout.allSizesSum)).length = buff.length :=
    write_length (by rw [putWord_length]; omega)
  have behind := drop_write buff (putWord layout.allSizesSum) (show off ≤ buff.length by omega)
  have joined := write_write buff (putWord layout.allSizesSum)
    (access.bytes record (buff.drop (off + 4)))
    (show off ≤ buff.length by omega)
  rw [putWord_length] at behind joined
  have length := access.bytes_length record
    (show layout.allSizesSum ≤ (buff.drop (off + 4)).length by rw [List.length_drop]; omega)
  have room' : off + 4 + sizesSum layout.all ≤ buff.length := by
    rw [← layout.sum_eq]
    omega
  rw [writeRecord, sizeofXchgRecSize, writeFields_eq (access.sized record)
    (by rw [prefixed]; exact room'), behind,
    encodeRec, length, ← layout.sum_eq, ← Nat.add_assoc]
  exact congrArg (·, _) joined

def counterAndPort : RecordLayout := ⟨[⟨1, 8⟩, ⟨2, 2⟩], 10, rfl⟩

/-- The port of some records is not set; libnf stores nothing then. -/
def portAccess : Access counterAndPort Bool where
  fget hasPort id := if id = 1 then .ok [7, 0, 0, 0, 0, 0, 0, 0] else if hasPort then .ok [80, 0]
    else .notset none
  sized := by
    rintro (_ | _) f member value stored
    all_goals
      rcases List.mem_pair.mp member with rfl | rfl
      all_goals
        cases stored
        try rfl

end Fdistdump.ListMode
