import Mathlib.Data.List.Nodup
import Mathlib.Algebra.GroupWithZero.Nat

/-!
# The fields structure

`struct fields` and the functions that build and check it. A pointer into `all` is the position it
points at.
-/

namespace Fdistdump.FieldSet

def lnfFldZero : Int := 0

/-- What the code asks libnf for, with the properties it asserts of the answers. -/
structure Libnf where
  fldTerm : Int
  fldCalcBps : Int
  fldCalcBpp : Int
  fldBrec1 : Int
  aggrMin : Int
  aggrKey : Int
  sortNone : Int
  sortAsc : Int
  sortDesc : Int
  infoSize : Int → Nat
  infoAggr : Int → Int
  infoSort : Int → Int
  infoSize_pos : ∀ id, lnfFldZero < id → id < fldTerm → 0 < infoSize id
  infoAggr_range : ∀ id, lnfFldZero < id → id < fldTerm → aggrMin ≤ infoAggr id ∧ infoAggr id ≤ aggrKey
  infoSort_dir : ∀ id, lnfFldZero < id → id < fldTerm →
    infoSort id = sortNone ∨ infoSort id = sortAsc ∨ infoSort id = sortDesc

def aggrKeysMax : Nat := 10
def outputFieldsMax : Nat := 30
def allFieldsMax : Nat := aggrKeysMax + outputFieldsMax + 1

structure Field where
  id : Int := 0
  size : Nat := 0
deriving DecidableEq, Repr

structure AggrKey where
  field : Option Nat := none
  alignment : Int := 0
  ipv6Alignment : Int := 0
deriving DecidableEq, Repr

structure SortKey where
  field : Option Nat := none
  direction : Int := 0
  aggrFunc : Int := 0
deriving DecidableEq, Repr

structure OutputField where
  field : Option Nat := none
  aggrFunc : Int := 0
deriving DecidableEq, Repr

structure Fields where
  all : List Field
  allCnt : Nat
  allSizesSum : Nat
  aggrKeys : List AggrKey
  aggrKeysCnt : Nat
  sortKey : SortKey
  outputFields : List OutputField
  outputFieldsCnt : Nat
deriving DecidableEq, Repr

def zeroed : Fields where
  all := List.replicate allFieldsMax {}
  allCnt := 0
  allSizesSum := 0
  aggrKeys := List.replicate aggrKeysMax {}
  aggrKeysCnt := 0
  sortKey := {}
  outputFields := List.replicate outputFieldsMax {}
  outputFieldsCnt := 0

variable (lib : Libnf)

def Libnf.inRangeExcl (id : Int) : Bool := lnfFldZero < id && id < lib.fldTerm

theorem Libnf.inRangeExcl_iff {lib : Libnf} {id : Int} :
    lib.inRangeExcl id = true ↔ lnfFldZero < id ∧ id < lib.fldTerm := by
  simp [inRangeExcl]

def fieldGetSize (id : Int) : Nat := lib.infoSize id

/-- `LNF_AGGR_KEY` stands for no default function; `LNF_AGGR_MIN` is used then. -/
def fieldGetAggrFunc (id : Int) : Int :=
  if lib.infoAggr id = lib.aggrKey then lib.aggrMin else lib.infoAggr id

def fieldGetSortDir (id : Int) : Int := lib.infoSort id

def getFromAll (fields : Fields) (id : Int) : Option Nat :=
  (fields.all.take fields.allCnt).findIdx? fun field => field.id == id

/-- The new field's address, or nothing when the array is full. -/
def addToAll (fields : Fields) (id : Int) : Option (Nat × Fields) :=
  if fields.allCnt = allFieldsMax then none
  else
    some (fields.allCnt,
      { fields with
        all := fields.all.set fields.allCnt { id := id, size := fieldGetSize lib id }
        allSizesSum := fields.allSizesSum + fieldGetSize lib id
        allCnt := fields.allCnt + 1 })

def fieldsAddOutputField (fields : Fields) (id : Int) : Bool × Fields :=
  if fields.outputFieldsCnt = outputFieldsMax then (false, fields)
  else
    match getFromAll fields id with
    | some _ => (true, fields)
    | none =>
      match addToAll lib fields id with
      | none => (false, fields)
      | some (newField, fields) =>
        (true,
          { fields with
            outputFields := fields.outputFields.set fields.outputFieldsCnt
              { field := some newField, aggrFunc := fieldGetAggrFunc lib id }
            outputFieldsCnt := fields.outputFieldsCnt + 1 })

def fieldsAddAggrKey (fields : Fields) (id alignment ipv6Alignment : Int) : Bool × Fields :=
  if fields.aggrKeysCnt = aggrKeysMax then (false, fields)
  else
    match getFromAll fields id with
    | some _ => (true, fields)
    | none =>
      if (lib.fldCalcBps ≤ id ∧ id ≤ lib.fldCalcBpp) ∨ id = lib.fldBrec1 then (false, fields)
      else
        match addToAll lib fields id with
        | none => (false, fields)
        | some (newField, fields) =>
          (true,
            { fields with
              aggrKeys := fields.aggrKeys.set fields.aggrKeysCnt
                { field := some newField, alignment := alignment, ipv6Alignment := ipv6Alignment }
              aggrKeysCnt := fields.aggrKeysCnt + 1 })

def fieldsSetSortKey (fields : Fields) (id direction : Int) : Bool × Fields :=
  let defaultDirection := fieldGetSortDir lib id
  if defaultDirection = lib.sortNone then (false, fields)
  else
    let found :=
      match getFromAll fields id with
      | some field => some (field, fields)
      | none => addToAll lib fields id
    match found with
    | none => (false, fields)
    | some (newField, fields) =>
      (true,
        { fields with
          sortKey :=
            { field := some newField
              direction := if direction = lib.sortNone then defaultDirection else direction
              aggrFunc := fieldGetAggrFunc lib id } })

/-- The ID behind a pointer into `all` that is not `NULL` and lies in the libnf range. -/
def validField (fields : Fields) (field : Option Nat) : Bool :=
  field.any fun i => fields.all[i]?.any fun f => lib.inRangeExcl f.id

def aggrFuncInRange (aggrFunc : Int) : Bool := lib.aggrMin ≤ aggrFunc && aggrFunc ≤ lib.aggrKey

def checkAggrKey (fields : Fields) (ak : AggrKey) : Bool :=
  validField lib fields ak.field && 0 ≤ ak.alignment && 0 ≤ ak.ipv6Alignment

def checkSortKey (fields : Fields) (sk : SortKey) : Bool :=
  sk.field.isNone ||
    validField lib fields sk.field && (sk.direction == lib.sortAsc || sk.direction == lib.sortDesc) &&
      aggrFuncInRange lib sk.aggrFunc

def checkOutputField (fields : Fields) (output : OutputField) : Bool :=
  validField lib fields output.field && aggrFuncInRange lib output.aggrFunc

/-- The last loops of `fields_check`: every used field plays its roles, the unused ones have no ID. -/
def checkRoles (fields : Fields) : Bool :=
  ((List.range fields.allCnt).all fun i =>
    let inAggrKeys := (fields.aggrKeys.take fields.aggrKeysCnt).any fun ak => ak.field == some i
    let isSortKey := fields.sortKey.field == some i
    let inOutputFields := (fields.outputFields.take fields.outputFieldsCnt).any fun o =>
      o.field == some i
    if !inAggrKeys && !isSortKey && !inOutputFields then false
    else if inAggrKeys && inOutputFields then false
    else if isSortKey && inOutputFields then false
    else true) &&
  (fields.all.drop fields.allCnt).all fun field => field.id == 0

def fieldsCheck (fields : Fields) : Bool :=
  if fields.aggrKeysCnt > aggrKeysMax then false
  else if !(fields.aggrKeys.take fields.aggrKeysCnt).all (checkAggrKey lib fields) then false
  else if !checkSortKey lib fields fields.sortKey then false
  else if fields.outputFieldsCnt > outputFieldsMax then false
  else if !(fields.outputFields.take fields.outputFieldsCnt).all (checkOutputField lib fields) then false
  else if fields.allCnt > allFieldsMax then false
  else if !(fields.all.take fields.allCnt).all (fun f => f.id != 0 && f.size != 0) then false
  else if ((fields.all.take fields.allCnt).map Field.size).sum ≠ fields.allSizesSum then false
  else checkRoles fields

/-- A call of `arg_parse`. -/
inductive Call
  | addAggrKey (id alignment ipv6Alignment : Int)
  | setSortKey (id direction : Int)
  | addOutputField (id : Int)
deriving DecidableEq, Repr

def Call.run (fields : Fields) : Call → Bool × Fields
  | .addAggrKey id alignment ipv6Alignment => fieldsAddAggrKey lib fields id alignment ipv6Alignment
  | .setSortKey id direction => fieldsSetSortKey lib fields id direction
  | .addOutputField id => fieldsAddOutputField lib fields id

/-- What the callers check before a call. -/
def Call.Valid : Call → Prop
  | .addAggrKey id alignment ipv6Alignment => lib.inRangeExcl id ∧ 0 ≤ alignment ∧ 0 ≤ ipv6Alignment
  | .setSortKey id direction => lib.inRangeExcl id ∧
      (direction = lib.sortNone ∨ direction = lib.sortAsc ∨ direction = lib.sortDesc)
  | .addOutputField id => lib.inRangeExcl id

instance (call : Call) : Decidable (call.Valid lib) := by
  cases call <;> unfold Call.Valid <;> infer_instance

/-- The order of the calls: aggregation keys, at most one sort key, output fields. -/
def Call.MayPrecede : Call → Call → Prop
  | .addAggrKey .., _ => True
  | .setSortKey .., .addOutputField _ => True
  | .addOutputField _, .addOutputField _ => True
  | _, _ => False

instance : DecidableRel Call.MayPrecede := fun call later => by
  cases call <;> cases later <;> unfold Call.MayPrecede <;> infer_instance

def build (calls : List Call) : Fields := calls.foldl (fun fields call => (call.run lib fields).2) zeroed

end Fdistdump.FieldSet
