import Fdistdump.FieldSet.WellFormed
import Mathlib.Data.Int.Bitwise
import Mathlib.Data.List.Perm.Subperm

/-!
# Configuration of libnf memories

`libnf_mem_init_ht` and `libnf_mem_init_list` tell a libnf memory its fields. On the fast path one call
stands for five output fields.
-/

namespace Fdistdump.FieldSet

/-- The constants of libnf that a memory is configured with. -/
structure LibnfMem extends Libnf where
  aggrAuto : Int
  aggrMax : Int
  aggrSum : Int
  fldFirst : Int
  fldLast : Int
  fldDoctets : Int
  fldDpkts : Int
  fldAggrFlows : Int
  lnfAddr : Int
  infoType : Int → Int
  basicDistinct : [fldFirst, fldLast, fldDoctets, fldDpkts, fldAggrFlows].Nodup
  basicNotAddr : ∀ id ∈ [fldFirst, fldLast, fldDoctets, fldDpkts, fldAggrFlows], infoType id ≠ lnfAddr

/-- The arguments of `lnf_mem_fadd`. -/
structure FAdd where
  id : Int
  flags : Int
  alignment : Int
  ipv6Alignment : Int
deriving DecidableEq

variable (lib : LibnfMem) (fields : Fields)

/-! ### Fast aggregation -/

def requiredParams : List (Int × Int) :=
  [(lib.fldFirst, lib.aggrMin), (lib.fldLast, lib.aggrMax), (lib.fldDoctets, lib.aggrSum),
    (lib.fldDpkts, lib.aggrSum), (lib.fldAggrFlows, lib.aggrSum)]

def getFromOutput (id : Int) : Option OutputField :=
  (fields.outputFields.take fields.outputFieldsCnt).find? fun output => fields.idAt output.field == id

def fieldsCanUseFastAggr : Bool :=
  if fields.outputFieldsCnt ≠ (requiredParams lib).length then false
  else (requiredParams lib).all fun required =>
    (getFromOutput fields required.1).any fun output => output.aggrFunc == required.2

/-- `lnf_mem_fastaggr` with `LNF_FAST_AGGR_BASIC`: the first and the last time, and the sums of
bytes, packets and flows. -/
def lnfMemFastaggr : List FAdd :=
  [⟨lib.fldFirst, lib.aggrMin, 0, 0⟩, ⟨lib.fldLast, lib.aggrMax, 0, 0⟩,
    ⟨lib.fldDoctets, lib.aggrSum, 0, 0⟩,
    ⟨lib.fldDpkts, lib.aggrSum, 0, 0⟩, ⟨lib.fldAggrFlows, lib.aggrSum, 0, 0⟩]

/-! ### The two memories -/

def ipv4NetmaskLenMax : Int := 32
def ipv6NetmaskLenMax : Int := 128

def faddWhole (id flags : Int) : FAdd :=
  if lib.infoType id = lib.lnfAddr then ⟨id, flags, ipv4NetmaskLenMax, ipv6NetmaskLenMax⟩
  else ⟨id, flags, 0, 0⟩

/-- The pointers are compared. -/
def isSortKey (pointer : Option Nat) : Bool :=
  fields.sortKey.field.isSome && fields.sortKey.field == pointer

/-- The loop through the aggregation keys, with `sort_key_is_one_of_aggregation_keys`. -/
def initKeys : List AggrKey → List FAdd × Bool
  | [] => ([], false)
  | key :: rest =>
    let flags :=
      if isSortKey fields key.field then Int.lor lib.aggrKey fields.sortKey.direction else lib.aggrKey
    let (fadds, sortKeyIsOne) := initKeys rest
    (⟨fields.idAt key.field, flags, key.alignment, key.ipv6Alignment⟩ :: fadds,
      isSortKey fields key.field || sortKeyIsOne)

def libnfMemInitHt : List FAdd :=
  let (keys, sortKeyIsOne) := initKeys lib fields (fields.aggrKeys.take fields.aggrKeysCnt)
  let sort :=
    if fields.sortKey.field.isSome && !sortKeyIsOne then
      [faddWhole lib (fields.idAt fields.sortKey.field)
        (Int.lor fields.sortKey.direction fields.sortKey.aggrFunc)]
    else []
  let outputs :=
    if fieldsCanUseFastAggr lib fields then lnfMemFastaggr lib
    else (fields.outputFields.take fields.outputFieldsCnt).map fun output =>
      faddWhole lib (fields.idAt output.field) output.aggrFunc
  keys ++ sort ++ outputs

def libnfMemInitList : List FAdd :=
  (fields.all.take fields.allCnt).map fun field =>
    let flags :=
      if fields.idAt fields.sortKey.field = field.id then Int.lor lib.aggrAuto fields.sortKey.direction
      else lib.aggrAuto
    faddWhole lib field.id flags

/-! ### What is configured -/

/-- Each field in its role: the keys as keys, the sort key that is not one of them with its direction and
its function, the output fields with their functions. -/
def configured : List FAdd :=
  fields.usedKeys.map (fun key =>
    ⟨fields.idAt key.field,
      if isSortKey fields key.field then Int.lor lib.aggrKey fields.sortKey.direction else lib.aggrKey,
      key.alignment, key.ipv6Alignment⟩) ++
  fields.sortOnly.map (fun pointer =>
    faddWhole lib (fields.idAt pointer) (Int.lor fields.sortKey.direction fields.sortKey.aggrFunc)) ++
  fields.usedOutputs.map fun output => faddWhole lib (fields.idAt output.field) output.aggrFunc

def outputParams : List (Int × Int) :=
  fields.usedOutputs.map fun output => (fields.idAt output.field, output.aggrFunc)

@[simp] theorem faddWhole_id (id flags : Int) : (faddWhole lib id flags).id = id := by
  unfold faddWhole
  split <;> rfl

theorem initKeys_eq (keys : List AggrKey) :
    initKeys lib fields keys =
      (keys.map fun key =>
        ⟨fields.idAt key.field,
          if isSortKey fields key.field then Int.lor lib.aggrKey fields.sortKey.direction
          else lib.aggrKey,
          key.alignment, key.ipv6Alignment⟩,
        keys.any fun key => isSortKey fields key.field) := by
  induction keys with
  | nil => rfl
  | cons key rest ih => rw [initKeys, ih, List.map_cons, List.any_cons]

variable {lib fields}

theorem isSortKey_iff {pointer : Option Nat} :
    isSortKey fields pointer = true ↔ fields.sortKey.field ≠ none ∧ fields.sortKey.field = pointer := by
  rw [isSortKey, Bool.and_eq_true, Option.isSome_iff_ne_none, beq_iff_eq]

theorem sortOnly_eq : fields.sortOnly =
    if fields.sortKey.field.isSome && !fields.usedKeys.any (fun key => isSortKey fields key.field) then
      [fields.sortKey.field]
    else [] := by
  have isKey : fields.usedKeys.any (fun key => isSortKey fields key.field) = true ↔
      fields.sortKey.field ≠ none ∧ fields.sortKey.field ∈ fields.usedKeys.map AggrKey.field := by
    simp only [List.any_eq_true, isSortKey_iff, List.mem_map]
    constructor
    · intro ⟨key, member, set, same⟩
      exact ⟨set, key, member, same.symm⟩
    · intro ⟨set, key, member, same⟩
      exact ⟨key, member, set, same.symm⟩
  rw [Fields.sortOnly]
  by_cases none : fields.sortKey.field = .none
  · simp [none]
  · by_cases key : fields.sortKey.field ∈ fields.usedKeys.map AggrKey.field
    · rw [if_pos (Or.inr key), isKey.mpr ⟨none, key⟩, Bool.not_true, Bool.and_false,
        if_neg Bool.false_ne_true]
    · have notKey := Bool.eq_false_iff.mpr (mt isKey.mp fun is => key is.2)
      have set := Option.isSome_iff_ne_none.mpr none
      rw [if_neg (not_or.mpr ⟨none, key⟩), notKey, set]
      rfl

/-! ### The fast path -/

def OutputsDistinct (fields : Fields) : Prop :=
  fields.usedOutputs.length = fields.outputFieldsCnt ∧
    (fields.usedOutputs.map fun output => fields.idAt output.field).Nodup

theorem getFromOutput_some {id : Int} {output : OutputField}
    (found : getFromOutput fields id = some output) :
    output ∈ fields.usedOutputs ∧ fields.idAt output.field = id := by
  unfold getFromOutput at found
  exact ⟨List.mem_of_find?_eq_some found, by simpa using List.find?_some found⟩

theorem getFromOutput_any (distinct : OutputsDistinct fields) (required : Int × Int) :
    ((getFromOutput fields required.1).any fun output => output.aggrFunc == required.2) = true ↔
      required ∈ outputParams fields := by
  rw [Option.any_eq_true, outputParams, List.mem_map]
  constructor
  · intro ⟨output, found, func⟩
    obtain ⟨member, id⟩ := getFromOutput_some found
    exact ⟨output, member, Prod.ext id (beq_iff_eq.mp func)⟩
  · rintro ⟨output, member, rfl⟩
    cases found : getFromOutput fields (fields.idAt output.field) with
    | none =>
      have absent := List.find?_eq_none.mp found output member
      exact absurd (beq_self_eq_true _) absent
    | some other =>
      obtain ⟨member', sameId⟩ := getFromOutput_some found
      have same := List.inj_on_of_nodup_map distinct.2 member' member sameId
      exact ⟨other, rfl, by rw [same]; exact beq_self_eq_true _⟩

variable (lib) in
theorem requiredParams_nodup : (requiredParams lib).Nodup := List.Nodup.of_map Prod.fst lib.basicDistinct

variable (lib) in
/-- A count and five lookups decide that the output fields are the required ones. -/
theorem fieldsCanUseFastAggr_iff (distinct : OutputsDistinct fields) :
    fieldsCanUseFastAggr lib fields = true ↔ (outputParams fields).Perm (requiredParams lib) := by
  have length : (outputParams fields).length = fields.outputFieldsCnt := by
    rw [outputParams, List.length_map, distinct.1]
  unfold fieldsCanUseFastAggr
  split
  · rename_i other
    refine iff_of_false Bool.false_ne_true fun perm => other ?_
    rw [← length, perm.length_eq]
  · rename_i count
    simp only [List.all_eq_true, getFromOutput_any distinct]
    constructor
    · intro found
      have inside := List.subperm_of_subset (requiredParams_nodup lib) found
      exact (inside.perm_of_length_le (by rw [length, not_not.mp count])).symm
    · intro perm required member
      exact perm.mem_iff.mpr member

variable (lib) in
/-- The table of the code asks for the fields and functions of libnf. -/
theorem requiredParams_eq : requiredParams lib = (lnfMemFastaggr lib).map fun fadd =>
    (fadd.id, fadd.flags) := rfl

theorem fastaggr_perm (same : (outputParams fields).Perm (requiredParams lib)) :
    (lnfMemFastaggr lib).Perm
      (fields.usedOutputs.map fun output =>
        faddWhole lib (fields.idAt output.field) output.aggrFunc) := by
  have whole : lnfMemFastaggr lib = (requiredParams lib).map fun required =>
    faddWhole lib required.1 required.2 := by
    have aligned : ∀ fadd ∈ lnfMemFastaggr lib, fadd = ⟨fadd.id, fadd.flags, 0, 0⟩ := by
      simp [lnfMemFastaggr]
    rw [requiredParams_eq, List.map_map]
    refine (List.map_id' _).symm.trans (List.map_congr_left fun fadd member => ?_)
    have isBasic := lib.basicNotAddr fadd.id (List.mem_map_of_mem (f := FAdd.id) member)
    rw [Function.comp_apply, faddWhole, if_neg isBasic]
    exact aligned fadd member
  have outputs : (fields.usedOutputs.map fun output =>
    faddWhole lib (fields.idAt output.field) output.aggrFunc) =
      (outputParams fields).map fun required => faddWhole lib required.1 required.2 := by
    rw [outputParams, List.map_map]
    rfl
  rw [whole, outputs]
  exact (same.map _).symm

theorem libnfMemInitHt_perm (distinct : OutputsDistinct fields) :
    (libnfMemInitHt lib fields).Perm (configured lib fields) := by
  unfold libnfMemInitHt configured
  rw [initKeys_eq, sortOnly_eq]
  refine List.Perm.append ?_ ?_
  · refine List.Perm.append_left _ (List.Perm.of_eq ?_)
    change
      (if fields.sortKey.field.isSome && !fields.usedKeys.any (fun key => isSortKey fields key.field) then _
      else _) = _
    split <;> rfl
  · split
    · rename_i fast
      exact fastaggr_perm ((fieldsCanUseFastAggr_iff lib distinct).mp fast)
    · exact List.Perm.refl _

/-! ### Fields that calls build -/

variable {calls : List Call}

theorem outputsDistinct_toFields {roles : Roles} (valid : roles.Valid lib.toLibnf) :
    OutputsDistinct (roles.toFields lib.toLibnf) := by
  refine ⟨?_, ?_⟩
  · rw [Roles.usedOutputs_toFields, List.length_map]
    rfl
  · rw [Roles.usedOutputs_ids]
    exact (List.nodup_append.mp valid.distinct).2.1

theorem configured_ids (roles : Roles) :
    (configured lib (roles.toFields lib.toLibnf)).map FAdd.id =
      (roles.toFields lib.toLibnf).usedAll.map Field.id := by
  rw [Roles.usedAll_ids, Roles.ids, ← Roles.usedKeys_ids lib.toLibnf roles,
    ← @Roles.sortOnly_ids lib.toLibnf roles,
    ← Roles.usedOutputs_ids lib.toLibnf roles]
  simp only [configured, List.map_append, List.map_map, Function.comp_def, faddWhole_id]

variable (lib) in
/-- A memory for aggregation is configured with each field of `all` once, in its role; the fast path is
taken exactly for the five output fields that it stands for. A memory for sorting is configured with the
same fields. -/
theorem mem_init_covers_fields (callsValid : ∀ call ∈ calls, call.Valid lib.toLibnf)
    (ordered : calls.Pairwise Call.MayPrecede) :
    let fields := build lib.toLibnf calls
    (0 < fields.aggrKeysCnt → (libnfMemInitHt lib fields).Perm (configured lib fields)) ∧
    (configured lib fields).map FAdd.id = fields.usedAll.map Field.id ∧
    (fields.usedAll.map Field.id).Nodup ∧
    (fieldsCanUseFastAggr lib fields = true ↔ (outputParams fields).Perm
      [(lib.fldFirst, lib.aggrMin), (lib.fldLast, lib.aggrMax), (lib.fldDoctets, lib.aggrSum),
        (lib.fldDpkts, lib.aggrSum), (lib.fldAggrFlows, lib.aggrSum)]) ∧
    (fields.sortKey.field ≠ none →
      (libnfMemInitList lib fields).map FAdd.id = fields.usedAll.map Field.id) := by
  obtain ⟨roles, valid, built, -⟩ := build_roles callsValid ordered
  intro fields
  have same : fields = roles.toFields lib.toLibnf := built
  have distinct : OutputsDistinct fields := same ▸ outputsDistinct_toFields valid
  refine ⟨fun _ => libnfMemInitHt_perm distinct, ?_, ?_, fieldsCanUseFastAggr_iff lib distinct,
    fun _ => ?_⟩
  · rw [same]
    exact configured_ids roles
  · rw [same, Roles.usedAll_ids]
    exact valid.distinct
  · simp only [libnfMemInitList, Fields.usedAll, List.map_map, Function.comp_def, faddWhole_id]

def basicFields : LibnfMem where
  fldTerm := 7
  fldCalcBps := 8
  fldCalcBpp := 8
  fldBrec1 := 9
  aggrMin := 1
  aggrKey := 8
  sortNone := 0
  sortAsc := 16
  sortDesc := 32
  infoSize := fun id => if id = 6 then 16 else 8
  infoAggr := fun id => if id = 1 then 1 else if id = 2 then 2 else if id = 6 then 8 else 3
  infoSort := fun _ => 32
  infoSize_pos := fun id _ _ => by split <;> decide
  infoAggr_range := fun id _ _ => by split_ifs <;> decide
  infoSort_dir := fun _ _ _ => by decide
  aggrAuto := 0
  aggrMax := 2
  aggrSum := 3
  fldFirst := 1
  fldLast := 2
  fldDoctets := 3
  fldDpkts := 4
  fldAggrFlows := 5
  lnfAddr := 10
  infoType := fun id => if id = 6 then 10 else 0
  basicDistinct := by decide
  basicNotAddr := by decide

def basicCalls : List Call :=
  [.addAggrKey 6 24 64, .setSortKey 6 0, .addOutputField 5, .addOutputField 2, .addOutputField 1,
    .addOutputField 4, .addOutputField 3]

theorem basicCalls_valid : ∀ call ∈ basicCalls, call.Valid basicFields.toLibnf := by decide

theorem basicCalls_ordered : basicCalls.Pairwise Call.MayPrecede := by decide

theorem mem_init_covers_fields_basic :
    (libnfMemInitHt basicFields (build basicFields.toLibnf basicCalls)).Perm
      (configured basicFields (build basicFields.toLibnf basicCalls)) :=
  (mem_init_covers_fields basicFields basicCalls_valid basicCalls_ordered).1 (by decide)

example : fieldsCanUseFastAggr basicFields (build basicFields.toLibnf basicCalls) = true := by decide

end Fdistdump.FieldSet
