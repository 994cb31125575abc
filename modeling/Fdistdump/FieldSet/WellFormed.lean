import Fdistdump.FieldSet.Calls

/-!
# The invariant of the fields structure

The image of valid roles satisfies everything that is documented of `struct fields` and passes
`fields_check`.
-/

namespace Fdistdump.FieldSet
open CountedArray

def Fields.usedAll (fields : Fields) : List Field := fields.all.take fields.allCnt

def Fields.usedKeys (fields : Fields) : List AggrKey := fields.aggrKeys.take fields.aggrKeysCnt

def Fields.usedOutputs (fields : Fields) : List OutputField :=
  fields.outputFields.take fields.outputFieldsCnt

/-- The ID of the field that a pointer points at. -/
def Fields.idAt (fields : Fields) (pointer : Option Nat) : Int :=
  ((pointer.bind fun i => fields.all[i]?).map Field.id).getD lnfFldZero

def Fields.sortOnly (fields : Fields) : List (Option Nat) :=
  if fields.sortKey.field = none ∨ fields.sortKey.field ∈ fields.usedKeys.map AggrKey.field then []
  else [fields.sortKey.field]

/-- The representation invariant of `struct fields`. -/
structure WellFormed (lib : Libnf) (fields : Fields) : Prop where
  distinct : (fields.usedAll.map Field.id).Nodup
  allZeroAfter : ∀ field ∈ fields.all.drop fields.allCnt, field = {}
  keysZeroAfter : ∀ key ∈ fields.aggrKeys.drop fields.aggrKeysCnt, key = {}
  outputsZeroAfter : ∀ output ∈ fields.outputFields.drop fields.outputFieldsCnt, output = {}
  sizes : ∀ field ∈ fields.usedAll, field.size = fieldGetSize lib field.id
  sizesSum : fields.allSizesSum = (fields.usedAll.map Field.size).sum
  keysDisjoint : ∀ key ∈ fields.usedKeys, ∀ output ∈ fields.usedOutputs, key.field ≠ output.field
  sortDisjoint : ∀ output ∈ fields.usedOutputs, fields.sortKey.field ≠ output.field
  layout : fields.usedKeys.map AggrKey.field ++ fields.sortOnly ++ fields.usedOutputs.map
    OutputField.field =
    (List.range fields.allCnt).map some
  checked : fieldsCheck lib fields = true

namespace Roles

variable {lib : Libnf} {roles : Roles} {id : Int}

variable (lib) in
theorem usedAll_toFields (roles : Roles) :
    (roles.toFields lib).usedAll = roles.ids.map (fieldOf lib) := take_pad_map ..

variable (lib) in
theorem usedKeys_toFields (roles : Roles) :
    (roles.toFields lib).usedKeys = roles.keys.map roles.aggrKeyOf := take_pad_map ..

variable (lib) in
theorem usedOutputs_toFields (roles : Roles) :
    (roles.toFields lib).usedOutputs = roles.outputs.map (roles.outputFieldOf lib) := take_pad_map ..

theorem sortOnly_toFields (roles : Roles) :
    (roles.toFields lib).sortOnly = roles.sortOnly.map roles.ids.idxOf? := by
  have keyFields : (roles.keys.map roles.aggrKeyOf).map AggrKey.field =
      roles.keyIds.map roles.ids.idxOf? := by
    simp [keyIds, aggrKeyOf, Function.comp_def]
  rw [Fields.sortOnly, usedKeys_toFields, keyFields]
  cases set : roles.sort with
  | none => simp [toFields, sortKeyOf, sortOnly, set]
  | some sort =>
    have present := mem_ids_of_mem_sort set
    have pointer : (roles.toFields lib).sortKey.field = roles.ids.idxOf? sort.id := by
      simp [toFields, sortKeyOf, set]
    have isKey : roles.ids.idxOf? sort.id ∈ roles.keyIds.map roles.ids.idxOf? ↔
        sort.id ∈ roles.keyIds := by
      refine ⟨fun member => ?_, List.mem_map_of_mem⟩
      obtain ⟨key, isKey, same⟩ := List.mem_map.mp member
      exact idxOf?_inj present same.symm ▸ isKey
    simp only [pointer, isKey, List.idxOf?_eq_none_iff]
    by_cases key : sort.id ∈ roles.keyIds <;> simp [sortOnly, set, key, present]

theorem validField_toFields (valid : roles.Valid lib) (present : id ∈ roles.ids) :
    validField lib (roles.toFields lib) (roles.ids.idxOf? id) := by
  obtain ⟨i, found⟩ := Option.isSome_iff_exists.mp (List.isSome_idxOf?.mpr present)
  obtain ⟨below, atI, -⟩ := List.idxOf?_eq_some_iff.mp found
  have read : (roles.toFields lib).all[i]? = some (fieldOf lib id) := by
    rw [toFields, pad_getElem? (by simpa using below), List.getElem?_map,
      List.getElem?_eq_getElem below, atI]
    rfl
  simpa [validField, found, read, fieldOf] using valid.inRange id present

theorem aggrFuncInRange_get (inRange : lib.inRangeExcl id) :
    aggrFuncInRange lib (fieldGetAggrFunc lib id) := by
  obtain ⟨above, below⟩ := Libnf.inRangeExcl_iff.mp inRange
  obtain ⟨low, high⟩ := lib.infoAggr_range id above below
  unfold fieldGetAggrFunc aggrFuncInRange
  split
  · simpa using Int.le_trans low high
  · simp [low, high]

theorem Valid.not_output (valid : roles.Valid lib) (placed : id ∈ roles.keyIds ++ roles.sortOnly) :
    id ∉ roles.outputs :=
  List.disjoint_of_nodup_append valid.distinct placed

theorem pointer_eq_some (valid : roles.Valid lib) {i : Nat} (below : i < roles.ids.length) :
    roles.ids.idxOf? id = some i ↔ id = roles.ids[i] := by
  refine ⟨fun found => ?_, fun same => same ▸ idxOf?_getElem valid.distinct below⟩
  obtain ⟨_, atI, -⟩ := List.idxOf?_eq_some_iff.mp found
  exact atI.symm

theorem checkRoles_toFields (valid : roles.Valid lib) : checkRoles (roles.toFields lib) = true := by
  have keysTaken := usedKeys_toFields lib roles
  have outputsTaken := usedOutputs_toFields lib roles
  rw [Fields.usedKeys] at keysTaken
  rw [Fields.usedOutputs] at outputsTaken
  rw [checkRoles, keysTaken, outputsTaken, Bool.and_eq_true, List.all_eq_true]
  refine ⟨fun i member => ?_, by simp [toFields, drop_pad_map]⟩
  have below : i < roles.ids.length := List.mem_range.mp member
  have inKeys : ((roles.keys.map roles.aggrKeyOf).any fun ak => ak.field == some i) =
      decide (roles.ids[i] ∈ roles.keyIds) := by
    rw [Bool.eq_iff_iff]
    simp [keyIds, aggrKeyOf, pointer_eq_some valid below]
  have inOutputs : ((roles.outputs.map (roles.outputFieldOf lib)).any fun o => o.field == some i) =
      decide (roles.ids[i] ∈ roles.outputs) := by
    rw [Bool.eq_iff_iff]
    simp [outputFieldOf, pointer_eq_some valid below]
  have isSort : ((roles.toFields lib).sortKey.field == some i) =
      decide (roles.ids[i] ∈ roles.sort.toList.map SortRole.id) := by
    cases set : roles.sort with
    | none => simp [toFields, sortKeyOf, set]
    | some sort =>
      rw [Bool.eq_iff_iff, decide_eq_true_eq, beq_iff_eq]
      simp only [toFields, sortKeyOf, set, Option.toList_some, List.map_singleton, List.mem_singleton,
        pointer_eq_some valid below]
      exact eq_comm
  have sortPlaced : roles.ids[i] ∈ roles.sort.toList.map SortRole.id →
      roles.ids[i] ∈ roles.keyIds ++ roles.sortOnly := by
    cases set : roles.sort with
    | none => simp
    | some sort =>
      intro same
      simp only [Option.toList_some, List.map_singleton, List.mem_singleton] at same
      exact same ▸ mem_placed_of_mem_sort set
  have covered := List.getElem_mem below
  simp only [inKeys, inOutputs, isSort]
  by_cases output : roles.ids[i] ∈ roles.outputs
  · have notPlaced : roles.ids[i] ∉ roles.keyIds ++ roles.sortOnly :=
      fun placed => valid.not_output placed output
    have notKey : roles.ids[i] ∉ roles.keyIds := fun key => notPlaced (List.mem_append_left _ key)
    have notSort := mt sortPlaced notPlaced
    simp [output, notKey, notSort]
  · have placed : roles.ids[i] ∈ roles.keyIds ++ roles.sortOnly :=
      (List.mem_append.mp covered).resolve_right output
    rcases List.mem_append.mp placed with key | sortOnly
    · simp [output, key]
    · have sort := List.mem_of_mem_filter sortOnly
      simp [output, sort]

theorem checkAggrKey_toFields (valid : roles.Valid lib) {key : KeyRole} (member : key ∈ roles.keys) :
    checkAggrKey lib (roles.toFields lib) (roles.aggrKeyOf key) = true := by
  have aligned := valid.aligned key member
  simp [checkAggrKey, aggrKeyOf, validField_toFields valid (mem_ids_of_mem_keys member), aligned.1,
    aligned.2]

theorem checkSortKey_toFields (valid : roles.Valid lib) :
    checkSortKey lib (roles.toFields lib) (roles.sortKeyOf lib) = true := by
  cases set : roles.sort with
  | none => simp [checkSortKey, sortKeyOf, set]
  | some sort =>
    have present := mem_ids_of_mem_sort set
    have inRange := aggrFuncInRange_get (valid.inRange _ present)
    simpa [checkSortKey, sortKeyOf, set, validField_toFields valid present, inRange] using
      Or.inr (valid.directed sort set)

theorem checkOutputField_toFields (valid : roles.Valid lib) (member : id ∈ roles.outputs) :
    checkOutputField lib (roles.toFields lib) (roles.outputFieldOf lib id) = true := by
  have present := mem_ids_of_mem_outputs member
  simp [checkOutputField, outputFieldOf, validField_toFields valid present,
    aggrFuncInRange_get (valid.inRange _ present)]

theorem fieldOf_nonzero (inRange : lib.inRangeExcl id) :
    ((fieldOf lib id).id != 0 && (fieldOf lib id).size != 0) = true := by
  obtain ⟨above, below⟩ := Libnf.inRangeExcl_iff.mp inRange
  have positive := lib.infoSize_pos id above below
  rw [Bool.and_eq_true, bne_iff_ne, bne_iff_ne]
  exact ⟨(Int.ne_of_lt above).symm, Nat.ne_of_gt positive⟩

theorem fieldsCheck_toFields (valid : roles.Valid lib) :
    fieldsCheck lib (roles.toFields lib) = true := by
  have keysTaken := usedKeys_toFields lib roles
  have outputsTaken := usedOutputs_toFields lib roles
  have allTaken := usedAll_toFields lib roles
  rw [Fields.usedKeys] at keysTaken
  rw [Fields.usedOutputs] at outputsTaken
  rw [Fields.usedAll] at allTaken
  have keysFit := valid.keysFit
  have outputsFit := valid.outputsFit
  have room : roles.ids.length ≤ allFieldsMax := by
    have := ids_length roles
    simp only [aggrKeysMax, outputFieldsMax, allFieldsMax] at *
    omega
  have keys : (roles.keys.map roles.aggrKeyOf).all (checkAggrKey lib (roles.toFields lib)) = true := by
    rw [List.all_map, List.all_eq_true]
    exact fun key member => checkAggrKey_toFields valid member
  have outputs :
      (roles.outputs.map (roles.outputFieldOf lib)).all
        (checkOutputField lib (roles.toFields lib)) = true := by
    rw [List.all_map, List.all_eq_true]
    exact fun id member => checkOutputField_toFields valid member
  have nonzero : (roles.ids.map (fieldOf lib)).all (fun f => f.id != 0 && f.size != 0) = true := by
    rw [List.all_map, List.all_eq_true]
    exact fun id member => fieldOf_nonzero (valid.inRange id member)
  have sizes : ((roles.ids.map (fieldOf lib)).map Field.size).sum =
      (roles.toFields lib).allSizesSum := by
    rw [List.map_map]
    rfl
  have sort : checkSortKey lib (roles.toFields lib) (roles.toFields lib).sortKey = true :=
    checkSortKey_toFields valid
  rw [fieldsCheck, keysTaken, outputsTaken, allTaken, keys, outputs, nonzero, sizes, sort,
    checkRoles_toFields valid]
  have allFit : (roles.toFields lib).allCnt ≤ allFieldsMax := room
  simp [keysFit, outputsFit, allFit]

theorem wellFormed_toFields (valid : roles.Valid lib) : WellFormed lib (roles.toFields lib) where
  distinct := by
    rw [usedAll_toFields, List.map_map]
    simpa [Function.comp_def, fieldOf] using valid.distinct
  allZeroAfter := fun field member => by
    simp only [toFields, drop_pad_map] at member
    exact List.eq_of_mem_replicate member
  keysZeroAfter := fun key member => by
    simp only [toFields, drop_pad_map] at member
    exact List.eq_of_mem_replicate member
  outputsZeroAfter := fun output member => by
    simp only [toFields, drop_pad_map] at member
    exact List.eq_of_mem_replicate member
  sizes := by
    rw [usedAll_toFields]
    exact List.forall_mem_map.mpr fun _ _ => rfl
  sizesSum := by
    rw [usedAll_toFields, List.map_map]
    rfl
  keysDisjoint := by
    rw [usedKeys_toFields, usedOutputs_toFields]
    refine List.forall_mem_map.mpr fun key keyMember => List.forall_mem_map.mpr fun id member same => ?_
    have same := idxOf?_inj (mem_ids_of_mem_keys keyMember) same
    exact valid.not_output (List.mem_append_left _ (List.mem_map_of_mem keyMember)) (same ▸ member)
  sortDisjoint := by
    rw [usedOutputs_toFields]
    refine List.forall_mem_map.mpr ?_
    intro id member same
    cases set : roles.sort with
    | none =>
      simp only [toFields, sortKeyOf, set, outputFieldOf] at same
      exact List.idxOf?_eq_none_iff.mp same.symm (mem_ids_of_mem_outputs member)
    | some sort =>
      simp only [toFields, sortKeyOf, set, outputFieldOf] at same
      have same := idxOf?_inj (mem_ids_of_mem_sort set) same
      exact valid.not_output (mem_placed_of_mem_sort set) (same ▸ member)
  layout := by
    have keys : roles.keys.map (AggrKey.field ∘ roles.aggrKeyOf) =
        roles.keyIds.map roles.ids.idxOf? := by
      rw [keyIds, List.map_map]
      rfl
    have outputs : roles.outputs.map (OutputField.field ∘ roles.outputFieldOf lib) =
        roles.outputs.map roles.ids.idxOf? := rfl
    rw [usedKeys_toFields, usedOutputs_toFields, sortOnly_toFields, List.map_map, List.map_map,
      keys, outputs,
      ← List.map_append, ← List.map_append]
    exact map_idxOf? valid.distinct
  checked := fieldsCheck_toFields valid

/-! ### IDs behind the pointers -/

theorem idAt_toFields (present : id ∈ roles.ids) :
    (roles.toFields lib).idAt (roles.ids.idxOf? id) = id := by
  obtain ⟨i, found⟩ := Option.isSome_iff_exists.mp (List.isSome_idxOf?.mpr present)
  obtain ⟨below, atI, -⟩ := List.idxOf?_eq_some_iff.mp found
  have read : (roles.toFields lib).all[i]? = some (fieldOf lib id) := by
    rw [toFields, pad_getElem? (by simpa using below), List.getElem?_map,
      List.getElem?_eq_getElem below, atI]
    rfl
  rw [Fields.idAt, found, Option.bind_some, read]
  rfl

variable (lib) in
theorem usedAll_ids (roles : Roles) : (roles.toFields lib).usedAll.map Field.id = roles.ids := by
  rw [usedAll_toFields, List.map_map]
  exact List.map_id' _

variable (lib) in
theorem usedKeys_ids (roles : Roles) :
    (roles.toFields lib).usedKeys.map (fun key => (roles.toFields lib).idAt key.field) =
      roles.keyIds := by
  rw [usedKeys_toFields, List.map_map, keyIds]
  exact List.map_congr_left fun key member => idAt_toFields (mem_ids_of_mem_keys member)

theorem sortOnly_ids (roles : Roles) :
    (roles.toFields lib).sortOnly.map (roles.toFields lib).idAt = roles.sortOnly := by
  rw [sortOnly_toFields, List.map_map]
  refine (List.map_congr_left fun id member => ?_).trans (List.map_id' _)
  exact idAt_toFields (List.mem_append_left _ (List.mem_append_right _ member))

variable (lib) in
theorem usedOutputs_ids (roles : Roles) :
    (roles.toFields lib).usedOutputs.map (fun output => (roles.toFields lib).idAt output.field) =
      roles.outputs := by
  rw [usedOutputs_toFields, List.map_map]
  refine (List.map_congr_left fun id member => ?_).trans (List.map_id' _)
  exact idAt_toFields (mem_ids_of_mem_outputs member)

variable (lib) in
/-- The keys as the arrays hold them. -/
theorem keys_toFields (roles : Roles) :
    (roles.toFields lib).usedKeys.map (fun key =>
      (⟨(roles.toFields lib).idAt key.field, key.alignment, key.ipv6Alignment⟩ : KeyRole)) =
        roles.keys := by
  rw [usedKeys_toFields, List.map_map]
  refine (List.map_congr_left fun key member => ?_).trans (List.map_id' _)
  have id : (roles.toFields lib).idAt (roles.ids.idxOf? key.id) = key.id :=
    idAt_toFields (mem_ids_of_mem_keys member)
  simp only [Function.comp_apply, aggrKeyOf, id]

variable (lib) in
theorem sort_toFields (roles : Roles) :
    ((roles.toFields lib).sortKey.field.map fun i =>
      (⟨(roles.toFields lib).idAt (some i), (roles.toFields lib).sortKey.direction⟩ : SortRole)) =
        roles.sort := by
  have key : (roles.toFields lib).sortKey = roles.sortKeyOf lib := rfl
  rw [key, sortKeyOf]
  cases set : roles.sort with
  | none => rfl
  | some sort =>
    have present := mem_ids_of_mem_sort set
    obtain ⟨i, found⟩ := Option.isSome_iff_exists.mp (List.isSome_idxOf?.mpr present)
    have id : (roles.toFields lib).idAt (roles.ids.idxOf? sort.id) = sort.id := idAt_toFields present
    rw [found] at id
    simp only [found, Option.map_some, id]

/-- The arrays determine the keys and the sort key. -/
theorem of_toFields {roles other : Roles} (same : roles.toFields lib = other.toFields lib) :
    roles.keys = other.keys ∧ roles.sort = other.sort := by
  refine ⟨?_, ?_⟩
  · rw [← keys_toFields lib roles, same, keys_toFields]
  · rw [← sort_toFields lib roles, same, sort_toFields]

end Roles

variable {lib : Libnf} {calls : List Call}

theorem build_roles (valid : ∀ call ∈ calls, call.Valid lib) (ordered : calls.Pairwise Call.MayPrecede) :
    ∃ roles : Roles, roles.Valid lib ∧ build lib calls = roles.toFields lib ∧
      ∀ later : Call, (∀ call ∈ calls, call.MayPrecede later) → roles.Admits later := by
  have emptyAdmits : ∀ call, Roles.empty.Admits call := fun call => by
    cases call with
    | addOutputField id => trivial
    | _ => exact ⟨rfl, rfl⟩
  obtain ⟨roles, rolesValid, built, admits⟩ :=
    Roles.foldl_toFields calls (Roles.empty_valid lib) valid (fun call _ => emptyAdmits call) ordered
  exact ⟨roles, rolesValid, built, fun later precedes => admits later (emptyAdmits later) precedes⟩

theorem wellFormed_build (valid : ∀ call ∈ calls, call.Valid lib)
    (ordered : calls.Pairwise Call.MayPrecede) :
    WellFormed lib (build lib calls) := by
  obtain ⟨roles, rolesValid, built, -⟩ := build_roles valid ordered
  exact built ▸ Roles.wellFormed_toFields rolesValid

/-- After every call of an ordered sequence the invariant holds, and a failed call changes nothing. -/
theorem fields_keep_invariant (lib : Libnf) (calls : List Call) (valid : ∀ call ∈ calls, call.Valid lib)
    (ordered : calls.Pairwise Call.MayPrecede) :
    (∀ done, done <+: calls → WellFormed lib (build lib done)) ∧
      ∀ done call, done ++ [call] <+: calls →
        (call.run lib (build lib done)).1 = false →
        (call.run lib (build lib done)).2 = build lib done := by
  refine ⟨fun done before => ?_, fun done call before failed => ?_⟩
  · exact wellFormed_build (fun call member => valid call (before.subset member))
      (ordered.sublist before.sublist)
  · obtain ⟨doneOrdered, -, precedes⟩ := List.pairwise_append.mp (ordered.sublist before.sublist)
    obtain ⟨roles, rolesValid, built, admits⟩ := build_roles
      (fun call member => valid call (before.subset (List.mem_append_left _ member))) doneOrdered
    have ran := Roles.run_toFields rolesValid
      (admits call fun other member => precedes other member call (List.mem_singleton_self call))
    rw [built, ran] at failed ⊢
    rw [Prod.map_snd, Roles.step_unchanged failed]

/-- A libnf with five fields, of which the last one cannot be sorted by and the fourth is calculated. -/
def fiveFields : Libnf where
  fldTerm := 6
  fldCalcBps := 4
  fldCalcBpp := 4
  fldBrec1 := 5
  aggrMin := 1
  aggrKey := 8
  sortNone := 0
  sortAsc := 1
  sortDesc := 2
  infoSize := fun id => if id = 5 then 48 else 8
  infoAggr := fun id => if id = 3 then 8 else 3
  infoSort := fun id => if id = 5 then 0 else 2
  infoSize_pos := fun id _ _ => by split <;> decide
  infoAggr_range := fun id _ _ => by split <;> decide
  infoSort_dir := fun id _ _ => by split <;> decide

theorem fields_keep_invariant_five :
    WellFormed fiveFields (build fiveFields
      [.addAggrKey 3 24 64, .addAggrKey 4 0 0, .addAggrKey 3 0 0, .setSortKey 1 0, .addOutputField 1,
        .addOutputField 4, .addOutputField 2]) ∧
    (fieldsAddAggrKey fiveFields (build fiveFields [.addAggrKey 3 24 64]) 4 0 0).2 =
      build fiveFields [.addAggrKey 3 24 64] := by
  have kept := fields_keep_invariant fiveFields
    [.addAggrKey 3 24 64, .addAggrKey 4 0 0, .addAggrKey 3 0 0, .setSortKey 1 0, .addOutputField 1,
      .addOutputField 4, .addOutputField 2] (by decide) (by decide)
  exact ⟨kept.1 _ (List.prefix_refl _),
    kept.2 [.addAggrKey 3 24 64] (.addAggrKey 4 0 0) (by decide) (by decide)⟩

end Fdistdump.FieldSet
