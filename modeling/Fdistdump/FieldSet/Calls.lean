import Fdistdump.FieldSet.Roles

/-!
# Calls on the fields structure

Starting from the zeroed structure, the calls of `arg_parse` keep the arrays the image of valid roles.
-/

namespace Fdistdump.FieldSet
open CountedArray

namespace Roles

variable {lib : Libnf} {roles : Roles} {id : Int}

theorem ids_addKey (key : KeyRole) (noSort : roles.sort = none) (noOutputs : roles.outputs = []) :
    ({ roles with keys := roles.keys ++ [key] } : Roles).ids = roles.ids ++ [key.id] := by
  simp [ids, keyIds, sortOnly, noSort, noOutputs]

theorem ids_addOutput (roles : Roles) (id : Int) :
    ({ roles with outputs := roles.outputs ++ [id] } : Roles).ids = roles.ids ++ [id] :=
  (List.append_assoc ..).symm

theorem ids_setSort (sort : SortRole) (noSort : roles.sort = none) (noOutputs : roles.outputs = []) :
    ({ roles with sort := some sort } : Roles).ids =
      if sort.id ∈ roles.ids then roles.ids else roles.ids ++ [sort.id] := by
  have keysOnly : roles.ids = roles.keyIds := by simp [ids, sortOnly, noSort, noOutputs]
  rw [keysOnly]
  by_cases key : sort.id ∈ roles.keyIds <;>
    simp_all [ids, keyIds, sortOnly]

/-! ### Calls act on the arrays as on the roles -/

theorem addKey_toFields (valid : roles.Valid lib) (key : KeyRole) (noSort : roles.sort = none)
    (noOutputs : roles.outputs = []) :
    fieldsAddAggrKey lib (roles.toFields lib) key.id key.alignment key.ipv6Alignment =
      Prod.map (fun ok => ok) (toFields lib) (roles.addKey lib key) := by
  rw [fieldsAddAggrKey, addKey, getFromAll_toFields, toFields_aggrKeysCnt]
  by_cases full : roles.keys.length = aggrKeysMax
  · rw [if_pos full, if_pos full, Prod.map_apply]
  rw [if_neg full, if_neg full]
  by_cases present : key.id ∈ roles.ids
  · obtain ⟨i, found⟩ := Option.isSome_iff_exists.mp (List.isSome_idxOf?.mpr present)
    rw [found, if_pos present, Prod.map_apply]
  rw [List.idxOf?_eq_none_iff.mpr present, if_neg present]
  dsimp only
  split
  · rfl
  have keysRoom : roles.keys.length < aggrKeysMax := Nat.lt_of_le_of_ne valid.keysFit full
  have room : roles.ids.length < allFieldsMax := by
    have := ids_length roles
    simp only [aggrKeysMax, allFieldsMax, outputFieldsMax, noOutputs, List.length_nil] at *
    omega
  have grown := ids_addKey key noSort noOutputs
  have keeps := Keeps.of_append grown
  have written := set_pad ({} : AggrKey) (roles.keys.map roles.aggrKeyOf)
    { field := some roles.ids.length, alignment := key.alignment, ipv6Alignment := key.ipv6Alignment }
    (by simpa using keysRoom)
  rw [List.length_map] at written
  simp only [addToAll_toFields room, Prod.map_apply]
  simp only [toFields, grown, written, List.map_append, List.map_singleton, List.length_append,
    List.length_singleton, keeps.aggrKeys, keeps.sortKey rfl, keeps.outputFields,
    aggrKeyOf, idxOf?_append_self present]

theorem setSort_toFields (valid : roles.Valid lib) (sort : SortRole) (noSort : roles.sort = none)
    (noOutputs : roles.outputs = []) :
    fieldsSetSortKey lib (roles.toFields lib) sort.id sort.direction =
      Prod.map (fun ok => ok) (toFields lib) (roles.setSort lib sort) := by
  rw [fieldsSetSortKey, setSort, getFromAll_toFields]
  dsimp only
  split
  · rfl
  have layout := ids_setSort
    { sort with
      direction := if sort.direction = lib.sortNone then fieldGetSortDir lib sort.id
        else sort.direction }
    noSort noOutputs
  by_cases present : sort.id ∈ roles.ids
  · obtain ⟨i, found⟩ := Option.isSome_iff_exists.mp (List.isSome_idxOf?.mpr present)
    rw [if_pos present] at layout
    have keeps := Keeps.of_eq layout
    simp only [found, Prod.map_apply, toFields, layout, keeps.aggrKeys, keeps.outputFields, sortKeyOf]
  · have room : roles.ids.length < allFieldsMax := by
      have := ids_length roles
      have := valid.keysFit
      simp only [aggrKeysMax, allFieldsMax, outputFieldsMax, noOutputs, List.length_nil] at *
      omega
    rw [if_neg present] at layout
    have keeps := Keeps.of_append layout
    simp only [List.idxOf?_eq_none_iff.mpr present, addToAll_toFields room, Prod.map_apply]
    simp only [toFields, layout, keeps.aggrKeys, keeps.outputFields, sortKeyOf,
      idxOf?_append_self present]

theorem addOutput_toFields (valid : roles.Valid lib) (id : Int) :
    fieldsAddOutputField lib (roles.toFields lib) id =
      Prod.map (fun ok => ok) (toFields lib) (roles.addOutput id) := by
  rw [fieldsAddOutputField, addOutput, getFromAll_toFields, toFields_outputFieldsCnt]
  by_cases full : roles.outputs.length = outputFieldsMax
  · rw [if_pos full, if_pos full, Prod.map_apply]
  rw [if_neg full, if_neg full]
  by_cases present : id ∈ roles.ids
  · obtain ⟨i, found⟩ := Option.isSome_iff_exists.mp (List.isSome_idxOf?.mpr present)
    rw [found, if_pos present, Prod.map_apply]
  rw [List.idxOf?_eq_none_iff.mpr present, if_neg present]
  have outputsRoom : roles.outputs.length < outputFieldsMax := Nat.lt_of_le_of_ne valid.outputsFit full
  have room : roles.ids.length < allFieldsMax := by
    have := ids_length roles
    have := valid.keysFit
    simp only [aggrKeysMax, allFieldsMax, outputFieldsMax] at *
    omega
  have grown := ids_addOutput roles id
  have keeps := Keeps.of_append grown
  have written := set_pad ({} : OutputField) (roles.outputs.map (roles.outputFieldOf lib))
    { field := some roles.ids.length, aggrFunc := fieldGetAggrFunc lib id } (by simpa using outputsRoom)
  rw [List.length_map] at written
  simp only [addToAll_toFields room, Prod.map_apply]
  simp only [toFields, grown, written, List.map_append, List.map_singleton, List.length_append,
    List.length_singleton, keeps.aggrKeys, keeps.sortKey rfl, keeps.outputFields,
    outputFieldOf, idxOf?_append_self present]

/-! ### Calls keep the roles valid -/

theorem Valid.ids_grown {grown : Roles} (valid : roles.Valid lib)
    (appended : grown.ids = roles.ids ++ [id])
    (absent : id ∉ roles.ids) (inRange : lib.inRangeExcl id) :
    grown.ids.Nodup ∧ ∀ other ∈ grown.ids, lib.inRangeExcl other := by
  rw [appended]
  refine ⟨List.Nodup.append valid.distinct (List.nodup_singleton id) ?_, ?_⟩
  · simpa using absent
  · intro other member
    rcases List.mem_append.mp member with old | new
    · exact valid.inRange other old
    · exact List.mem_singleton.mp new ▸ inRange

theorem Valid.addKey {key : KeyRole} (valid : roles.Valid lib) (noSort : roles.sort = none)
    (noOutputs : roles.outputs = []) (inRange : lib.inRangeExcl key.id)
    (aligned : 0 ≤ key.alignment ∧ 0 ≤ key.ipv6Alignment) : (roles.addKey lib key).2.Valid lib := by
  unfold Roles.addKey
  split
  · exact valid
  rename_i notFull
  split
  · exact valid
  rename_i absent
  split
  · exact valid
  obtain ⟨distinct, allInRange⟩ := valid.ids_grown (ids_addKey key noSort noOutputs) absent inRange
  refine ⟨distinct, allInRange, ?_, valid.directed, ?_, valid.outputsFit⟩
  · intro other member
    rcases List.mem_append.mp member with old | new
    · exact valid.aligned other old
    · exact List.mem_singleton.mp new ▸ aligned
  · have := valid.keysFit
    simp only [List.length_append, List.length_singleton]
    omega

theorem Valid.setSort {sort : SortRole} (valid : roles.Valid lib) (noSort : roles.sort = none)
    (noOutputs : roles.outputs = []) (inRange : lib.inRangeExcl sort.id)
    (directed : sort.direction = lib.sortNone ∨ sort.direction = lib.sortAsc ∨
      sort.direction = lib.sortDesc) :
    (roles.setSort lib sort).2.Valid lib := by
  unfold Roles.setSort
  split
  · exact valid
  rename_i hasDefault
  have bounds := Libnf.inRangeExcl_iff.mp inRange
  have defaultDirected : fieldGetSortDir lib sort.id = lib.sortAsc ∨
      fieldGetSortDir lib sort.id = lib.sortDesc :=
    (lib.infoSort_dir sort.id bounds.1 bounds.2).resolve_left hasDefault
  set chosen := if sort.direction = lib.sortNone then fieldGetSortDir lib sort.id else sort.direction
    with chosen_eq
  have layout := ids_setSort { sort with direction := chosen } noSort noOutputs
  have chosenDirected : chosen = lib.sortAsc ∨ chosen = lib.sortDesc := by
    by_cases given : sort.direction = lib.sortNone
    · simpa [chosen_eq, given] using defaultDirected
    · simpa [chosen_eq, given] using directed.resolve_left given
  have fields : ({ roles with sort := some { sort with direction := chosen } } : Roles).ids.Nodup ∧
      ∀ other ∈ ({ roles with sort := some { sort with direction := chosen } } : Roles).ids,
        lib.inRangeExcl other := by
    by_cases present : sort.id ∈ roles.ids
    · rw [if_pos present] at layout
      rw [layout]
      exact ⟨valid.distinct, valid.inRange⟩
    · rw [if_neg present] at layout
      exact valid.ids_grown layout present inRange
  refine ⟨fields.1, fields.2, valid.aligned, ?_, valid.keysFit, valid.outputsFit⟩
  rintro _ ⟨⟩
  exact chosenDirected

theorem Valid.addOutput (valid : roles.Valid lib) (inRange : lib.inRangeExcl id) :
    (roles.addOutput id).2.Valid lib := by
  unfold Roles.addOutput
  split
  · exact valid
  rename_i notFull
  split
  · exact valid
  rename_i absent
  obtain ⟨distinct, allInRange⟩ := valid.ids_grown (ids_addOutput roles id) absent inRange
  refine ⟨distinct, allInRange, valid.aligned, valid.directed, valid.keysFit, ?_⟩
  have := valid.outputsFit
  simp only [List.length_append, List.length_singleton]
  omega

/-! ### Runs -/

theorem run_toFields {call : Call} (valid : roles.Valid lib) (admits : roles.Admits call) :
    call.run lib (roles.toFields lib) = Prod.map (fun ok => ok) (toFields lib)
      (roles.step lib call) := by
  cases call with
  | addAggrKey id alignment ipv6Alignment =>
    exact addKey_toFields valid ⟨id, alignment, ipv6Alignment⟩ admits.1 admits.2
  | setSortKey id direction => exact setSort_toFields valid ⟨id, direction⟩ admits.1 admits.2
  | addOutputField id => exact addOutput_toFields valid id

theorem Valid.step {call : Call} (valid : roles.Valid lib) (admits : roles.Admits call)
    (callValid : call.Valid lib) : (roles.step lib call).2.Valid lib := by
  cases call with
  | addAggrKey id alignment ipv6Alignment =>
    exact valid.addKey admits.1 admits.2 callValid.1 callValid.2
  | setSortKey id direction => exact valid.setSort admits.1 admits.2 callValid.1 callValid.2
  | addOutputField id => exact valid.addOutput callValid

theorem Admits.step {call later : Call} (before : roles.Admits later) (ordered : call.MayPrecede later) :
    (roles.step lib call).2.Admits later := by
  cases call <;> cases later <;> try trivial
  all_goals
    simp only [Roles.step, Roles.addKey]
    split_ifs <;> exact before

theorem step_unchanged {call : Call} (failed : (roles.step lib call).1 = false) :
    (roles.step lib call).2 = roles := by
  cases call <;> simp only [Roles.step, Roles.addKey, Roles.setSort, Roles.addOutput] at failed ⊢ <;>
    split_ifs at failed ⊢ <;> rfl

theorem foldl_toFields (calls : List Call) (valid : roles.Valid lib)
    (callsValid : ∀ call ∈ calls, call.Valid lib) (admits : ∀ call ∈ calls, roles.Admits call)
    (ordered : calls.Pairwise Call.MayPrecede) :
    ∃ final : Roles, final.Valid lib ∧
      calls.foldl (fun fields call => (call.run lib fields).2) (roles.toFields lib) =
        final.toFields lib ∧
      ∀ later : Call, roles.Admits later → (∀ call ∈ calls, call.MayPrecede later) →
      final.Admits later := by
  induction calls generalizing roles with
  | nil => exact ⟨roles, valid, rfl, fun _ before _ => before⟩
  | cons call rest ih =>
    obtain ⟨precedes, restOrdered⟩ := List.pairwise_cons.mp ordered
    obtain ⟨callValid, restValid⟩ := List.forall_mem_cons.mp callsValid
    obtain ⟨callAdmits, restAdmits⟩ := List.forall_mem_cons.mp admits
    obtain ⟨final, finalValid, finalEq, finalAdmits⟩ :=
      ih (valid.step callAdmits callValid) restValid
        (fun later member => (restAdmits later member).step (precedes later member)) restOrdered
    refine ⟨final, finalValid, ?_, fun later before all => ?_⟩
    · rw [List.foldl_cons, run_toFields valid callAdmits]
      exact finalEq
    · exact finalAdmits later (before.step (all call List.mem_cons_self))
        fun other member => all other (List.mem_cons_of_mem _ member)

end Roles

end Fdistdump.FieldSet
