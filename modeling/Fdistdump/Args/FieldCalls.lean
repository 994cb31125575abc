import Fdistdump.Args.Duplicates

/-!
# The fields that `arg_parse` builds

Whatever the command line is, the fields structure comes from additions of aggregation keys, at most
one setting of the sort key and additions of output fields, in this order.
-/

namespace Fdistdump.Args
open FieldSet

variable {lib : Libnf} {parsers : Parsers}

/-- `field_parse` returns a field of libnf and mask lengths that are not negative. -/
def ParsesFields (lib : Libnf) (fieldParse : FieldParse) : Prop :=
  ∀ token field, fieldParse token = some field →
    lib.inRangeExcl field.id ∧ 0 ≤ field.alignment ∧ 0 ≤ field.ipv6Alignment

def callsFrom (lib : Libnf) (fields : Fields) (calls : List Call) : Fields :=
  calls.foldl (fun fields call => (call.run lib fields).2) fields

theorem callsFrom_append (fields : Fields) (first second : List Call) :
    callsFrom lib fields (first ++ second) = callsFrom lib (callsFrom lib fields first) second :=
  List.foldl_append

def Additions (lib : Libnf) (areAggrKeys : Bool) (calls : List Call) : Prop :=
  ∀ call ∈ calls, ∃ field, call = addCall areAggrKeys field ∧ call.Valid lib

def Sorting (lib : Libnf) (calls : List Call) : Prop :=
  calls = [] ∨ ∃ id direction, calls = [.setSortKey id direction] ∧
    (Call.setSortKey id direction).Valid lib

theorem addCall_valid (parses : ParsesFields lib parsers.fieldParse) (areAggrKeys : Bool)
    {token : List Char} {field : ParsedField} (parsed : parsers.fieldParse token = some field) :
    (addCall areAggrKeys field).Valid lib := by
  have checked := parses token field parsed
  cases areAggrKeys with
  | true => exact checked
  | false => exact checked.1

theorem parseTokens_calls (parses : ParsesFields lib parsers.fieldParse) (areAggrKeys : Bool)
    (tokens : List (List Char)) (found : Nat) (fields : Fields) :
    ∃ calls, Additions lib areAggrKeys calls ∧
      (parseTokens lib parsers.fieldParse areAggrKeys tokens found fields).2.2 =
        callsFrom lib fields calls := by
  induction tokens generalizing found fields with
  | nil => exact ⟨[], List.forall_mem_nil _, rfl⟩
  | cons token rest ih =>
    rw [parseTokens]
    cases parsed : parsers.fieldParse token with
    | none => exact ⟨[], List.forall_mem_nil _, rfl⟩
    | some field =>
      have valid := addCall_valid parses areAggrKeys parsed
      have ran :
          (if areAggrKeys then
            fieldsAddAggrKey lib fields field.id field.alignment field.ipv6Alignment
          else fieldsAddOutputField lib fields field.id) =
            (addCall areAggrKeys field).run lib fields := by
        cases areAggrKeys <;> rfl
      dsimp only
      rw [ran]
      split
      · refine ⟨[addCall areAggrKeys field], ?_, rfl⟩
        exact List.forall_mem_singleton.mpr ⟨field, rfl, valid⟩
      · obtain ⟨calls, additions, run⟩ := ih (found + 1) ((addCall areAggrKeys field).run lib fields).2
        exact ⟨addCall areAggrKeys field :: calls, List.forall_mem_cons.mpr ⟨⟨field, rfl, valid⟩,
          additions⟩, run⟩

theorem parseFields_calls (parses : ParsesFields lib parsers.fieldParse) (spec : List Char)
    (fields : Fields) (areAggrKeys : Bool) : ∃ calls, Additions lib areAggrKeys calls ∧
      (parseFields lib parsers.fieldParse spec fields areAggrKeys).2 = callsFrom lib fields calls := by
  obtain ⟨calls, additions, run⟩ := parseTokens_calls parses areAggrKeys (strtok ',' [] spec) 0 fields
  refine ⟨calls, additions, ?_⟩
  unfold parseFields
  dsimp only
  split
  · exact run
  · split
    · exact run
    · exact run

theorem parseSortSpec_calls (parses : ParsesFields lib parsers.fieldParse) (spec : List Char)
    (fields : Fields) :
    ∃ calls, Sorting lib calls ∧ (parseSortSpec lib parsers.fieldParse spec fields).2 =
      callsFrom lib fields calls := by
  have nothing : ∃ calls, Sorting lib calls ∧ fields = callsFrom lib fields calls :=
    ⟨[], Or.inl rfl, rfl⟩
  have set {token : List Char} {field : ParsedField}
    (parsed : parsers.fieldParse token = some field) {direction : Int}
      (known : direction = lib.sortNone ∨ direction = lib.sortAsc ∨ direction = lib.sortDesc) :
      ∃ calls, Sorting lib calls ∧ (fieldsSetSortKey lib fields field.id direction).2 =
        callsFrom lib fields calls :=
    ⟨[.setSortKey field.id direction], Or.inr ⟨_, _, rfl, (parses token field parsed).1, known⟩, rfl⟩
  unfold parseSortSpec
  split
  · rename_i fieldStr directionStr found
    dsimp only
    split
    · exact nothing
    · rename_i direction chosen
      split
      · exact nothing
      · rename_i field parsed
        refine set parsed (Or.inr ?_)
        split at chosen
        · exact Or.inl (Option.some.inj chosen).symm
        · split at chosen
          · exact Or.inr (Option.some.inj chosen).symm
          · cases chosen
  · split
    · exact nothing
    · rename_i field parsed
      exact set parsed (Or.inl rfl)

theorem parseMode_calls (parses : ParsesFields lib parsers.fieldParse) {o : OptArgs} {mode : WorkingMode}
    {fields : Fields} (parsed : parseMode lib parsers o = .ok (mode, fields)) :
    ∃ keys sort, Additions lib true keys ∧ Sorting lib sort ∧
      fields = callsFrom lib zeroed (keys ++ sort) := by
  unfold parseMode at parsed
  split at parsed
  · rename_i aggrOptarg given
    obtain ⟨keys, additions, ran⟩ := parseFields_calls parses aggrOptarg zeroed true
    dsimp only at parsed
    split at parsed
    · cases parsed
    · split at parsed
      · rename_i sortOptarg set
        obtain ⟨sort, sorting, sorted⟩ := parseSortSpec_calls parses sortOptarg
          (parseFields lib parsers.fieldParse aggrOptarg zeroed true).2
        split at parsed
        · cases parsed
        · cases parsed
          exact ⟨keys, sort, additions, sorting, by rw [sorted, ran, callsFrom_append]⟩
      · cases parsed
        exact ⟨keys, [], additions, Or.inl rfl, by rw [ran, List.append_nil]⟩
  · split at parsed
    · rename_i sortOptarg set
      obtain ⟨sort, sorting, sorted⟩ := parseSortSpec_calls parses sortOptarg zeroed
      dsimp only at parsed
      split at parsed
      · cases parsed
      · cases parsed
        exact ⟨[], sort, List.forall_mem_nil _, sorting, sorted⟩
    · cases parsed
      exact ⟨[], [], List.forall_mem_nil _, Or.inl rfl, rfl⟩

theorem parseOutputFields_calls (parses : ParsesFields lib parsers.fieldParse) {o : OptArgs}
    {mode : WorkingMode}
    {fields grown : Fields} (parsed : parseOutputFields lib parsers o mode fields = .ok grown) :
    ∃ outputs, Additions lib false outputs ∧ grown = callsFrom lib fields outputs := by
  unfold parseOutputFields at parsed
  split at parsed
  · rename_i optarg given
    dsimp only at parsed
    split at parsed
    · cases parsed
    · cases parsed
      exact parseFields_calls parses optarg fields false
  · split at parsed
    · cases parsed
      exact parseFields_calls parses defaultListFields fields false
    · cases parsed
      exact parseFields_calls parses defaultListFields fields false
    · cases parsed
      exact parseFields_calls parses defaultAggrFields fields false
    · cases parsed
      exact ⟨[], List.forall_mem_nil _, rfl⟩

theorem ordered_calls {keys sort outputs : List Call} (added : Additions lib true keys)
    (sorting : Sorting lib sort)
    (output : Additions lib false outputs) : (keys ++ sort ++ outputs).Pairwise Call.MayPrecede := by
  have keyFirst : ∀ call ∈ keys, ∀ later, call.MayPrecede later := by
    intro call member later
    obtain ⟨field, rfl, -⟩ := added call member
    trivial
  have toOutput : ∀ call ∈ sort ++ outputs, ∀ later ∈ outputs, call.MayPrecede later := by
    intro call member later isOutput
    obtain ⟨field, rfl, -⟩ := output later isOutput
    rcases List.mem_append.mp member with isSort | isOutput'
    · rcases sorting with rfl | ⟨id, direction, rfl, -⟩
      · cases isSort
      · obtain rfl := List.mem_singleton.mp isSort
        trivial
    · obtain ⟨other, rfl, -⟩ := output call isOutput'
      trivial
  have single : sort.Pairwise Call.MayPrecede := by
    rcases sorting with rfl | ⟨id, direction, rfl, -⟩
    · exact .nil
    · exact List.pairwise_singleton _ _
  rw [List.append_assoc]
  refine List.pairwise_append.mpr ⟨?_, List.pairwise_append.mpr ⟨single, ?_, ?_⟩, ?_⟩
  · exact List.pairwise_of_forall_mem_list fun call member later _ => keyFirst call member later
  · apply List.pairwise_of_forall_mem_list
    intro call member later isOutput
    exact toOutput call (List.mem_append_right _ member) later isOutput
  · intro call member later isOutput
    exact toOutput call (List.mem_append_left _ member) later isOutput
  · intro call member later _
    exact keyFirst call member later

/-! ### Counts -/

theorem addToAll_counts {fields grown : Fields} {id : Int} {i : Nat}
    (added : addToAll lib fields id = some (i, grown)) :
    grown.aggrKeysCnt = fields.aggrKeysCnt ∧ grown.outputFieldsCnt = fields.outputFieldsCnt := by
  unfold addToAll at added
  split at added
  · cases added
  · obtain ⟨-, rfl⟩ := Prod.mk.inj (Option.some.inj added)
    exact ⟨rfl, rfl⟩

theorem fieldsAddOutputField_keys (fields : Fields) (id : Int) :
    (fieldsAddOutputField lib fields id).2.aggrKeysCnt = fields.aggrKeysCnt := by
  unfold fieldsAddOutputField
  split
  · rfl
  split
  · rfl
  split
  · rfl
  · rename_i added
    exact (addToAll_counts added).1

theorem fieldsSetSortKey_counts (fields : Fields) (id direction : Int) :
    (fieldsSetSortKey lib fields id direction).2.aggrKeysCnt = fields.aggrKeysCnt ∧
      (fieldsSetSortKey lib fields id direction).2.outputFieldsCnt = fields.outputFieldsCnt := by
  unfold fieldsSetSortKey
  dsimp only
  split
  · exact ⟨rfl, rfl⟩
  cases present : getFromAll fields id with
  | some i => exact ⟨rfl, rfl⟩
  | none =>
    dsimp only
    split
    · exact ⟨rfl, rfl⟩
    · rename_i added
      have counts := addToAll_counts added
      exact counts

theorem fieldsAddAggrKey_counts (fields : Fields) (id alignment ipv6Alignment : Int) :
    fields.aggrKeysCnt ≤ (fieldsAddAggrKey lib fields id alignment ipv6Alignment).2.aggrKeysCnt ∧
      (fieldsAddAggrKey lib fields id alignment ipv6Alignment).2.outputFieldsCnt =
        fields.outputFieldsCnt := by
  unfold fieldsAddAggrKey
  split
  · exact ⟨le_rfl, rfl⟩
  split
  · exact ⟨le_rfl, rfl⟩
  split
  · exact ⟨le_rfl, rfl⟩
  split
  · exact ⟨le_rfl, rfl⟩
  · rename_i added
    obtain ⟨keys, outputs⟩ := addToAll_counts added
    exact ⟨keys ▸ Nat.le_succ _, outputs⟩

theorem run_aggrKeysCnt (call : Call) (fields : Fields) :
    fields.aggrKeysCnt ≤ (call.run lib fields).2.aggrKeysCnt := by
  cases call with
  | addAggrKey id alignment ipv6Alignment =>
    exact (fieldsAddAggrKey_counts fields id alignment ipv6Alignment).1
  | setSortKey id direction => exact (fieldsSetSortKey_counts fields id direction).1.ge
  | addOutputField id => exact (fieldsAddOutputField_keys fields id).ge

variable (lib) in
theorem callsFrom_aggrKeysCnt (fields : Fields) (calls : List Call) :
    fields.aggrKeysCnt ≤ (callsFrom lib fields calls).aggrKeysCnt := by
  induction calls generalizing fields with
  | nil => exact le_rfl
  | cons call rest ih => exact (run_aggrKeysCnt call fields).trans (ih _)

theorem callsFrom_outputFieldsCnt {keys sort : List Call} (added : Additions lib true keys)
    (sorting : Sorting lib sort) (fields : Fields) :
    (callsFrom lib fields (keys ++ sort)).outputFieldsCnt = fields.outputFieldsCnt := by
  induction keys generalizing fields with
  | nil =>
    rcases sorting with rfl | ⟨id, direction, rfl, -⟩
    · rfl
    · exact (fieldsSetSortKey_counts fields id direction).2
  | cons call rest ih =>
    obtain ⟨⟨field, rfl, -⟩, others⟩ := List.forall_mem_cons.mp added
    exact (ih others _).trans (fieldsAddAggrKey_counts fields _ _ _).2

/-! ### The roles of the fields -/

/-- The fields structure before the output fields are added. -/
theorem parseMode_roles (parses : ParsesFields lib parsers.fieldParse) {o : OptArgs} {mode : WorkingMode}
    {fields : Fields} (parsed : parseMode lib parsers o = .ok (mode, fields)) :
    ∃ roles : Roles, roles.Valid lib ∧ fields = roles.toFields lib ∧ roles.outputs = [] := by
  obtain ⟨keys, sort, added, sorting, built⟩ := parseMode_calls parses parsed
  have valid : ∀ call ∈ keys ++ sort, call.Valid lib := by
    intro call member
    rcases List.mem_append.mp member with isKey | isSort
    · obtain ⟨field, -, valid⟩ := added call isKey
      exact valid
    · rcases sorting with rfl | ⟨id, direction, rfl, valid⟩
      · cases isSort
      · obtain rfl := List.mem_singleton.mp isSort
        exact valid
  have ordered : (keys ++ sort ++ []).Pairwise Call.MayPrecede :=
    ordered_calls added sorting (List.forall_mem_nil _)
  rw [List.append_nil] at ordered
  obtain ⟨roles, rolesValid, same, -⟩ := build_roles valid ordered
  have shape : fields = roles.toFields lib := built.trans same
  have none : fields.outputFieldsCnt = 0 := by
    rw [built, callsFrom_outputFieldsCnt added sorting]
    rfl
  rw [shape, Roles.toFields_outputFieldsCnt] at none
  exact ⟨roles, rolesValid, shape, List.length_eq_zero_iff.mp none⟩

/-- Output fields are added to the roles; the keys and the sort key stay as they are. -/
theorem callsFrom_outputs {outputs : List Call} (added : Additions lib false outputs) {roles : Roles}
    (valid : roles.Valid lib) : ∃ grown : Roles, grown.Valid lib ∧
      callsFrom lib (roles.toFields lib) outputs = grown.toFields lib ∧ grown.keys = roles.keys ∧
      grown.sort = roles.sort := by
  induction outputs generalizing roles with
  | nil => exact ⟨roles, valid, rfl, rfl, rfl⟩
  | cons call rest ih =>
    obtain ⟨⟨field, rfl, callValid⟩, others⟩ := List.forall_mem_cons.mp added
    obtain ⟨grown, grownValid, same, keys, sort⟩ := ih others (valid.addOutput callValid)
    have kept : (roles.addOutput field.id).2.keys = roles.keys ∧
        (roles.addOutput field.id).2.sort = roles.sort := by
      unfold Roles.addOutput
      split_ifs <;> exact ⟨rfl, rfl⟩
    have ran : ((addCall false field).run lib (roles.toFields lib)).2 =
        (roles.addOutput field.id).2.toFields lib :=
      congrArg Prod.snd (Roles.addOutput_toFields valid field.id)
    refine ⟨grown, grownValid, ?_, keys.trans kept.1, sort.trans kept.2⟩
    rw [← same, ← ran]
    rfl

/-- Different keys or sort keys are still different when the output fields have been added. -/
theorem parseOutputFields_injective (parses : ParsesFields lib parsers.fieldParse) {o o' : OptArgs}
    {mode mode' first first' : WorkingMode} {fields fields' grown : Fields}
    (parsed : parseMode lib parsers o = .ok (first, fields))
    (parsed' : parseMode lib parsers o' = .ok (first', fields'))
    (output : parseOutputFields lib parsers o mode fields = .ok grown)
    (output' : parseOutputFields lib parsers o' mode' fields' = .ok grown) : fields = fields' := by
  obtain ⟨roles, valid, rfl, none⟩ := parseMode_roles parses parsed
  obtain ⟨roles', valid', rfl, none'⟩ := parseMode_roles parses parsed'
  obtain ⟨outputs, added, rfl⟩ := parseOutputFields_calls parses output
  obtain ⟨outputs', added', same⟩ := parseOutputFields_calls parses output'
  obtain ⟨after, -, ran, keys, sort⟩ := callsFrom_outputs added valid
  obtain ⟨after', -, ran', keys', sort'⟩ := callsFrom_outputs added' valid'
  rw [ran, ran'] at same
  obtain ⟨sameKeys, sameSort⟩ := Roles.of_toFields same
  cases roles
  cases roles'
  dsimp only at keys sort keys' sort' none none'
  rw [← keys, ← sort, ← keys', ← sort', none, none', sameKeys, sameSort]

/-- The fields of accepted arguments are built by valid calls in order. -/
theorem argParse_build (parses : ParsesFields lib parsers.fieldParse) {opts : List Opt} {pathsCnt : Nat}
    {args : CmdlineArgs} (parsed : argParse lib parsers opts pathsCnt = .ok args) :
    ∃ calls, (∀ call ∈ calls, call.Valid lib) ∧ calls.Pairwise Call.MayPrecede ∧
    args.fields = build lib calls := by
  obtain ⟨o, -, parsed⟩ := bind_ok parsed
  obtain ⟨⟨mode, fields⟩, chosen, parsed⟩ := bind_ok parsed
  obtain ⟨recLimit, -, parsed⟩ := bind_ok parsed
  obtain ⟨-, -, parsed⟩ := bind_ok parsed
  obtain ⟨grown, output, parsed⟩ := bind_ok parsed
  cases parsed
  obtain ⟨keys, sort, added, sorting, before⟩ := parseMode_calls parses chosen
  obtain ⟨outputs, addedOutputs, after⟩ := parseOutputFields_calls parses output
  refine ⟨keys ++ sort ++ outputs, ?_, ordered_calls added sorting addedOutputs, ?_⟩
  · intro call member
    rcases List.mem_append.mp member with first | isOutput
    · rcases List.mem_append.mp first with isKey | isSort
      · obtain ⟨field, -, valid⟩ := added call isKey
        exact valid
      · rcases sorting with rfl | ⟨id, direction, rfl, valid⟩
        · cases isSort
        · obtain rfl := List.mem_singleton.mp isSort
          exact valid
    · obtain ⟨field, -, valid⟩ := addedOutputs call isOutput
      exact valid
  · dsimp only
    rw [after, before, ← callsFrom_append]
    rfl

end Fdistdump.Args
