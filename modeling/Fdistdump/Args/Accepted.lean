import Fdistdump.Args.Arguments
import Fdistdump.Args.FieldCalls

/-!
# Accepted and refused command lines

After an accepted command line nothing that has a default is left unset, the fields are well formed
and hold every field that is shown, an aggregation has a key, and TPUT is on only where it can be
used. A command line is refused with one of a few codes, or by an assertion that an empty number
fails; the internal errors of `arg_parse` are out of reach.
-/

namespace Fdistdump.Args
open FieldSet Output
open Progress (argParseType)
open Registers (last)

/-! ### Counts -/

section Counts
variable {lib : Libnf}

/-- The first field that is added to the zeroed structure takes a place. -/
theorem first_aggrKey {id alignment ipv6Alignment : Int}
    (accepted : (fieldsAddAggrKey lib zeroed id alignment ipv6Alignment).1 = true) :
    0 < (fieldsAddAggrKey lib zeroed id alignment ipv6Alignment).2.aggrKeysCnt := by
  have absent : getFromAll zeroed id = none := rfl
  unfold fieldsAddAggrKey at accepted ⊢
  rw [absent] at accepted ⊢
  split
  · rename_i full
    cases full
  rename_i room
  rw [if_neg room] at accepted
  dsimp only at accepted ⊢
  split
  · rename_i refused
    rw [if_pos refused] at accepted
    cases accepted
  · exact Nat.succ_pos _

end Counts

/-! ### Output fields -/

section Outputs
variable {lib : Libnf} {fieldParse : FieldParse} {roles : Roles} {id : Int}

theorem mem_ids_addOutput (accepted : (roles.addOutput id).1 = true) (other : Int) :
    other ∈ (roles.addOutput id).2.ids ↔ other ∈ roles.ids ∨ other = id := by
  unfold Roles.addOutput at accepted ⊢
  split
  · rename_i full
    rw [if_pos full] at accepted
    cases accepted
  split
  · rename_i present
    refine ⟨Or.inl, ?_⟩
    rintro (old | rfl)
    · exact old
    · exact present
  · rw [Roles.ids_addOutput, List.mem_append, List.mem_singleton]

/-- Accepted tokens name fields that are all present afterwards. -/
theorem parseTokens_present (parses : ParsesFields lib fieldParse) {tokens : List (List Char)}
    {found : Nat} (valid : roles.Valid lib)
    (accepted : (parseTokens lib fieldParse false tokens found (roles.toFields lib)).1 = true) :
    ∃ grown : Roles, (parseTokens lib fieldParse false tokens found (roles.toFields lib)).2.2 =
      grown.toFields lib ∧
      (∀ other ∈ roles.ids, other ∈ grown.ids) ∧
      ∀ token ∈ tokens, ∃ field, fieldParse token = some field ∧ field.id ∈ grown.ids := by
  induction tokens generalizing roles found with
  | nil => exact ⟨roles, rfl, fun _ member => member, List.forall_mem_nil _⟩
  | cons token rest ih =>
    unfold parseTokens at accepted ⊢
    cases parsed : fieldParse token with
    | none =>
      rw [parsed] at accepted
      cases accepted
    | some field =>
      rw [parsed] at accepted
      simp only [Bool.false_eq_true, if_false, Roles.addOutput_toFields valid, Prod.map_fst,
        Prod.map_snd]
        at accepted ⊢
      cases added : (roles.addOutput field.id).1 with
      | false =>
        rw [added] at accepted
        cases accepted
      | true =>
        rw [added] at accepted
        simp only [Bool.not_true, Bool.false_eq_true, if_false] at accepted ⊢
        have present := mem_ids_addOutput added
        obtain ⟨grown, fields, kept, others⟩ :=
          ih (valid.addOutput (parses token field parsed).1) accepted
        refine ⟨grown, fields, ?_, List.forall_mem_cons.mpr ⟨⟨field, parsed, ?_⟩, others⟩⟩
        · intro other member
          exact kept other ((present other).mpr (Or.inl member))
        · exact kept field.id ((present field.id).mpr (Or.inr rfl))

/-- Known tokens are accepted as long as there is room for all of them. -/
theorem parseTokens_room (parses : ParsesFields lib fieldParse) {tokens : List (List Char)} {found : Nat}
    (valid : roles.Valid lib) (known : ∀ token ∈ tokens, (fieldParse token).isSome)
    (room : roles.outputs.length + tokens.length ≤ outputFieldsMax) :
    (parseTokens lib fieldParse false tokens found (roles.toFields lib)).1 = true := by
  induction tokens generalizing roles found with
  | nil => rfl
  | cons token rest ih =>
    obtain ⟨here, others⟩ := List.forall_mem_cons.mp known
    obtain ⟨field, parsed⟩ := Option.isSome_iff_exists.mp here
    rw [List.length_cons] at room
    have fits : roles.outputs.length ≠ outputFieldsMax := by omega
    have added : (roles.addOutput field.id).1 = true ∧
        (roles.addOutput field.id).2.outputs.length ≤ roles.outputs.length + 1 := by
      unfold Roles.addOutput
      rw [if_neg fits]
      split <;> simp
    unfold parseTokens
    rw [parsed]
    simp only [Bool.false_eq_true, if_false, Roles.addOutput_toFields valid, Prod.map_fst,
      Prod.map_snd, added.1,
      Bool.not_true]
    exact ih (valid.addOutput (parses token field parsed).1) others (by omega)

theorem parseFields_outputs (fieldParse : FieldParse) (spec : List Char) (fields : Fields) :
    parseFields lib fieldParse spec fields false =
      ((parseTokens lib fieldParse false (strtok ',' [] spec) 0 fields).1,
        (parseTokens lib fieldParse false (strtok ',' [] spec) 0 fields).2.2) := by
  unfold parseFields
  dsimp only
  cases (parseTokens lib fieldParse false (strtok ',' [] spec) 0 fields).1 <;> rfl

theorem parseFields_present (parses : ParsesFields lib fieldParse) {spec : List Char}
    (valid : roles.Valid lib)
    (accepted : (parseFields lib fieldParse spec (roles.toFields lib) false).1 = true) :
    ∀ token ∈ strtok ',' [] spec, ∃ field, fieldParse token = some field ∧
      field.id ∈ (parseFields lib fieldParse spec (roles.toFields lib) false).2.usedAll.map
        Field.id := by
  rw [parseFields_outputs] at accepted ⊢
  obtain ⟨grown, fields, -, present⟩ := parseTokens_present parses valid accepted
  intro token member
  obtain ⟨field, parsed, mem⟩ := present token member
  refine ⟨field, parsed, ?_⟩
  dsimp only
  rwa [fields, Roles.usedAll_ids]

end Outputs

/-! ### Accepted arguments -/

variable {lib : LibnfMem} {parsers : Parsers} {arguments : List Argument} {pathsCnt : Nat}
  {args : Arguments}

def Argument.fieldsSpec : Argument → Option (List Char)
  | .outputFields optarg => some optarg
  | _ => none

def Argument.filterExpr : Argument → Option (List Char)
  | .filter optarg => some optarg
  | _ => none

def Argument.point : Argument → Option (List Char)
  | .timePoint optarg => some optarg
  | _ => none

def Argument.range : Argument → Option (List Char)
  | .timeRange optarg => some optarg
  | _ => none

/-- A statistic brings a limit of its own. -/
def Argument.limitSpec : Argument → Option (List Char)
  | .limit optarg => some optarg
  | .statistic _ => some "10".toList
  | _ => none

/-- The output fields when the option is not given. -/
def defaultFields : WorkingMode → Option (List Char)
  | .list | .sort => some defaultListFields
  | .aggr => some defaultAggrFields
  | .metadata | .unset => none

/-- The output fields that a query shows. -/
def shownFields (arguments : List Argument) (mode : WorkingMode) : Option (List Char) :=
  (last Argument.fieldsSpec arguments).or (defaultFields mode)

/-- What holds of accepted arguments. -/
structure Ready (lib : LibnfMem) (parsers : Parsers) (arguments : List Argument)
    (args : Arguments) : Prop where
  mode : args.cmdline.workingMode ≠ .unset
  format : args.cmdline.format ≠ .unset
  items : args.cmdline.items.printRecords ≠ .unset ∧ args.cmdline.items.printProcessedSumm ≠ .unset ∧
    args.cmdline.items.printMetadataSumm ≠ .unset
  barType : args.progressBarType ≠ .unset
  fields : WellFormed lib.toLibnf args.cmdline.fields
  keys : args.cmdline.workingMode = .aggr → 0 < args.cmdline.fields.aggrKeysCnt
  tput : args.useTput = true → args.cmdline.workingMode = .aggr ∧ 0 < args.cmdline.recLimit ∧
    args.cmdline.fields.sortKey.field ≠ none
  shown : ∀ spec ∈ shownFields arguments args.cmdline.workingMode, ∀ token ∈ strtok ',' [] spec,
    ∃ field, parsers.fieldParse token = some field ∧ field.id ∈ args.cmdline.fields.usedAll.map Field.id

/-- The default output fields are fields that `field_parse` knows. -/
def KnowsDefaults (fieldParse : FieldParse) : Prop :=
  ∀ spec ∈ [defaultListFields, defaultAggrFields], ∀ token ∈ strtok ',' [] spec,
    (fieldParse token).isSome

theorem settingsOf_optargs (arguments : List Argument) :
    (settingsOf {} arguments).optArgs.outputFields = last Argument.fieldsSpec arguments ∧
      (settingsOf {} arguments).optArgs.filter = last Argument.filterExpr arguments ∧
      (settingsOf {} arguments).optArgs.timePoint = last Argument.point arguments ∧
      (settingsOf {} arguments).optArgs.timeRange = last Argument.range arguments ∧
      (settingsOf {} arguments).optArgs.limit = last Argument.limitSpec arguments := by
  refine ⟨settingsOf_option (fun s => s.optArgs.outputFields) _ rfl ?_ _,
    settingsOf_option (fun s => s.optArgs.filter) _ rfl ?_ _,
    settingsOf_option (fun s => s.optArgs.timePoint) _ rfl ?_ _,
    settingsOf_option (fun s => s.optArgs.timeRange) _ rfl ?_ _,
    settingsOf_option (fun s => s.optArgs.limit) _ rfl ?_ _⟩
  all_goals
    intro argument s
    cases argument with
    | statistic optarg =>
      obtain ⟨aggr, sort, set⟩ := parseStatSpec_sets optarg
      simp only [argumentStep, Argument.toOpt, optStep, Prod.map_snd, set]
      rfl
    | outputFormat optarg =>
      simp only [argumentStep, Argument.toOpt, optStep, Prod.map_snd, setOutputFormat_snd]
      rfl
    | _ => rfl

variable (lib parsers) in
/-- `argParse` is `arg_parse` as far as it goes. -/
theorem parseArguments_argParse (accepted : parseArguments lib parsers arguments pathsCnt = .ok args) :
    argParse lib.toLibnf parsers (arguments.map Argument.toOpt) pathsCnt = .ok args.cmdline := by
  obtain ⟨codes, finished, -⟩ := parseArguments_parts accepted
  rw [settingsOf_optArgs] at finished
  refine argParse_ok.mpr ⟨?_, finished⟩
  rw [List.forall_mem_map]
  exact codes

theorem parseFields_keys {fieldsLib : Libnf} (parses : ParsesFields fieldsLib parsers.fieldParse)
    {spec : List Char}
    (accepted : (parseFields fieldsLib parsers.fieldParse spec zeroed true).1 = true) :
    0 < (parseFields fieldsLib parsers.fieldParse spec zeroed true).2.aggrKeysCnt := by
  unfold parseFields at accepted ⊢
  cases tokens : strtok ',' [] spec with
  | nil =>
    rw [tokens] at accepted
    cases accepted
  | cons token rest =>
    rw [tokens] at accepted
    unfold parseTokens at accepted ⊢
    cases parsed : parsers.fieldParse token with
    | none =>
      rw [parsed] at accepted
      cases accepted
    | some field =>
      rw [parsed] at accepted
      dsimp only at accepted ⊢
      cases added : (fieldsAddAggrKey fieldsLib zeroed field.id field.alignment
        field.ipv6Alignment).1 with
      | false =>
        simp only [if_true, added] at accepted
        cases accepted
      | true =>
        obtain ⟨calls, -, run⟩ := parseTokens_calls parses true rest (0 + 1)
          (fieldsAddAggrKey fieldsLib zeroed field.id field.alignment field.ipv6Alignment).2
        have kept := callsFrom_aggrKeysCnt fieldsLib
          (fieldsAddAggrKey fieldsLib zeroed field.id field.alignment field.ipv6Alignment).2 calls
        have grown := (first_aggrKey added).trans_le kept
        rw [← run] at grown
        simp only [if_true, added, Bool.not_true, Bool.false_eq_true, if_false]
        split
        · exact grown
        split
        · exact grown
        · exact grown

/-- Aggregation mode comes with a key. -/
theorem parseMode_keys (parses : ParsesFields lib.toLibnf parsers.fieldParse) {o : OptArgs}
    {fields : Fields}
    (parsed : parseMode lib.toLibnf parsers o = .ok (.aggr, fields)) : 0 < fields.aggrKeysCnt := by
  unfold parseMode at parsed
  split at parsed
  · rename_i aggrOptarg given
    dsimp only at parsed
    split at parsed
    · cases parsed
    · rename_i accepted
      have keys := parseFields_keys parses (by simpa using accepted)
      split at parsed
      · rename_i sortOptarg set
        obtain ⟨sort, -, sorted⟩ := parseSortSpec_calls parses sortOptarg
          (parseFields lib.toLibnf parsers.fieldParse aggrOptarg zeroed true).2
        split at parsed
        · cases parsed
        · cases parsed
          rw [sorted]
          exact keys.trans_le (callsFrom_aggrKeysCnt _ _ sort)
      · cases parsed
        exact keys
  · split at parsed
    · dsimp only at parsed
      split at parsed <;> cases parsed
    · cases parsed

theorem defaultFields_known (knows : KnowsDefaults parsers.fieldParse) {mode : WorkingMode}
    {spec : List Char} (default : defaultFields mode = some spec) :
    (∀ token ∈ strtok ',' [] spec, (parsers.fieldParse token).isSome) ∧
      (strtok ',' [] spec).length ≤ outputFieldsMax := by
  have listed : spec = defaultListFields ∨ spec = defaultAggrFields := by
    cases mode <;> cases default <;> simp
  rcases listed with rfl | rfl
  · exact ⟨knows _ List.mem_cons_self, by decide⟩
  · exact ⟨knows _ (List.mem_cons_of_mem _ List.mem_cons_self), by decide⟩

theorem parseOutputFields_shown (parses : ParsesFields lib.toLibnf parsers.fieldParse)
    (knows : KnowsDefaults parsers.fieldParse) {roles : Roles} (valid : roles.Valid lib.toLibnf)
    (first : roles.outputs = []) {mode : WorkingMode} {grown : Fields}
    (parsed : parseOutputFields lib.toLibnf parsers (settingsOf {} arguments).optArgs mode
      (roles.toFields lib.toLibnf) = .ok grown) :
    ∀ spec ∈ shownFields arguments mode, ∀ token ∈ strtok ',' [] spec,
      ∃ field, parsers.fieldParse token = some field ∧ field.id ∈ grown.usedAll.map Field.id := by
  unfold parseOutputFields at parsed
  rw [(settingsOf_optargs arguments).1] at parsed
  unfold shownFields
  cases given : last Argument.fieldsSpec arguments with
  | some optarg =>
    rw [given] at parsed
    dsimp only at parsed
    intro spec member
    obtain rfl : optarg = spec := Option.some.inj member
    split at parsed
    · cases parsed
    · rename_i accepted
      cases parsed
      exact parseFields_present parses valid (by simpa using accepted)
  | none =>
    rw [given] at parsed
    intro spec (default : defaultFields mode = some spec)
    obtain ⟨known, few⟩ := defaultFields_known knows default
    have accepted : (parseFields lib.toLibnf parsers.fieldParse spec (roles.toFields lib.toLibnf)
        false).1 = true := by
      rw [parseFields_outputs]
      apply parseTokens_room parses valid known
      rw [first, List.length_nil, Nat.zero_add]
      exact few
    have stored : grown =
        (parseFields lib.toLibnf parsers.fieldParse spec (roles.toFields lib.toLibnf) false).2 := by
      cases mode <;> cases default <;> exact (Except.ok.inj parsed).symm
    rw [stored]
    exact parseFields_present parses valid accepted

theorem listedItem_ne_unset (names tokens : List (List Char)) : listedItem names tokens ≠ .unset := by
  unfold listedItem
  split <;> decide

theorem finishArgs_items_set {cmdline : CmdlineArgs}
    (codes : ∀ argument ∈ arguments, argument.code = .ok)
    (finished : finishArgs lib.toLibnf parsers (settingsOf {} arguments).optArgs pathsCnt =
      .ok cmdline) :
    cmdline.items.printRecords ≠ .unset ∧ cmdline.items.printProcessedSumm ≠ .unset ∧
      cmdline.items.printMetadataSumm ≠ .unset := by
  rw [finishArgs_items codes finished]
  cases given : last Argument.items arguments with
  | none =>
    refine ⟨nofun, ?_, nofun⟩
    rw [Option.getD_none]
    dsimp only
    split <;> decide
  | some items =>
    obtain ⟨argument, -, gives⟩ := Registers.exists_of_last given
    obtain ⟨itemsStr, rfl⟩ := items_listed gives
    exact ⟨listedItem_ne_unset _ _, listedItem_ne_unset _ _, listedItem_ne_unset _ _⟩

theorem finishArgs_format_set {cmdline : CmdlineArgs}
    (finished : finishArgs lib.toLibnf parsers (settingsOf {} arguments).optArgs pathsCnt =
      .ok cmdline) :
    cmdline.format ≠ .unset := by
  rw [finishArgs_format finished]
  cases given : last Argument.format arguments with
  | none => decide
  | some format =>
    obtain ⟨argument, -, gives⟩ := Registers.exists_of_last given
    exact format_ne_unset gives

theorem finishArgs_keys (parses : ParsesFields lib.toLibnf parsers.fieldParse) {o : OptArgs}
    {cmdline : CmdlineArgs} (finished : finishArgs lib.toLibnf parsers o pathsCnt = .ok cmdline)
    (aggr : cmdline.workingMode = .aggr) :
    0 < cmdline.fields.aggrKeysCnt := by
  obtain ⟨mode, fields, chosen, modeSet, output, -⟩ := finishArgs_parts finished
  obtain ⟨outputs, -, grown⟩ := parseOutputFields_calls parses output
  rw [aggr] at modeSet
  split at modeSet
  · cases modeSet
  · subst modeSet
    rw [grown]
    exact (parseMode_keys parses chosen).trans_le (callsFrom_aggrKeysCnt _ _ outputs)

theorem tputUsable_iff (cmdline : CmdlineArgs) :
    tputUsable lib cmdline = true ↔ cmdline.workingMode = .aggr ∧ 0 < cmdline.recLimit ∧
      cmdline.fields.sortKey.field ≠ none ∧
      lib.fldDoctets ≤ cmdline.fields.idAt cmdline.fields.sortKey.field ∧
      cmdline.fields.idAt cmdline.fields.sortKey.field ≤ lib.fldAggrFlows := by
  simp [tputUsable, Option.isSome_iff_ne_none, Nat.pos_iff_ne_zero, and_assoc]

variable (lib parsers) in
/-- An accepted command line leaves nothing unset, has well-formed fields that hold all that is
shown, and uses TPUT only where it can. -/
theorem accepted_ready (parses : ParsesFields lib.toLibnf parsers.fieldParse)
    (knows : KnowsDefaults parsers.fieldParse)
    (accepted : parseArguments lib parsers arguments pathsCnt = .ok args) :
    Ready lib parsers arguments args := by
  obtain ⟨codes, finished, defaults, known, built⟩ := parseArguments_parts accepted
  obtain ⟨mode, fields, chosen, -, output, -⟩ := finishArgs_parts finished
  obtain ⟨roles, valid, rfl, first⟩ := parseMode_roles parses chosen
  obtain ⟨calls, callsValid, ordered, fieldsBuilt⟩ :=
    argParse_build parses (parseArguments_argParse lib parsers accepted)
  obtain ⟨final, finalValid, same, -⟩ := build_roles callsValid ordered
  exact
    { mode := by
        rw [finishArgs_mode codes finished]
        split_ifs <;> decide
      format := finishArgs_format_set finished
      items := finishArgs_items_set codes finished
      barType := by
        rw [built]
        dsimp only [Settings.arguments, argParseType]
        split
        · decide
        · assumption
      fields := by
        rw [fieldsBuilt, same]
        exact Roles.wellFormed_toFields finalValid
      keys := finishArgs_keys parses finished
      tput := by
        intro used
        have usable : tputUsable lib args.cmdline = true := by
          rw [built] at used
          exact (Bool.and_eq_true_iff.mp used).2
        obtain ⟨aggr, limit, key, -⟩ := (tputUsable_iff _).mp usable
        exact ⟨aggr, limit, key⟩
      shown := parseOutputFields_shown parses knows valid first output }

theorem fieldNames_inRange : ∀ entry ∈ fieldNames, namedFields.inRangeExcl entry.2 = true := by decide

theorem namedParsers_parses : ParsesFields namedFields.toLibnf namedParsers.fieldParse := by
  intro token field parsed
  obtain ⟨id, found, rfl⟩ := Option.map_eq_some_iff.mp parsed
  obtain ⟨front, back, split, -⟩ := List.lookup_eq_some_iff.mp found
  have member : (token, id) ∈ fieldNames := split ▸ List.mem_append_right _ List.mem_cons_self
  exact ⟨fieldNames_inRange _ member, le_rfl, le_rfl⟩

theorem namedParsers_knows : KnowsDefaults namedParsers.fieldParse := by
  intro spec listed
  rcases List.mem_pair.mp listed with rfl | rfl <;> decide

theorem accepted_ready_statistic : ∃ args,
    parseArguments namedFields namedParsers [.statistic "srcip".toList, .numThreads "4".toList] 1 =
      .ok args ∧
      Ready namedFields namedParsers [.statistic "srcip".toList, .numThreads "4".toList] args := by
  have accepted : ∃ args, parseArguments namedFields namedParsers
      [.statistic "srcip".toList, .numThreads "4".toList] 1 = .ok args := ⟨_, rfl⟩
  obtain ⟨args, accepted⟩ := accepted
  exact ⟨args, accepted, accepted_ready namedFields namedParsers namedParsers_parses
    namedParsers_knows accepted⟩

/-! ### Refused arguments -/

/-- A number is expected and the argument is empty: the conversion does not get past its assertion. -/
def Argument.EmptyNumber : Argument → Prop
  | .verbosity optarg | .numThreads optarg => optarg = []
  | _ => False

/-- An option that is wrong, asks for help, or fails an assertion. -/
def Argument.Refuses (argument : Argument) : Prop :=
  argument.code = .arg ∨ argument.code = .help ∧ (argument = .help ∨ argument = .version) ∨
    argument.code = .assertion ∧ argument.EmptyNumber

/-- How a command line is refused: at the first option that does not pass, or after all options for
what they say together. An empty record limit fails an assertion. -/
inductive Refused (parsers : Parsers) (arguments : List Argument) : ErrorCode → Prop
  | option (front : List Argument) (argument : Argument) (back : List Argument)
      (split : arguments = front ++ argument :: back) (earlier : ∀ other ∈ front, other.code = .ok)
      (refuses : argument.Refuses) : Refused parsers arguments argument.code
  | query (options : ∀ argument ∈ arguments, argument.code = .ok) : Refused parsers arguments .arg
  | emptyLimit (options : ∀ argument ∈ arguments, argument.code = .ok)
      (given : last Argument.limitSpec arguments = some []) : Refused parsers arguments .assertion
  | filter (options : ∀ argument ∈ arguments, argument.code = .ok) (optarg : List Char)
      (given : last Argument.filterExpr arguments = some optarg)
      (fails : parsers.setFilter optarg ≠ .ok) :
      Refused parsers arguments (parsers.setFilter optarg)
  | timePoint (options : ∀ argument ∈ arguments, argument.code = .ok) (optarg : List Char)
      (given : last Argument.point arguments = some optarg)
      (alone : last Argument.range arguments = none)
      (fails : parsers.setTimePoint optarg ≠ .ok) :
      Refused parsers arguments (parsers.setTimePoint optarg)
  | timeRange (options : ∀ argument ∈ arguments, argument.code = .ok) (optarg : List Char)
      (given : last Argument.range arguments = some optarg)
      (alone : last Argument.point arguments = none)
      (fails : parsers.setTimeRange optarg ≠ .ok) :
      Refused parsers arguments (parsers.setTimeRange optarg)

end Fdistdump.Args
