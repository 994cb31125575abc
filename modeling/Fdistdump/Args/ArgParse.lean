import Fdistdump.Args.Integers
import Fdistdump.FieldSet.WellFormed
import Fdistdump.Output.PrintBatch

/-!
# Parsing the command line

`argParse` follows `arg_parse` as far as the working mode, the fields, the record limit and the output
items go. The options are those that `getopt_long` yields, in order.
-/

namespace Fdistdump.Args
open FieldSet Output

inductive WorkingMode
  | unset
  | list
  | sort
  | aggr
  | metadata
deriving DecidableEq, Repr

/-- An option and its argument. Options that set nothing modelled here are `other`, with the code that
evaluating them yields; the help options and unknown options end the loop with a code of their own. -/
inductive Opt
  | aggregation (optarg : List Char)
  | filter (optarg : List Char)
  | limit (optarg : List Char)
  | order (optarg : List Char)
  | statistic (optarg : List Char)
  | timePoint (optarg : List Char)
  | timeRange (optarg : List Char)
  | outputFields (optarg : List Char)
  | outputItems (optarg : List Char)
  | outputFormat (optarg : List Char)
  | other (ecode : ErrorCode)
deriving DecidableEq, Repr

/-- The members of `struct output_params` that choose what is printed. -/
structure OutputItems where
  printRecords : OutputItem := .unset
  printProcessedSumm : OutputItem := .unset
  printMetadataSumm : OutputItem := .unset
deriving DecidableEq, Repr

inductive OutputFormat
  | unset
  | pretty
  | csv
deriving DecidableEq, Repr

/-- The option arguments that are kept until all options are seen, and the output parameters. -/
structure OptArgs where
  aggr : Option (List Char) := none
  limit : Option (List Char) := none
  sort : Option (List Char) := none
  filter : Option (List Char) := none
  timePoint : Option (List Char) := none
  timeRange : Option (List Char) := none
  outputFields : Option (List Char) := none
  items : OutputItems := {}
  format : OutputFormat := .unset
deriving DecidableEq, Repr

def parseStatSpec (statOptarg : List Char) (o : OptArgs) : OptArgs :=
  match strchr '#' statOptarg with
  | some (aggr, sort) => { o with aggr := some aggr, sort := some sort, limit := some "10".toList }
  | none => { o with aggr := some statOptarg, sort := some "flows".toList, limit := some "10".toList }

/-- The token loop of `set_output_items`. -/
def outputItemTokens : List (List Char) → OutputItems → ErrorCode × OutputItems
  | [], items => (.ok, items)
  | token :: rest, items =>
    if token = "records".toList ∨ token = "r".toList then
      outputItemTokens rest { items with printRecords := .yes }
    else if token = "processed-records-summary".toList ∨ token = "p".toList then
      outputItemTokens rest { items with printProcessedSumm := .yes }
    else if token = "metadata-summary".toList ∨ token = "m".toList then
      outputItemTokens rest { items with printMetadataSumm := .yes }
    else (.arg, items)

def setOutputItems (itemsStr : List Char) : ErrorCode × OutputItems :=
  outputItemTokens (strtok ',' [] itemsStr)
    { printRecords := .no, printProcessedSumm := .no, printMetadataSumm := .no }

def setOutputFormat (formatStr : List Char) (o : OptArgs) : ErrorCode × OptArgs :=
  if formatStr = "csv".toList then (.ok, { o with format := .csv })
  else if formatStr = "pretty".toList then (.ok, { o with format := .pretty })
  else (.arg, o)

def optStep (o : OptArgs) : Opt → ErrorCode × OptArgs
  | .aggregation optarg => (.ok, { o with aggr := some optarg })
  | .filter optarg => (.ok, { o with filter := some optarg })
  | .limit optarg => (.ok, { o with limit := some optarg })
  | .order optarg => (.ok, { o with sort := some optarg })
  | .statistic optarg => (.ok, parseStatSpec optarg o)
  | .timePoint optarg => (.ok, { o with timePoint := some optarg })
  | .timeRange optarg => (.ok, { o with timeRange := some optarg })
  | .outputFields optarg => (.ok, { o with outputFields := some optarg })
  | .outputItems optarg => (setOutputItems optarg).map id fun items => { o with items := items }
  | .outputFormat optarg => setOutputFormat optarg o
  | .other ecode => (ecode, o)

def optLoop (o : OptArgs) : List Opt → Except ErrorCode OptArgs
  | [] => .ok o
  | opt :: rest =>
    let next := optStep o opt
    if next.1 ≠ .ok then .error next.1 else optLoop next.2 rest

/-- The parsers of single option arguments. -/
structure Parsers where
  fieldParse : FieldParse
  setFilter : List Char → ErrorCode
  setTimePoint : List Char → ErrorCode
  setTimeRange : List Char → ErrorCode

variable (lib : Libnf) (parsers : Parsers)

/-- Aggregation and sort options, on the zeroed fields structure. -/
def parseMode (o : OptArgs) : Except ErrorCode (WorkingMode × Fields) :=
  match o.aggr with
  | some aggrOptarg =>
    let keys := parseFields lib parsers.fieldParse aggrOptarg zeroed true
    if !keys.1 then .error .arg
    else
      match o.sort with
      | some sortOptarg =>
        let sorted := parseSortSpec lib parsers.fieldParse sortOptarg keys.2
        if !sorted.1 then .error .arg else .ok (.aggr, sorted.2)
      | none => .ok (.aggr, keys.2)
  | none =>
    match o.sort with
    | some sortOptarg =>
      let sorted := parseSortSpec lib parsers.fieldParse sortOptarg zeroed
      if !sorted.1 then .error .arg else .ok (.sort, sorted.2)
    | none => .ok (.list, zeroed)

/-- The record limit option; zero disables the limit. -/
def parseLimit (o : OptArgs) : Except ErrorCode Nat :=
  match o.limit with
  | none => .ok 0
  | some limitOptarg =>
    match convertLimit limitOptarg with
    | none => .error .assertion
    | some converted => converted

def errorUnless (ecode : ErrorCode) : Except ErrorCode Unit := if ecode = .ok then .ok ()
    else .error ecode

/-- Filter, time and path arguments. -/
def checkOthers (o : OptArgs) (pathsCnt : Nat) : Except ErrorCode Unit := do
  errorUnless (o.filter.elim .ok parsers.setFilter)
  match o.timePoint, o.timeRange with
  | some _, some _ => .error .arg
  | some timePoint, none => errorUnless (parsers.setTimePoint timePoint)
  | none, some timeRange => errorUnless (parsers.setTimeRange timeRange)
  | none, none => .ok ()
  if pathsCnt = 0 then .error .arg else .ok ()

def defaultListFields : List Char := "first,packets,bytes,srcip,dstip,srcport,dstport,proto,flags".toList

def defaultAggrFields : List Char := "duration,flows,packets,bytes,flags,bps,pps,bpp".toList

/-- Output fields. The code asserts that the default fields are accepted. -/
def parseOutputFields (o : OptArgs) (mode : WorkingMode) (fields : Fields) : Except ErrorCode Fields :=
  match o.outputFields with
  | some optarg =>
    let parsed := parseFields lib parsers.fieldParse optarg fields false
    if !parsed.1 then .error .arg else .ok parsed.2
  | none =>
    match mode with
    | .list | .sort => .ok (parseFields lib parsers.fieldParse defaultListFields fields false).2
    | .aggr => .ok (parseFields lib parsers.fieldParse defaultAggrFields fields false).2
    | _ => .ok fields

def OutputItem.orElse (item default : OutputItem) : OutputItem := if item = .unset then default else item

/-- The default format, and the default output items of the format. -/
def outputDefaults (format : OutputFormat) (items : OutputItems) : OutputFormat × OutputItems :=
  let format := if format = .unset then .pretty else format
  (format,
    { printRecords := OutputItem.orElse items.printRecords .yes
      printProcessedSumm := OutputItem.orElse items.printProcessedSumm
        (if format = .pretty then .yes else .no)
      printMetadataSumm := OutputItem.orElse items.printMetadataSumm .no })

/-- The members of `struct cmdline_args` that are modelled. -/
structure CmdlineArgs where
  workingMode : WorkingMode
  fields : Fields
  recLimit : Nat
  items : OutputItems
  format : OutputFormat
deriving DecidableEq

/-- `arg_parse` after the option loop. -/
def finishArgs (o : OptArgs) (pathsCnt : Nat) : Except ErrorCode CmdlineArgs := do
  let (mode, fields) ← parseMode lib parsers o
  let recLimit ← parseLimit o
  checkOthers parsers o pathsCnt
  let mode :=
    if o.items.printProcessedSumm = .no ∧ o.items.printRecords = .no then WorkingMode.metadata else mode
  let fields ← parseOutputFields lib parsers o mode fields
  let (format, items) := outputDefaults o.format o.items
  return {
    workingMode := mode, fields := fields, recLimit := recLimit, items := items, format := format }

def argParse (opts : List Opt) (pathsCnt : Nat) : Except ErrorCode CmdlineArgs := do
  let o ← optLoop {} opts
  finishArgs lib parsers o pathsCnt

/-! ### The sort key -/

variable {lib parsers}

theorem bind_ok {α β : Type} {first : Except ErrorCode α} {next : α → Except ErrorCode β} {b : β}
    (h : first >>= next = .ok b) : ∃ a, first = .ok a ∧ next a = .ok b := by
  cases first with
  | error ecode => cases h
  | ok a => exact ⟨a, rfl, h⟩

theorem addToAll_sortKey {fields grown : Fields} {id : Int} {i : Nat}
    (added : addToAll lib fields id = some (i, grown)) : grown.sortKey = fields.sortKey := by
  unfold addToAll at added
  split at added
  · cases added
  · obtain ⟨-, rfl⟩ := Prod.mk.inj (Option.some.inj added)
    rfl

theorem fieldsAddOutputField_sortKey (fields : Fields) (id : Int) :
    (fieldsAddOutputField lib fields id).2.sortKey = fields.sortKey := by
  unfold fieldsAddOutputField
  split
  · rfl
  split
  · rfl
  split
  · rfl
  · rename_i added
    have kept := addToAll_sortKey added
    exact kept

theorem parseTokens_sortKey (tokens : List (List Char)) (found : Nat) (fields : Fields) :
    (parseTokens lib parsers.fieldParse false tokens found fields).2.2.sortKey = fields.sortKey := by
  induction tokens generalizing found fields with
  | nil => rfl
  | cons token rest ih =>
    rw [parseTokens]
    cases parsers.fieldParse token with
    | none => rfl
    | some field =>
      simp only [Bool.false_eq_true, if_false]
      split
      · exact fieldsAddOutputField_sortKey ..
      · exact (ih ..).trans (fieldsAddOutputField_sortKey ..)

theorem parseFields_sortKey (spec : List Char) (fields : Fields) :
    (parseFields lib parsers.fieldParse spec fields false).2.sortKey = fields.sortKey := by
  have kept : (parseTokens lib parsers.fieldParse false (strtok ',' [] spec) 0 fields).2.2.sortKey =
      fields.sortKey :=
    parseTokens_sortKey _ _ _
  unfold parseFields
  dsimp only
  split
  · exact kept
  · exact kept

theorem parseOutputFields_sortKey {o : OptArgs} {mode : WorkingMode} {fields grown : Fields}
    (parsed : parseOutputFields lib parsers o mode fields = .ok grown) :
    grown.sortKey = fields.sortKey := by
  unfold parseOutputFields at parsed
  split at parsed
  · dsimp only at parsed
    split at parsed
    · cases parsed
    · cases parsed
      exact parseFields_sortKey ..
  · split at parsed <;> cases parsed <;> first | rfl | exact parseFields_sortKey ..

theorem parseMode_mode {o : OptArgs} {mode : WorkingMode} {fields : Fields}
    (parsed : parseMode lib parsers o = .ok (mode, fields)) :
    mode = if o.aggr.isSome then .aggr else if o.sort.isSome then .sort else .list := by
  unfold parseMode at parsed
  split at parsed
  · rename_i aggrOptarg given
    rw [given]
    dsimp only at parsed
    split at parsed
    · cases parsed
    split at parsed
    · split at parsed
      · cases parsed
      · cases parsed
        rfl
    · cases parsed
      rfl
  · rename_i noAggr
    rw [noAggr]
    split at parsed
    · rename_i sortOptarg given
      rw [given]
      dsimp only at parsed
      split at parsed
      · cases parsed
      · cases parsed
        rfl
    · rename_i noSort
      rw [noSort]
      cases parsed
      rfl

theorem parseMode_sort {o : OptArgs} {fields : Fields}
    (parsed : parseMode lib parsers o = .ok (.sort, fields)) :
    ∃ sortSpec, o.sort = some sortSpec ∧ parseSortSpec lib parsers.fieldParse sortSpec zeroed =
      (true, fields) := by
  unfold parseMode at parsed
  split at parsed
  · dsimp only at parsed
    split at parsed
    · cases parsed
    · split at parsed
      · split at parsed <;> cases parsed
      · cases parsed
  · split at parsed
    · rename_i sortSpec set
      dsimp only at parsed
      split at parsed
      · cases parsed
      · rename_i accepted
        cases parsed
        refine ⟨sortSpec, set, Prod.ext (by simpa using accepted) rfl⟩
    · cases parsed

theorem argParse_sort {opts : List Opt} {pathsCnt : Nat} {args : CmdlineArgs}
    (parsed : argParse lib parsers opts pathsCnt = .ok args) (mode : args.workingMode = .sort) :
    ∃ o sortSpec fields, optLoop {} opts = .ok o ∧ o.sort = some sortSpec ∧
      parseSortSpec lib parsers.fieldParse sortSpec zeroed = (true, fields) ∧
      args.fields.sortKey = fields.sortKey := by
  obtain ⟨o, looped, parsed⟩ := bind_ok parsed
  obtain ⟨⟨first, fields⟩, chosen, parsed⟩ := bind_ok parsed
  obtain ⟨recLimit, -, parsed⟩ := bind_ok parsed
  obtain ⟨-, -, parsed⟩ := bind_ok parsed
  obtain ⟨grown, output, parsed⟩ := bind_ok parsed
  cases parsed
  dsimp only at mode output
  split at mode
  · cases mode
  · subst mode
    obtain ⟨sortSpec, set, accepted⟩ := parseMode_sort chosen
    exact ⟨o, sortSpec, fields, looped, set, accepted, parseOutputFields_sortKey output⟩

variable (lib parsers) in
/-- A sort specification is treated as the grammar says exactly when its direction, if there is one, is
valid; sort mode has a sort key exactly then. -/
theorem parse_sort_spec_grammar_iff (directed : Directed lib) :
    (∀ sortSpec fields, fields.all.length = allFieldsMax → fields.allCnt < allFieldsMax →
        fields.sortKey.field = none →
          (GrammarLaw lib parsers.fieldParse sortSpec fields ↔ DirectionSpelled sortSpec)) ∧
      ∀ opts pathsCnt args, argParse lib parsers opts pathsCnt = .ok args → args.workingMode = .sort →
        ∃ o sortSpec, optLoop {} opts = .ok o ∧ o.sort = some sortSpec ∧
          (args.fields.sortKey.field ≠ none ↔ DirectionSpelled sortSpec) := by
  refine ⟨fun sortSpec fields length room _ => grammarLaw_iff directed length room,
    fun opts pathsCnt args parsed mode => ?_⟩
  obtain ⟨o, sortSpec, fields, looped, set, accepted, kept⟩ := argParse_sort parsed mode
  refine ⟨o, sortSpec, looped, set, ?_⟩
  rw [kept]
  constructor
  · intro key
    by_contra misspelled
    rw [parseSortSpec_misspelled misspelled] at accepted
    obtain ⟨-, rfl⟩ := Prod.mk.inj accepted
    exact key rfl
  · intro spelled
    have law : GrammarLaw lib parsers.fieldParse sortSpec zeroed :=
      grammarLaw_of_spelled directed spelled List.length_replicate (by decide)
    obtain ⟨id, direction, names⟩ := law.accepts.mp (by rw [accepted])
    obtain ⟨i, entry, -⟩ := (law.sets id direction names).entry
    rw [accepted] at entry
    rw [entry]
    exact Option.some_ne_none i

/-- A `field_parse` that knows the fields of `fiveFields` by their numbers. -/
def numbered : Parsers where
  fieldParse token :=
    if token = "1".toList then some ⟨1, 0, 0⟩ else if token = "5".toList then some ⟨5, 0, 0⟩ else none
  setFilter _ := .ok
  setTimePoint _ := .ok
  setTimeRange _ := .ok

theorem parse_sort_spec_grammar_iff_numbered :
    (GrammarLaw fiveFields numbered.fieldParse "1#asc".toList zeroed ↔ DirectionSpelled "1#asc".toList) ∧
      ∃ args, argParse fiveFields numbered [.order "1#asc".toList, .outputFields []] 1 = .ok args ∧
        ∃ o sortSpec, optLoop {} [.order "1#asc".toList, .outputFields []] = .ok o ∧
          o.sort = some sortSpec ∧
          (args.fields.sortKey.field ≠ none ↔ DirectionSpelled sortSpec) := by
  have both := parse_sort_spec_grammar_iff fiveFields numbered ⟨by decide, by decide⟩
  exact ⟨both.1 _ _ (by decide) (by decide) rfl, _, rfl, both.2 _ 1 _ rfl (by decide)⟩

/-- `-o 1#up`: the error is reported, and the query runs in sort mode without a sort key. -/
theorem parse_sort_spec_accepts_misspelled :
    parseSortSpec fiveFields numbered.fieldParse "1#up".toList zeroed = (true, zeroed) ∧
      ¬ (∃ id direction, Names fiveFields numbered.fieldParse "1#up".toList id direction) ∧
      ∃ args, argParse fiveFields numbered [.order "1#up".toList, .outputFields []] 1 = .ok args ∧
        args.workingMode = .sort ∧ args.fields.sortKey.field = none := by
  refine ⟨by decide, ?_, _, rfl, by decide, by decide⟩
  rintro ⟨id, direction, field, parsed, spells, -⟩
  rcases spells.spelled "1".toList "up".toList (by decide) (by decide) with asc | desc
  · exact absurd asc (by decide)
  · exact absurd desc (by decide)

end Fdistdump.Args
