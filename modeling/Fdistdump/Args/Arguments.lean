import Fdistdump.Args.Integers
import Fdistdump.Args.Limit
import Fdistdump.FieldSet.MemInit
import Fdistdump.Library.Registers
import Fdistdump.Output.FieldToStr
import Fdistdump.Progress.System

/-!
# All arguments of the command line

The option loop of `arg_parse` with every option. What is left of an option once the loop is over is
the last value it was given; values that were never given come from the output format.
-/

namespace Fdistdump.Args
open FieldSet Output
open Progress (ProgressBarType argParseType)

/-- An option as `getopt_long` yields it; `unknown` is everything that it does not know. -/
inductive Argument
  | aggregation (optarg : List Char)
  | filter (optarg : List Char)
  | limit (optarg : List Char)
  | order (optarg : List Char)
  | statistic (optarg : List Char)
  | timePoint (optarg : List Char)
  | timeRange (optarg : List Char)
  | verbosity (optarg : List Char)
  | outputFields (optarg : List Char)
  | outputItems (optarg : List Char)
  | outputFormat (optarg : List Char)
  | outputRichHeader
  | outputNoEllipsize
  | outputTsConv (optarg : List Char)
  | outputVolumeConv (optarg : List Char)
  | outputTcpFlagsConv (optarg : List Char)
  | outputIpAddrConv (optarg : List Char)
  | outputIpProtoConv (optarg : List Char)
  | outputDurationConv (optarg : List Char)
  | progressBarType (optarg : List Char)
  | progressBarDest (optarg : List Char)
  | numThreads (optarg : List Char)
  | timeZone (optarg : List Char)
  | noTput
  | noBfindex
  | help
  | version
  | unknown
deriving DecidableEq, Repr

/-! ### Options with a table of values -/

/-- The value of a string, and what `arg_parse` gets for a string that is not in the table. -/
structure ConvTable (α : Type) where
  values : List (List Char × α)
  otherwise : ErrorCode

def ConvTable.get {α : Type} (table : ConvTable α) (convStr : List Char) : Option α :=
  table.values.lookup convStr

/-- The `set_output_*` functions: a string that is not in the table changes nothing. -/
def ConvTable.set {α : Type} (table : ConvTable α) (convStr : List Char) (conv : Option α) :
    ErrorCode × Option α :=
  match table.get convStr with
  | some value => (.ok, some value)
  | none => (table.otherwise, conv)

/-- `set_output_ts_conv` does not reject what it does not know. -/
def setOutputTsConv : ConvTable OutputTsConv :=
  ⟨[("none".toList, .none), ("pretty".toList, .pretty)], .ok⟩

def setOutputVolumeConv : ConvTable OutputVolumeConv :=
  ⟨[("none".toList, .none), ("metric-prefix".toList, .metricPrefix),
    ("binary-prefix".toList, .binaryPrefix)], .arg⟩

def setOutputTcpFlagsConv : ConvTable OutputStrConv :=
  ⟨[("none".toList, .none), ("str".toList, .str)], .arg⟩

def setOutputIpAddrConv : ConvTable OutputStrConv :=
  ⟨[("none".toList, .none), ("str".toList, .str)], .arg⟩

def setOutputIpProtoConv : ConvTable OutputStrConv :=
  ⟨[("none".toList, .none), ("str".toList, .str)], .arg⟩

def setOutputDurationConv : ConvTable OutputStrConv :=
  ⟨[("none".toList, .none), ("str".toList, .str)], .arg⟩

def setProgressBarType : ConvTable ProgressBarType :=
  ⟨[("none".toList, .none), ("total".toList, .total), ("perslave".toList, .perslave),
    ("json".toList, .json)], .arg⟩

/-! ### Options with a number -/

/-- `VERBOSITY_QUIET`, `VERBOSITY_WARNING` and `VERBOSITY_DEBUG`. -/
def verbosityQuiet : Int := 0
def verbosityWarning : Int := 2
def verbosityDebug : Int := 4

/-- `set_verbosity_level`; `none` is a failed assertion of `str_to_int`. -/
def setVerbosityLevel (verbosityStr : List Char) : Option (Except ErrorCode Int) :=
  match strToInt verbosityStr with
  | none => none
  | some (.error _) => some (.error .arg)
  | some (.ok verbosity) =>
    some (if verbosityQuiet ≤ verbosity ∧ verbosity ≤ verbosityDebug then .ok verbosity else .error .arg)

/-- The code with which a number is set; a failed assertion ends the program without one. -/
def numberCode {α : Type} : Option (Except ErrorCode α) → ErrorCode
  | none => .assertion
  | some (.error ecode) => ecode
  | some (.ok _) => .ok

/-- The number that is set, if there is one. -/
def storedNumber {α : Type} : Option (Except ErrorCode α) → Option α
  | some (.ok value) => some value
  | _ => none

/-! ### The option loop -/

/-- What the option loop leaves: the registers of `OptArgs`, and everything else that options set. -/
structure Settings where
  optArgs : OptArgs := {}
  ellipsize : Bool := true
  richHeader : Bool := false
  tsConv : Option OutputTsConv := none
  volumeConv : Option OutputVolumeConv := none
  tcpFlagsConv : Option OutputStrConv := none
  ipAddrConv : Option OutputStrConv := none
  ipProtoConv : Option OutputStrConv := none
  durationConv : Option OutputStrConv := none
  progressBarType : Option ProgressBarType := none
  progressBarDest : Option (List Char) := none
  numThreads : Option Int := none
  timeZone : Option (List Char) := none
  verbosity : Int := verbosityWarning
  useTput : Bool := true
  useBfindex : Bool := true
deriving DecidableEq

/-- The option as `argParse` has it, with the code of an option that it does not follow. -/
def Argument.toOpt : Argument → Opt
  | .aggregation optarg => .aggregation optarg
  | .filter optarg => .filter optarg
  | .limit optarg => .limit optarg
  | .order optarg => .order optarg
  | .statistic optarg => .statistic optarg
  | .timePoint optarg => .timePoint optarg
  | .timeRange optarg => .timeRange optarg
  | .outputFields optarg => .outputFields optarg
  | .outputItems optarg => .outputItems optarg
  | .outputFormat optarg => .outputFormat optarg
  | .verbosity optarg => .other (numberCode (setVerbosityLevel optarg))
  | .outputTsConv optarg => .other (setOutputTsConv.set optarg none).1
  | .outputVolumeConv optarg => .other (setOutputVolumeConv.set optarg none).1
  | .outputTcpFlagsConv optarg => .other (setOutputTcpFlagsConv.set optarg none).1
  | .outputIpAddrConv optarg => .other (setOutputIpAddrConv.set optarg none).1
  | .outputIpProtoConv optarg => .other (setOutputIpProtoConv.set optarg none).1
  | .outputDurationConv optarg => .other (setOutputDurationConv.set optarg none).1
  | .progressBarType optarg => .other (setProgressBarType.set optarg none).1
  | .numThreads optarg => .other (numberCode (setNumThreads optarg))
  | .outputRichHeader | .outputNoEllipsize | .progressBarDest _ | .timeZone _ | .noTput
  | .noBfindex => .other .ok
  | .help | .version => .other .help
  | .unknown => .other .arg

/-- One iteration of the loop; the options of `argParse` are those of `optStep`. -/
def argumentStep (s : Settings) (argument : Argument) : ErrorCode × Settings :=
  match argument with
  | .verbosity optarg =>
    (numberCode (setVerbosityLevel optarg),
      { s with verbosity := (storedNumber (setVerbosityLevel optarg)).getD s.verbosity })
  | .outputRichHeader => (.ok, { s with richHeader := true })
  | .outputNoEllipsize => (.ok, { s with ellipsize := false })
  | .outputTsConv optarg =>
    (setOutputTsConv.set optarg s.tsConv).map id fun conv => { s with tsConv := conv }
  | .outputVolumeConv optarg =>
    (setOutputVolumeConv.set optarg s.volumeConv).map id fun conv => { s with volumeConv := conv }
  | .outputTcpFlagsConv optarg =>
    (setOutputTcpFlagsConv.set optarg s.tcpFlagsConv).map id fun conv => { s with tcpFlagsConv := conv }
  | .outputIpAddrConv optarg =>
    (setOutputIpAddrConv.set optarg s.ipAddrConv).map id fun conv => { s with ipAddrConv := conv }
  | .outputIpProtoConv optarg =>
    (setOutputIpProtoConv.set optarg s.ipProtoConv).map id fun conv => { s with ipProtoConv := conv }
  | .outputDurationConv optarg =>
    (setOutputDurationConv.set optarg s.durationConv).map id fun conv => { s with durationConv := conv }
  | .progressBarType optarg =>
    (setProgressBarType.set optarg s.progressBarType).map id fun type =>
      { s with progressBarType := type }
  | .progressBarDest optarg => (.ok, { s with progressBarDest := some optarg })
  | .numThreads optarg =>
    (numberCode (setNumThreads optarg),
      { s with numThreads := (storedNumber (setNumThreads optarg)).or s.numThreads })
  | .timeZone optarg => (.ok, { s with timeZone := some optarg })
  | .noTput => (.ok, { s with useTput := false })
  | .noBfindex => (.ok, { s with useBfindex := false })
  | .help | .version => (.help, s)
  | .unknown => (.arg, s)
  | _ => (optStep s.optArgs argument.toOpt).map id fun optArgs => { s with optArgs := optArgs }

def argumentLoop (s : Settings) : List Argument → Except ErrorCode Settings
  | [] => .ok s
  | argument :: rest =>
    let next := argumentStep s argument
    if next.1 ≠ .ok then .error next.1 else argumentLoop next.2 rest

/-! ### After the loop -/

/-- The default conversions of a format. `arg_parse` aborts when there is no format. -/
def formatDefaults : OutputFormat → Except ErrorCode OutputParams
  | .pretty => .ok ⟨.pretty, .pretty, .metricPrefix, .str, .str, .str, .str⟩
  | .csv => .ok ⟨.csv, .none, .none, .none, .none, .none, .none⟩
  | .unset => .error .internal

def Settings.outputParams (s : Settings) (defaults : OutputParams) : OutputParams where
  format := defaults.format
  tsConv := s.tsConv.getD defaults.tsConv
  volumeConv := s.volumeConv.getD defaults.volumeConv
  tcpFlagsConv := s.tcpFlagsConv.getD defaults.tcpFlagsConv
  ipAddrConv := s.ipAddrConv.getD defaults.ipAddrConv
  ipProtoConv := s.ipProtoConv.getD defaults.ipProtoConv
  durationConv := s.durationConv.getD defaults.durationConv

/-- `struct cmdline_args` when `arg_parse` has accepted, with the settings that it passes on in
other ways. -/
structure Arguments where
  cmdline : CmdlineArgs
  outputParams : OutputParams
  ellipsize : Bool
  richHeader : Bool
  progressBarType : ProgressBarType
  progressBarDest : Option (List Char)
  numThreads : Option Int          -- as for `omp_set_num_threads`
  timeZone : Option (List Char)    -- as for `set_time_zone`
  verbosity : Int
  useTput : Bool
  useBfindex : Bool
deriving DecidableEq

variable (lib : LibnfMem) (parsers : Parsers)

/-- The conditions of the TPUT algorithm. -/
def tputUsable (cmdline : CmdlineArgs) : Bool :=
  let sortId := cmdline.fields.idAt cmdline.fields.sortKey.field
  cmdline.workingMode == .aggr && cmdline.recLimit != 0 && cmdline.fields.sortKey.field.isSome &&
    (lib.fldDoctets ≤ sortId && sortId ≤ lib.fldAggrFlows)

def Settings.arguments (s : Settings) (cmdline : CmdlineArgs) (defaults : OutputParams) : Arguments where
  cmdline := cmdline
  outputParams := s.outputParams defaults
  ellipsize := s.ellipsize
  richHeader := s.richHeader
  progressBarType := argParseType (s.progressBarType.getD .unset)
  progressBarDest := s.progressBarDest
  numThreads := s.numThreads
  timeZone := s.timeZone
  verbosity := s.verbosity
  useTput := s.useTput && tputUsable lib cmdline
  useBfindex := s.useBfindex

/-- `arg_parse` with all options. -/
def parseArguments (arguments : List Argument) (pathsCnt : Nat) : Except ErrorCode Arguments := do
  let s ← argumentLoop {} arguments
  let cmdline ← finishArgs lib.toLibnf parsers s.optArgs pathsCnt
  let defaults ← formatDefaults cmdline.format
  return s.arguments lib cmdline defaults

/-! ### The loop follows that of `argParse` -/

variable {lib parsers}

theorem ConvTable.set_fst {α : Type} (table : ConvTable α) (convStr : List Char) (conv : Option α) :
    (table.set convStr conv).1 = (table.set convStr none).1 := by
  unfold ConvTable.set
  split <;> rfl

theorem ConvTable.set_snd {α : Type} (table : ConvTable α) (convStr : List Char) (conv : Option α) :
    (table.set convStr conv).2 = (table.get convStr).or conv := by
  unfold ConvTable.set
  split <;> simp [*]

theorem argumentStep_optStep (s : Settings) (argument : Argument) :
    (argumentStep s argument).map id Settings.optArgs = optStep s.optArgs argument.toOpt := by
  cases argument with
  | outputTsConv optarg | outputVolumeConv optarg | outputTcpFlagsConv optarg | outputIpAddrConv optarg
  | outputIpProtoConv optarg | outputDurationConv optarg | progressBarType optarg =>
    exact Prod.ext (ConvTable.set_fst _ _ _) rfl
  | _ => rfl

/-- The code of an option by itself; it does not depend on what was set before. -/
def Argument.code (argument : Argument) : ErrorCode := (optStep {} argument.toOpt).1

theorem argumentStep_code (s : Settings) (argument : Argument) :
    (argumentStep s argument).1 = argument.code :=
  (congrArg Prod.fst (argumentStep_optStep s argument)).trans (optStep_fst _ _)

/-- The option loop when no option fails. -/
def settingsOf (s : Settings) (arguments : List Argument) : Settings :=
  arguments.foldl (fun s argument => (argumentStep s argument).2) s

theorem argumentLoop_ok {s s' : Settings} {arguments : List Argument} :
    argumentLoop s arguments = .ok s' ↔
      (∀ argument ∈ arguments, argument.code = .ok) ∧ s' = settingsOf s arguments := by
  induction arguments generalizing s with
  | nil => simp [argumentLoop, settingsOf, eq_comm]
  | cons argument rest ih =>
    rw [argumentLoop, List.forall_mem_cons, argumentStep_code]
    by_cases accepted : argument.code = .ok
    · rw [if_neg (not_not.mpr accepted), ih]
      simp [accepted, settingsOf]
    · rw [if_pos accepted]
      simp [accepted]

theorem settingsOf_optArgs (s : Settings) (arguments : List Argument) :
    (settingsOf s arguments).optArgs = runOpts s.optArgs (arguments.map Argument.toOpt) := by
  induction arguments generalizing s with
  | nil => rfl
  | cons argument rest ih =>
    have first : (argumentStep s argument).2.optArgs = (optStep s.optArgs argument.toOpt).2 :=
      congrArg Prod.snd (argumentStep_optStep s argument)
    exact (ih _).trans (by rw [first]; rfl)

/-! ### The last setting wins -/

def Argument.format : Argument → Option OutputFormat
  | .outputFormat optarg =>
    if optarg = "csv".toList then some .csv else if optarg = "pretty".toList then some .pretty else none
  | _ => none

def recordsNames : List (List Char) := ["records".toList, "r".toList]
def processedSummNames : List (List Char) := ["processed-records-summary".toList, "p".toList]
def metadataSummNames : List (List Char) := ["metadata-summary".toList, "m".toList]

/-- Whether an output item is in a list of them. -/
def listedItem (names tokens : List (List Char)) : OutputItem :=
  if ∃ token ∈ tokens, token ∈ names then .yes else .no

/-- The items of an argument of `--output-items`. -/
def listedItems (itemsStr : List Char) : OutputItems where
  printRecords := listedItem recordsNames (strtok ',' [] itemsStr)
  printProcessedSumm := listedItem processedSummNames (strtok ',' [] itemsStr)
  printMetadataSumm := listedItem metadataSummNames (strtok ',' [] itemsStr)

def Argument.items : Argument → Option OutputItems
  | .outputItems optarg => some (listedItems optarg)
  | _ => none

def Argument.tsConv : Argument → Option OutputTsConv
  | .outputTsConv optarg => setOutputTsConv.get optarg
  | _ => none

def Argument.volumeConv : Argument → Option OutputVolumeConv
  | .outputVolumeConv optarg => setOutputVolumeConv.get optarg
  | _ => none

def Argument.tcpFlagsConv : Argument → Option OutputStrConv
  | .outputTcpFlagsConv optarg => setOutputTcpFlagsConv.get optarg
  | _ => none

def Argument.ipAddrConv : Argument → Option OutputStrConv
  | .outputIpAddrConv optarg => setOutputIpAddrConv.get optarg
  | _ => none

def Argument.ipProtoConv : Argument → Option OutputStrConv
  | .outputIpProtoConv optarg => setOutputIpProtoConv.get optarg
  | _ => none

def Argument.durationConv : Argument → Option OutputStrConv
  | .outputDurationConv optarg => setOutputDurationConv.get optarg
  | _ => none

def Argument.barType : Argument → Option ProgressBarType
  | .progressBarType optarg => setProgressBarType.get optarg
  | _ => none

def Argument.barDest : Argument → Option (List Char)
  | .progressBarDest optarg => some optarg
  | _ => none

def Argument.threads : Argument → Option Int
  | .numThreads optarg => storedNumber (setNumThreads optarg)
  | _ => none

def Argument.zone : Argument → Option (List Char)
  | .timeZone optarg => some optarg
  | _ => none

def Argument.level : Argument → Option Int
  | .verbosity optarg => storedNumber (setVerbosityLevel optarg)
  | _ => none

def Argument.aggregates : Argument → Bool
  | .aggregation _ | .statistic _ => true
  | _ => false

def Argument.sorts : Argument → Bool
  | .order _ | .statistic _ => true
  | _ => false

open Registers (last)

variable (lib) in
/-- What every setting is, by the last option that gives it. -/
structure LastSettings (arguments : List Argument) (args : Arguments) : Prop where
  mode : args.cmdline.workingMode =
    if args.cmdline.items.printRecords = .no ∧ args.cmdline.items.printProcessedSumm = .no then .metadata
    else if arguments.any Argument.aggregates then .aggr
    else if arguments.any Argument.sorts then .sort
    else .list
  format : args.cmdline.format = (last Argument.format arguments).getD .pretty
  items : args.cmdline.items = (last Argument.items arguments).getD
    { printRecords := .yes
      printProcessedSumm := if args.cmdline.format = .pretty then .yes else .no
      printMetadataSumm := .no }
  outputParams : ∃ defaults, formatDefaults args.cmdline.format = .ok defaults ∧ args.outputParams =
    { format := defaults.format
      tsConv := (last Argument.tsConv arguments).getD defaults.tsConv
      volumeConv := (last Argument.volumeConv arguments).getD defaults.volumeConv
      tcpFlagsConv := (last Argument.tcpFlagsConv arguments).getD defaults.tcpFlagsConv
      ipAddrConv := (last Argument.ipAddrConv arguments).getD defaults.ipAddrConv
      ipProtoConv := (last Argument.ipProtoConv arguments).getD defaults.ipProtoConv
      durationConv := (last Argument.durationConv arguments).getD defaults.durationConv }
  ellipsize : args.ellipsize = true ↔ .outputNoEllipsize ∉ arguments
  richHeader : args.richHeader = true ↔ .outputRichHeader ∈ arguments
  progressBarType : args.progressBarType = (last Argument.barType arguments).getD .total
  progressBarDest : args.progressBarDest = last Argument.barDest arguments
  numThreads : args.numThreads = last Argument.threads arguments
  timeZone : args.timeZone = last Argument.zone arguments
  verbosity : args.verbosity = (last Argument.level arguments).getD verbosityWarning
  useTput : args.useTput = true ↔ .noTput ∉ arguments ∧ tputUsable lib args.cmdline = true
  useBfindex : args.useBfindex = true ↔ .noBfindex ∉ arguments

theorem disjoint_names (token : List Char) :
    (token ∈ recordsNames → token ∉ processedSummNames ∧ token ∉ metadataSummNames) ∧
      (token ∈ processedSummNames → token ∉ metadataSummNames) := by
  simp only [recordsNames, processedSummNames, metadataSummNames, List.mem_cons,
    List.not_mem_nil, or_false]
  constructor
  · rintro (rfl | rfl) <;> simp
  · rintro (rfl | rfl) <;> simp

theorem outputItemTokens_listed {tokens : List (List Char)} {items : OutputItems}
    (accepted : (outputItemTokens tokens items).1 = .ok) :
    (outputItemTokens tokens items).2 =
      { printRecords := if ∃ token ∈ tokens, token ∈ recordsNames then .yes else items.printRecords
        printProcessedSumm :=
          if ∃ token ∈ tokens, token ∈ processedSummNames then .yes else items.printProcessedSumm
        printMetadataSumm :=
          if ∃ token ∈ tokens, token ∈ metadataSummNames then .yes else items.printMetadataSumm } := by
  induction tokens generalizing items with
  | nil => simp [outputItemTokens]
  | cons token rest ih =>
    have records : token ∈ recordsNames ↔ token = "records".toList ∨ token = "r".toList := by
      simp [recordsNames]
    have processed : token ∈ processedSummNames ↔
        token = "processed-records-summary".toList ∨ token = "p".toList := by simp [processedSummNames]
    have metadata : token ∈ metadataSummNames ↔ token = "metadata-summary".toList ∨
        token = "m".toList := by
      simp [metadataSummNames]
    simp only [outputItemTokens, ← records, ← processed, ← metadata] at accepted ⊢
    have apart := disjoint_names token
    by_cases isRecords : token ∈ recordsNames
    · rw [if_pos isRecords] at accepted ⊢
      rw [ih accepted]
      simp [isRecords, apart.1 isRecords]
    rw [if_neg isRecords] at accepted ⊢
    by_cases isProcessed : token ∈ processedSummNames
    · rw [if_pos isProcessed] at accepted ⊢
      rw [ih accepted]
      simp [isRecords, isProcessed, apart.2 isProcessed]
    rw [if_neg isProcessed] at accepted ⊢
    by_cases isMetadata : token ∈ metadataSummNames
    · rw [if_pos isMetadata] at accepted ⊢
      rw [ih accepted]
      simp [isRecords, isProcessed, isMetadata]
    · rw [if_neg isMetadata] at accepted
      cases accepted

theorem setOutputItems_listed {optarg : List Char} (accepted : (setOutputItems optarg).1 = .ok) :
    (setOutputItems optarg).2 = listedItems optarg := outputItemTokens_listed accepted

theorem setOutputFormat_snd (optarg : List Char) (o : OptArgs) :
    (setOutputFormat optarg o).2 =
    { o with format := (Argument.outputFormat optarg).format.getD o.format } := by
  simp only [setOutputFormat, Argument.format]
  split
  · rfl
  split <;> rfl

theorem parseStatSpec_sets (optarg : List Char) : ∃ aggr sort, ∀ o,
    parseStatSpec optarg o =
    { o with aggr := some aggr, sort := some sort, limit := some "10".toList } := by
  unfold parseStatSpec
  cases strchr '#' optarg with
  | none => exact ⟨_, _, fun o => rfl⟩
  | some parts => exact ⟨_, _, fun o => rfl⟩

theorem settingsOf_format (arguments : List Argument) :
    (settingsOf {} arguments).optArgs.format = (last Argument.format arguments).getD .unset := by
  refine Registers.foldl_register (fun s : Settings => s.optArgs.format) Argument.format ?_ {}
  intro argument _ s
  cases argument with
  | outputFormat optarg =>
    have set := congrArg OptArgs.format (setOutputFormat_snd optarg s.optArgs)
    exact set
  | statistic optarg =>
    obtain ⟨aggr, sort, set⟩ := parseStatSpec_sets optarg
    have kept := congrArg OptArgs.format (set s.optArgs)
    exact kept
  | _ => rfl

theorem settingsOf_items {arguments : List Argument}
    (accepted : ∀ argument ∈ arguments, argument.code = .ok) :
    (settingsOf {} arguments).optArgs.items = (last Argument.items arguments).getD {} := by
  refine Registers.foldl_register (fun s : Settings => s.optArgs.items) Argument.items ?_ {}
  intro argument member s
  cases argument with
  | outputItems optarg => exact setOutputItems_listed (accepted _ member)
  | outputFormat optarg =>
    have kept := congrArg OptArgs.items (setOutputFormat_snd optarg s.optArgs)
    exact kept
  | statistic optarg =>
    obtain ⟨aggr, sort, set⟩ := parseStatSpec_sets optarg
    have kept := congrArg OptArgs.items (set s.optArgs)
    exact kept
  | _ => rfl

theorem settingsOf_option {α : Type} (register : Settings → Option α) (gives : Argument → Option α)
    (empty : register {} = none)
    (writes : ∀ argument s, register (argumentStep s argument).2 = (gives argument).or (register s))
    (arguments : List Argument) : register (settingsOf {} arguments) = last gives arguments := by
  have all := Registers.foldl_option register gives writes {} arguments
  rwa [empty, Option.or_none] at all

theorem parseArguments_parts {arguments : List Argument} {pathsCnt : Nat} {args : Arguments}
    (accepted : parseArguments lib parsers arguments pathsCnt = .ok args) :
    (∀ argument ∈ arguments, argument.code = .ok) ∧
      finishArgs lib.toLibnf parsers (settingsOf {} arguments).optArgs pathsCnt = .ok args.cmdline ∧
      ∃ defaults, formatDefaults args.cmdline.format = .ok defaults ∧
        args = (settingsOf {} arguments).arguments lib args.cmdline defaults := by
  obtain ⟨s, looped, accepted⟩ := bind_ok accepted
  obtain ⟨cmdline, finished, accepted⟩ := bind_ok accepted
  obtain ⟨defaults, known, accepted⟩ := bind_ok accepted
  obtain ⟨codes, rfl⟩ := argumentLoop_ok.mp looped
  cases accepted
  exact ⟨codes, finished, defaults, known, rfl⟩

theorem finishArgs_parts {o : OptArgs} {pathsCnt : Nat} {cmdline : CmdlineArgs}
    (accepted : finishArgs lib.toLibnf parsers o pathsCnt = .ok cmdline) :
    ∃ mode fields, parseMode lib.toLibnf parsers o = .ok (mode, fields) ∧
      cmdline.workingMode =
        (if o.items.printProcessedSumm = .no ∧ o.items.printRecords = .no then .metadata else mode) ∧
      parseOutputFields lib.toLibnf parsers o cmdline.workingMode fields = .ok cmdline.fields ∧
      (cmdline.format, cmdline.items) = outputDefaults o.format o.items := by
  obtain ⟨⟨mode, fields⟩, chosen, accepted⟩ := bind_ok accepted
  obtain ⟨recLimit, -, accepted⟩ := bind_ok accepted
  obtain ⟨-, -, accepted⟩ := bind_ok accepted
  obtain ⟨grown, output, accepted⟩ := bind_ok accepted
  cases accepted
  exact ⟨mode, fields, chosen, rfl, output, rfl⟩

theorem aggregates_eq (argument : Argument) :
    argument.aggregates = (optStep {} argument.toOpt).2.aggr.isSome := by
  cases argument with
  | statistic optarg =>
    obtain ⟨aggr, sort, set⟩ := parseStatSpec_sets optarg
    exact (congrArg (fun o => o.aggr.isSome) (set {})).symm
  | outputFormat optarg => exact (congrArg (fun o => o.aggr.isSome) (setOutputFormat_snd optarg {})).symm
  | _ => rfl

theorem sorts_eq (argument : Argument) : argument.sorts = (optStep {} argument.toOpt).2.sort.isSome := by
  cases argument with
  | statistic optarg =>
    obtain ⟨aggr, sort, set⟩ := parseStatSpec_sets optarg
    exact (congrArg (fun o => o.sort.isSome) (set {})).symm
  | outputFormat optarg => exact (congrArg (fun o => o.sort.isSome) (setOutputFormat_snd optarg {})).symm
  | _ => rfl

/-- Whether a register is set in the end, by the options that set it. -/
theorem settingsOf_isSome {register : OptArgs → Option (List Char)} (overwrites : Overwrites register)
    (empty : register {} = none) {sets : Argument → Bool}
    (setsRegister : ∀ argument, sets argument = (register (optStep {} argument.toOpt).2).isSome)
    (arguments : List Argument) :
    (register (settingsOf {} arguments).optArgs).isSome = arguments.any sets := by
  rw [settingsOf_optArgs, runOpts_register overwrites]
  have start : register ({} : Settings).optArgs = none := empty
  rw [start, Option.or_none, Bool.eq_iff_iff, List.any_eq_true, Option.isSome_iff_ne_none, Ne,
    lastSet_eq_none,
    List.forall_mem_map]
  simp only [setsRegister, Option.isSome_iff_ne_none]
  push Not
  rfl

theorem orElse_listed (names tokens : List (List Char)) (default : OutputItem) :
    OutputItem.orElse (listedItem names tokens) default = listedItem names tokens := by
  unfold listedItem
  split <;> rfl

/-- Items that were given need no defaults. -/
theorem outputDefaults_listed (format : OutputFormat) (itemsStr : List Char) :
    (outputDefaults format (listedItems itemsStr)).2 = listedItems itemsStr := by
  simp only [outputDefaults, listedItems, orElse_listed]

theorem format_ne_unset {argument : Argument} {format : OutputFormat}
    (given : argument.format = some format) :
    format ≠ .unset := by
  cases argument with
  | outputFormat optarg =>
    simp only [Argument.format] at given
    split at given
    · cases given
      decide
    split at given
    · cases given
      decide
    · cases given
  | _ => cases given

theorem barType_ne_unset {argument : Argument} {type : ProgressBarType}
    (given : argument.barType = some type) :
    type ≠ .unset := by
  cases argument with
  | progressBarType optarg =>
    have all : ∀ entry ∈ setProgressBarType.values, entry.2 ≠ .unset := by simp [setProgressBarType]
    obtain ⟨front, back, split, -⟩ := List.lookup_eq_some_iff.mp given
    have member : (optarg, type) ∈ setProgressBarType.values :=
      split ▸ List.mem_append_right _ List.mem_cons_self
    exact all _ member
  | _ => cases given

theorem items_listed {argument : Argument} {items : OutputItems} (given : argument.items = some items) :
    ∃ itemsStr, items = listedItems itemsStr := by
  cases argument with
  | outputItems optarg => exact ⟨optarg, (Option.some.inj given).symm⟩
  | _ => cases given

theorem finishArgs_format {arguments : List Argument} {pathsCnt : Nat} {cmdline : CmdlineArgs}
    (finished : finishArgs lib.toLibnf parsers (settingsOf {} arguments).optArgs pathsCnt =
      .ok cmdline) :
    cmdline.format = (last Argument.format arguments).getD .pretty := by
  obtain ⟨mode, fields, -, -, -, output⟩ := finishArgs_parts finished
  have set : cmdline.format = (outputDefaults (settingsOf {} arguments).optArgs.format _).1 :=
    congrArg Prod.fst output
  rw [settingsOf_format] at set
  cases given : last Argument.format arguments with
  | none =>
    rw [given] at set
    exact set
  | some format =>
    obtain ⟨argument, -, gives⟩ := Registers.exists_of_last given
    rw [given] at set
    exact set.trans (if_neg (format_ne_unset gives))

theorem finishArgs_items {arguments : List Argument} {pathsCnt : Nat} {cmdline : CmdlineArgs}
    (codes : ∀ argument ∈ arguments, argument.code = .ok)
    (finished : finishArgs lib.toLibnf parsers (settingsOf {} arguments).optArgs pathsCnt =
      .ok cmdline) :
    cmdline.items = (last Argument.items arguments).getD
      { printRecords := .yes
        printProcessedSumm := if cmdline.format = .pretty then .yes else .no
        printMetadataSumm := .no } := by
  obtain ⟨mode, fields, -, -, -, output⟩ := finishArgs_parts finished
  obtain ⟨format, set⟩ := Prod.mk.inj output
  cases given : last Argument.items arguments with
  | none =>
    rw [settingsOf_items codes, given] at set
    rw [set, format]
    rfl
  | some items =>
    obtain ⟨argument, -, gives⟩ := Registers.exists_of_last given
    obtain ⟨itemsStr, rfl⟩ := items_listed gives
    rw [settingsOf_items codes, given] at set
    exact set.trans (outputDefaults_listed _ itemsStr)

theorem finishArgs_mode {arguments : List Argument} {pathsCnt : Nat} {cmdline : CmdlineArgs}
    (codes : ∀ argument ∈ arguments, argument.code = .ok)
    (finished : finishArgs lib.toLibnf parsers (settingsOf {} arguments).optArgs pathsCnt =
      .ok cmdline) :
    cmdline.workingMode =
      if cmdline.items.printRecords = .no ∧ cmdline.items.printProcessedSumm = .no then .metadata
      else if arguments.any Argument.aggregates then .aggr
      else if arguments.any Argument.sorts then .sort
      else .list := by
  obtain ⟨mode, fields, chosen, set, -, -⟩ := finishArgs_parts finished
  have neither : (settingsOf {} arguments).optArgs.items.printProcessedSumm = .no ∧
      (settingsOf {} arguments).optArgs.items.printRecords = .no ↔
      cmdline.items.printRecords = .no ∧ cmdline.items.printProcessedSumm = .no := by
    rw [finishArgs_items codes finished, settingsOf_items codes]
    cases last Argument.items arguments with
    | none => simp
    | some items => exact and_comm
  have aggr := settingsOf_isSome overwrites_registers.1 rfl aggregates_eq arguments
  have sort := settingsOf_isSome overwrites_registers.2.1 rfl sorts_eq arguments
  rw [set, if_congr neither rfl rfl, parseMode_mode chosen, aggr, sort]

theorem switched {register : Settings → Bool} {switch : Argument} {value : Bool}
    (writes : ∀ argument s, register (argumentStep s argument).2 =
      if argument = switch then value else register s)
    (arguments : List Argument) :
    register (settingsOf {} arguments) = if switch ∈ arguments then value else register {} :=
  Registers.foldl_switch register switch writes {} arguments

theorem settingsOf_switches (arguments : List Argument) :
    (settingsOf {} arguments).ellipsize = (if .outputNoEllipsize ∈ arguments then false else true) ∧
      (settingsOf {} arguments).richHeader = (if .outputRichHeader ∈ arguments then true else false) ∧
      (settingsOf {} arguments).useTput = (if .noTput ∈ arguments then false else true) ∧
      (settingsOf {} arguments).useBfindex = (if .noBfindex ∈ arguments then false else true) := by
  refine ⟨switched ?_ _, switched ?_ _, switched ?_ _, switched ?_ _⟩
  all_goals
    intro argument s
    cases argument <;> rfl

theorem settingsOf_tables (arguments : List Argument) :
    (settingsOf {} arguments).tsConv = last Argument.tsConv arguments ∧
      (settingsOf {} arguments).volumeConv = last Argument.volumeConv arguments ∧
      (settingsOf {} arguments).tcpFlagsConv = last Argument.tcpFlagsConv arguments ∧
      (settingsOf {} arguments).ipAddrConv = last Argument.ipAddrConv arguments ∧
      (settingsOf {} arguments).ipProtoConv = last Argument.ipProtoConv arguments ∧
      (settingsOf {} arguments).durationConv = last Argument.durationConv arguments ∧
      (settingsOf {} arguments).progressBarType = last Argument.barType arguments := by
  refine ⟨settingsOf_option _ _ rfl ?_ _, settingsOf_option _ _ rfl ?_ _, settingsOf_option _ _ rfl ?_ _,
    settingsOf_option _ _ rfl ?_ _, settingsOf_option _ _ rfl ?_ _, settingsOf_option _ _ rfl ?_ _,
    settingsOf_option _ _ rfl ?_ _⟩
  all_goals
    intro argument s
    cases argument <;> first | rfl | exact ConvTable.set_snd ..

theorem settingsOf_values (arguments : List Argument) :
    (settingsOf {} arguments).progressBarDest = last Argument.barDest arguments ∧
      (settingsOf {} arguments).numThreads = last Argument.threads arguments ∧
      (settingsOf {} arguments).timeZone = last Argument.zone arguments ∧
      (settingsOf {} arguments).verbosity = (last Argument.level arguments).getD verbosityWarning := by
  refine ⟨settingsOf_option _ _ rfl ?_ _, settingsOf_option _ _ rfl ?_ _, settingsOf_option _ _ rfl ?_ _,
    Registers.foldl_register Settings.verbosity Argument.level ?_ {}⟩
  · intro argument s
    cases argument <;> rfl
  · intro argument s
    cases argument <;> rfl
  · intro argument s
    cases argument <;> rfl
  · intro argument _ s
    cases argument <;> rfl

theorem argParseType_last (arguments : List Argument) :
    argParseType ((last Argument.barType arguments).getD .unset) =
      (last Argument.barType arguments).getD .total := by
  cases given : last Argument.barType arguments with
  | none => rfl
  | some type =>
    obtain ⟨argument, -, gives⟩ := Registers.exists_of_last given
    exact if_neg (barType_ne_unset gives)

variable (lib parsers) in
/-- Every setting of an accepted command line is the last one given, or the default of the output
format. -/
theorem last_setting_wins {arguments : List Argument} {pathsCnt : Nat} {args : Arguments}
    (accepted : parseArguments lib parsers arguments pathsCnt = .ok args) :
    LastSettings lib arguments args := by
  obtain ⟨codes, finished, defaults, known, built⟩ := parseArguments_parts accepted
  obtain ⟨ellipsize, richHeader, useTput, useBfindex⟩ := settingsOf_switches arguments
  obtain ⟨tsConv, volumeConv, tcpFlagsConv, ipAddrConv, ipProtoConv, durationConv, barType⟩ :=
    settingsOf_tables arguments
  obtain ⟨barDest, threads, zone, level⟩ := settingsOf_values arguments
  have bar : args.progressBarType = (last Argument.barType arguments).getD .total := by
    rw [← argParseType_last, ← barType, built]
    rfl
  exact
    { mode := finishArgs_mode codes finished
      format := finishArgs_format finished
      items := finishArgs_items codes finished
      outputParams := by
        refine ⟨defaults, known, (congrArg Arguments.outputParams built).trans ?_⟩
        rw [← tsConv, ← volumeConv, ← tcpFlagsConv, ← ipAddrConv, ← ipProtoConv, ← durationConv]
        rfl
      ellipsize := by
        rw [built]
        simp [Settings.arguments, ellipsize]
      richHeader := by
        rw [built]
        simp [Settings.arguments, richHeader]
      progressBarType := bar
      progressBarDest := (congrArg Arguments.progressBarDest built).trans barDest
      numThreads := (congrArg Arguments.numThreads built).trans threads
      timeZone := (congrArg Arguments.timeZone built).trans zone
      verbosity := (congrArg Arguments.verbosity built).trans level
      useTput := by
        rw [built]
        simp [Settings.arguments, useTput]
      useBfindex := by
        rw [built]
        simp [Settings.arguments, useBfindex] }

/-- A libnf with the fields that the default output fields name. -/
def namedFields : LibnfMem where
  fldTerm := 17
  fldCalcBps := 13
  fldCalcBpp := 15
  fldBrec1 := 16
  aggrMin := 1
  aggrKey := 8
  sortNone := 0
  sortAsc := 16
  sortDesc := 32
  infoSize := fun id => if id = 6 ∨ id = 7 then 16 else 8
  infoAggr := fun id => if 3 ≤ id ∧ id ≤ 5 then 3 else 8
  infoSort := fun _ => 32
  infoSize_pos := fun id _ _ => by split <;> decide
  infoAggr_range := fun id _ _ => by split <;> decide
  infoSort_dir := fun _ _ _ => by decide
  aggrAuto := 0
  aggrMax := 2
  aggrSum := 3
  fldFirst := 1
  fldLast := 2
  fldDoctets := 3
  fldDpkts := 4
  fldAggrFlows := 5
  lnfAddr := 10
  infoType := fun id => if id = 6 ∨ id = 7 then 10 else 0
  basicDistinct := basicFields.basicDistinct
  basicNotAddr := by decide

def fieldNames : List (List Char × Int) :=
  [("first".toList, 1), ("bytes".toList, 3), ("packets".toList, 4), ("flows".toList, 5),
    ("srcip".toList, 6),
    ("dstip".toList, 7), ("srcport".toList, 8), ("dstport".toList, 9), ("proto".toList, 10),
    ("flags".toList, 11),
    ("duration".toList, 12), ("bps".toList, 13), ("pps".toList, 14), ("bpp".toList, 15)]

def namedParsers : Parsers where
  fieldParse token := (fieldNames.lookup token).map fun id => ⟨id, 0, 0⟩
  setFilter _ := .ok
  setTimePoint _ := .ok
  setTimeRange _ := .ok

theorem last_setting_wins_statistic : ∃ args,
    parseArguments namedFields namedParsers [.outputTsConv "none".toList, .statistic "srcip".toList,
        .outputFormat "csv".toList, .outputTsConv "pretty".toList] 1 = .ok args ∧
      LastSettings namedFields [.outputTsConv "none".toList, .statistic "srcip".toList,
        .outputFormat "csv".toList, .outputTsConv "pretty".toList] args := by
  have accepted : ∃ args, parseArguments namedFields namedParsers [.outputTsConv "none".toList,
      .statistic "srcip".toList, .outputFormat "csv".toList, .outputTsConv "pretty".toList] 1 =
        .ok args := ⟨_, rfl⟩
  obtain ⟨args, accepted⟩ := accepted
  exact ⟨args, accepted, last_setting_wins namedFields namedParsers accepted⟩

end Fdistdump.Args
