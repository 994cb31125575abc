import Fdistdump.Args.FieldCalls

/-!
# The record limit

`-s` sets a limit of its own, so that the limit of a query is that of the last `-l` or `-s` option. An
explicit limit that stands before a `-s` is lost.
-/

namespace Fdistdump.Args
open FieldSet

/-- The record limit that an option argument stands for, if it is one. -/
def storedLimit (limitOptarg : List Char) : Option Nat :=
  match convertLimit limitOptarg with
  | some (.ok recLimit) => some recLimit
  | _ => none

/-! ### Registers

Every option argument is kept in a register, which later options overwrite. -/

/-- The option loop when no option fails. -/
def runOpts (o : OptArgs) (opts : List Opt) : OptArgs := opts.foldl (fun o opt => (optStep o opt).2) o

def lastSet (register : OptArgs → Option (List Char)) (opts : List Opt) : Option (List Char) :=
  (opts.filterMap fun opt => register (optStep {} opt).2).getLast?

theorem optStep_fst (o : OptArgs) (opt : Opt) : (optStep o opt).1 = (optStep {} opt).1 := by
  cases opt with
  | outputFormat optarg =>
    simp only [optStep, setOutputFormat]
    split
    · rfl
    split <;> rfl
  | _ => rfl

theorem optLoop_ok {o o' : OptArgs} {opts : List Opt} :
    optLoop o opts = .ok o' ↔ (∀ opt ∈ opts, (optStep {} opt).1 = .ok) ∧ o' = runOpts o opts := by
  induction opts generalizing o with
  | nil => simp [optLoop, runOpts, eq_comm]
  | cons opt rest ih =>
    rw [optLoop, optStep_fst o opt, List.forall_mem_cons]
    by_cases accepted : (optStep {} opt).1 = .ok
    · rw [if_neg (not_not.mpr accepted), ih]
      simp [accepted, runOpts]
    · rw [if_pos accepted]
      simp [accepted]

/-- Setting a register does not depend on what was set before. -/
def Overwrites (register : OptArgs → Option (List Char)) : Prop :=
  ∀ o opt, register (optStep o opt).2 = (register (optStep {} opt).2).or (register o)

theorem overwrites_registers :
    Overwrites OptArgs.aggr ∧ Overwrites OptArgs.sort ∧ Overwrites OptArgs.limit := by
  refine ⟨?_, ?_, ?_⟩ <;> intro o opt
  all_goals
    cases opt with
    | statistic optarg =>
      simp only [optStep, parseStatSpec]
      split <;> rfl
    | outputFormat optarg =>
      simp only [optStep, setOutputFormat]
      split
      · rfl
      split <;> rfl
    | _ => rfl

theorem runOpts_register {register : OptArgs → Option (List Char)}
    (overwrites : Overwrites register) (o : OptArgs)
    (opts : List Opt) : register (runOpts o opts) = (lastSet register opts).or (register o) := by
  induction opts generalizing o with
  | nil => rfl
  | cons opt rest ih =>
    have first : runOpts o (opt :: rest) = runOpts (optStep o opt).2 rest := rfl
    rw [first, ih, overwrites o opt, lastSet, lastSet, List.filterMap_cons]
    cases register (optStep {} opt).2 with
    | none => rw [Option.none_or]
    | some value =>
      rw [List.getLast?_cons]
      cases (rest.filterMap fun opt => register (optStep {} opt).2).getLast? <;> rfl

theorem lastSet_append {register : OptArgs → Option (List Char)} (front back : List Opt) :
    lastSet register (front ++ back) = (lastSet register back).or (lastSet register front) := by
  rw [lastSet, List.filterMap_append, List.getLast?_append]
  rfl

theorem lastSet_cons {register : OptArgs → Option (List Char)} (opt : Opt) (back : List Opt) :
    lastSet register (opt :: back) = (lastSet register back).or (register (optStep {} opt).2) := by
  have single : lastSet register [opt] = register (optStep {} opt).2 := by
    rw [lastSet, List.filterMap_cons]
    cases register (optStep {} opt).2 <;> rfl
  rw [← List.singleton_append, lastSet_append, single]

theorem lastSet_eq_none {register : OptArgs → Option (List Char)} {opts : List Opt} :
    lastSet register opts = none ↔ ∀ opt ∈ opts, register (optStep {} opt).2 = none := by
  rw [lastSet, List.getLast?_eq_none_iff, List.filterMap_eq_nil_iff]

/-! ### The limit in effect -/

def Opt.explicitLimit : Opt → Option (List Char)
  | .limit optarg => some optarg
  | _ => none

def lastLimit (opts : List Opt) : Option (List Char) := (opts.filterMap Opt.explicitLimit).getLast?

def Opt.SetsLimit : Opt → Prop
  | .limit _ | .statistic _ => True
  | _ => False

/-- An `-l` option comes after every `-s` option. -/
def LimitLast (opts : List Opt) : Prop :=
  ∃ front optarg back, opts = front ++ .limit optarg :: back ∧ ∀ opt ∈ back, ¬ opt.SetsLimit

theorem setsLimit_iff (opt : Opt) : opt.SetsLimit ↔ (optStep {} opt).2.limit ≠ none := by
  cases opt with
  | statistic optarg =>
    simp only [Opt.SetsLimit, optStep, parseStatSpec]
    split <;> simp
  | outputFormat optarg =>
    simp only [Opt.SetsLimit, optStep, setOutputFormat]
    split
    · simp
    split <;> simp
  | _ => simp [Opt.SetsLimit, optStep]

theorem statistic_limit (optarg : List Char) :
    (optStep {} (.statistic optarg)).2.limit = some "10".toList := by
  simp only [optStep, parseStatSpec]
  split <;> rfl

theorem lastSet_limit_eq_none {opts : List Opt} :
    lastSet OptArgs.limit opts = none ↔ ∀ opt ∈ opts, ¬ opt.SetsLimit := by
  rw [lastSet_eq_none]
  apply forall₂_congr
  intro opt _
  rw [setsLimit_iff, not_not]

theorem exists_last_setter {opts : List Opt} (some : ∃ opt ∈ opts, opt.SetsLimit) :
    ∃ front opt back, opts = front ++ opt :: back ∧ opt.SetsLimit ∧ ∀ later ∈ back,
      ¬ later.SetsLimit := by
  induction opts with
  | nil =>
    obtain ⟨opt, member, -⟩ := some
    cases member
  | cons opt rest ih =>
    by_cases later : ∃ opt ∈ rest, opt.SetsLimit
    · obtain ⟨front, last, back, rfl, sets, none⟩ := ih later
      exact ⟨opt :: front, last, back, rfl, sets, none⟩
    · obtain ⟨setter, member, sets⟩ := some
      rcases List.mem_cons.mp member with rfl | member
      · exact ⟨[], setter, rest, rfl, sets, fun other inside sets => later ⟨other, inside, sets⟩⟩
      · exact absurd ⟨setter, member, sets⟩ later

theorem limit_of_limitLast {opts : List Opt} (last : LimitLast opts) :
    lastSet OptArgs.limit opts = lastLimit opts := by
  obtain ⟨front, optarg, back, rfl, none⟩ := last
  have explicit : back.filterMap Opt.explicitLimit = [] := by
    apply List.filterMap_eq_nil_iff.mpr
    intro opt member
    have unset := none opt member
    cases opt <;> first | rfl | exact absurd trivial unset
  rw [lastSet_append, lastSet_cons, lastSet_limit_eq_none.mpr none, lastLimit, List.filterMap_append,
    List.filterMap_cons, explicit]
  simp [Opt.explicitLimit, optStep]

theorem limit_of_statistic {opts : List Opt} {optarg : List Char} (statistic : .statistic optarg ∈ opts)
    (notLast : ¬ LimitLast opts) : lastSet OptArgs.limit opts = some "10".toList := by
  obtain ⟨front, opt, back, rfl, sets, none⟩ := exists_last_setter ⟨_, statistic, trivial⟩
  cases opt with
  | limit optarg => exact absurd ⟨front, optarg, back, rfl, none⟩ notLast
  | statistic optarg =>
    rw [lastSet_append, lastSet_cons, lastSet_limit_eq_none.mpr none, statistic_limit]
    rfl
  | _ => exact sets.elim

/-! ### Swapping two options -/

/-- A `-s` and an `-l` option in either order, and the options between and after them. -/
inductive Swapped (between after : List Opt) (limitOptarg : List Char) : List Opt → List Opt → Prop
  | statisticFirst (before : List Opt) (statOptarg : List Char) : Swapped between after limitOptarg
      (before ++ .statistic statOptarg :: (between ++ .limit limitOptarg :: after))
      (before ++ .limit limitOptarg :: (between ++ .statistic statOptarg :: after))
  | limitFirst (before : List Opt) (statOptarg : List Char) : Swapped between after limitOptarg
      (before ++ .limit limitOptarg :: (between ++ .statistic statOptarg :: after))
      (before ++ .statistic statOptarg :: (between ++ .limit limitOptarg :: after))

/-- The `-s` changes places with no other option whose aggregation or sort argument is in effect. -/
def Undisturbed (between after : List Opt) : Prop :=
  (lastSet OptArgs.aggr between = none ∨ lastSet OptArgs.aggr after ≠ none) ∧
    (lastSet OptArgs.sort between = none ∨ lastSet OptArgs.sort after ≠ none)

variable {between after opts swapped : List Opt} {limitOptarg : List Char}

theorem Swapped.perm (swap : Swapped between after limitOptarg opts swapped) : opts.Perm swapped := by
  cases swap with
  | statisticFirst before statOptarg | limitFirst before statOptarg =>
    apply List.Perm.append_left before
    exact (List.Perm.cons _ List.perm_middle).trans
      ((List.Perm.swap _ _ _).trans (List.Perm.cons _ List.perm_middle.symm))

theorem Swapped.lastSet_eq {register : OptArgs → Option (List Char)}
    (kept : ∀ optarg, register (optStep {} (.limit optarg)).2 = none)
    (undisturbed : lastSet register between = none ∨ lastSet register after ≠ none)
    (swap : Swapped between after limitOptarg opts swapped) :
    lastSet register swapped = lastSet register opts := by
  cases swap with
  | statisticFirst before statOptarg | limitFirst before statOptarg =>
    simp only [lastSet_append, lastSet_cons, kept, Option.or_none]
    cases later : lastSet register after with
    | some value => simp
    | none => simp [undisturbed.resolve_right (not_not.mpr later)]

theorem Swapped.lastSet_limit (swap : Swapped between after limitOptarg opts swapped) :
    lastSet OptArgs.limit swapped = lastSet OptArgs.limit opts ∧ (∃ opt ∈ after, opt.SetsLimit) ∨
      (∀ opt ∈ after, ¬ opt.SetsLimit) ∧
        (lastSet OptArgs.limit opts = some limitOptarg ∧
          lastSet OptArgs.limit swapped = some "10".toList ∨
          lastSet OptArgs.limit opts = some "10".toList ∧
          lastSet OptArgs.limit swapped = some limitOptarg) := by
  have explicit (optarg : List Char) : (optStep {} (.limit optarg)).2.limit = some optarg := rfl
  cases later : lastSet OptArgs.limit after with
  | some value =>
    left
    constructor
    · cases swap <;> simp [lastSet_append, lastSet_cons, later]
    · by_contra none
      rw [lastSet_limit_eq_none.mpr fun opt member sets => none ⟨opt, member, sets⟩] at later
      cases later
  | none =>
    right
    refine ⟨lastSet_limit_eq_none.mp later, ?_⟩
    cases swap with
    | statisticFirst before statOptarg =>
      left
      simp [lastSet_append, lastSet_cons, later, explicit, statistic_limit]
    | limitFirst before statOptarg =>
      right
      simp [lastSet_append, lastSet_cons, later, explicit, statistic_limit]

def OptArgs.others (o : OptArgs) : OptArgs := { o with aggr := none, limit := none, sort := none }

theorem others_optStep (o : OptArgs) (opt : Opt) :
    (optStep o opt).2.others = (optStep o.others opt).2.others := by
  cases opt with
  | statistic optarg =>
    simp only [optStep, parseStatSpec]
    split <;> rfl
  | outputFormat optarg =>
    simp only [optStep, setOutputFormat]
    split
    · rfl
    split <;> rfl
  | _ => rfl

theorem others_runOpts (o : OptArgs) (opts : List Opt) :
    (runOpts o opts).others = (runOpts o.others opts).others := by
  induction opts generalizing o with
  | nil => rfl
  | cons opt rest ih =>
    have unfold (o : OptArgs) : runOpts o (opt :: rest) = runOpts (optStep o opt).2 rest := rfl
    rw [unfold, unfold, ih, others_optStep, ← ih]

theorem others_cons {opt : Opt} (sets : opt.SetsLimit) (o : OptArgs) (rest : List Opt) :
    (runOpts o (opt :: rest)).others = (runOpts o rest).others := by
  have unfold : runOpts o (opt :: rest) = runOpts (optStep o opt).2 rest := rfl
  have same : (optStep o opt).2.others = o.others := by
    cases opt with
    | statistic optarg =>
      simp only [optStep, parseStatSpec]
      split <;> rfl
    | limit optarg => rfl
    | _ => exact sets.elim
  rw [unfold, others_runOpts, same, ← others_runOpts]

theorem runOpts_append (o : OptArgs) (front back : List Opt) :
    runOpts o (front ++ back) = runOpts (runOpts o front) back := List.foldl_append

theorem Swapped.others_eq (swap : Swapped between after limitOptarg opts swapped) (o : OptArgs) :
    (runOpts o swapped).others = (runOpts o opts).others := by
  have limit (optarg : List Char) : Opt.SetsLimit (.limit optarg) := trivial
  have statistic (optarg : List Char) : Opt.SetsLimit (.statistic optarg) := trivial
  cases swap with
  | statisticFirst before statOptarg | limitFirst before statOptarg =>
    simp only [runOpts_append, others_cons (limit _), others_cons (statistic _)]

/-! ### The stored limit -/

variable {lib : Libnf} {parsers : Parsers} {pathsCnt : Nat} {args : CmdlineArgs}

theorem ok_bind {α β : Type} {first : Except ErrorCode α} {next : α → Except ErrorCode β} {a : α}
    (h : first = .ok a) : first >>= next = next a := by
  rw [h]
  rfl

/-- The limit and the keys are read apart from each other and from everything else. -/
theorem finishArgs_congr {o o' : OptArgs} (accepted : finishArgs lib parsers o pathsCnt = .ok args)
    (mode : parseMode lib parsers o' = parseMode lib parsers o)
    (limit : parseLimit o' = .ok args.recLimit)
    (others : o'.others = o.others) : finishArgs lib parsers o' pathsCnt = .ok args := by
  obtain ⟨⟨first, fields⟩, modeParsed, accepted⟩ := bind_ok accepted
  obtain ⟨recLimit, -, accepted⟩ := bind_ok accepted
  obtain ⟨checked, othersChecked, accepted⟩ := bind_ok accepted
  obtain ⟨grown, outputParsed, accepted⟩ := bind_ok accepted
  cases accepted
  obtain ⟨aggr, limitOptarg, sort, filter, timePoint, timeRange, outputFields, items, format⟩ := o
  obtain ⟨aggr', limitOptarg', sort', filter', timePoint', timeRange', outputFields', items',
    format'⟩ := o'
  simp only [OptArgs.others, OptArgs.mk.injEq, true_and] at others
  obtain ⟨rfl, rfl, rfl, rfl, rfl, rfl⟩ := others
  have othersChecked' : checkOthers parsers ⟨aggr', limitOptarg', sort', filter', timePoint', timeRange',
      outputFields', items', format'⟩ pathsCnt = .ok checked := othersChecked
  have outputParsed' : parseOutputFields lib parsers ⟨aggr', limitOptarg', sort', filter',
    timePoint', timeRange',
      outputFields', items', format'⟩ _ fields = .ok grown := outputParsed
  exact (ok_bind (mode.trans modeParsed)).trans
    ((ok_bind limit).trans ((ok_bind othersChecked').trans (ok_bind outputParsed')))

theorem finishArgs_limit {o : OptArgs} (accepted : finishArgs lib parsers o pathsCnt = .ok args) :
    parseLimit o = .ok args.recLimit := by
  obtain ⟨⟨mode, fields⟩, -, accepted⟩ := bind_ok accepted
  obtain ⟨recLimit, limitParsed, accepted⟩ := bind_ok accepted
  obtain ⟨-, -, accepted⟩ := bind_ok accepted
  obtain ⟨grown, -, accepted⟩ := bind_ok accepted
  cases accepted
  exact limitParsed

/-- With an aggregation argument, equal arguments come from equal keys and sort keys. -/
theorem finishArgs_mode_eq (parses : ParsesFields lib parsers.fieldParse) {o o' : OptArgs}
    (accepted : finishArgs lib parsers o pathsCnt = .ok args)
    (accepted' : finishArgs lib parsers o' pathsCnt = .ok args)
    (aggregates : o.aggr.isSome) (aggregates' : o'.aggr.isSome) :
    parseMode lib parsers o' = parseMode lib parsers o := by
  obtain ⟨⟨mode, fields⟩, parsed, accepted⟩ := bind_ok accepted
  obtain ⟨recLimit, -, accepted⟩ := bind_ok accepted
  obtain ⟨-, -, accepted⟩ := bind_ok accepted
  obtain ⟨grown, output, accepted⟩ := bind_ok accepted
  obtain ⟨⟨mode', fields'⟩, parsed', accepted'⟩ := bind_ok accepted'
  obtain ⟨recLimit', -, accepted'⟩ := bind_ok accepted'
  obtain ⟨-, -, accepted'⟩ := bind_ok accepted'
  obtain ⟨grown', output', accepted'⟩ := bind_ok accepted'
  have first := Except.ok.inj accepted
  obtain rfl : grown = grown' := by
    have same := first.trans (Except.ok.inj accepted').symm
    exact congrArg CmdlineArgs.fields same
  have aggr := parseMode_mode parsed
  have aggr' := parseMode_mode parsed'
  rw [if_pos aggregates] at aggr
  rw [if_pos aggregates'] at aggr'
  rw [parsed, parsed', aggr, aggr', parseOutputFields_injective parses parsed parsed' output output']

theorem storedLimit_eq {o : OptArgs} {optarg : List Char} (set : o.limit = some optarg)
    (recLimit : Nat) :
    parseLimit o = .ok recLimit ↔ storedLimit optarg = some recLimit := by
  unfold parseLimit storedLimit
  rw [set]
  dsimp only
  cases convertLimit optarg with
  | none => simp
  | some converted => cases converted <;> simp

theorem argParse_ok :
    argParse lib parsers opts pathsCnt = .ok args ↔
      (∀ opt ∈ opts, (optStep {} opt).1 = .ok) ∧ finishArgs lib parsers (runOpts {} opts) pathsCnt =
        .ok args := by
  constructor
  · intro accepted
    obtain ⟨o, looped, accepted⟩ := bind_ok accepted
    obtain ⟨codes, rfl⟩ := optLoop_ok.mp looped
    exact ⟨codes, accepted⟩
  · intro ⟨codes, accepted⟩
    rw [argParse, optLoop_ok.mpr ⟨codes, rfl⟩]
    exact accepted

theorem runOpts_limit (opts : List Opt) : (runOpts {} opts).limit = lastSet OptArgs.limit opts := by
  rw [runOpts_register overwrites_registers.2.2]
  exact Option.or_none

theorem runOpts_aggr (opts : List Opt) : (runOpts {} opts).aggr = lastSet OptArgs.aggr opts := by
  rw [runOpts_register overwrites_registers.1]
  exact Option.or_none

theorem runOpts_sort (opts : List Opt) : (runOpts {} opts).sort = lastSet OptArgs.sort opts := by
  rw [runOpts_register overwrites_registers.2.1]
  exact Option.or_none

theorem argParse_limit {optarg : List Char} (accepted : argParse lib parsers opts pathsCnt = .ok args)
    (set : lastSet OptArgs.limit opts = some optarg) : storedLimit optarg = some args.recLimit := by
  obtain ⟨-, accepted⟩ := argParse_ok.mp accepted
  exact (storedLimit_eq ((runOpts_limit opts).trans set) _).mp (finishArgs_limit accepted)

theorem Swapped.limit_unchanged (swap : Swapped between after limitOptarg opts swapped)
    (accepted : argParse lib parsers opts pathsCnt = .ok args)
    (sets : lastSet OptArgs.limit opts ≠ none) :
    (∃ optarg, lastSet OptArgs.limit swapped = some optarg ∧ storedLimit optarg = some args.recLimit) ↔
      (∃ opt ∈ after, opt.SetsLimit) ∨ storedLimit limitOptarg = some 10 := by
  have ten : storedLimit "10".toList = some 10 := by decide
  rcases swap.lastSet_limit with ⟨same, later⟩ | ⟨none, ⟨before, afterwards⟩ | ⟨before, afterwards⟩⟩
  · obtain ⟨optarg, set⟩ := Option.ne_none_iff_exists'.mp sets
    exact iff_of_true ⟨optarg, same.trans set, argParse_limit accepted set⟩ (.inl later)
  all_goals
    have stored := argParse_limit accepted before
    have noLater : ¬ ∃ opt ∈ after, opt.SetsLimit := fun ⟨opt, member, sets⟩ => none opt member sets
    simp only [afterwards, Option.some.injEq, exists_eq_left', noLater, false_or]
  · rw [ten, stored]
    exact eq_comm
  · rw [← stored, ten]

theorem limit_ne_none {statOptarg : List Char} (statistic : .statistic statOptarg ∈ opts) :
    lastSet OptArgs.limit opts ≠ none :=
  fun none => lastSet_limit_eq_none.mp none _ statistic trivial

theorem aggr_isSome {statOptarg : List Char} (statistic : .statistic statOptarg ∈ opts) :
    (runOpts {} opts).aggr.isSome := by
  rw [runOpts_aggr, Option.isSome_iff_ne_none, ne_eq, lastSet_eq_none]
  intro none
  have unset := none _ statistic
  simp only [optStep, parseStatSpec] at unset
  split at unset <;> cases unset

variable (lib parsers) in
/-- The aggregation and sort arguments in effect name the same keys and the same sort key. -/
def SameKeys (opts swapped : List Opt) : Prop :=
  parseMode lib parsers { aggr := lastSet OptArgs.aggr swapped, sort := lastSet OptArgs.sort swapped } =
    parseMode lib parsers { aggr := lastSet OptArgs.aggr opts, sort := lastSet OptArgs.sort opts }

theorem sameKeys_iff :
    SameKeys lib parsers opts swapped ↔
      parseMode lib parsers (runOpts {} swapped) = parseMode lib parsers (runOpts {} opts) := by
  rw [SameKeys, ← runOpts_aggr, ← runOpts_aggr, ← runOpts_sort, ← runOpts_sort]
  exact Iff.rfl

theorem Swapped.sameKeys (swap : Swapped between after limitOptarg opts swapped)
    (undisturbed : Undisturbed between after) : SameKeys lib parsers opts swapped := by
  rw [SameKeys, swap.lastSet_eq (fun _ => rfl) undisturbed.1,
    swap.lastSet_eq (fun _ => rfl) undisturbed.2]

theorem Swapped.accepted_iff (parses : ParsesFields lib parsers.fieldParse) {statOptarg : List Char}
    (statistic : .statistic statOptarg ∈ opts) (accepted : argParse lib parsers opts pathsCnt = .ok args)
    (swap : Swapped between after limitOptarg opts swapped) :
    argParse lib parsers swapped pathsCnt = .ok args ↔
      ((∃ opt ∈ after, opt.SetsLimit) ∨ storedLimit limitOptarg = some 10) ∧
      SameKeys lib parsers opts swapped := by
  have moved := swap.perm.mem_iff.mp statistic
  have limit := swap.limit_unchanged accepted (limit_ne_none statistic)
  obtain ⟨codes, finished⟩ := argParse_ok.mp accepted
  rw [sameKeys_iff, ← limit]
  constructor
  · intro again
    obtain ⟨value, set⟩ := Option.ne_none_iff_exists'.mp (limit_ne_none moved)
    refine ⟨⟨value, set, argParse_limit again set⟩, ?_⟩
    exact finishArgs_mode_eq parses finished (argParse_ok.mp again).2 (aggr_isSome statistic)
      (aggr_isSome moved)
  · intro ⟨⟨value, set, stored⟩, keys⟩
    refine argParse_ok.mpr ⟨fun opt member => codes opt (swap.perm.mem_iff.mpr member), ?_⟩
    have limit := (storedLimit_eq ((runOpts_limit swapped).trans set) _).mpr stored
    exact finishArgs_congr finished keys limit (swap.others_eq {})

variable (lib parsers) in
/-- With `-s`, the last `-l` decides exactly when it comes after every `-s` or asks for the default.
A swap of a `-s` and an `-l` keeps the query exactly when the limit is set again after both of them
or the `-l` asks for the default, and the arguments in effect name the same keys; they do when the
`-s` passes no other option that decides on them. -/
theorem explicit_limit_wins_iff (parses : ParsesFields lib parsers.fieldParse) {statOptarg : List Char}
    (statistic : .statistic statOptarg ∈ opts)
    (accepted : argParse lib parsers opts pathsCnt = .ok args) :
    (∀ optarg, lastLimit opts = some optarg →
        (storedLimit optarg = some args.recLimit ↔ LimitLast opts ∨ storedLimit optarg = some 10)) ∧
      (lastLimit opts = none → args.recLimit = 10) ∧
      ∀ between after optarg swapped, Swapped between after optarg opts swapped →
        (argParse lib parsers swapped pathsCnt = .ok args ↔
          ((∃ opt ∈ after, opt.SetsLimit) ∨ storedLimit optarg = some 10) ∧
          SameKeys lib parsers opts swapped) ∧
        (Undisturbed between after → SameKeys lib parsers opts swapped) := by
  have default (notLast : ¬ LimitLast opts) : args.recLimit = 10 := by
    have set := argParse_limit accepted (limit_of_statistic statistic notLast)
    have ten : storedLimit "10".toList = some 10 := by decide
    rw [ten] at set
    exact (Option.some.inj set).symm
  refine ⟨fun optarg last => ?_, fun none => ?_, fun between after optarg swapped swap =>
    ⟨?_, swap.sameKeys⟩⟩
  · by_cases limitLast : LimitLast opts
    · have set := argParse_limit accepted ((limit_of_limitLast limitLast).trans last)
      exact ⟨fun _ => .inl limitLast, fun _ => set⟩
    · rw [default limitLast]
      exact ⟨.inr, fun h => h.resolve_left limitLast⟩
  · apply default
    intro limitLast
    obtain ⟨front, optarg, back, rfl, -⟩ := limitLast
    rw [lastLimit, List.getLast?_eq_none_iff, List.filterMap_eq_nil_iff] at none
    cases none (.limit optarg) (by simp)
  · exact swap.accepted_iff parses statistic accepted

def keyed : Parsers where
  fieldParse token :=
    if token = "3".toList then some ⟨3, 0, 0⟩
    else if token = "2".toList then some ⟨2, 0, 0⟩
    else if token = "1".toList then some ⟨1, 0, 0⟩
    else none
  setFilter _ := .ok
  setTimePoint _ := .ok
  setTimeRange _ := .ok

theorem keyed_parses : ParsesFields fiveFields keyed.fieldParse := by
  intro token field parsed
  simp only [keyed] at parsed
  split_ifs at parsed <;> obtain rfl := Option.some.inj parsed <;> decide

theorem explicit_limit_wins_iff_after : ∃ args,
    argParse fiveFields keyed [.statistic "3#1".toList, .limit "5".toList, .outputFields []] 1 =
      .ok args ∧
      (storedLimit "5".toList = some args.recLimit ↔
        LimitLast [.statistic "3#1".toList, .limit "5".toList, .outputFields []] ∨
          storedLimit "5".toList = some 10) := by
  have accepted : ∃ args, argParse fiveFields keyed
      [.statistic "3#1".toList, .limit "5".toList, .outputFields []] 1 = .ok args := ⟨_, rfl⟩
  obtain ⟨args, accepted⟩ := accepted
  exact ⟨args, accepted,
    (explicit_limit_wins_iff fiveFields keyed keyed_parses (List.mem_cons_self ..) accepted).1 _ rfl⟩

/-- `-l 5 -s 3#1` limits the query to ten records, `-s 3#1 -l 5` to five. -/
theorem explicit_limit_lost_before_statistic :
    storedLimit "5".toList = some 5 ∧
      (argParse fiveFields keyed [.limit "5".toList, .statistic "3#1".toList, .outputFields []] 1).map
        CmdlineArgs.recLimit = .ok 10 ∧
      (argParse fiveFields keyed [.statistic "3#1".toList, .limit "5".toList, .outputFields []] 1).map
        CmdlineArgs.recLimit = .ok 5 := by
  refine ⟨by decide, rfl, rfl⟩

end Fdistdump.Args
