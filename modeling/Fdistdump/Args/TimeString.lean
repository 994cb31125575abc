import Fdistdump.Args.Integers
import Fdistdump.Args.Specs
import Fdistdump.Time.BrokenDown

/-!
# Time strings

`str_to_tm`: the tokens of a time string are converted by `strptime`, and what they leave unassigned is
filled in from the current local time, so that an incomplete specification means its most recent match.
-/

namespace Fdistdump.Args
open Gregorian Time

/-- `struct tm` with the day of the week, from Sunday. -/
structure StructTm extends Tm where
  wday : Int
deriving DecidableEq, Repr

/-- `strptime` on a string, a format and a structure: the rest of the string, and the structure. -/
abbrev Strptime : Type := List Char → String → StructTm → Option (List Char × StructTm)

def timeDelim : List Char := [' ', '\t', '\n', '\x0b', '\x0c', '\r']

def dateFormats : List String := ["%Y-%m-%d", "%d.%m.%Y", "%m/%d/%Y", "%H:%M", "%a", "%b", "%s"]

/-- The tokens that `strtok_r` finds with `TIME_DELIM`; `token` is the beginning of the current one. -/
def timeTokens : List Char → List Char → List (List Char)
  | token, [] => if token = [] then [] else [token]
  | token, c :: rest =>
    if c ∈ timeDelim then (if token = [] then [] else [token]) ++ timeTokens [] rest
    else timeTokens (token ++ [c]) rest

def unassigned : StructTm where
  sec := intMin
  min := intMin
  hour := intMin
  mday := intMin
  mon := intMin
  year := intMin
  yday := intMin
  wday := intMin

section Source
variable (strptime : Strptime) (attempt now : StructTm)

/-- The whole token is converted; `attempt` is the uninitialised structure of the trial. -/
def accepts (token : List Char) (format : String) : Bool :=
  match strptime token format attempt with
  | some (rest, _) => rest = []
  | none => false

def recognise (token : List Char) : Option String := dateFormats.find? (accepts strptime attempt token)

/-- The loop over the formats: the second conversion goes into `tm`. -/
def strptimeToken (token : List Char) (tm : StructTm) : Option StructTm :=
  (recognise strptime attempt token).bind fun format => (strptime token format tm).map Prod.snd

def parseTimeTokens : List (List Char) → StructTm → Option StructTm
  | [], tm => some tm
  | token :: rest, tm => (strptimeToken strptime attempt token tm).bind (parseTimeTokens rest)

def fillWeekday (tm : StructTm) : StructTm :=
  if 0 ≤ tm.wday ∧ tm.wday ≤ 6 ∧ tm.year = intMin ∧ tm.mon = intMin ∧ tm.mday = intMin then
    { tm with
      year := now.year
      mon := now.mon
      mday := now.mday - (now.wday - tm.wday + 7).tmod 7 }
  else tm

def fillMonth (tm : StructTm) : StructTm :=
  if 0 ≤ tm.mon ∧ tm.mon ≤ 11 ∧ tm.mday = intMin then
    { tm with
      year :=
        if tm.year = intMin then if tm.mon - now.mon > 0 then now.year - 1 else now.year
        else tm.year
      mday := 1 }
  else tm

def orDefault (member default : Int) : Int := if member = intMin then default else member

def fillTime (tm : StructTm) : StructTm :=
  { tm with
    hour := orDefault tm.hour 0
    min := orDefault tm.min 0
    sec := orDefault tm.sec 0 }

def fillDate (tm : StructTm) : StructTm :=
  if 0 ≤ tm.hour ∧ tm.hour ≤ 23 ∧ tm.mon = intMin ∧ tm.mday = intMin ∧ tm.wday = intMin then
    { tm with
      mon := now.mon
      mday := if tm.hour - now.hour > 0 then now.mday - 1 else now.mday }
  else tm

def fillGaps (tm : StructTm) : StructTm :=
  { tm with
    year := orDefault tm.year now.year
    mon := orDefault tm.mon now.mon }

/-- Everything between the token loop and the normalisation. -/
def fillUntouched (tm : StructTm) : StructTm :=
  fillGaps now (fillDate now (fillTime (fillMonth now (fillWeekday now tm))))

/-- `str_to_tm` up to the normalisation; `now` is the current local time. A newline at the front
fails the assertion. -/
def strToTmUntouched (timeStr : List Char) : Except ErrorCode StructTm :=
  if timeStr.head? = some '\n' then .error .assertion
  else
    match parseTimeTokens strptime attempt (timeTokens [] timeStr) unassigned with
    | none => .error .arg
    | some tm => .ok (fillUntouched now tm)

def strToTm (timeStr : List Char) : Except ErrorCode Tm :=
  (strToTmUntouched strptime attempt now timeStr).map fun tm => (mktimeUtc tm.toTm).2

end Source

/-! ### What `strptime` sets -/

def SetsDate (set : StructTm → StructTm) : Prop :=
  ∃ year mon mday, -tmYearBase ≤ year ∧ (0 ≤ mon ∧ mon ≤ 11) ∧ (1 ≤ mday ∧ mday ≤ 31) ∧
    set = fun tm => { tm with year := year, mon := mon, mday := mday }

def SetsClock (set : StructTm → StructTm) : Prop :=
  ∃ hour min, (0 ≤ hour ∧ hour ≤ 23) ∧ (0 ≤ min ∧ min ≤ 59) ∧
    set = fun tm => { tm with hour := hour, min := min }

def SetsWeekday (set : StructTm → StructTm) : Prop :=
  ∃ wday, (0 ≤ wday ∧ wday ≤ 6) ∧ set = fun tm => { tm with wday := wday }

def SetsMonth (set : StructTm → StructTm) : Prop :=
  ∃ mon, (0 ≤ mon ∧ mon ≤ 11) ∧ set = fun tm => { tm with mon := mon }

/-- Members that are assigned and in range. -/
structure Assigned (tm : StructTm) : Prop where
  sec : 0 ≤ tm.sec ∧ tm.sec ≤ 60
  min : 0 ≤ tm.min ∧ tm.min ≤ 59
  hour : 0 ≤ tm.hour ∧ tm.hour ≤ 23
  mday : 1 ≤ tm.mday ∧ tm.mday ≤ 31
  mon : 0 ≤ tm.mon ∧ tm.mon ≤ 11
  year : -tmYearBase ≤ tm.year
  wday : 0 ≤ tm.wday ∧ tm.wday ≤ 6

/-- The number of seconds since the Epoch names every member. -/
def SetsEpoch (set : StructTm → StructTm) : Prop := ∃ tm, Assigned tm ∧ set = fun _ => tm

/-- On a string that it converts, `strptime` stores the values it reads in the members that the format
names, and nothing else. -/
def Strptime.Sets (strptime : Strptime) (format : String) (names : (StructTm → StructTm) → Prop) :
    Prop :=
  ∀ token, (∀ tm, strptime token format tm = none) ∨
    ∃ rest set, names set ∧ ∀ tm, strptime token format tm = some (rest, set tm)

structure Strptime.Documented (strptime : Strptime) : Prop where
  date : ∀ format ∈ ["%Y-%m-%d", "%d.%m.%Y", "%m/%d/%Y"], strptime.Sets format SetsDate
  clock : strptime.Sets "%H:%M" SetsClock
  weekday : strptime.Sets "%a" SetsWeekday
  month : strptime.Sets "%b" SetsMonth
  epoch : strptime.Sets "%s" SetsEpoch

/-! ### The most recent match -/

/-- Sunday is day 0, as in `tm_wday`; day 0 of the calendar is a Monday. -/
def weekdayOf (date : Date) : Int := (date.dayNumber + 1) % 7

/-- `now` is a time on the day `today`. The members are of type `int`, also the year before. -/
structure StructTm.IsOn (now : StructTm) (today : Date) : Prop where
  hour : 0 ≤ now.hour ∧ now.hour ≤ 23
  mday : now.mday = today.day
  mon : now.mon = today.month
  year : now.year = today.year - tmYearBase
  wday : now.wday = weekdayOf today
  representable : intMin < now.year - 1

def tmAt (date : Date) (hour min : Int) : Tm where
  sec := 0
  min := min
  hour := hour
  mday := date.day
  mon := date.month
  year := date.year - tmYearBase
  yday := date.yday

def Unique (holds : Date → Prop) (date : Date) : Prop := holds date ∧ ∀ other, holds other → other = date

/-- A date on the weekday, of the seven days that end today. -/
def InWeek (today : Date) (wday : Int) (date : Date) : Prop :=
  today.dayNumber - 7 < date.dayNumber ∧ date.dayNumber ≤ today.dayNumber ∧ weekdayOf date = wday

def monthNumber (date : Date) : Int := 12 * date.year + date.month

/-- The first of the month, of the twelve months that end with the current one. -/
def InYear (today : Date) (mon : Int) (date : Date) : Prop :=
  monthNumber today - 12 < monthNumber date ∧ monthNumber date ≤ monthNumber today ∧ date.month = mon ∧
    date.day = 1

/-- The date whose hour is one of the 24 that end with the current one. -/
def InDay (today : Date) (nowHour hour : Int) (date : Date) : Prop :=
  24 * today.dayNumber + nowHour - 24 < 24 * date.dayNumber + hour ∧
    24 * date.dayNumber + hour ≤ 24 * today.dayNumber + nowHour

variable (strptime : Strptime) (attempt now : StructTm)

/-- Every token is recognised as one of the formats. -/
def OnlyFormats (formats : List String) (timeStr : List Char) : Prop :=
  ∀ token ∈ timeTokens [] timeStr, ∃ format ∈ formats, recognise strptime attempt token = some format

def HasFormat (format : String) (timeStr : List Char) : Prop :=
  ∃ token ∈ timeTokens [] timeStr, recognise strptime attempt token = some format

def parsed (timeStr : List Char) : Option StructTm :=
  parseTimeTokens strptime attempt (timeTokens [] timeStr) unassigned

/-- The assertion at the head of `str_to_tm` holds. -/
def Asserted (timeStr : List Char) : Prop := timeStr.head? ≠ some '\n'

inductive Member
  | sec
  | min
  | hour
  | mday
  | mon
  | year
  | yday
  | wday
deriving DecidableEq, Repr

/-- The members that a format names; the seconds since the Epoch name all of them. -/
def formatMembers (format : String) : List Member :=
  if format ∈ ["%Y-%m-%d", "%d.%m.%Y", "%m/%d/%Y"] then [.year, .mon, .mday]
  else if format = "%H:%M" then [.hour, .min]
  else if format = "%a" then [.wday]
  else if format = "%b" then [.mon]
  else [.sec, .min, .hour, .mday, .mon, .year, .yday, .wday]

/-- No member is assigned by both tokens. -/
def Apart (token other : List Char) : Prop :=
  ∀ format format', recognise strptime attempt token = some format →
    recognise strptime attempt other = some format' →
    ∀ member ∈ formatMembers format, member ∉ formatMembers format'

/-- How incomplete time strings are completed; a missing time of day is midnight. Tokens that assign
different members can be exchanged, unless a token between them assigns one of these members too. -/
structure MostRecent (today : Date) : Prop where
  weekday : ∀ timeStr, Asserted timeStr → OnlyFormats strptime attempt ["%a", "%H:%M"] timeStr →
    HasFormat strptime attempt "%a" timeStr →
    ∃ tm date, parsed strptime attempt timeStr = some tm ∧ Unique (InWeek today tm.wday) date ∧
      strToTm strptime attempt now timeStr = .ok (tmAt date (orDefault tm.hour 0) (orDefault tm.min 0))
  month : ∀ timeStr, Asserted timeStr → OnlyFormats strptime attempt ["%b", "%a", "%H:%M"] timeStr →
    HasFormat strptime attempt "%b" timeStr →
    ∃ tm date, parsed strptime attempt timeStr = some tm ∧ Unique (InYear today tm.mon) date ∧
      strToTm strptime attempt now timeStr = .ok (tmAt date (orDefault tm.hour 0) (orDefault tm.min 0))
  clock : ∀ timeStr, Asserted timeStr → OnlyFormats strptime attempt ["%H:%M"] timeStr →
    ∃ tm date, parsed strptime attempt timeStr = some tm ∧
      Unique (InDay today now.hour (orDefault tm.hour 0)) date ∧
      strToTm strptime attempt now timeStr = .ok (tmAt date (orDefault tm.hour 0) (orDefault tm.min 0))
  assigned : ∀ timeStr tm, strToTmUntouched strptime attempt now timeStr = .ok tm →
    tm.year ≠ intMin ∧ tm.mon ≠ intMin ∧ tm.mday ≠ intMin ∧ tm.hour ≠ intMin ∧ tm.min ≠ intMin ∧
      tm.sec ≠ intMin
  recognised : ∀ timeStr, Asserted timeStr → OnlyFormats strptime attempt dateFormats timeStr →
    ∃ tm, strToTm strptime attempt now timeStr = .ok tm
  exchanged : ∀ timeStr permuted front first between second back, Asserted timeStr → Asserted permuted →
    timeTokens [] timeStr = front ++ first :: (between ++ second :: back) →
    timeTokens [] permuted = front ++ second :: (between ++ first :: back) →
    Apart strptime attempt first second →
    (∀ token ∈ between, Apart strptime attempt first token ∧ Apart strptime attempt second token) →
    strToTm strptime attempt now timeStr = strToTm strptime attempt now permuted

variable {strptime attempt now}

/-! ### The token loop -/

theorem token_sets {format : String} {names : (StructTm → StructTm) → Prop}
    (law : strptime.Sets format names)
    {token : List Char} (found : recognise strptime attempt token = some format) :
    ∃ set, names set ∧ ∀ tm, strptimeToken strptime attempt token tm = some (set tm) := by
  have accepted : accepts strptime attempt token format = true := List.find?_some found
  rcases law token with fails | ⟨rest, set, named, stores⟩
  · simp [accepts, fails] at accepted
  · refine ⟨set, named, ?_⟩
    intro tm
    rw [strptimeToken, found, Option.bind_some, stores]
    rfl

/-- What all conversions of the tokens keep holds of the result, and there is one. -/
theorem parseTimeTokens_keeps {P : StructTm → Prop} {tokens : List (List Char)}
    (kept : ∀ token ∈ tokens, ∀ tm, P tm → ∃ next,
      strptimeToken strptime attempt token tm = some next ∧ P next)
    {tm : StructTm} (before : P tm) :
    ∃ last, parseTimeTokens strptime attempt tokens tm = some last ∧ P last := by
  induction tokens generalizing tm with
  | nil => exact ⟨tm, rfl, before⟩
  | cons token rest ih =>
    obtain ⟨here, others⟩ := List.forall_mem_cons.mp kept
    obtain ⟨next, converted, after⟩ := here tm before
    obtain ⟨last, ran, holds⟩ := ih others after
    exact ⟨last, by rw [parseTimeTokens, converted, Option.bind_some, ran], holds⟩

theorem parseTimeTokens_append (front back : List (List Char)) (tm : StructTm) :
    parseTimeTokens strptime attempt (front ++ back) tm =
      (parseTimeTokens strptime attempt front tm).bind (parseTimeTokens strptime attempt back) := by
  induction front generalizing tm with
  | nil => rfl
  | cons token rest ih =>
    simp only [List.cons_append, parseTimeTokens, Option.bind_assoc]
    exact congrArg _ (funext ih)

/-! ### Tokens that leave the date alone -/

/-- What weekdays, months and times of day leave: no day and no year. -/
structure NoDate (tm : StructTm) : Prop where
  year : tm.year = intMin
  mday : tm.mday = intMin
  sec : tm.sec = intMin
  clock : (tm.hour = intMin ∨ 0 ≤ tm.hour ∧ tm.hour ≤ 23) ∧ (tm.min = intMin ∨ 0 ≤ tm.min ∧ tm.min ≤ 59)

theorem unassigned_noDate : NoDate unassigned := ⟨rfl, rfl, rfl, Or.inl rfl, Or.inl rfl⟩

theorem NoDate.clock_default {tm : StructTm} (noDate : NoDate tm) :
    (0 ≤ orDefault tm.hour 0 ∧ orDefault tm.hour 0 ≤ 23) ∧
    (0 ≤ orDefault tm.min 0 ∧ orDefault tm.min 0 ≤ 59) := by
  obtain ⟨hour, min⟩ := noDate.clock
  unfold orDefault
  constructor <;> split <;> omega

variable (documented : strptime.Documented)
include documented

theorem clock_noDate {token : List Char} (found : recognise strptime attempt token = some "%H:%M")
    (tm : StructTm)
    (noDate : NoDate tm) : ∃ next, strptimeToken strptime attempt token tm = some next ∧ NoDate next ∧
      next.mon = tm.mon ∧ next.wday = tm.wday := by
  obtain ⟨set, ⟨hour, min, hourRange, minRange, rfl⟩, stores⟩ := token_sets documented.clock found
  exact ⟨_, stores tm, ⟨noDate.year, noDate.mday, noDate.sec, Or.inr hourRange, Or.inr minRange⟩,
    rfl, rfl⟩

theorem weekday_noDate {token : List Char} (found : recognise strptime attempt token = some "%a")
    (tm : StructTm)
    (noDate : NoDate tm) : ∃ next, strptimeToken strptime attempt token tm = some next ∧ NoDate next ∧
      next.mon = tm.mon ∧ 0 ≤ next.wday ∧ next.wday ≤ 6 := by
  obtain ⟨set, ⟨wday, range, rfl⟩, stores⟩ := token_sets documented.weekday found
  exact ⟨_, stores tm, ⟨noDate.year, noDate.mday, noDate.sec, noDate.clock⟩, rfl, range⟩

theorem month_noDate {token : List Char} (found : recognise strptime attempt token = some "%b")
    (tm : StructTm)
    (noDate : NoDate tm) : ∃ next, strptimeToken strptime attempt token tm = some next ∧ NoDate next ∧
      0 ≤ next.mon ∧ next.mon ≤ 11 := by
  obtain ⟨set, ⟨mon, range, rfl⟩, stores⟩ := token_sets documented.month found
  exact ⟨_, stores tm, ⟨noDate.year, noDate.mday, noDate.sec, noDate.clock⟩, range⟩

omit documented in
/-- One of the tokens has the format: it turns `P` into `Q`, which the tokens behind it keep. -/
theorem parsed_through {P Q : StructTm → Prop} {format : String} {timeStr : List Char}
    (kept : ∀ token ∈ timeTokens [] timeStr, ∀ tm, P tm →
      ∃ next, strptimeToken strptime attempt token tm = some next ∧ P next)
    (turns : ∀ token, recognise strptime attempt token = some format → ∀ tm, P tm →
      ∃ next, strptimeToken strptime attempt token tm = some next ∧ Q next)
    (keptAfter : ∀ token ∈ timeTokens [] timeStr, ∀ tm, Q tm →
      ∃ next, strptimeToken strptime attempt token tm = some next ∧ Q next)
    (start : P unassigned) (has : HasFormat strptime attempt format timeStr) :
    ∃ tm, parsed strptime attempt timeStr = some tm ∧ Q tm := by
  obtain ⟨token, member, found⟩ := has
  obtain ⟨front, back, split⟩ := List.append_of_mem member
  rw [split] at kept keptAfter
  obtain ⟨first, ranFront, before⟩ :=
    parseTimeTokens_keeps (fun other inFront => kept other (List.mem_append_left _ inFront)) start
  obtain ⟨next, converted, turned⟩ := turns token found first before
  obtain ⟨last, ranBack, after⟩ := parseTimeTokens_keeps
    (fun other inBack => keptAfter other (List.mem_append_right _ (List.mem_cons_of_mem _ inBack)))
      turned
  refine ⟨last, ?_, after⟩
  rw [parsed, split, parseTimeTokens_append, ranFront, Option.bind_some, parseTimeTokens, converted,
    Option.bind_some, ranBack]

theorem parsed_weekday {timeStr : List Char}
    (only : OnlyFormats strptime attempt ["%a", "%H:%M"] timeStr)
    (has : HasFormat strptime attempt "%a" timeStr) :
    ∃ tm, parsed strptime attempt timeStr = some tm ∧ NoDate tm ∧ tm.mon = intMin ∧ 0 ≤ tm.wday ∧
      tm.wday ≤ 6 := by
  refine parsed_through (P := fun tm => NoDate tm ∧ tm.mon = intMin) ?_ ?_ ?_
    ⟨unassigned_noDate, rfl⟩ has
  · intro token member tm ⟨noDate, noMonth⟩
    obtain ⟨format, isOne, found⟩ := only token member
    rcases List.mem_pair.mp isOne with rfl | rfl
    · obtain ⟨next, converted, after, mon, -⟩ := weekday_noDate documented found tm noDate
      exact ⟨next, converted, after, mon.trans noMonth⟩
    · obtain ⟨next, converted, after, mon, -⟩ := clock_noDate documented found tm noDate
      exact ⟨next, converted, after, mon.trans noMonth⟩
  · intro token found tm ⟨noDate, noMonth⟩
    obtain ⟨next, converted, after, mon, wday⟩ := weekday_noDate documented found tm noDate
    exact ⟨next, converted, after, mon.trans noMonth, wday⟩
  · intro token member tm ⟨noDate, noMonth, range⟩
    obtain ⟨format, isOne, found⟩ := only token member
    rcases List.mem_pair.mp isOne with rfl | rfl
    · obtain ⟨next, converted, after, mon, wday⟩ := weekday_noDate documented found tm noDate
      exact ⟨next, converted, after, mon.trans noMonth, wday⟩
    · obtain ⟨next, converted, after, mon, wday⟩ := clock_noDate documented found tm noDate
      exact ⟨next, converted, after, mon.trans noMonth, by omega⟩

theorem parsed_month {timeStr : List Char}
    (only : OnlyFormats strptime attempt ["%b", "%a", "%H:%M"] timeStr)
    (has : HasFormat strptime attempt "%b" timeStr) :
    ∃ tm, parsed strptime attempt timeStr = some tm ∧ NoDate tm ∧ 0 ≤ tm.mon ∧ tm.mon ≤ 11 := by
  refine parsed_through (P := NoDate) ?_ (fun token => month_noDate documented) ?_ unassigned_noDate has
  · intro token member tm noDate
    obtain ⟨format, isOne, found⟩ := only token member
    simp only [List.mem_cons, List.not_mem_nil, or_false] at isOne
    rcases isOne with rfl | rfl | rfl
    · obtain ⟨next, converted, after, -⟩ := month_noDate documented found tm noDate
      exact ⟨next, converted, after⟩
    · obtain ⟨next, converted, after, -⟩ := weekday_noDate documented found tm noDate
      exact ⟨next, converted, after⟩
    · obtain ⟨next, converted, after, -⟩ := clock_noDate documented found tm noDate
      exact ⟨next, converted, after⟩
  · rintro token member tm ⟨noDate, range⟩
    obtain ⟨format, isOne, found⟩ := only token member
    simp only [List.mem_cons, List.not_mem_nil, or_false] at isOne
    rcases isOne with rfl | rfl | rfl
    · exact month_noDate documented found tm noDate
    · obtain ⟨next, converted, after, mon, -⟩ := weekday_noDate documented found tm noDate
      exact ⟨next, converted, after, mon ▸ range⟩
    · obtain ⟨next, converted, after, mon, -⟩ := clock_noDate documented found tm noDate
      exact ⟨next, converted, after, mon ▸ range⟩

theorem parsed_clock {timeStr : List Char} (only : OnlyFormats strptime attempt ["%H:%M"] timeStr) :
    ∃ tm, parsed strptime attempt timeStr = some tm ∧ NoDate tm ∧ tm.mon = intMin ∧
      tm.wday = intMin := by
  refine parseTimeTokens_keeps (P := fun tm => NoDate tm ∧ tm.mon = intMin ∧ tm.wday = intMin) ?_
    ⟨unassigned_noDate, rfl, rfl⟩
  intro token member tm ⟨noDate, noMonth, noWeekday⟩
  obtain ⟨format, isOne, found⟩ := only token member
  obtain rfl := List.mem_singleton.mp isOne
  obtain ⟨next, converted, after, mon, wday⟩ := clock_noDate documented found tm noDate
  exact ⟨next, converted, after, mon.trans noMonth, wday.trans noWeekday⟩

omit documented

/-! ### Filling in -/

theorem tmAt_normalised {date : Date} {hour min : Int} (hourRange : 0 ≤ hour ∧ hour ≤ 23)
    (minRange : 0 ≤ min ∧ min ≤ 59) : (tmAt date hour min).Normalised where
  sec := ⟨Int.le_refl 0, show (0 : Int) < 60 by decide⟩
  min := by simp only [tmAt]; omega
  hour := by simp only [tmAt]; omega
  date := ⟨date, rfl, rfl, rfl, rfl⟩

theorem mktimeUtc_of_days {tm : Tm} (base : Date) {date : Date} (year : tm.year = base.year - tmYearBase)
    (mon : tm.mon = base.month) (days : date.dayNumber = base.dayNumber + (tm.mday - base.day))
    (hour : 0 ≤ tm.hour ∧ tm.hour ≤ 23) (min : 0 ≤ tm.min ∧ tm.min ≤ 59) (sec : tm.sec = 0) :
    (mktimeUtc tm).2 = tmAt date tm.hour tm.min := by
  have onBase : calendarTime { tm with mday := base.day } =
      86400 * (base.dayNumber - epochDay) + 3600 * tm.hour + 60 * tm.min + tm.sec :=
    calendarTime_of_date base year mon rfl
  have moved : calendarTime tm = calendarTime { tm with mday := base.day } + 86400 *
      (tm.mday - base.day) := by
    simp only [calendarTime]
    omega
  have target : calendarTime (tmAt date tm.hour tm.min) = _ := calendarTime_of_date date rfl rfl rfl
  have same : calendarTime tm = calendarTime (tmAt date tm.hour tm.min) := by
    rw [moved, onBase, target, days]
    simp only [tmAt]
    omega
  rw [mktimeUtc_snd, same]
  exact gmtime_calendarTime (tmAt_normalised hour min)

theorem orDefault_of_ne {member default : Int} (given : member ≠ intMin) :
    orDefault member default = member :=
  if_neg given

theorem NoDate.sec_default {tm : StructTm} (noDate : NoDate tm) : orDefault tm.sec 0 = 0 :=
  if_pos noDate.sec

theorem NoDate.year_default {tm : StructTm} (noDate : NoDate tm) (default : Int) :
    orDefault tm.year default = default := if_pos noDate.year

section Filling

variable {tm : StructTm} {today : Date} (isOn : now.IsOn today)
include isOn

theorem StructTm.IsOn.members :
    1 ≤ now.mday ∧ 0 ≤ now.mon ∧ now.mon ≤ 11 ∧ 0 ≤ now.wday ∧ now.wday ≤ 6 := by
  have day := today.day_pos
  have month := today.month_lt
  have wday := isOn.wday
  rw [isOn.mday, isOn.mon]
  unfold weekdayOf at wday
  omega

theorem fillUntouched_weekday (noDate : NoDate tm) (noMonth : tm.mon = intMin)
    (wday : 0 ≤ tm.wday ∧ tm.wday ≤ 6) :
    fillUntouched now tm =
      { tm with
        sec := 0
        min := orDefault tm.min 0
        hour := orDefault tm.hour 0
        mday := now.mday - (now.wday - tm.wday + 7) % 7
        mon := now.mon
        year := now.year } := by
  obtain ⟨mday, mon, mon', wday0, wday6⟩ := isOn.members
  have year := isOn.representable
  have week : fillWeekday now tm =
      { tm with
        year := now.year
        mon := now.mon
        mday := now.mday - (now.wday - tm.wday + 7) % 7 } := by
    rw [fillWeekday, if_pos ⟨wday.1, wday.2, noDate.year, noMonth, noDate.mday⟩,
      Int.tmod_eq_emod_of_nonneg (by omega)]
  have day : now.mday - (now.wday - tm.wday + 7) % 7 ≠ intMin := by unfold intMin; omega
  have month : now.mon ≠ intMin := by unfold intMin; omega
  rw [fillUntouched, week, fillMonth, if_neg fun only => day only.2.2, fillTime, fillDate,
    if_neg fun only => month only.2.2.1, fillGaps]
  simp only [noDate.sec_default, orDefault_of_ne month,
    orDefault_of_ne (show now.year ≠ intMin by omega)]

theorem fillUntouched_month (noDate : NoDate tm) (mon : 0 ≤ tm.mon ∧ tm.mon ≤ 11) :
    fillUntouched now tm =
      { tm with
        sec := 0
        min := orDefault tm.min 0
        hour := orDefault tm.hour 0
        mday := 1
        year := if now.mon < tm.mon then now.year - 1 else now.year } := by
  have representable := isOn.representable
  have month : tm.mon ≠ intMin := by unfold intMin; omega
  have later : tm.mon - now.mon > 0 ↔ now.mon < tm.mon := by omega
  have year : (if now.mon < tm.mon then now.year - 1 else now.year) ≠ intMin := by split <;> omega
  have one : (1 : Int) ≠ intMin := by decide
  rw [fillUntouched, fillWeekday, if_neg fun only => month only.2.2.2.1, fillMonth,
    if_pos ⟨mon.1, mon.2, noDate.mday⟩, if_pos noDate.year, fillTime, fillDate,
    if_neg fun only => month only.2.2.1, fillGaps]
  simp only [noDate.sec_default, later, orDefault_of_ne month, orDefault_of_ne year]

omit isOn in
theorem fillUntouched_clock (noDate : NoDate tm) (noMonth : tm.mon = intMin)
    (noWeekday : tm.wday = intMin) (monthOf : now.mon ≠ intMin) :
    fillUntouched now tm =
      { tm with
        sec := 0
        min := orDefault tm.min 0
        hour := orDefault tm.hour 0
        mday := if now.hour < orDefault tm.hour 0 then now.mday - 1 else now.mday
        mon := now.mon
        year := now.year } := by
  obtain ⟨hour, -⟩ := noDate.clock_default
  have later : orDefault tm.hour 0 - now.hour > 0 ↔ now.hour < orDefault tm.hour 0 := by omega
  have noWeek : ¬ 0 ≤ tm.wday := by rw [noWeekday]; decide
  have noMon : ¬ 0 ≤ tm.mon := by rw [noMonth]; decide
  rw [fillUntouched, fillWeekday, if_neg fun only => noWeek only.1, fillMonth, if_neg fun only =>
    noMon only.1,
    fillTime, fillDate, if_pos ⟨hour.1, hour.2, noMonth, noDate.mday, noWeekday⟩, fillGaps]
  simp only [noDate.sec_default, noDate.year_default, later, orDefault_of_ne monthOf]

end Filling

/-! ### The three cases -/

theorem strToTm_of_parsed {timeStr : List Char} (asserted : Asserted timeStr) {tm : StructTm}
    (ran : parsed strptime attempt timeStr = some tm) :
    strToTm strptime attempt now timeStr = .ok (mktimeUtc (fillUntouched now tm).toTm).2 := by
  have tokens : parseTimeTokens strptime attempt (timeTokens [] timeStr) unassigned = some tm := ran
  rw [strToTm, strToTmUntouched, if_neg asserted, tokens]
  rfl

section Cases

variable {tm : StructTm} {today : Date} (isOn : now.IsOn today) {timeStr : List Char}
  (asserted : Asserted timeStr)
include isOn asserted

theorem weekday_most_recent (ran : parsed strptime attempt timeStr = some tm) (noDate : NoDate tm)
    (noMonth : tm.mon = intMin) (wday : 0 ≤ tm.wday ∧ tm.wday ≤ 6) :
    ∃ date, Unique (InWeek today tm.wday) date ∧
      strToTm strptime attempt now timeStr =
        .ok (tmAt date (orDefault tm.hour 0) (orDefault tm.min 0)) := by
  have current := isOn.wday
  obtain ⟨hour, min⟩ := noDate.clock_default
  have number := dayNumber_dateOf (today.dayNumber - (now.wday - tm.wday + 7) % 7)
  set date := dateOf (today.dayNumber - (now.wday - tm.wday + 7) % 7) with date_eq
  refine ⟨date, ⟨?_, ?_⟩, ?_⟩
  · unfold InWeek
    unfold weekdayOf at current ⊢
    omega
  · intro other ⟨after, before, same⟩
    apply dayNumber_injective
    unfold weekdayOf at current same
    omega
  · rw [strToTm_of_parsed asserted ran, fillUntouched_weekday isOn noDate noMonth wday]
    have days : date.dayNumber =
        today.dayNumber + (now.mday - (now.wday - tm.wday + 7) % 7 - today.day) := by
      rw [number, isOn.mday]
      omega
    exact congrArg _ (mktimeUtc_of_days _ isOn.year isOn.mon days hour min rfl)

theorem month_most_recent (ran : parsed strptime attempt timeStr = some tm) (noDate : NoDate tm)
    (mon : 0 ≤ tm.mon ∧ tm.mon ≤ 11) :
    ∃ date, Unique (InYear today tm.mon) date ∧
      strToTm strptime attempt now timeStr =
        .ok (tmAt date (orDefault tm.hour 0) (orDefault tm.min 0)) := by
  have current := isOn.mon
  have bound := today.month_lt
  obtain ⟨hour, min⟩ := noDate.clock_default
  let date : Date :=
    { year := if now.mon < tm.mon then today.year - 1 else today.year
      month := tm.mon.toNat
      day := 1
      month_lt := by omega
      day_pos := Nat.one_pos
      day_le := monthLength_pos _ _ }
  refine ⟨date, ⟨⟨?_, ?_, ?_, rfl⟩, ?_⟩, ?_⟩
  · simp only [monthNumber, date]
    split <;> omega
  · simp only [monthNumber, date]
    split <;> omega
  · simp only [date]
    omega
  · intro ⟨year, month, day, month_lt, day_pos, day_le⟩ ⟨after, before, same, first⟩
    simp only [monthNumber] at after before same first
    simp only [date, Date.mk.injEq]
    exact ⟨by split <;> omega, by omega, first⟩
  · rw [strToTm_of_parsed asserted ran, fillUntouched_month isOn noDate mon]
    refine congrArg _ (mktimeUtc_of_days date ?_ ?_ ?_ hour min rfl)
    · simp only [date, isOn.year]
      split <;> omega
    · simp only [date]
      omega
    · simp only [date]
      omega

theorem clock_most_recent (ran : parsed strptime attempt timeStr = some tm) (noDate : NoDate tm)
    (noMonth : tm.mon = intMin) (noWeekday : tm.wday = intMin) :
    ∃ date, Unique (InDay today now.hour (orDefault tm.hour 0)) date ∧
      strToTm strptime attempt now timeStr =
        .ok (tmAt date (orDefault tm.hour 0) (orDefault tm.min 0)) := by
  have current := isOn.hour
  obtain ⟨-, mon, -⟩ := isOn.members
  obtain ⟨hour, min⟩ := noDate.clock_default
  have number := dayNumber_dateOf (today.dayNumber - if now.hour < orDefault tm.hour 0 then 1 else 0)
  set date := dateOf (today.dayNumber - if now.hour < orDefault tm.hour 0 then 1 else 0) with date_eq
  refine ⟨date, ⟨?_, ?_⟩, ?_⟩
  · unfold InDay
    split at number <;> omega
  · intro other ⟨after, before⟩
    apply dayNumber_injective
    split at number <;> omega
  · rw [strToTm_of_parsed asserted ran, fillUntouched_clock noDate noMonth noWeekday
      (by unfold intMin; omega)]
    have days : date.dayNumber = today.dayNumber +
        ((if now.hour < orDefault tm.hour 0 then now.mday - 1 else now.mday) - today.day) := by
      rw [number, isOn.mday]
      split <;> omega
    exact congrArg _ (mktimeUtc_of_days _ isOn.year isOn.mon days hour min rfl)

end Cases

/-! ### Any sequence of tokens -/

/-- Either no token gave a day and a year, or the whole date is assigned. -/
def Consistent (tm : StructTm) : Prop :=
  (NoDate tm ∧ (tm.mon = intMin ∨ 0 ≤ tm.mon ∧ tm.mon ≤ 11) ∧
    (tm.wday = intMin ∨ 0 ≤ tm.wday ∧ tm.wday ≤ 6)) ∨
    (tm.year ≠ intMin ∧ tm.mon ≠ intMin ∧ tm.mday ≠ intMin)

theorem recognised_mem {token : List Char} {format : String}
    (found : recognise strptime attempt token = some format) :
    format ∈ dateFormats := List.mem_of_find?_eq_some found

theorem recognised_of_parsed {tokens : List (List Char)} {tm last : StructTm}
    (ran : parseTimeTokens strptime attempt tokens tm = some last) :
    ∀ token ∈ tokens, ∃ format ∈ dateFormats, recognise strptime attempt token = some format := by
  induction tokens generalizing tm with
  | nil => simp
  | cons token rest ih =>
    obtain ⟨next, converted, later⟩ := Option.bind_eq_some_iff.mp ran
    obtain ⟨format, found, -⟩ := Option.bind_eq_some_iff.mp converted
    exact List.forall_mem_cons.mpr ⟨⟨format, recognised_mem found, found⟩, ih later⟩

include documented in
theorem consistent_step {token : List Char} {format : String}
    (found : recognise strptime attempt token = some format)
    (tm : StructTm) (before : Consistent tm) :
    ∃ next, strptimeToken strptime attempt token tm = some next ∧ Consistent next := by
  have isOne := recognised_mem found
  simp only [dateFormats, List.mem_cons, List.not_mem_nil, or_false] at isOne
  have date (member : format ∈ ["%Y-%m-%d", "%d.%m.%Y", "%m/%d/%Y"]) :
      ∃ next, strptimeToken strptime attempt token tm = some next ∧ Consistent next := by
    obtain ⟨set, ⟨year, mon, mday, yearRange, monRange, mdayRange, rfl⟩, stores⟩ :=
      token_sets (documented.date format member) found
    refine ⟨_, stores tm, Or.inr ?_⟩
    simp only [tmYearBase, intMin] at yearRange ⊢
    omega
  rcases isOne with rfl | rfl | rfl | rfl | rfl | rfl | rfl
  · exact date (by decide)
  · exact date (by decide)
  · exact date (by decide)
  · rcases before with ⟨noDate, mon, wday⟩ | assigned
    · obtain ⟨next, converted, after, sameMon, sameWday⟩ := clock_noDate documented found tm noDate
      exact ⟨next, converted, Or.inl ⟨after, sameMon ▸ mon, sameWday ▸ wday⟩⟩
    · obtain ⟨set, ⟨hour, min, -, -, rfl⟩, stores⟩ := token_sets documented.clock found
      exact ⟨_, stores tm, Or.inr assigned⟩
  · rcases before with ⟨noDate, mon, wday⟩ | assigned
    · obtain ⟨next, converted, after, sameMon, range⟩ := weekday_noDate documented found tm noDate
      exact ⟨next, converted, Or.inl ⟨after, sameMon ▸ mon, Or.inr range⟩⟩
    · obtain ⟨set, ⟨wday, -, rfl⟩, stores⟩ := token_sets documented.weekday found
      exact ⟨_, stores tm, Or.inr assigned⟩
  · obtain ⟨set, ⟨mon, range, rfl⟩, stores⟩ := token_sets documented.month found
    refine ⟨_, stores tm, ?_⟩
    rcases before with ⟨⟨year, mday, sec, clock⟩, -, wday⟩ | ⟨year, -, mday⟩
    · exact Or.inl ⟨⟨year, mday, sec, clock⟩, Or.inr range, wday⟩
    · exact Or.inr ⟨year, by simp only [intMin]; omega, mday⟩
  · obtain ⟨set, ⟨value, assigned, rfl⟩, stores⟩ := token_sets documented.epoch found
    obtain ⟨-, -, -, mday, mon, year, -⟩ := assigned
    refine ⟨_, stores tm, Or.inr ?_⟩
    simp only [tmYearBase, intMin] at year ⊢
    omega

theorem orDefault_ne {member default : Int} (known : default ≠ intMin) :
    orDefault member default ≠ intMin := by
  unfold orDefault
  split
  · exact known
  · assumption

/-- Nothing that the calendar time depends on is left unassigned. -/
theorem fillUntouched_assigned {tm : StructTm} {today : Date} (isOn : now.IsOn today)
    (consistent : Consistent tm) :
    (fillUntouched now tm).year ≠ intMin ∧ (fillUntouched now tm).mon ≠ intMin ∧
      (fillUntouched now tm).mday ≠ intMin ∧ (fillUntouched now tm).hour ≠ intMin ∧
      (fillUntouched now tm).min ≠ intMin ∧ (fillUntouched now tm).sec ≠ intMin := by
  obtain ⟨nowMday, nowMon, nowMon', nowWday, nowWday'⟩ := isOn.members
  have nowYear := isOn.representable
  have zero : (0 : Int) ≠ intMin := by decide
  have one : (1 : Int) ≠ intMin := by decide
  have hour : orDefault tm.hour 0 ≠ intMin := orDefault_ne zero
  have min : orDefault tm.min 0 ≠ intMin := orDefault_ne zero
  have month : now.mon ≠ intMin := by unfold intMin; omega
  rcases consistent with ⟨noDate, noMonth | mon, noWeekday | wday⟩ | ⟨year, mon, mday⟩
  · rw [fillUntouched_clock noDate noMonth noWeekday month]
    refine ⟨by dsimp only; omega, month, ?_, hour, min, zero⟩
    dsimp only
    unfold intMin
    split <;> omega
  · rw [fillUntouched_weekday isOn noDate noMonth wday]
    refine ⟨by dsimp only; omega, month, ?_, hour, min, zero⟩
    dsimp only
    unfold intMin
    omega
  · rw [fillUntouched_month isOn noDate mon]
    refine ⟨?_, by dsimp only; unfold intMin; omega, one, hour, min, zero⟩
    dsimp only
    split <;> omega
  · rw [fillUntouched_month isOn noDate mon]
    refine ⟨?_, by dsimp only; unfold intMin; omega, one, hour, min, zero⟩
    dsimp only
    split <;> omega
  · have whole : fillUntouched now tm = fillTime tm := by
      rw [fillUntouched, fillWeekday, if_neg fun only => mon only.2.2.2.1, fillMonth,
        if_neg fun only => mday only.2.2,
        fillDate, if_neg fun only => mon only.2.2.1, fillGaps]
      simp only [fillTime, orDefault_of_ne year, orDefault_of_ne mon]
    rw [whole]
    exact ⟨year, mon, mday, hour, min, orDefault_ne zero⟩

include documented in
theorem parsed_consistent {timeStr : List Char}
    (only : OnlyFormats strptime attempt dateFormats timeStr) :
    ∃ tm, parsed strptime attempt timeStr = some tm ∧ Consistent tm := by
  refine parseTimeTokens_keeps (P := Consistent) ?_ (Or.inl ⟨unassigned_noDate, Or.inl rfl, Or.inl rfl⟩)
  intro token member tm before
  obtain ⟨format, -, found⟩ := only token member
  exact consistent_step documented found tm before

/-! ### Exchanging tokens -/

/-- `tm` with the given members of `value`. -/
def overwrite (members : List Member) (value tm : StructTm) : StructTm where
  sec := if .sec ∈ members then value.sec else tm.sec
  min := if .min ∈ members then value.min else tm.min
  hour := if .hour ∈ members then value.hour else tm.hour
  mday := if .mday ∈ members then value.mday else tm.mday
  mon := if .mon ∈ members then value.mon else tm.mon
  year := if .year ∈ members then value.year else tm.year
  yday := if .yday ∈ members then value.yday else tm.yday
  wday := if .wday ∈ members then value.wday else tm.wday

theorem overwrite_comm {members members' : List Member} (apart : ∀ member ∈ members, member ∉ members')
    (value value' tm : StructTm) :
    overwrite members value (overwrite members' value' tm) = overwrite members' value'
      (overwrite members value tm) := by
  have choose (member : Member) (a b c : Int) :
      (if member ∈ members then a else if member ∈ members' then b else c) =
        if member ∈ members' then b else if member ∈ members then a else c := by
    by_cases here : member ∈ members
    · rw [if_pos here, if_neg (apart member here), if_pos here]
    · rw [if_neg here, if_neg here]
  simp only [overwrite, choose]

include documented in
/-- A recognised token overwrites the members of its format. -/
theorem token_overwrites {token : List Char} {format : String}
    (found : recognise strptime attempt token = some format) :
    ∃ value, ∀ tm, strptimeToken strptime attempt token tm =
      some (overwrite (formatMembers format) value tm) := by
  have isOne := recognised_mem found
  simp only [dateFormats, List.mem_cons, List.not_mem_nil, or_false] at isOne
  have date (member : format ∈ ["%Y-%m-%d", "%d.%m.%Y", "%m/%d/%Y"]) :
      ∃ value, ∀ tm, strptimeToken strptime attempt token tm =
        some (overwrite (formatMembers format) value tm) := by
    obtain ⟨set, ⟨year, mon, mday, -, -, -, rfl⟩, stores⟩ :=
      token_sets (documented.date format member) found
    refine ⟨{ unassigned with year := year, mon := mon, mday := mday }, fun tm => ?_⟩
    rw [stores, formatMembers, if_pos member]
    rfl
  rcases isOne with rfl | rfl | rfl | rfl | rfl | rfl | rfl
  · exact date (by decide)
  · exact date (by decide)
  · exact date (by decide)
  · obtain ⟨set, ⟨hour, min, -, -, rfl⟩, stores⟩ := token_sets documented.clock found
    exact ⟨{ unassigned with hour := hour, min := min }, stores⟩
  · obtain ⟨set, ⟨wday, -, rfl⟩, stores⟩ := token_sets documented.weekday found
    exact ⟨{ unassigned with wday := wday }, stores⟩
  · obtain ⟨set, ⟨mon, -, rfl⟩, stores⟩ := token_sets documented.month found
    exact ⟨{ unassigned with mon := mon }, stores⟩
  · obtain ⟨set, ⟨value, -, rfl⟩, stores⟩ := token_sets documented.epoch found
    exact ⟨value, stores⟩

theorem parseTimeTokens_unknown {token : List Char} (unknown : recognise strptime attempt token = none)
    {tokens : List (List Char)} (member : token ∈ tokens) (tm : StructTm) :
    parseTimeTokens strptime attempt tokens tm = none := by
  cases ran : parseTimeTokens strptime attempt tokens tm with
  | none => rfl
  | some last =>
    obtain ⟨format, -, found⟩ := recognised_of_parsed ran token member
    rw [unknown] at found
    cases found

section Exchange

variable {first second : List Char} {between back : List (List Char)}

include documented in
theorem adjacent_exchange (apart : Apart strptime attempt first second) (tm : StructTm) :
    parseTimeTokens strptime attempt (first :: second :: back) tm =
      parseTimeTokens strptime attempt (second :: first :: back) tm := by
  cases found : recognise strptime attempt first with
  | none => rw [parseTimeTokens_unknown found (by simp), parseTimeTokens_unknown found (by simp)]
  | some format =>
    cases found' : recognise strptime attempt second with
    | none => rw [parseTimeTokens_unknown found' (by simp), parseTimeTokens_unknown found' (by simp)]
    | some format' =>
      obtain ⟨value, overwrites⟩ := token_overwrites documented found
      obtain ⟨value', overwrites'⟩ := token_overwrites documented found'
      simp only [parseTimeTokens, overwrites, overwrites', Option.bind_some]
      rw [overwrite_comm (apart format format' found found')]

include documented in
/-- A token passes the tokens that assign none of its members. -/
theorem passes_between (apart : ∀ token ∈ between, Apart strptime attempt first token) (tm : StructTm) :
    parseTimeTokens strptime attempt (first :: (between ++ back)) tm =
      parseTimeTokens strptime attempt (between ++ first :: back) tm := by
  induction between generalizing tm with
  | nil => rfl
  | cons token rest ih =>
    obtain ⟨here, others⟩ := List.forall_mem_cons.mp apart
    rw [List.cons_append, adjacent_exchange documented here, List.cons_append, parseTimeTokens,
      parseTimeTokens]
    exact congrArg _ (funext (ih others))

include documented in
theorem exchange_tokens (apart : Apart strptime attempt first second)
    (passes : ∀ token ∈ between, Apart strptime attempt first token ∧
      Apart strptime attempt second token)
    (tm : StructTm) :
    parseTimeTokens strptime attempt (first :: (between ++ second :: back)) tm =
      parseTimeTokens strptime attempt (second :: (between ++ first :: back)) tm := by
  rw [passes_between documented fun token member => (passes token member).1,
    passes_between documented fun token member => (passes token member).2, parseTimeTokens_append,
    parseTimeTokens_append]
  exact congrArg _ (funext (adjacent_exchange documented apart))

end Exchange

/-- Incomplete time strings are completed to their most recent match, every recognised sequence of tokens
to a complete time, and the order of tokens that assign different members does not matter. -/
theorem str_to_tm_most_recent (documented : strptime.Documented) {today : Date} (isOn : now.IsOn today) :
    MostRecent strptime attempt now today where
  weekday timeStr asserted only has := by
    obtain ⟨tm, ran, noDate, noMonth, wday⟩ := parsed_weekday documented only has
    obtain ⟨date, unique, result⟩ := weekday_most_recent isOn asserted ran noDate noMonth wday
    exact ⟨tm, date, ran, unique, result⟩
  month timeStr asserted only has := by
    obtain ⟨tm, ran, noDate, mon⟩ := parsed_month documented only has
    obtain ⟨date, unique, result⟩ := month_most_recent isOn asserted ran noDate mon
    exact ⟨tm, date, ran, unique, result⟩
  clock timeStr asserted only := by
    obtain ⟨tm, ran, noDate, noMonth, noWeekday⟩ := parsed_clock documented only
    obtain ⟨date, unique, result⟩ := clock_most_recent isOn asserted ran noDate noMonth noWeekday
    exact ⟨tm, date, ran, unique, result⟩
  assigned timeStr tm untouched := by
    unfold strToTmUntouched at untouched
    split at untouched
    · cases untouched
    split at untouched
    · cases untouched
    · rename_i first ran
      cases untouched
      obtain ⟨second, again, consistent⟩ := parsed_consistent documented (recognised_of_parsed ran)
      obtain rfl := Option.some.inj (ran.symm.trans again)
      exact fillUntouched_assigned isOn consistent
  recognised timeStr asserted only := by
    obtain ⟨tm, ran, -⟩ := parsed_consistent documented only
    exact ⟨_, strToTm_of_parsed asserted ran⟩
  exchanged timeStr permuted front first between second back asserted asserted' tokens tokens' apart
    passes := by
    have same : parseTimeTokens strptime attempt (timeTokens [] timeStr) unassigned =
        parseTimeTokens strptime attempt (timeTokens [] permuted) unassigned := by
      rw [tokens, tokens', parseTimeTokens_append, parseTimeTokens_append]
      exact congrArg _ (funext (exchange_tokens documented apart passes))
    rw [strToTm, strToTm, strToTmUntouched, strToTmUntouched, if_neg asserted, if_neg asserted', same]

/-- A `strptime` that converts two dates, a time of day, a weekday and a month. -/
def fiveStrings : Strptime := fun token format tm =>
  if format = "%Y-%m-%d" then
    if token = "2015-12-31".toList then some ([], { tm with year := 115, mon := 11, mday := 31 })
    else if token = "2016-01-01".toList then some ([], { tm with year := 116, mon := 0, mday := 1 })
    else none
  else if format = "%a" then if token = "Mon".toList then some ([], { tm with wday := 1 }) else none
  else if format = "%b" then if token = "Dec".toList then some ([], { tm with mon := 11 }) else none
  else if format = "%H:%M" then
    if token = "10:30".toList then some ([], { tm with hour := 10, min := 30 }) else none
  else none

theorem fiveStrings_documented : fiveStrings.Documented where
  date format member token := by
    simp only [List.mem_cons, List.not_mem_nil, or_false] at member
    rcases member with rfl | rfl | rfl
    · by_cases last : token = "2015-12-31".toList
      · exact Or.inr ⟨[], _, ⟨115, 11, 31, by decide, by decide, by decide, rfl⟩, fun tm => if_pos last⟩
      by_cases first : token = "2016-01-01".toList
      · exact Or.inr ⟨[], _, ⟨116, 0, 1, by decide, by decide, by decide, rfl⟩,
          fun tm => (if_neg last).trans (if_pos first)⟩
      · exact Or.inl fun tm => (if_neg last).trans (if_neg first)
    · exact Or.inl fun _ => rfl
    · exact Or.inl fun _ => rfl
  clock token := by
    by_cases known : token = "10:30".toList
    · exact Or.inr ⟨[], _, ⟨10, 30, by decide, by decide, rfl⟩, fun tm => if_pos known⟩
    · exact Or.inl fun tm => if_neg known
  weekday token := by
    by_cases known : token = "Mon".toList
    · exact Or.inr ⟨[], _, ⟨1, by decide, rfl⟩, fun tm => if_pos known⟩
    · exact Or.inl fun tm => if_neg known
  month token := by
    by_cases known : token = "Dec".toList
    · exact Or.inr ⟨[], _, ⟨11, by decide, rfl⟩, fun tm => if_pos known⟩
    · exact Or.inl fun tm => if_neg known
  epoch token := Or.inl fun _ => rfl

def wednesday : StructTm := { tmAt ⟨2016, 2, 2, by decide, by decide, by decide⟩ 8 15 with wday := 3 }

theorem wednesday_isOn : wednesday.IsOn ⟨2016, 2, 2, by decide, by decide, by decide⟩ :=
  ⟨by decide, rfl, rfl, rfl, by decide, by decide⟩

theorem str_to_tm_most_recent_monday :
    ∃ tm date, parsed fiveStrings unassigned "Mon 10:30".toList = some tm ∧
      Unique (InWeek ⟨2016, 2, 2, by decide, by decide, by decide⟩ tm.wday) date ∧
      strToTm fiveStrings unassigned wednesday "Mon 10:30".toList =
        .ok (tmAt date (orDefault tm.hour 0) (orDefault tm.min 0)) :=
  (str_to_tm_most_recent fiveStrings_documented wednesday_isOn).weekday "Mon 10:30".toList
    (by unfold Asserted; decide) (by unfold OnlyFormats; decide) (by unfold HasFormat; decide)

/-- The Monday is the leap day. -/
example : strToTm fiveStrings unassigned wednesday "Mon 10:30".toList =
    .ok (tmAt ⟨2016, 1, 29, by decide, by decide, by decide⟩ 10 30) := by decide +kernel

/-- A date and a time of day change places, with another date between them: the last date counts. -/
theorem exchange_past_date_changes_result :
    fiveStrings.Documented ∧ wednesday.IsOn ⟨2016, 2, 2, by decide, by decide, by decide⟩ ∧
      timeTokens [] "2015-12-31 2016-01-01 10:30".toList =
        ["2015-12-31".toList, "2016-01-01".toList, "10:30".toList] ∧
      timeTokens [] "10:30 2016-01-01 2015-12-31".toList =
        ["10:30".toList, "2016-01-01".toList, "2015-12-31".toList] ∧
      recognise fiveStrings unassigned "2015-12-31".toList = some "%Y-%m-%d" ∧
      recognise fiveStrings unassigned "10:30".toList = some "%H:%M" ∧
      strToTm fiveStrings unassigned wednesday "2015-12-31 2016-01-01 10:30".toList =
        .ok (tmAt ⟨2016, 0, 1, by decide, by decide, by decide⟩ 10 30) ∧
      strToTm fiveStrings unassigned wednesday "10:30 2016-01-01 2015-12-31".toList =
        .ok (tmAt ⟨2015, 11, 31, by decide, by decide, by decide⟩ 10 30) := by
  refine ⟨fiveStrings_documented, wednesday_isOn, by decide, by decide, by decide, by decide, ?_, ?_⟩ <;>
    decide +kernel

end Fdistdump.Args
