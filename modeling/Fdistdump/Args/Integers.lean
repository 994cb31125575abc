import Fdistdump.Args.Specs
import Fdistdump.Library.Strtol
import Mathlib.Algebra.Group.Int.Defs

/-!
# Numbers on the command line

The conversions of `arg_parse.c` from strings to integers, and the two options that use them. They accept
the decimal numbers in range; the empty string fails their assertions.
-/

namespace Fdistdump.Args
open Strtol

/-- An error string or the value that is stored; `none` stands for a failed assertion. -/
abbrev Converted (α : Type) : Type := Option (Except String α)

def strerrorErange : String := "Numerical result out of range"

def intMin : Int := -2 ^ 31
def intMax : Int := 2 ^ 31 - 1
def llongMin : Int := -2 ^ 63
def llongMax : Int := 2 ^ 63 - 1
def ullongMax : Nat := 2 ^ 64 - 1

/-- What follows a call of `strtoll` or `strtoull`. -/
def checkConversion (res : Conversion) : Except String Int :=
  if res.rest ≠ [] then .error "invalid characters"
  else if res.erange then .error strerrorErange
  else .ok res.value

def strToLlint (string : List Char) : Converted Int :=
  if string = [] then none else some (checkConversion (strtol llongMin llongMax string))

def strToInt (string : List Char) : Converted Int :=
  if string = [] then none
  else
    match strToLlint string with
    | some (.ok tmpRes) =>
      some (if intMin ≤ tmpRes ∧ tmpRes ≤ intMax then .ok tmpRes else .error strerrorErange)
    | other => other

def strToLluint (string : List Char) : Converted Nat :=
  if string = [] then none
  else if (string.dropWhile isspace).head? = some '-' then some (.error "negative value")
  else some ((checkConversion (strtoul ullongMax string)).map Int.toNat)

/-- `unsigned long` is as wide as `unsigned long long`, so there is no further check. -/
def strToLuint (string : List Char) : Converted Nat :=
  if string = [] then none else strToLluint string

/-- The number for `omp_set_num_threads`. -/
def setNumThreads (numThreadsStr : List Char) : Option (Except ErrorCode Int) :=
  match strToInt numThreadsStr with
  | none => none
  | some (.error _) => some (.error .arg)
  | some (.ok numThreads) => some (if numThreads < 1 then .error .arg else .ok numThreads)

/-- The record limit of `arg_parse` from its option argument. -/
def convertLimit (limitOptarg : List Char) : Option (Except ErrorCode Nat) :=
  match strToLuint limitOptarg with
  | none => none
  | some (.error _) => some (.error .arg)
  | some (.ok recLimit) => some (.ok recLimit)

/-! ### What is accepted -/

/-- The value of a decimal number. -/
def Denotes (string : List Char) (value : Int) : Prop :=
  ∃ negative digits, Numeral string negative digits ∧ value = signedValue negative digits

/-- The same without a minus sign. -/
def DenotesUnsigned (string : List Char) (value : Nat) : Prop :=
  ∃ digits, Numeral string false digits ∧ value = digitsValue digits

/-- No assertion fails, exactly the numbers in range are stored, and everything else is `E_ARG`. -/
structure IntegerLaw {α : Type} (converted : Option (Except ErrorCode α)) (Stores : α → Prop) :
    Prop where
  asserted : converted ≠ none
  stored : ∀ value, converted = some (.ok value) ↔ Stores value
  rejected : ∀ ecode, converted = some (.error ecode) → ecode = .arg

variable {string : List Char}

theorem checkConversion_ok {res : Conversion} {value : Int} :
    checkConversion res = .ok value ↔ res = ⟨value, [], false⟩ := by
  obtain ⟨stored, rest, erange⟩ := res
  unfold checkConversion
  split_ifs with invalid range
  · simpa using fun _ empty => absurd empty invalid
  · simpa using fun _ _ => range
  · simp only [Except.ok.injEq, Conversion.mk.injEq]
    exact ⟨fun same => ⟨same, not_not.mp invalid, Bool.eq_false_iff.mpr range⟩, And.left⟩

theorem strtoll_ok (nonempty : string ≠ []) (value : Int) :
    checkConversion (strtol llongMin llongMax string) = .ok value ↔
      Denotes string value ∧ llongMin ≤ value ∧ value ≤ llongMax := by
  rw [checkConversion_ok, strtol_iff nonempty]
  constructor
  · intro ⟨negative, digits, numeral, same, range⟩
    exact ⟨⟨negative, digits, numeral, same⟩, range⟩
  · intro ⟨⟨negative, digits, numeral, same⟩, range⟩
    exact ⟨negative, digits, numeral, same, range⟩

theorem strToInt_ok (nonempty : string ≠ []) (value : Int) :
    strToInt string = some (.ok value) ↔ Denotes string value ∧ intMin ≤ value ∧ value ≤ intMax := by
  have wider : intMin ≤ value ∧ value ≤ intMax → llongMin ≤ value ∧ value ≤ llongMax := by
    unfold intMin intMax llongMin llongMax
    omega
  have long := strtoll_ok nonempty
  unfold strToInt strToLlint
  rw [if_neg nonempty, if_neg nonempty]
  cases converted : checkConversion (strtol llongMin llongMax string) with
  | error message =>
    constructor
    · intro same
      cases Option.some.inj same
    · intro ⟨denotes, range⟩
      have accepted := (long value).mpr ⟨denotes, wider range⟩
      rw [converted] at accepted
      cases accepted
  | ok tmpRes =>
    have denoted := ((long tmpRes).mp converted).1
    dsimp only
    constructor
    · intro same
      split_ifs at same with range
      · obtain rfl := Except.ok.inj (Option.some.inj same)
        exact ⟨denoted, range⟩
      · cases Option.some.inj same
    · intro ⟨denotes, range⟩
      have accepted := (long value).mpr ⟨denotes, wider range⟩
      rw [converted] at accepted
      obtain rfl := Except.ok.inj accepted
      rw [if_pos range]

/-- The minus sign that is looked for is the one that `scan` finds. -/
theorem scan_negative : (scan string).negative = true ↔ (string.dropWhile isspace).head? = some '-' := by
  unfold scan
  dsimp only
  generalize string.dropWhile isspace = s
  unfold takeSign
  split
  · simp
  · simp
  · rename_i notMinus notPlus
    cases s with
    | nil => simp
    | cons c rest => simpa using fun same => notMinus rest (by rw [same])

theorem strToLuint_ok (nonempty : string ≠ []) (value : Nat) :
    strToLuint string = some (.ok value) ↔ DenotesUnsigned string value ∧ value ≤ ullongMax := by
  unfold strToLuint strToLluint
  rw [if_neg nonempty, if_neg nonempty]
  split
  · rename_i minus
    have negative := scan_negative.mpr minus
    constructor
    · intro same
      cases Option.some.inj same
    · rintro ⟨⟨digits, numeral, -⟩, -⟩
      rw [(numeral_iff.mp numeral).1] at negative
      cases negative
  · rename_i noMinus
    have unsigned : (scan string).negative = false := Bool.eq_false_iff.mpr fun minus =>
      noMinus (scan_negative.mp minus)
    have converted (value : Int) : checkConversion (strtoul ullongMax string) = .ok value ↔ _ :=
      checkConversion_ok.trans (strtoul_iff nonempty unsigned)
    constructor
    · intro same
      cases accepted : checkConversion (strtoul ullongMax string) with
      | error message =>
        rw [accepted] at same
        cases Option.some.inj same
      | ok wide =>
        rw [accepted] at same
        obtain rfl := Except.ok.inj (Option.some.inj same)
        obtain ⟨digits, numeral, rfl, range⟩ := (converted wide).mp accepted
        exact ⟨⟨digits, numeral, Int.toNat_natCast _⟩, by omega⟩
    · rintro ⟨⟨digits, numeral, rfl⟩, range⟩
      rw [(converted (digitsValue digits)).mpr ⟨digits, numeral, rfl, by exact_mod_cast range⟩]
      rfl

theorem strToInt_ne_none (nonempty : string ≠ []) : strToInt string ≠ none := by
  unfold strToInt strToLlint
  rw [if_neg nonempty, if_neg nonempty]
  cases checkConversion (strtol llongMin llongMax string) <;> exact Option.some_ne_none _

theorem strToLuint_ne_none (nonempty : string ≠ []) : strToLuint string ≠ none := by
  unfold strToLuint strToLluint
  rw [if_neg nonempty, if_neg nonempty]
  split <;> exact Option.some_ne_none _

theorem convertLimit_law (nonempty : string ≠ []) :
    IntegerLaw (convertLimit string) fun value => DenotesUnsigned string value ∧ value ≤ ullongMax := by
  have stored := strToLuint_ok nonempty
  unfold convertLimit
  cases converted : strToLuint string with
  | none => exact absurd converted (strToLuint_ne_none nonempty)
  | some result =>
    cases result with
    | error message =>
      refine ⟨Option.some_ne_none _, fun value => ?_, fun ecode same => ?_⟩
      · rw [← stored, converted]
        constructor <;> intro same <;> cases Option.some.inj same
      · exact (Except.error.inj (Option.some.inj same)).symm
    | ok recLimit =>
      refine ⟨Option.some_ne_none _, fun value => ?_, fun ecode same => ?_⟩
      · rw [← stored, converted, Option.some.injEq, Except.ok.injEq, Option.some.injEq, Except.ok.injEq]
      · cases Option.some.inj same

theorem setNumThreads_law (nonempty : string ≠ []) :
    IntegerLaw (setNumThreads string) fun value => Denotes string value ∧ 1 ≤ value ∧
    value ≤ intMax := by
  have stored := strToInt_ok nonempty
  unfold setNumThreads
  cases converted : strToInt string with
  | none => exact absurd converted (strToInt_ne_none nonempty)
  | some result =>
    cases result with
    | error message =>
      refine ⟨Option.some_ne_none _, fun value => ?_, fun ecode same => ?_⟩
      · constructor
        · intro same
          cases Option.some.inj same
        · intro ⟨denotes, positive, range⟩
          have accepted := (stored value).mpr ⟨denotes, by unfold intMin; omega, range⟩
          cases Option.some.inj (converted.symm.trans accepted)
      · exact (Except.error.inj (Option.some.inj same)).symm
    | ok numThreads =>
      obtain ⟨denoted, -, range⟩ := (stored numThreads).mp converted
      dsimp only
      refine ⟨Option.some_ne_none _, fun value => ?_, fun ecode same => ?_⟩
      · constructor
        · intro same
          split_ifs at same with small
          · cases Option.some.inj same
          · obtain rfl := Except.ok.inj (Option.some.inj same)
            exact ⟨denoted, by omega, range⟩
        · intro ⟨denotes, positive, range⟩
          have accepted := (stored value).mpr ⟨denotes, by unfold intMin; omega, range⟩
          obtain rfl := Except.ok.inj (Option.some.inj (converted.symm.trans accepted))
          rw [if_neg (by omega)]
      · split_ifs at same with small
        · exact (Except.error.inj (Option.some.inj same)).symm
        · cases Option.some.inj same

/-- Both options treat every argument as they should, except for the empty one, whose conversion does not
get past its assertion. -/
theorem integer_options_iff (string : List Char) :
    (IntegerLaw (convertLimit string) (fun value => DenotesUnsigned string value ∧ value ≤ ullongMax) ↔
        string ≠ []) ∧
      (IntegerLaw (setNumThreads string) (fun value => Denotes string value ∧ 1 ≤ value ∧
        value ≤ intMax) ↔
        string ≠ []) := by
  constructor
  · refine ⟨?_, convertLimit_law⟩
    rintro law rfl
    exact law.asserted rfl
  · refine ⟨?_, setNumThreads_law⟩
    rintro law rfl
    exact law.asserted rfl

/-- `-l ''`: no number, and no error either. -/
theorem empty_argument_fails_assertion :
    convertLimit [] = none ∧ setNumThreads [] = none ∧
      ¬ IntegerLaw (convertLimit []) (fun value => DenotesUnsigned [] value ∧ value ≤ ullongMax) ∧
      ¬ IntegerLaw (setNumThreads []) (fun value => Denotes [] value ∧ 1 ≤ value ∧ value ≤ intMax) :=
  ⟨rfl, rfl, fun law => law.asserted rfl, fun law => law.asserted rfl⟩

example : convertLimit " +0018446744073709551615".toList = some (.ok ullongMax) := by decide
example : setNumThreads "-1".toList = some (.error .arg) := by decide

end Fdistdump.Args
