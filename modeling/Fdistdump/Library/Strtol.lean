import Mathlib.Data.List.TakeWhile

/-!
# Decimal integers in strings

The `strtol` family of the C library in base 10: white space, a sign and digits are read up to the first
character that does not belong to the number. A string is a number as a whole exactly when it is a
`Numeral`.
-/

namespace Strtol

/-- Space and the characters from `\t` to `\r`. -/
def isspace (c : Char) : Bool := c = ' ' || 9 ≤ c.toNat && c.toNat ≤ 13

def isdigit (c : Char) : Bool := '0'.toNat ≤ c.toNat && c.toNat ≤ '9'.toNat

def digitsValue (digits : List Char) : Nat :=
  digits.foldl (fun value c => 10 * value + (c.toNat - '0'.toNat)) 0

def signedValue (negative : Bool) (digits : List Char) : Int :=
  if negative then -digitsValue digits else digitsValue digits

@[simp] theorem signedValue_false (digits : List Char) :
    signedValue false digits = digitsValue digits := rfl

/-! ### Reading a string -/

/-- The beginning of a string as a number, and what follows it. -/
structure Scan where
  negative : Bool
  digits : List Char
  rest : List Char

def takeSign : List Char → Bool × List Char
  | '-' :: rest => (true, rest)
  | '+' :: rest => (false, rest)
  | s => (false, s)

def scan (s : List Char) : Scan :=
  let signed := takeSign (s.dropWhile isspace)
  { negative := signed.1, digits := signed.2.takeWhile isdigit, rest := signed.2.dropWhile isdigit }

/-- The result, what `endptr` points at, and whether `errno` is `ERANGE`. -/
structure Conversion where
  value : Int
  rest : List Char
  erange : Bool
deriving DecidableEq

/-- `strtol` for a type with these bounds. Without digits nothing is converted. -/
def strtol (low high : Int) (s : List Char) : Conversion :=
  let n := scan s
  let value := signedValue n.negative n.digits
  if n.digits = [] then { value := 0, rest := s, erange := false }
  else if value < low then { value := low, rest := n.rest, erange := true }
  else if high < value then { value := high, rest := n.rest, erange := true }
  else { value := value, rest := n.rest, erange := false }

/-- `strtoul` for a type up to `high`. After a minus sign the number is negated in that type. -/
def strtoul (high : Nat) (s : List Char) : Conversion :=
  let n := scan s
  if n.digits = [] then { value := 0, rest := s, erange := false }
  else if high < digitsValue n.digits then { value := high, rest := n.rest, erange := true }
  else { value := signedValue n.negative n.digits % (high + 1), rest := n.rest, erange := false }

/-! ### Numerals -/

inductive Sign : Bool → List Char → Prop
  | none : Sign false []
  | plus : Sign false ['+']
  | minus : Sign true ['-']

/-- Optional white space, an optional sign, at least one digit, and nothing else. -/
structure Numeral (s : List Char) (negative : Bool) (digits : List Char) : Prop where
  spelled : ∃ space sign, s = space ++ (sign ++ digits) ∧ (∀ c ∈ space, isspace c) ∧ Sign negative sign
  digits_ne_nil : digits ≠ []
  isdigit : ∀ c ∈ digits, isdigit c

theorem takeSign_spec (s : List Char) :
    ∃ sign, s = sign ++ (takeSign s).2 ∧ Sign (takeSign s).1 sign := by
  unfold takeSign
  split
  · exact ⟨['-'], rfl, .minus⟩
  · exact ⟨['+'], rfl, .plus⟩
  · exact ⟨[], rfl, .none⟩

theorem takeSign_digits {negative : Bool} {sign digits : List Char} (signed : Sign negative sign)
    (all : ∀ c ∈ digits, isdigit c) : takeSign (sign ++ digits) = (negative, digits) := by
  cases signed with
  | plus | minus => rfl
  | none =>
    rw [List.nil_append]
    unfold takeSign
    split
    · exact absurd (all '-' List.mem_cons_self) (by decide)
    · exact absurd (all '+' List.mem_cons_self) (by decide)
    · rfl

theorem not_isspace_of_isdigit {c : Char} (digit : isdigit c) : isspace c = false := by
  simp only [isdigit, Bool.and_eq_true, decide_eq_true_eq] at digit
  simp only [isspace, Bool.or_eq_false_iff, Bool.and_eq_false_iff, decide_eq_false_iff_not]
  refine ⟨?_, .inr ?_⟩
  · rintro rfl
    exact absurd digit.1 (by decide)
  · have : '0'.toNat = 48 := rfl
    omega

theorem dropWhile_isspace {negative : Bool} {sign digits : List Char} (signed : Sign negative sign)
    (some : digits ≠ []) (all : ∀ c ∈ digits, isdigit c) :
    (sign ++ digits).dropWhile isspace = sign ++ digits := by
  cases signed with
  | plus | minus => rfl
  | none =>
    obtain ⟨c, rest, rfl⟩ := List.exists_cons_of_ne_nil some
    have first := not_isspace_of_isdigit (all c List.mem_cons_self)
    rw [List.nil_append, List.dropWhile_cons_of_neg (by rw [first]; exact Bool.false_ne_true)]

theorem takeSign_cons_digit {c : Char} (digit : isdigit c) (rest : List Char) :
    takeSign (c :: rest) = (false, c :: rest) := by
  unfold takeSign
  split
  · rename_i same
    obtain ⟨rfl, -⟩ := List.cons.inj same
    exact absurd digit (by decide)
  · rename_i same
    obtain ⟨rfl, -⟩ := List.cons.inj same
    exact absurd digit (by decide)
  · rfl

theorem takeWhile_isdigit {digits rest : List Char} (all : ∀ c ∈ digits, isdigit c)
    (stops : ∀ c ∈ rest.head?, isdigit c = false) :
    (digits ++ rest).takeWhile isdigit = digits ∧ (digits ++ rest).dropWhile isdigit = rest := by
  rw [List.takeWhile_append_of_pos all, List.dropWhile_append_of_pos all]
  cases rest with
  | nil => exact ⟨List.append_nil _, rfl⟩
  | cons c rest =>
    have stop : ¬ isdigit c = true := by rw [stops c rfl]; exact Bool.false_ne_true
    rw [List.takeWhile_cons_of_neg stop, List.dropWhile_cons_of_neg stop, List.append_nil]
    exact ⟨rfl, rfl⟩

theorem scan_digits {digits rest : List Char} (some : digits ≠ []) (all : ∀ c ∈ digits, isdigit c)
    (stops : ∀ c ∈ rest.head?, isdigit c = false) : scan (digits ++ rest) = ⟨false, digits, rest⟩ := by
  obtain ⟨taken, dropped⟩ := takeWhile_isdigit all stops
  obtain ⟨c, more, rfl⟩ := List.exists_cons_of_ne_nil some
  have digit := all c List.mem_cons_self
  have first : ¬ isspace c = true := by rw [not_isspace_of_isdigit digit]; exact Bool.false_ne_true
  rw [List.cons_append] at taken dropped ⊢
  rw [scan, List.dropWhile_cons_of_neg first, takeSign_cons_digit digit, taken, dropped]

/-- A numeral is what `scan` reads to the end. -/
theorem numeral_iff {s : List Char} {negative : Bool} {digits : List Char} :
    Numeral s negative digits ↔ scan s = ⟨negative, digits, []⟩ ∧ digits ≠ [] := by
  constructor
  · rintro ⟨⟨space, sign, rfl, spaces, signed⟩, some, all⟩
    refine ⟨?_, some⟩
    rw [scan, List.dropWhile_append_of_pos spaces, dropWhile_isspace signed some all,
      takeSign_digits signed all,
      List.takeWhile_eq_self_iff.mpr all, List.dropWhile_eq_nil_iff.mpr all]
  · rintro ⟨read, some⟩
    obtain ⟨sign, parts, signed⟩ := takeSign_spec (s.dropWhile isspace)
    simp only [scan, Scan.mk.injEq] at read
    obtain ⟨rfl, rfl, rest⟩ := read
    have digits := List.takeWhile_append_dropWhile (p := isdigit)
      (l := (takeSign (s.dropWhile isspace)).2)
    rw [rest, List.append_nil] at digits
    refine ⟨⟨s.takeWhile isspace, sign, ?_, fun c member => ?_, signed⟩, some, fun c member => ?_⟩
    · rw [digits, ← parts, List.takeWhile_append_dropWhile]
    · exact List.mem_takeWhile_imp member
    · exact List.mem_takeWhile_imp member

variable {s : List Char}

/-- `strtol` converts the whole string without an error exactly when it is a numeral in range. -/
theorem strtol_iff {low high value : Int} (some : s ≠ []) :
    strtol low high s = ⟨value, [], false⟩ ↔
      ∃ negative digits, Numeral s negative digits ∧ value = signedValue negative digits ∧
        low ≤ value ∧ value ≤ high := by
  constructor
  · intro converted
    unfold strtol at converted
    dsimp only at converted
    split_ifs at converted with nothing below above
    · exact absurd (congrArg Conversion.rest converted) some
    · cases congrArg Conversion.erange converted
    · cases congrArg Conversion.erange converted
    · obtain ⟨rfl, rest, -⟩ := Conversion.mk.inj converted
      refine ⟨_, _, numeral_iff.mpr ⟨?_, nothing⟩, rfl, by omega, by omega⟩
      rw [← rest]
  · rintro ⟨negative, digits, numeral, rfl, low, high⟩
    obtain ⟨read, digit⟩ := numeral_iff.mp numeral
    unfold strtol
    dsimp only
    rw [read, if_neg digit, if_neg (by dsimp only; omega), if_neg (by dsimp only; omega)]

theorem strtoul_iff {high : Nat} {value : Int} (some : s ≠ []) (unsigned : (scan s).negative = false) :
    strtoul high s = ⟨value, [], false⟩ ↔
      ∃ digits, Numeral s false digits ∧ value = digitsValue digits ∧ value ≤ high := by
  constructor
  · intro converted
    unfold strtoul at converted
    dsimp only at converted
    split_ifs at converted with nothing above
    · exact absurd (congrArg Conversion.rest converted) some
    · cases congrArg Conversion.erange converted
    · obtain ⟨rfl, rest, -⟩ := Conversion.mk.inj converted
      have inRange : signedValue (scan s).negative (scan s).digits % (high + 1) =
          digitsValue (scan s).digits := by
        rw [unsigned, signedValue_false]
        exact Int.emod_eq_of_lt (by omega) (by omega)
      refine ⟨_, numeral_iff.mpr ⟨?_, nothing⟩, inRange, by omega⟩
      rw [← rest, ← unsigned]
  · rintro ⟨digits, numeral, rfl, below⟩
    obtain ⟨read, digit⟩ := numeral_iff.mp numeral
    unfold strtoul
    dsimp only
    rw [read, if_neg digit, if_neg (by dsimp only; omega)]
    simp only [Conversion.mk.injEq, and_true, signedValue_false]
    exact Int.emod_eq_of_lt (by omega) (by omega)

end Strtol
