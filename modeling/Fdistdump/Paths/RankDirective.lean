import Fdistdump.Paths.PathPreprocessor

/-!
# The rank directive

A path format may be meant for one slave: it starts with a percent sign, the rank and a colon.
`atoi` reads the rank, and keeps 32 bits of what it reads. `path_preprocessor_iff` says which
formats are expanded as they should be.
-/

namespace Fdistdump.Paths
open Args Strtol Time

variable {host body : List Char}

theorem atoi_append {digits rest : List Char} (some : digits ≠ []) (all : ∀ c ∈ digits, isdigit c)
    (stops : ∀ c ∈ rest.head?, isdigit c = false) : atoi (digits ++ rest) = atoi digits := by
  have alone : scan (digits ++ []) = ⟨false, digits, []⟩ := scan_digits some all nofun
  rw [List.append_nil] at alone
  unfold atoi strtol
  rw [scan_digits some all stops, alone]
  dsimp only
  split_ifs <;> rfl

theorem atoi_small {digits : List Char} {rank : Nat} (some : digits ≠ []) (all : ∀ c ∈ digits, isdigit c)
    (number : digitsValue digits = rank) (small : rank < 2 ^ 31) : atoi digits = rank := by
  have alone : scan (digits ++ []) = ⟨false, digits, []⟩ := scan_digits some all nofun
  rw [List.append_nil] at alone
  unfold atoi strtol
  rw [alone]
  dsimp only
  rw [if_neg some, signedValue_false, number, if_neg (by unfold llongMin; omega),
    if_neg (by unfold llongMax; omega),
    Int.bmod_def]
  dsimp only
  split <;> omega

variable {format : List Char} {worldRank : Int}

theorem stops_colon (body : List Char) : ∀ c ∈ (':' :: body).head?, isdigit c = false := by
  rintro c ⟨⟩
  rfl

section Prefix

variable {digits rest : List Char} (some : digits ≠ []) (all : ∀ c ∈ digits, isdigit c)
include some all

theorem pathPreprocessor_addressed (short : ('%' :: (digits ++ ':' :: rest)).length < pathMax) :
    pathPreprocessor worldRank host ('%' :: (digits ++ ':' :: rest)) =
      if worldRank ≠ atoi digits then (false, {}) else expandLoop host rest {} := by
  have stops := stops_colon rest
  obtain ⟨digit, more, rfl⟩ := List.exists_cons_of_ne_nil some
  have dropped := (takeWhile_isdigit (fun c member => all c (List.mem_cons_of_mem _ member)) stops).2
  rw [List.cons_append] at short ⊢
  rw [pathPreprocessor_digit (all digit List.mem_cons_self) short, dropped, ← List.cons_append,
    atoi_append some all stops]
  rfl

theorem pathPreprocessor_unterminated (stops : ∀ c ∈ rest.head?, isdigit c = false)
    (colon : ∀ body, rest ≠ ':' :: body) (short : ('%' :: (digits ++ rest)).length < pathMax) :
    pathPreprocessor worldRank host ('%' :: (digits ++ rest)) = (false, {}) := by
  obtain ⟨digit, more, rfl⟩ := List.exists_cons_of_ne_nil some
  have dropped := (takeWhile_isdigit (fun c member => all c (List.mem_cons_of_mem _ member)) stops).2
  rw [List.cons_append] at short ⊢
  rw [pathPreprocessor_digit (all digit List.mem_cons_self) short, dropped]
  split
  · exact absurd rfl (colon _)
  · rfl

theorem digits_unknown (more : List Char) : digits ++ rest ≠ 'h' :: more := by
  obtain ⟨digit, behind, rfl⟩ := List.exists_cons_of_ne_nil some
  intro same
  obtain ⟨rfl, -⟩ := List.cons.inj same
  exact absurd (all 'h' List.mem_cons_self) (by decide)

end Prefix

theorem digits_inj {digits rest digits' rest' : List Char} (all : ∀ c ∈ digits, isdigit c)
    (all' : ∀ c ∈ digits', isdigit c) (stops : ∀ c ∈ rest.head?, isdigit c = false)
    (stops' : ∀ c ∈ rest'.head?, isdigit c = false)
    (same : '%' :: (digits ++ rest) = '%' :: (digits' ++ rest')) :
    digits = digits' ∧ rest = rest' := by
  obtain ⟨taken, dropped⟩ := takeWhile_isdigit all stops
  obtain ⟨taken', dropped'⟩ := takeWhile_isdigit all' stops'
  rw [(List.cons.inj same).2] at taken dropped
  exact ⟨taken.symm.trans taken', dropped.symm.trans dropped'⟩

theorem prefix_cases (format : List Char) :
    (∀ digit rest, format = '%' :: digit :: rest → isdigit digit = false) ∨
      ∃ digits rest, format = '%' :: (digits ++ rest) ∧ digits ≠ [] ∧ (∀ c ∈ digits, isdigit c) ∧
        ∀ c ∈ rest.head?, isdigit c = false := by
  by_cases plain : ∀ digit rest, format = '%' :: digit :: rest → isdigit digit = false
  · exact .inl plain
  · push Not at plain
    obtain ⟨digit, rest, rfl, digit'⟩ := plain
    refine .inr ⟨(digit :: rest).takeWhile isdigit, (digit :: rest).dropWhile isdigit, ?_, ?_, ?_, ?_⟩
    · rw [List.takeWhile_append_dropWhile]
    · rw [List.takeWhile_cons_of_pos (by simpa using digit')]
      exact List.cons_ne_nil _ _
    · exact fun c member => List.mem_takeWhile_imp member
    · intro c first
      have stop := List.head?_dropWhile_not isdigit (digit :: rest)
      rwa [Option.mem_def.mp first] at stop

/-! ### Where the law holds -/

/-- The number of the directive differs from the rank, but not in the low 32 bits that `atoi` keeps. -/
def Misaddressed (rank : Nat) (format body : List Char) : Prop :=
  ∃ digits, format = '%' :: (digits ++ ':' :: body) ∧ digits ≠ [] ∧ (∀ c ∈ digits, isdigit c) ∧
    digitsValue digits ≠ rank ∧ atoi digits = rank

/-- No ordinary character is appended to a full array, and no other number is taken for the rank. -/
structure Harmless (rank : Nat) (host format : List Char) : Prop where
  fits : ∀ body, Targets rank format body → ¬ Overruns host 0 body
  refused : ∀ body, Misaddressed rank format body →
    ¬ Overruns host 0 body ∧ ∀ text, expansion host body = some text → pathMax ≤ text.length

variable {rank : Nat}

theorem expansionLaw_skipped (skips : pathPreprocessor rank host format = (false, {}))
    (unfit : ∀ body text, format.length < pathMax → Targets rank format body →
      expansion host body ≠ some text) :
    ExpansionLaw rank host format := by
  refine ⟨by rw [skips]; exact Nat.zero_le _, fun path => ⟨?_, ?_⟩⟩
  · rintro ⟨goes, -⟩
    rw [skips] at goes
    cases goes
  · rintro ⟨short, -, body, targets, expands⟩
    exact absurd expands (unfit body path short targets)

theorem appends_empty (fits : ¬ Overruns host 0 body) : Appends host body {} :=
  appends_of_not_overruns (by decide) (Nat.zero_le _) fits

theorem inBounds_overruns (runs : pathPreprocessor rank host format = expandLoop host body {})
    (law : ExpansionLaw rank host format) : ¬ Overruns host 0 body := by
  intro overruns
  have written := law.inBounds
  have behind : pathMax < (expandLoop host body {}).2.written := expandLoop_overruns overruns
  rw [runs] at written
  omega

theorem expansionLaw_loop (runs : pathPreprocessor rank host format = expandLoop host body {})
    (short : format.length < pathMax) (targets : Targets rank format body)
    (unique : ∀ other, Targets rank format other → other = body ∨ expansion host other = none)
    (fits : ¬ Overruns host 0 body) : ExpansionLaw rank host format := by
  have appends := appends_empty fits
  refine ⟨by rw [runs]; exact appends.inBounds, fun path => ?_⟩
  rw [runs, appends.expands]
  constructor
  · rintro ⟨small, text, expands, rfl⟩
    exact ⟨short, small, body, targets, expands⟩
  · rintro ⟨-, small, other, targets, expands⟩
    rcases unique other targets with rfl | none
    · exact ⟨small, path, expands, rfl⟩
    · rw [none] at expands
      cases expands

theorem not_addressed_plain (plain : ∀ digit rest, format = '%' :: digit :: rest → isdigit digit = false)
    {digits : List Char} (some : digits ≠ []) (all : ∀ c ∈ digits, isdigit c) :
    format ≠ '%' :: (digits ++ ':' :: body) := by
  rintro rfl
  obtain ⟨digit, more, rfl⟩ := List.exists_cons_of_ne_nil some
  have no := plain digit (more ++ ':' :: body) rfl
  rw [all digit List.mem_cons_self] at no
  cases no

theorem path_preprocessor_plain_iff (short : format.length < pathMax)
    (plain : ∀ digit rest, format = '%' :: digit :: rest → isdigit digit = false) :
    ExpansionLaw rank host format ↔ Harmless rank host format := by
  have runs : pathPreprocessor rank host format = expandLoop host format {} :=
    pathPreprocessor_plain short plain
  have targets_eq (body : List Char) (targets : Targets rank format body) : body = format := by
    cases targets with
    | all => rfl
    | one digits body some all number => exact absurd rfl (not_addressed_plain plain some all)
  constructor
  · intro law
    refine ⟨fun body targets => ?_, ?_⟩
    · rw [targets_eq body targets]
      exact inBounds_overruns runs law
    · rintro body ⟨digits, shape, some, all, -⟩
      exact absurd shape (not_addressed_plain plain some all)
  · rintro ⟨fits, -⟩
    exact expansionLaw_loop runs short (.all format)
      (fun other targets => .inl (targets_eq other targets))
      (fits format (.all format))

section Addressed

variable {digits rest : List Char} (some : digits ≠ []) (all : ∀ c ∈ digits, isdigit c)
include some all

variable (host) in
theorem targets_digits (stops : ∀ c ∈ rest.head?, isdigit c = false)
    (targets : Targets rank ('%' :: (digits ++ rest)) body) :
    (expansion host body = none ∧ ∀ n, ¬ Overruns host n body) ∨ rest = ':' :: body ∧
    digitsValue digits = rank := by
  generalize whole : '%' :: (digits ++ rest) = format at targets
  cases targets with
  | all =>
    subst whole
    exact .inl ⟨expansion_unknown (digits_unknown some all), fun n =>
      overruns_unknown (digits_unknown some all)⟩
  | one digits' body some' all' number =>
    obtain ⟨rfl, rfl⟩ := digits_inj all all' stops (stops_colon _) whole
    exact .inr ⟨rfl, number⟩

omit some in
theorem misaddressed_digits (stops : ∀ c ∈ rest.head?, isdigit c = false)
    (wrong : Misaddressed rank ('%' :: (digits ++ rest)) body) :
    rest = ':' :: body ∧ digitsValue digits ≠ rank ∧ atoi digits = rank := by
  obtain ⟨digits', whole, some', all', number, read⟩ := wrong
  obtain ⟨rfl, rfl⟩ := digits_inj all all' stops (stops_colon _) whole
  exact ⟨rfl, number, read⟩

variable (host) in
/-- The number is a different one, also for `atoi`, or no colon follows it. -/
theorem path_preprocessor_skips (small : rank < 2 ^ 31)
    (short : ('%' :: (digits ++ rest)).length < pathMax)
    (stops : ∀ c ∈ rest.head?, isdigit c = false)
    (skips : ∀ body, rest = ':' :: body → atoi digits ≠ rank) :
    ExpansionLaw rank host ('%' :: (digits ++ rest)) ∧ Harmless rank host ('%' :: (digits ++ rest)) := by
  have other (body : List Char) (targets : Targets rank ('%' :: (digits ++ rest)) body) :
      expansion host body = none ∧ ∀ n, ¬ Overruns host n body := by
    refine (targets_digits host some all stops targets).resolve_right ?_
    intro ⟨colon, number⟩
    exact skips body colon (atoi_small some all number small)
  refine ⟨expansionLaw_skipped ?_ fun body text _ targets expands => ?_, fun body targets =>
    (other body targets).2 0,
    fun body wrong => ?_⟩
  · by_cases colon : ∃ body, rest = ':' :: body
    · obtain ⟨body, rfl⟩ := colon
      rw [pathPreprocessor_addressed some all short, if_pos (Ne.symm (skips body rfl))]
    · exact pathPreprocessor_unterminated some all stops (not_exists.mp colon) short
  · rw [(other body targets).1] at expands
    cases expands
  · obtain ⟨colon, -, read⟩ := misaddressed_digits all stops wrong
    exact absurd read (skips body colon)

theorem path_preprocessor_number_iff (short : ('%' :: (digits ++ ':' :: rest)).length < pathMax)
    (runs : pathPreprocessor rank host ('%' :: (digits ++ ':' :: rest)) = expandLoop host rest {})
    (number : digitsValue digits = rank) :
    ExpansionLaw rank host ('%' :: (digits ++ ':' :: rest)) ↔ Harmless rank host
    ('%' :: (digits ++ ':' :: rest)) := by
  constructor
  · intro law
    refine ⟨fun body targets => ?_, fun body wrong => ?_⟩
    · rcases targets_digits host some all (stops_colon _) targets with ⟨-, fits⟩ | ⟨same, -⟩
      · exact fits 0
      · obtain ⟨-, rfl⟩ := List.cons.inj same
        exact inBounds_overruns runs law
    · exact absurd number (misaddressed_digits all (stops_colon _) wrong).2.1
  · intro harmless
    have targets : Targets rank ('%' :: (digits ++ ':' :: rest)) rest := .one digits rest some all number
    refine expansionLaw_loop runs short targets (fun other targets' => ?_) (harmless.fits rest targets)
    rcases targets_digits host some all (stops_colon _) targets' with ⟨none, -⟩ | ⟨same, -⟩
    · exact .inr none
    · exact .inl (List.cons.inj same).2.symm

theorem path_preprocessor_misread_iff
    (runs : pathPreprocessor rank host ('%' :: (digits ++ ':' :: rest)) = expandLoop host rest {})
    (number : digitsValue digits ≠ rank) (read : atoi digits = rank) :
    ExpansionLaw rank host ('%' :: (digits ++ ':' :: rest)) ↔ Harmless rank host
    ('%' :: (digits ++ ':' :: rest)) := by
  have other (body : List Char) (targets : Targets rank ('%' :: (digits ++ ':' :: rest)) body) :
      expansion host body = none ∧ ∀ n, ¬ Overruns host n body := by
    refine (targets_digits host some all (stops_colon _) targets).resolve_right ?_
    rintro ⟨-, same⟩
    exact number same
  have nobody (body : List Char) (text : Path)
    (targets : Targets rank ('%' :: (digits ++ ':' :: rest)) body) :
      expansion host body ≠ .some text := by
    intro expands
    rw [(other body targets).1] at expands
    cases expands
  constructor
  · intro law
    have fits := inBounds_overruns runs law
    refine ⟨fun body targets => (other body targets).2 0, ?_⟩
    intro body wrong
    obtain ⟨same, -⟩ := misaddressed_digits all (stops_colon _) wrong
    obtain ⟨-, rfl⟩ := List.cons.inj same
    refine ⟨fits, ?_⟩
    intro text expands
    by_contra long
    have accepts := ((appends_empty fits).expands text).mpr ⟨Nat.lt_of_not_le long, text, expands, rfl⟩
    rw [← runs] at accepts
    obtain ⟨-, -, body, targets, expands'⟩ := (law.expands text).mp accepts
    exact nobody body text targets expands'
  · intro harmless
    obtain ⟨fits, long⟩ := harmless.refused rest ⟨digits, rfl, some, all, number, read⟩
    have appends := appends_empty fits
    refine ⟨by rw [runs]; exact appends.inBounds, fun path => ?_⟩
    rw [runs, appends.expands]
    constructor
    · rintro ⟨small, text, expands, rfl⟩
      exact absurd small (Nat.not_lt_of_le (long _ expands))
    · rintro ⟨-, -, body, targets, expands⟩
      exact absurd expands (nobody body path targets)

theorem path_preprocessor_addressed_iff (short : ('%' :: (digits ++ ':' :: rest)).length < pathMax)
    (read : atoi digits = rank) :
    ExpansionLaw rank host ('%' :: (digits ++ ':' :: rest)) ↔ Harmless rank host
    ('%' :: (digits ++ ':' :: rest)) := by
  have runs : pathPreprocessor rank host ('%' :: (digits ++ ':' :: rest)) = expandLoop host rest {} := by
    rw [pathPreprocessor_addressed some all short, if_neg (not_not.mpr read.symm)]
  by_cases number : digitsValue digits = rank
  · exact path_preprocessor_number_iff some all short runs number
  · exact path_preprocessor_misread_iff some all runs number read

end Addressed

/-- `path_preprocessor` does what the format says exactly when the format is too long for it anyway,
or harmless. -/
theorem path_preprocessor_iff (host format : List Char) {rank : Nat} (small : rank < 2 ^ 31) :
    ExpansionLaw rank host format ↔ (format.length < pathMax → Harmless rank host format) := by
  by_cases short : format.length < pathMax
  · rw [forall_prop_of_true short]
    rcases prefix_cases format with plain | ⟨digits, rest, rfl, some, all, stops⟩
    · exact path_preprocessor_plain_iff short plain
    · by_cases addressed : ∃ body, rest = ':' :: body ∧ atoi digits = rank
      · obtain ⟨body, rfl, read⟩ := addressed
        exact path_preprocessor_addressed_iff some all short read
      · have skips : ∀ body, rest = ':' :: body → atoi digits ≠ rank := by simpa using addressed
        obtain ⟨law, harmless⟩ := path_preprocessor_skips host some all small short stops skips
        exact iff_of_true law harmless
  · refine iff_of_true (expansionLaw_skipped ?_ fun _ _ short' => absurd short' short) fun short' =>
      absurd short' short
    unfold pathPreprocessor
    rw [if_pos (Nat.le_of_not_lt short)]

theorem path_preprocessor_iff_host :
    ExpansionLaw 1 ['n', '1'] ['/', '%', 'h'] ↔ (3 < pathMax → Harmless 1 ['n', '1'] ['/', '%', 'h']) :=
  path_preprocessor_iff ['n', '1'] ['/', '%', 'h'] (by decide)

theorem expansion_replicate {c : Char} (ordinary : c ≠ '%') (n : Nat) :
    expansion host (List.replicate n c) = some (List.replicate n c) := by
  induction n with
  | zero => rfl
  | succ n ih => rw [List.replicate_succ, expansion_ordinary ordinary, ih, Option.map_some]

/-- A host name of three characters and ordinary characters up to the length of the array; a number
that is the rank only in an `int`. -/
theorem path_preprocessor_overruns_and_misreads :
    ¬ ExpansionLaw 1 ['n', '1', '0'] ('%' :: 'h' :: List.replicate 4093 'x') ∧
      ¬ ExpansionLaw 0 ['n', '1', '0'] ('%' :: ("4294967296".toList ++ ':' :: ['x'])) := by
  constructor
  · have short : ('%' :: 'h' :: List.replicate 4093 'x').length < pathMax := by
      rw [List.length_cons, List.length_cons, List.length_replicate]
      decide
    have runs : pathPreprocessor (1 : Nat) ['n', '1', '0'] ('%' :: 'h' :: List.replicate 4093 'x') = _ :=
      pathPreprocessor_plain short (by rintro digit rest ⟨⟩; rfl)
    have overruns : Overruns ['n', '1', '0'] 0 ('%' :: 'h' :: List.replicate 4093 'x') := by
      rw [overruns_host, List.replicate_succ']
      refine ⟨List.replicate 4092 'x', 'x', [], rfl, by decide, _, expansion_replicate (by decide) _, ?_⟩
      rw [List.length_replicate]
      rfl
    exact fun law => inBounds_overruns runs law overruns
  · have all : ∀ c ∈ "4294967296".toList, isdigit c := List.all_eq_true.mp rfl
    have wrong : Misaddressed 0 ('%' :: ("4294967296".toList ++ ':' :: ['x'])) ['x'] :=
      ⟨_, rfl, by decide, all, by decide, by decide⟩
    intro law
    have harmless := (path_preprocessor_addressed_iff (by decide) all (by decide) (by decide)).mp law
    exact absurd ((harmless.refused _ wrong).2 ['x'] rfl) (by decide)

end Fdistdump.Paths
