import Fdistdump.Args.Integers
import Fdistdump.Time.FillFromTime

/-!
# Path formats

`path_preprocessor` expands the directives of a path format into an array of `PATH_MAX` bytes. The
host name is refused when it does not fit; ordinary characters are appended without a test.
-/

namespace Fdistdump.Paths
open Args Strtol Time

/-- `atoi`: a `long`, converted to `int`. -/
def atoi (s : List Char) : Int := (strtol llongMin llongMax s).value.bmod (2 ^ 32)

/-- The output array: the string in it, and how many of its bytes have been written to so far.
Behind its end the string goes on in whatever lies there. -/
structure PathBuff where
  path : Path := []
  written : Nat := 0

def PathBuff.strcat (buff : PathBuff) (text : List Char) : PathBuff where
  path := buff.path ++ text
  written := max buff.written (buff.path.length + text.length + 1)

/-- `gethostname` to the end of the string, with `size` bytes: a longer name is cut off and reported. -/
def PathBuff.gethostname (buff : PathBuff) (host : List Char) (size : Nat) : Bool × PathBuff :=
  if host.length < size then (true, buff.strcat host)
  else (false,
    { path := buff.path ++ host.take size, written := max buff.written (buff.path.length + size) })

/-- The `switch` over the character behind the percent sign. -/
def PathBuff.convert (buff : PathBuff) (host : List Char) : List Char → Bool × PathBuff
  | 'h' :: _ => buff.gethostname host (toSizeT (pathMax - buff.path.length))
  | _ => (false, buff)

theorem length_of_strchr {c : Char} {s before after : List Char}
    (found : strchr c s = some (before, after)) :
    after.length < s.length := by
  obtain ⟨rfl, -⟩ := strchr_eq_some.mp found
  rw [List.length_append, List.length_cons]
  omega

def expandLoop (host : List Char) (lastPath : List Char) (buff : PathBuff) : Bool × PathBuff :=
  match found : strchr '%' lastPath with
  | none => (true, buff.strcat lastPath)
  | some (text, percSign) =>
    have := length_of_strchr found
    let converted := (buff.strcat text).convert host percSign
    if converted.1 then expandLoop host percSign.tail converted.2 else converted
termination_by lastPath.length
decreasing_by
  rw [List.length_tail]
  omega

/-- `path_preprocessor`, with the rank that MPI reports. The array is zeroed by the caller. -/
def pathPreprocessor (worldRank : Int) (host format : List Char) : Bool × PathBuff :=
  if pathMax ≤ format.length then (false, {})
  else
    match format with
    | '%' :: digit :: rest =>
      if isdigit digit then
        match rest.dropWhile isdigit with
        | ':' :: lastPath =>
          if worldRank ≠ atoi (digit :: rest) then (false, {}) else expandLoop host lastPath {}
        | _ => (false, {})
      else expandLoop host format {}
    | _ => expandLoop host format {}

/-! ### What a format means -/

/-- Every `%h` replaced by the host name; there is no other directive. -/
def expansion (host : List Char) : List Char → Option Path
  | [] => some []
  | '%' :: 'h' :: rest => (expansion host rest).map (host ++ ·)
  | '%' :: _ => none
  | c :: rest => (expansion host rest).map (c :: ·)

/-- A format and what is left of it for the slave with the rank. -/
inductive Targets (rank : Nat) : List Char → List Char → Prop
  | all (body : List Char) : Targets rank body body
  | one (digits body : List Char) (some : digits ≠ []) (isdigit : ∀ c ∈ digits, isdigit c)
    (number : digitsValue digits = rank) : Targets rank ('%' :: (digits ++ ':' :: body)) body

/-- An ordinary character follows when the expansion has just one byte left. -/
def Overruns (host : List Char) (length : Nat) (body : List Char) : Prop :=
  ∃ front c back, body = front ++ c :: back ∧ c ≠ '%' ∧
    ∃ path, expansion host front = some path ∧ length + path.length + 1 = pathMax

/-- The array is not overrun, and exactly the formats that are well formed and fit are expanded. -/
structure ExpansionLaw (rank : Nat) (host format : List Char) : Prop where
  inBounds : (pathPreprocessor rank host format).2.written ≤ pathMax
  expands : ∀ path, (pathPreprocessor rank host format).1 = true ∧
    (pathPreprocessor rank host format).2.path = path ↔
    format.length < pathMax ∧ path.length < pathMax ∧ ∃ body, Targets rank format body ∧
      expansion host body = some path

/-! ### The loop, character by character -/

variable {host body : List Char} {buff : PathBuff}

theorem expandLoop_of_none (none : strchr '%' body = none) :
    expandLoop host body buff = (true, buff.strcat body) := by
  rw [expandLoop.eq_def]
  split
  · rfl
  · rename_i found
    rw [none] at found
    cases found

theorem expandLoop_of_some {text percSign : List Char}
    (found : strchr '%' body = some (text, percSign)) :
    expandLoop host body buff =
      if ((buff.strcat text).convert host percSign).1 then
        expandLoop host percSign.tail ((buff.strcat text).convert host percSign).2
      else (buff.strcat text).convert host percSign := by
  rw [expandLoop.eq_def]
  split
  · rename_i none
    rw [none] at found
    cases found
  · rename_i found'
    rw [found'] at found
    cases found
    rfl

theorem strcat_strcat (buff : PathBuff) (xs ys : List Char) :
    (buff.strcat xs).strcat ys = buff.strcat (xs ++ ys) := by
  simp only [PathBuff.strcat, List.append_assoc, List.length_append, PathBuff.mk.injEq, true_and]
  omega

theorem expandLoop_ordinary {c : Char} (ordinary : c ≠ '%') (rest : List Char) (buff : PathBuff) :
    expandLoop host (c :: rest) buff = expandLoop host rest (buff.strcat [c]) := by
  cases found : strchr '%' rest with
  | none =>
    have found' : strchr '%' (c :: rest) = none := by rw [strchr, if_neg ordinary, found]; rfl
    rw [expandLoop_of_none found, expandLoop_of_none found', strcat_strcat]
    rfl
  | some parts =>
    obtain ⟨text, percSign⟩ := parts
    have found' : strchr '%' (c :: rest) = some (c :: text, percSign) := by
      rw [strchr, if_neg ordinary, found]; rfl
    rw [expandLoop_of_some found, expandLoop_of_some found', strcat_strcat]
    rfl

theorem expandLoop_directive (percSign : List Char) (buff : PathBuff) :
    expandLoop host ('%' :: percSign) buff =
      if ((buff.strcat []).convert host percSign).1 then
        expandLoop host percSign.tail ((buff.strcat []).convert host percSign).2
      else (buff.strcat []).convert host percSign :=
  expandLoop_of_some rfl

theorem strcat_nil_path (buff : PathBuff) : (buff.strcat []).path = buff.path := List.append_nil _

theorem written_strcat (buff : PathBuff) (text : List Char) :
    buff.written ≤ (buff.strcat text).written := Nat.le_max_left _ _

theorem written_convert (buff : PathBuff) (percSign : List Char) :
    buff.written ≤ (buff.convert host percSign).2.written := by
  unfold PathBuff.convert
  split
  · unfold PathBuff.gethostname
    split
    · exact written_strcat _ _
    · exact Nat.le_max_left _ _
  · exact Nat.le_refl _

theorem written_expandLoop (body : List Char) (buff : PathBuff) :
    buff.written ≤ (expandLoop host body buff).2.written := by
  fun_induction expandLoop host body buff with
  | case1 => exact written_strcat _ _
  | case2 _ _ _ _ _ _ _ _ ih => exact (written_strcat _ _).trans ((written_convert _ _).trans ih)
  | case3 => exact (written_strcat _ _).trans (written_convert _ _)

/-! ### Overruns -/

theorem overruns_nil {n : Nat} : ¬ Overruns host n [] := by
  rintro ⟨front, c, back, shape, -⟩
  cases front <;> cases shape

theorem expansion_ordinary {c : Char} (ordinary : c ≠ '%') (rest : List Char) :
    expansion host (c :: rest) = (expansion host rest).map (c :: ·) := by
  rw [expansion]
  · rintro rest rfl
    exact absurd rfl ordinary
  · exact ordinary

theorem overruns_length {n : Nat} (overruns : Overruns host n body) : n < pathMax := by
  obtain ⟨front, c, back, -, -, path, -, full⟩ := overruns
  rw [← full]
  omega

theorem overruns_ordinary {n : Nat} {c : Char} (ordinary : c ≠ '%') (rest : List Char) :
    Overruns host n (c :: rest) ↔ n + 1 = pathMax ∨ Overruns host (n + 1) rest := by
  constructor
  · intro ⟨front, d, back, shape, ordinary', path, expands, full⟩
    cases front with
    | nil =>
      cases expands
      exact .inl full
    | cons e front =>
      obtain ⟨rfl, rfl⟩ := List.cons.inj shape
      rw [expansion_ordinary ordinary, Option.map_eq_some_iff] at expands
      obtain ⟨path, expands, rfl⟩ := expands
      refine .inr ⟨front, d, back, rfl, ordinary', path, expands, ?_⟩
      rw [List.length_cons] at full
      omega
  · rintro (full | ⟨front, d, back, rfl, ordinary', path, expands, full⟩)
    · exact ⟨[], c, rest, rfl, ordinary, [], rfl, full⟩
    · refine ⟨c :: front, d, back, rfl, ordinary', c :: path, ?_, ?_⟩
      · rw [expansion_ordinary ordinary, expands]
        rfl
      · rw [List.length_cons]
        omega

theorem overruns_host {n : Nat} (rest : List Char) :
    Overruns host n ('%' :: 'h' :: rest) ↔ Overruns host (n + host.length) rest := by
  constructor
  · intro ⟨front, d, back, shape, ordinary, path, expands, full⟩
    rcases front with _ | ⟨e, _ | ⟨e', front⟩⟩
    · exact absurd (List.cons.inj shape).1.symm ordinary
    · obtain ⟨rfl, -⟩ := List.cons.inj shape
      cases expands
    · simp only [List.cons_append, List.cons.injEq] at shape
      obtain ⟨rfl, rfl, rfl⟩ := shape
      rw [expansion, Option.map_eq_some_iff] at expands
      obtain ⟨path, expands, rfl⟩ := expands
      refine ⟨front, d, back, rfl, ordinary, path, expands, ?_⟩
      rw [List.length_append] at full
      omega
  · rintro ⟨front, d, back, rfl, ordinary, path, expands, full⟩
    refine ⟨'%' :: 'h' :: front, d, back, rfl, ordinary, host ++ path, ?_, ?_⟩
    · rw [expansion, expands]
      rfl
    · rw [List.length_append]
      omega

theorem expansion_unknown {rest : List Char} (unknown : ∀ more, rest ≠ 'h' :: more) :
    expansion host ('%' :: rest) = none := by
  rw [expansion]
  exact unknown

theorem overruns_unknown {n : Nat} {rest : List Char} (unknown : ∀ more, rest ≠ 'h' :: more) :
    ¬ Overruns host n ('%' :: rest) := by
  rintro ⟨front, c, back, shape, ordinary, path, expands, -⟩
  cases front with
  | nil => exact ordinary (List.cons.inj shape).1.symm
  | cons d front =>
    obtain ⟨rfl, rfl⟩ := List.cons.inj shape
    rw [expansion_unknown] at expands
    · cases expands
    · rintro more rfl
      exact unknown _ rfl

/-! ### The loop -/

theorem convert_unknown {rest : List Char} (unknown : ∀ more, rest ≠ 'h' :: more) (buff : PathBuff) :
    buff.convert host rest = (false, buff) := by
  unfold PathBuff.convert
  split
  · exact absurd rfl (unknown _)
  · rfl

theorem convert_host (rest : List Char) (room : buff.path.length < pathMax) :
    buff.convert host ('h' :: rest) = buff.gethostname host (pathMax - buff.path.length) := by
  have size : toSizeT (pathMax - buff.path.length) = pathMax - buff.path.length :=
    toSizeT_eq (by omega) (by unfold pathMax; omega)
  rw [PathBuff.convert, size]

theorem length_strcat (buff : PathBuff) (text : List Char) :
    (buff.strcat text).path.length = buff.path.length + text.length := List.length_append

theorem expandLoop_host (rest : List Char) (fits : buff.path.length + host.length < pathMax) :
    expandLoop host ('%' :: 'h' :: rest) buff = expandLoop host rest ((buff.strcat []).strcat host) := by
  have room : (buff.strcat []).path.length < pathMax := by
    rw [strcat_nil_path]
    omega
  have short : host.length < pathMax - (buff.strcat []).path.length := by
    rw [strcat_nil_path]
    omega
  rw [expandLoop_directive, convert_host rest room, PathBuff.gethostname, if_pos short, if_pos rfl,
    List.tail_cons]

theorem expandLoop_refused (rest : List Char) (room : buff.path.length < pathMax)
    (long : pathMax ≤ buff.path.length + host.length) :
    (expandLoop host ('%' :: 'h' :: rest) buff).1 = false ∧
      (expandLoop host ('%' :: 'h' :: rest) buff).2.written = max (buff.strcat []).written pathMax := by
  have room' : (buff.strcat []).path.length < pathMax := by rwa [strcat_nil_path]
  have cut : ¬ host.length < pathMax - (buff.strcat []).path.length := by
    rw [strcat_nil_path]
    omega
  rw [expandLoop_directive, convert_host rest room', PathBuff.gethostname, if_neg cut,
    if_neg Bool.false_ne_true]
  refine ⟨rfl, ?_⟩
  dsimp only
  rw [strcat_nil_path, Nat.add_sub_cancel' (Nat.le_of_lt room)]

variable (host) in
theorem expandLoop_unknown {rest : List Char} (unknown : ∀ more, rest ≠ 'h' :: more) (buff : PathBuff) :
    expandLoop host ('%' :: rest) buff = (false, buff.strcat []) := by
  rw [expandLoop_directive, convert_unknown unknown, if_neg Bool.false_ne_true]

/-- Once the expansion has come to the last byte, the next ordinary character is written behind the
array. -/
theorem expandLoop_overruns (overruns : Overruns host buff.path.length body) :
    pathMax < (expandLoop host body buff).2.written := by
  fun_induction expansion host body generalizing buff with
  | case1 => exact absurd overruns overruns_nil
  | case2 rest ih =>
    rw [overruns_host] at overruns
    have fits := overruns_length overruns
    rw [expandLoop_host rest fits]
    apply ih
    rwa [length_strcat, length_strcat, List.length_nil]
  | case3 rest unknown => exact absurd overruns (overruns_unknown unknown)
  | case4 c rest _ ordinary ih =>
    rw [expandLoop_ordinary ordinary]
    rcases (overruns_ordinary ordinary rest).mp overruns with full | later
    · refine lt_of_lt_of_le ?_ (written_expandLoop _ _)
      rw [← full]
      exact Nat.lt_of_lt_of_le (Nat.lt_succ_self _) (Nat.le_max_right _ _)
    · exact ih (by rwa [length_strcat])

/-- The array is not overrun, and the loop appends the expansion when it is defined and fits. -/
structure Appends (host body : List Char) (buff : PathBuff) : Prop where
  inBounds : (expandLoop host body buff).2.written ≤ pathMax
  expands : ∀ path, (expandLoop host body buff).1 = true ∧ (expandLoop host body buff).2.path = path ↔
    path.length < pathMax ∧ ∃ text, expansion host body = some text ∧ path = buff.path ++ text

theorem Appends.step {piece rest : List Char} {buff' : PathBuff}
    (run : expandLoop host body buff = expandLoop host rest buff')
    (path : buff'.path = buff.path ++ piece)
    (expands : expansion host body = (expansion host rest).map (piece ++ ·))
    (appends : Appends host rest buff') :
    Appends host body buff := by
  refine ⟨by rw [run]; exact appends.inBounds, fun q => ?_⟩
  rw [run, appends.expands, path, expands]
  refine and_congr_right fun _ => ⟨?_, ?_⟩
  · rintro ⟨text, same, rfl⟩
    exact ⟨piece ++ text, by rw [same]; rfl, List.append_assoc _ _ _⟩
  · rintro ⟨text, same, rfl⟩
    obtain ⟨text', found, rfl⟩ := Option.map_eq_some_iff.mp same
    exact ⟨text', found, (List.append_assoc _ _ _).symm⟩

theorem Appends.refused (written : (expandLoop host body buff).2.written ≤ pathMax)
    (stops : (expandLoop host body buff).1 = false)
    (unfit : ∀ text, expansion host body = some text → pathMax ≤ buff.path.length + text.length) :
    Appends host body buff := by
  refine ⟨written, fun path => ⟨?_, ?_⟩⟩
  · rintro ⟨goes, -⟩
    rw [stops] at goes
    cases goes
  · rintro ⟨short, text, same, rfl⟩
    rw [List.length_append] at short
    exact absurd (unfit text same) (Nat.not_le_of_lt short)

theorem written_strcat_le {text : List Char} (inBounds : buff.written ≤ pathMax)
    (fits : buff.path.length + text.length < pathMax) : (buff.strcat text).written ≤ pathMax :=
  Nat.max_le.mpr ⟨inBounds, fits⟩

theorem appends_of_not_overruns (room : buff.path.length < pathMax) (inBounds : buff.written ≤ pathMax)
    (fits : ¬ Overruns host buff.path.length body) : Appends host body buff := by
  have inBounds' : (buff.strcat []).written ≤ pathMax := written_strcat_le inBounds room
  fun_induction expansion host body generalizing buff with
  | case1 =>
    refine ⟨by rwa [expandLoop_of_none rfl], fun path => ?_⟩
    rw [expandLoop_of_none rfl]
    constructor
    · rintro ⟨-, rfl⟩
      exact ⟨by rwa [strcat_nil_path], [], rfl, rfl⟩
    · rintro ⟨-, text, same, rfl⟩
      cases same
      exact ⟨rfl, rfl⟩
  | case2 rest ih =>
    rw [overruns_host] at fits
    by_cases short : buff.path.length + host.length < pathMax
    · have path : ((buff.strcat []).strcat host).path = buff.path ++ host := by
        rw [PathBuff.strcat, strcat_nil_path]
      have length : ((buff.strcat []).strcat host).path.length = buff.path.length + host.length := by
        rw [path, List.length_append]
      have written : ((buff.strcat []).strcat host).written ≤ pathMax :=
        written_strcat_le inBounds' (by rwa [strcat_nil_path])
      have appends := ih (by rwa [length]) written (by rwa [length])
        (written_strcat_le written (by rwa [length]))
      exact appends.step (expandLoop_host rest short) path rfl
    · have long : pathMax ≤ buff.path.length + host.length := Nat.le_of_not_lt short
      obtain ⟨stops, written⟩ := expandLoop_refused rest room long
      refine .refused (by rw [written]; exact Nat.max_le.mpr ⟨inBounds', Nat.le_refl _⟩) stops ?_
      intro text same
      obtain ⟨text, -, rfl⟩ := Option.map_eq_some_iff.mp same
      rw [List.length_append]
      omega
  | case3 rest unknown =>
    have run := expandLoop_unknown host unknown buff
    refine .refused (by rwa [run]) (by rw [run]) ?_
    intro text same
    rw [expansion_unknown unknown] at same
    cases same
  | case4 c rest _ ordinary ih =>
    rw [overruns_ordinary ordinary] at fits
    have length : (buff.strcat [c]).path.length = buff.path.length + 1 := length_strcat _ _
    have room' : buff.path.length + 1 < pathMax := by omega
    have written : (buff.strcat [c]).written ≤ pathMax := written_strcat_le inBounds room'
    have appends := ih (by rwa [length]) written (by rw [length]; tauto)
      (written_strcat_le written (by rwa [length]))
    exact appends.step (expandLoop_ordinary ordinary rest buff) rfl (expansion_ordinary ordinary rest)

/-! ### The start of a format -/

variable {format : List Char} {worldRank : Int}

theorem pathPreprocessor_plain (short : format.length < pathMax)
    (plain : ∀ digit rest, format = '%' :: digit :: rest → isdigit digit = false) :
    pathPreprocessor worldRank host format = expandLoop host format {} := by
  unfold pathPreprocessor
  rw [if_neg (Nat.not_le_of_lt short)]
  split
  · rw [plain _ _ rfl, if_neg Bool.false_ne_true]
  · rfl

theorem pathPreprocessor_digit {digit : Char} {rest : List Char} (digit' : isdigit digit)
    (short : ('%' :: digit :: rest).length < pathMax) :
    pathPreprocessor worldRank host ('%' :: digit :: rest) =
      match rest.dropWhile isdigit with
      | ':' :: lastPath =>
        if worldRank ≠ atoi (digit :: rest) then (false, {}) else expandLoop host lastPath {}
      | _ => (false, {}) := by
  unfold pathPreprocessor
  rw [if_neg (Nat.not_le_of_lt short)]
  change ite (isdigit digit = true) _ _ = _
  rw [if_pos digit']

end Fdistdump.Paths
