import Fdistdump.Common
import Fdistdump.FieldSet.Build

/-!
# Field and sort specifications

`parse_fields` and `parse_sort_spec` on the option arguments. `parse_sort_spec` returns a `bool`, but one
of its error paths returns an error code.
-/

namespace Fdistdump.Args
open FieldSet

/-- An error code where a `bool` is expected: `E_OK` is zero. -/
def toBool (ecode : ErrorCode) : Bool := ecode != .ok

/-- `strchr`: what stands before and after the first `c`. -/
def strchr (c : Char) : List Char → Option (List Char × List Char)
  | [] => none
  | d :: rest => if d = c then some ([], rest) else (strchr c rest).map (Prod.map (d :: ·) id)

/-- The tokens that `strtok_r` finds, none of them empty; `token` is the beginning of the current one. -/
def strtok (delim : Char) : List Char → List Char → List (List Char)
  | token, [] => if token = [] then [] else [token]
  | token, c :: rest =>
    if c = delim then (if token = [] then [] else [token]) ++ strtok delim [] rest
    else strtok delim (token ++ [c]) rest

/-- What `field_parse` stores. -/
structure ParsedField where
  id : Int
  alignment : Int
  ipv6Alignment : Int
deriving DecidableEq, Repr

abbrev FieldParse : Type := List Char → Option ParsedField

variable (lib : Libnf) (fieldParse : FieldParse)

/-- The token loop of `parse_fields`, with `fields_found`. -/
def parseTokens (areAggrKeys : Bool) : List (List Char) → Nat → Fields → Bool × Nat × Fields
  | [], fieldsFound, fields => (true, fieldsFound, fields)
  | token :: rest, fieldsFound, fields =>
    match fieldParse token with
    | none => (false, fieldsFound, fields)
    | some field =>
      let added :=
        if areAggrKeys then fieldsAddAggrKey lib fields field.id field.alignment field.ipv6Alignment
        else fieldsAddOutputField lib fields field.id
      if !added.1 then (false, fieldsFound, added.2)
      else parseTokens areAggrKeys rest (fieldsFound + 1) added.2

def parseFields (fieldsSpec : List Char) (fields : Fields) (areAggrKeys : Bool) : Bool × Fields :=
  let parsed := parseTokens lib fieldParse areAggrKeys (strtok ',' [] fieldsSpec) 0 fields
  if !parsed.1 then (false, parsed.2.2)
  else if areAggrKeys && parsed.2.1 == 0 then (false, parsed.2.2)
  else (true, parsed.2.2)

def parseSortSpec (sortSpec : List Char) (fields : Fields) : Bool × Fields :=
  match strchr '#' sortSpec with
  | some (fieldStr, directionStr) =>
    let direction :=
      if directionStr = "asc".toList then some lib.sortAsc
      else if directionStr = "desc".toList then some lib.sortDesc
      else none
    match direction with
    | none => (toBool .arg, fields)
    | some direction =>
      match fieldParse fieldStr with
      | none => (false, fields)
      | some field => fieldsSetSortKey lib fields field.id direction
  | none =>
    match fieldParse sortSpec with
    | none => (false, fields)
    | some field => fieldsSetSortKey lib fields field.id lib.sortNone

/-! ### Delimiters -/

theorem strchr_eq_none {c : Char} {s : List Char} : strchr c s = none ↔ c ∉ s := by
  induction s with
  | nil => simp [strchr]
  | cons d rest ih =>
    rw [strchr]
    by_cases here : d = c
    · simp [here]
    · simp [here, ih, Ne.symm here]

theorem strchr_eq_some {c : Char} {s before after : List Char} :
    strchr c s = some (before, after) ↔ s = before ++ c :: after ∧ c ∉ before := by
  induction s generalizing before with
  | nil => simp [strchr]
  | cons d rest ih =>
    rw [strchr]
    by_cases here : d = c
    · subst here
      cases before with
      | nil => simp [eq_comm]
      | cons e more =>
        simp only [if_true, Option.some.injEq, Prod.mk.injEq, List.nil_eq, reduceCtorEq, false_and,
          List.cons_append,
          List.cons.injEq, List.mem_cons, not_or, false_iff, not_and]
        rintro ⟨rfl, -⟩ absent
        exact absurd rfl absent
    · cases before with
      | nil => simp [here]
      | cons e more =>
        rw [if_neg here, Option.map_eq_some_iff]
        simp only [Prod.exists, Prod.map_apply, id_eq, Prod.mk.injEq, List.cons.injEq, List.cons_append,
          List.mem_cons, not_or]
        constructor
        · rintro ⟨front, back, found, ⟨rfl, rfl⟩, rfl⟩
          obtain ⟨split, absent⟩ := ih.mp found
          exact ⟨⟨rfl, split⟩, Ne.symm here, absent⟩
        · rintro ⟨⟨rfl, split⟩, -, absent⟩
          exact ⟨more, after, ih.mpr ⟨split, absent⟩, ⟨rfl, rfl⟩, rfl⟩

/-! ### Setting a sort key -/

structure SortKeySet (fields : Fields) (id : Int) (direction : Option Int) : Prop where
  entry : ∃ i, fields.sortKey.field = some i ∧ fields.all[i]?.map Field.id = some id
  direction : fields.sortKey.direction = direction.getD (fieldGetSortDir lib id)

/-- The requested direction as `fields_set_sort_key` receives it. -/
def directionArg (direction : Option Int) : Int := direction.getD lib.sortNone

variable {lib fieldParse}

theorem getFromAll_some {fields : Fields} {id : Int} {i : Nat} (found : getFromAll fields id = some i) :
    fields.all[i]?.map Field.id = some id := by
  unfold getFromAll at found
  obtain ⟨below, matching, -⟩ := List.findIdx?_eq_some_iff_getElem.mp found
  rw [List.getElem_take, beq_iff_eq] at matching
  rw [List.length_take] at below
  rw [List.getElem?_eq_getElem (by omega), Option.map_some, matching]

theorem fieldsSetSortKey_unsortable {id : Int} (unsortable : fieldGetSortDir lib id = lib.sortNone)
    (fields : Fields)
    (direction : Int) : fieldsSetSortKey lib fields id direction = (false, fields) := by
  unfold fieldsSetSortKey
  exact if_pos unsortable

theorem fieldsSetSortKey_sortable {fields : Fields} {id : Int} {direction : Option Int}
    (sortable : fieldGetSortDir lib id ≠ lib.sortNone) (length : fields.all.length = allFieldsMax)
    (room : fields.allCnt < allFieldsMax) (requested : ∀ d ∈ direction, d ≠ lib.sortNone) :
    (fieldsSetSortKey lib fields id (directionArg lib direction)).1 = true ∧
      SortKeySet lib (fieldsSetSortKey lib fields id (directionArg lib direction)).2 id direction := by
  have chosen : (if directionArg lib direction = lib.sortNone then fieldGetSortDir lib id
      else directionArg lib direction) = direction.getD (fieldGetSortDir lib id) := by
    cases direction with
    | none => exact if_pos rfl
    | some d => exact if_neg (requested d rfl)
  unfold fieldsSetSortKey
  dsimp only
  rw [if_neg sortable]
  cases present : getFromAll fields id with
  | some i => exact ⟨rfl, ⟨i, rfl, getFromAll_some present⟩, chosen⟩
  | none =>
    have written : (fields.all.set fields.allCnt
      { id := id, size := fieldGetSize lib id })[fields.allCnt]? =
        some { id := id, size := fieldGetSize lib id } := List.getElem?_set_self (by omega)
    simp only [addToAll, if_neg (Nat.ne_of_lt room)]
    exact ⟨trivial, ⟨fields.allCnt, rfl, by rw [written]; rfl⟩, chosen⟩

/-! ### The grammar -/

variable (lib fieldParse)

/-- `field`, `field#asc` and `field#desc`; the field has no delimiter. -/
inductive Spells : List Char → List Char → Option Int → Prop
  | plain {field : List Char} : '#' ∉ field → Spells field field none
  | asc {field : List Char} : '#' ∉ field → Spells (field ++ '#' :: "asc".toList) field
    (some lib.sortAsc)
  | desc {field : List Char} : '#' ∉ field → Spells (field ++ '#' :: "desc".toList) field
    (some lib.sortDesc)

/-- The specification names a field that can be sorted by. -/
def Names (sortSpec : List Char) (id : Int) (direction : Option Int) : Prop :=
  ∃ field parsed, Spells lib sortSpec field direction ∧ fieldParse field = some parsed ∧ parsed.id = id ∧
    fieldGetSortDir lib id ≠ lib.sortNone

/-- `parse_sort_spec` accepts exactly the grammar, sets what is named, and changes nothing otherwise. -/
structure GrammarLaw (sortSpec : List Char) (fields : Fields) : Prop where
  accepts : (parseSortSpec lib fieldParse sortSpec fields).1 = true ↔
    ∃ id direction, Names lib fieldParse sortSpec id direction
  sets : ∀ id direction, Names lib fieldParse sortSpec id direction →
    SortKeySet lib (parseSortSpec lib fieldParse sortSpec fields).2 id direction
  unchanged : (parseSortSpec lib fieldParse sortSpec fields).1 = false →
    (parseSortSpec lib fieldParse sortSpec fields).2 = fields

/-- What follows the first delimiter, if there is one, is a direction. -/
def DirectionSpelled (sortSpec : List Char) : Prop :=
  ∀ field direction, sortSpec = field ++ '#' :: direction → '#' ∉ field →
    direction = "asc".toList ∨ direction = "desc".toList

/-- `LNF_SORT_ASC` and `LNF_SORT_DESC` are not `LNF_SORT_NONE`. -/
structure Directed : Prop where
  asc : lib.sortAsc ≠ lib.sortNone
  desc : lib.sortDesc ≠ lib.sortNone

variable {lib fieldParse}

variable (lib fieldParse) in
/-- A specification that spells its direction is split as the grammar says. -/
theorem spelled_cases {sortSpec : List Char} (spelled : DirectionSpelled sortSpec) :
    ∃ field direction, Spells lib sortSpec field direction ∧
      ∀ fields, parseSortSpec lib fieldParse sortSpec fields =
        match fieldParse field with
        | none => (false, fields)
        | some parsed => fieldsSetSortKey lib fields parsed.id (directionArg lib direction) := by
  cases found : strchr '#' sortSpec with
  | none =>
    refine ⟨sortSpec, none, .plain (strchr_eq_none.mp found), ?_⟩
    intro fields
    simp only [parseSortSpec, found]
    rfl
  | some parts =>
    obtain ⟨field, direction⟩ := parts
    obtain ⟨rfl, absent⟩ := strchr_eq_some.mp found
    rcases spelled field direction rfl absent with rfl | rfl
    · refine ⟨field, some lib.sortAsc, .asc absent, ?_⟩
      intro fields
      simp only [parseSortSpec, found]
      rfl
    · refine ⟨field, some lib.sortDesc, .desc absent, ?_⟩
      intro fields
      simp only [parseSortSpec, found]
      rfl

theorem Spells.split {sortSpec field : List Char} {direction : Option Int}
    (spells : Spells lib sortSpec field direction) :
    strchr '#' sortSpec = none ∧ sortSpec = field ∧ direction = none ∨
      strchr '#' sortSpec = some (field, "asc".toList) ∧ direction = some lib.sortAsc ∨
      strchr '#' sortSpec = some (field, "desc".toList) ∧ direction = some lib.sortDesc := by
  cases spells with
  | plain absent => exact Or.inl ⟨strchr_eq_none.mpr absent, rfl, rfl⟩
  | asc absent => exact Or.inr (Or.inl ⟨strchr_eq_some.mpr ⟨rfl, absent⟩, rfl⟩)
  | desc absent => exact Or.inr (Or.inr ⟨strchr_eq_some.mpr ⟨rfl, absent⟩, rfl⟩)

theorem spells_unique {sortSpec field field' : List Char} {direction direction' : Option Int}
    (one : Spells lib sortSpec field direction) (other : Spells lib sortSpec field' direction') :
    field = field' ∧ direction = direction' := by
  rcases one.split with ⟨none, rfl, rfl⟩ | ⟨asc, rfl⟩ | ⟨desc, rfl⟩ <;>
    rcases other.split with ⟨none', same, rfl⟩ | ⟨asc', rfl⟩ | ⟨desc', rfl⟩ <;>
    simp_all

theorem Spells.spelled {sortSpec field : List Char} {direction : Option Int}
    (spells : Spells lib sortSpec field direction) : DirectionSpelled sortSpec := by
  intro front back split absent
  have found : strchr '#' sortSpec = some (front, back) := strchr_eq_some.mpr ⟨split, absent⟩
  rcases spells.split with ⟨none, -, -⟩ | ⟨asc, -⟩ | ⟨desc, -⟩
  · rw [none] at found
    cases found
  · rw [asc] at found
    exact Or.inl (Prod.mk.inj (Option.some.inj found)).2.symm
  · rw [desc] at found
    exact Or.inr (Prod.mk.inj (Option.some.inj found)).2.symm

theorem Spells.requested (directed : Directed lib) {sortSpec field : List Char} {direction : Option Int}
    (spells : Spells lib sortSpec field direction) : ∀ d ∈ direction, d ≠ lib.sortNone := by
  intro d member
  cases spells with
  | plain => cases member
  | asc => exact Option.some.inj member ▸ directed.asc
  | desc => exact Option.some.inj member ▸ directed.desc

theorem parseSortSpec_misspelled {sortSpec : List Char} (misspelled : ¬ DirectionSpelled sortSpec)
    (fields : Fields) :
    parseSortSpec lib fieldParse sortSpec fields = (true, fields) := by
  simp only [DirectionSpelled, not_forall, not_or] at misspelled
  obtain ⟨field, direction, split, absent, notAsc, notDesc⟩ := misspelled
  simp only [parseSortSpec, strchr_eq_some.mpr ⟨split, absent⟩, if_neg notAsc, if_neg notDesc]
  rfl

theorem grammarLaw_rejected {sortSpec : List Char} {fields : Fields}
    (nothing : ∀ id direction, ¬ Names lib fieldParse sortSpec id direction)
    (parse : parseSortSpec lib fieldParse sortSpec fields = (false, fields)) :
    GrammarLaw lib fieldParse sortSpec fields := by
  refine ⟨?_, fun id direction names => absurd names (nothing id direction), fun _ => by rw [parse]⟩
  rw [parse]
  constructor
  · intro impossible
    cases impossible
  · intro ⟨id, direction, names⟩
    exact absurd names (nothing id direction)

theorem grammarLaw_of_spelled (directed : Directed lib) {sortSpec : List Char}
    (spelled : DirectionSpelled sortSpec)
    {fields : Fields} (length : fields.all.length = allFieldsMax) (room : fields.allCnt < allFieldsMax) :
    GrammarLaw lib fieldParse sortSpec fields := by
  obtain ⟨field, direction, spells, parseAny⟩ := spelled_cases lib fieldParse spelled
  have parse := parseAny fields
  have named {id : Int} {direction' : Option Int} (names : Names lib fieldParse sortSpec id direction') :
      ∃ parsed, fieldParse field = some parsed ∧ parsed.id = id ∧ direction = direction' ∧
        fieldGetSortDir lib id ≠ lib.sortNone := by
    obtain ⟨field', parsed, spells', accepted, same, sortable⟩ := names
    obtain ⟨rfl, rfl⟩ := spells_unique spells spells'
    exact ⟨parsed, accepted, same, rfl, sortable⟩
  cases accepted : fieldParse field with
  | none =>
    rw [accepted] at parse
    refine grammarLaw_rejected (fun id direction' names => ?_) parse
    obtain ⟨parsed, found, -⟩ := named names
    rw [accepted] at found
    cases found
  | some parsed =>
    rw [accepted] at parse
    by_cases unsortable : fieldGetSortDir lib parsed.id = lib.sortNone
    · refine grammarLaw_rejected (fun id direction' names => ?_)
        (parse.trans (fieldsSetSortKey_unsortable unsortable fields _))
      obtain ⟨parsed', found, rfl, -, sortable⟩ := named names
      rw [accepted] at found
      obtain rfl := Option.some.inj found
      exact sortable unsortable
    · obtain ⟨ok, set⟩ := fieldsSetSortKey_sortable unsortable length room (spells.requested directed)
      refine ⟨⟨fun _ => ⟨parsed.id, direction, field, parsed, spells, accepted, rfl, unsortable⟩,
        fun _ => ?_⟩,
        fun id direction' names => ?_, fun failed => ?_⟩
      · rw [parse]
        exact ok
      · obtain ⟨parsed', found, rfl, rfl, -⟩ := named names
        rw [accepted] at found
        obtain rfl := Option.some.inj found
        rw [parse]
        exact set
      · rw [parse] at failed
        exact absurd (ok.symm.trans failed) (by decide)

/-- Exactly the specifications with a valid direction, or none, are treated as the grammar says. -/
theorem grammarLaw_iff (directed : Directed lib) {sortSpec : List Char} {fields : Fields}
    (length : fields.all.length = allFieldsMax) (room : fields.allCnt < allFieldsMax) :
    GrammarLaw lib fieldParse sortSpec fields ↔ DirectionSpelled sortSpec := by
  constructor
  · intro law
    by_contra misspelled
    have accepted := law.accepts.mp (by rw [parseSortSpec_misspelled misspelled])
    obtain ⟨id, direction, field, parsed, spells, -⟩ := accepted
    exact misspelled spells.spelled
  · exact fun spelled => grammarLaw_of_spelled directed spelled length room

end Fdistdump.Args
