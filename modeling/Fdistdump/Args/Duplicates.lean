import Fdistdump.Args.ArgParse
import Fdistdump.Library.BoundedInsert

/-!
# Repeated fields

A field that is already present is passed over, but the functions that add one test their capacity
first. A repetition is refused when the array of the role is full.
-/

namespace Fdistdump.Args
open FieldSet BoundedInsert

def parsedField (fieldParse : FieldParse) (spec : List Char) : ParsedField :=
  (fieldParse spec).getD ⟨0, 0, 0⟩

def specId (fieldParse : FieldParse) (spec : List Char) : Int := (parsedField fieldParse spec).id

/-- The call that `parse_fields` makes for a field. -/
def addCall (areAggrKeys : Bool) (field : ParsedField) : Call :=
  if areAggrKeys then .addAggrKey field.id field.alignment field.ipv6Alignment
  else .addOutputField field.id

def joinSpecs (specs : List (List Char)) : List Char := List.intercalate [','] specs

/-- A token that `field_parse` accepts with a result that may be added. -/
structure ValidSpec (lib : Libnf) (fieldParse : FieldParse) (areAggrKeys : Bool)
    (spec : List Char) : Prop where
  nonempty : spec ≠ []
  undelimited : ',' ∉ spec
  parsed : ∃ field, fieldParse spec = some field ∧ (addCall areAggrKeys field).Valid lib

/-- The specifications without those of a field that an earlier one has named. -/
def withoutRepetitions (fieldParse : FieldParse) (specs : List (List Char)) : List (List Char) :=
  firsts (specId fieldParse) [] specs

/-- What additions to the fields structure meet: the fields that are present, the fields that cannot
play the role, and the free places. -/
def addBounds (lib : Libnf) (fieldParse : FieldParse) (areAggrKeys : Bool) (fields : Fields) :
    Bounds (List Char) Int where
  key := specId fieldParse
  base id := (getFromAll fields id).isSome
  allowed id := !areAggrKeys || !decide ((lib.fldCalcBps ≤ id ∧ id ≤ lib.fldCalcBpp) ∨ id = lib.fldBrec1)
  room := if areAggrKeys then aggrKeysMax - fields.aggrKeysCnt
    else outputFieldsMax - fields.outputFieldsCnt

/-! ### Tokens -/

theorem strtok_undelimited {delim : Char} {front : List Char} (undelimited : delim ∉ front)
    (token rest : List Char) :
    strtok delim token (front ++ rest) = strtok delim (token ++ front) rest := by
  induction front generalizing token with
  | nil => simp
  | cons c front ih =>
    rw [List.mem_cons, not_or] at undelimited
    rw [List.cons_append, strtok, if_neg (Ne.symm undelimited.1), ih undelimited.2,
      List.append_assoc, List.singleton_append]

theorem strtok_joinSpecs {specs : List (List Char)} (tokens : ∀ spec ∈ specs, spec ≠ [] ∧ ',' ∉ spec) :
    strtok ',' [] (joinSpecs specs) = specs := by
  induction specs with
  | nil => rfl
  | cons spec rest ih =>
    obtain ⟨⟨nonempty, undelimited⟩, tokens⟩ := List.forall_mem_cons.mp tokens
    cases rest with
    | nil =>
      have single : joinSpecs [spec] = spec ++ [] := by simp [joinSpecs, List.intercalate]
      rw [single, strtok_undelimited undelimited, List.nil_append, strtok, if_neg nonempty]
    | cons next rest =>
      have first : joinSpecs (spec :: next :: rest) = spec ++ ',' :: joinSpecs (next :: rest) := by
        simp [joinSpecs, List.intercalate]
      rw [first, strtok_undelimited undelimited, List.nil_append, strtok, if_pos rfl,
        if_neg nonempty, ih tokens,
        List.singleton_append]

/-! ### Additions to the roles -/

section Grow
variable {lib : Libnf} {fieldParse : FieldParse} {areAggrKeys : Bool} {roles : Roles}
  {added specs : List (List Char)} {spec : List Char}

def grow (fieldParse : FieldParse) (areAggrKeys : Bool) (roles : Roles) (added : List (List Char)) :
    Roles :=
  if areAggrKeys then
    { roles with
      keys := roles.keys ++ added.map fun spec =>
        let field := parsedField fieldParse spec
        ⟨field.id, field.alignment, field.ipv6Alignment⟩ }
  else { roles with outputs := roles.outputs ++ added.map (specId fieldParse) }

theorem grow_nil : grow fieldParse areAggrKeys roles [] = roles := by
  cases areAggrKeys <;> simp [grow]

theorem grow_ids (admits : ∀ field, roles.Admits (addCall areAggrKeys field))
    (added : List (List Char)) :
    (grow fieldParse areAggrKeys roles added).ids = roles.ids ++ added.map (specId fieldParse) := by
  cases areAggrKeys with
  | false => simp [grow, Roles.ids, Roles.keyIds, Roles.sortOnly]
  | true =>
    obtain ⟨noSort, noOutputs⟩ := admits ⟨0, 0, 0⟩
    simp [grow, Roles.ids, Roles.keyIds, Roles.sortOnly, noSort, noOutputs, specId, Function.comp_def]

variable (fieldParse) in
theorem grow_step (valid : roles.Valid lib) (admits : ∀ field, roles.Admits (addCall areAggrKeys field))
    (added : List (List Char)) (spec : List Char) :
    (grow fieldParse areAggrKeys roles added).step lib
      (addCall areAggrKeys (parsedField fieldParse spec)) =
      Prod.map (fun ok => ok) (grow fieldParse areAggrKeys roles)
        (add (addBounds lib fieldParse areAggrKeys (roles.toFields lib)) added spec) := by
  obtain ⟨b, shape⟩ : ∃ b, b = addBounds lib fieldParse areAggrKeys (roles.toFields lib) := ⟨_, rfl⟩
  have present : b.base (b.key spec) ∨ b.key spec ∈ added.map b.key ↔
      specId fieldParse spec ∈ (grow fieldParse areAggrKeys roles added).ids := by
    rw [grow_ids admits, List.mem_append, shape]
    simp only [addBounds, Roles.getFromAll_toFields, List.isSome_idxOf?]
  rw [← shape, add]
  cases areAggrKeys with
  | false =>
    have full : added.length = b.room ↔ (grow fieldParse false roles added).outputs.length =
        outputFieldsMax := by
      have fit := valid.outputsFit
      simp [shape, addBounds, grow]
      omega
    have step : (grow fieldParse false roles added).step lib
      (addCall false (parsedField fieldParse spec)) =
        (grow fieldParse false roles added).addOutput (specId fieldParse spec) := rfl
    rw [step, Roles.addOutput, if_congr full rfl rfl, if_congr present rfl rfl]
    split
    · rfl
    split
    · rfl
    · simp [shape, addBounds, grow]
  | true =>
    have full : added.length = b.room ↔ (grow fieldParse true roles added).keys.length =
        aggrKeysMax := by
      have fit := valid.keysFit
      simp [shape, addBounds, grow]
      omega
    have step : (grow fieldParse true roles added).step lib
      (addCall true (parsedField fieldParse spec)) =
        (grow fieldParse true roles added).addKey lib ⟨specId fieldParse spec,
          (parsedField fieldParse spec).alignment,
          (parsedField fieldParse spec).ipv6Alignment⟩ := rfl
    have allowed : b.allowed (b.key spec) ↔ ¬ ((lib.fldCalcBps ≤ specId fieldParse spec ∧
        specId fieldParse spec ≤ lib.fldCalcBpp) ∨ specId fieldParse spec = lib.fldBrec1) := by
      rw [shape]
      simp only [addBounds, Bool.not_true, Bool.false_or, Bool.not_eq_true', decide_eq_false_iff_not]
    rw [step, Roles.addKey, if_congr full rfl rfl, if_congr present rfl rfl, if_congr allowed rfl rfl]
    split
    · rfl
    split
    · rfl
    by_cases refused : (lib.fldCalcBps ≤ specId fieldParse spec ∧
      specId fieldParse spec ≤ lib.fldCalcBpp) ∨
        specId fieldParse spec = lib.fldBrec1
    · rw [if_pos refused, if_neg (not_not.mpr refused)]
      rfl
    · rw [if_neg refused, if_pos refused]
      simp [grow, specId]

theorem grow_kept (admits : ∀ field, roles.Admits (addCall areAggrKeys field)) (added : List (List Char))
    (field : ParsedField) :
    (grow fieldParse areAggrKeys roles added).Admits (addCall areAggrKeys field) := by
  cases areAggrKeys with
  | false => trivial
  | true => exact admits field

theorem parseTokens_grow (admits : ∀ field, roles.Admits (addCall areAggrKeys field))
    (valid : roles.Valid lib)
    (specsValid : ∀ spec ∈ specs, ValidSpec lib fieldParse areAggrKeys spec)
    (grown : (grow fieldParse areAggrKeys roles added).Valid lib) (found : Nat) :
    let inserted := addAll (addBounds lib fieldParse areAggrKeys (roles.toFields lib)) specs added
    let parsed := parseTokens lib fieldParse areAggrKeys specs found
      ((grow fieldParse areAggrKeys roles added).toFields lib)
    parsed.1 = inserted.1 ∧ parsed.2.2 = (grow fieldParse areAggrKeys roles inserted.2).toFields lib ∧
      (parsed.1 = true → parsed.2.1 = found + specs.length) := by
  induction specs generalizing added found with
  | nil => exact ⟨rfl, rfl, fun _ => rfl⟩
  | cons spec rest ih =>
    obtain ⟨⟨-, -, field, accepted, callValid⟩, restValid⟩ := List.forall_mem_cons.mp specsValid
    have same : parsedField fieldParse spec = field := by rw [parsedField, accepted]; rfl
    have ran : (addCall areAggrKeys field).run lib
      ((grow fieldParse areAggrKeys roles added).toFields lib) =
        Prod.map (fun ok => ok) (Roles.toFields lib)
          ((grow fieldParse areAggrKeys roles added).step lib (addCall areAggrKeys field)) :=
      Roles.run_toFields grown (grow_kept admits added field)
    have next := grown.step (grow_kept admits added field) callValid
    have call : (if areAggrKeys then
        fieldsAddAggrKey lib ((grow fieldParse areAggrKeys roles added).toFields lib) field.id
          field.alignment field.ipv6Alignment
        else
          fieldsAddOutputField lib ((grow fieldParse areAggrKeys roles added).toFields lib)
            field.id) =
        (addCall areAggrKeys field).run lib
          ((grow fieldParse areAggrKeys roles added).toFields lib) := by
      cases areAggrKeys <;> rfl
    have inserted := grow_step fieldParse valid admits added spec
    rw [same] at inserted
    rw [inserted] at ran next
    simp only [parseTokens, accepted, call, ran]
    rcases outcome : add (addBounds lib fieldParse areAggrKeys (roles.toFields lib)) added
      spec with ⟨_ | _, added'⟩
    · simp [addAll_cons_false outcome]
    · rw [outcome] at next
      simp only [addAll_cons_true outcome, Prod.map_apply, Bool.not_true, Bool.false_eq_true, if_false]
      obtain ⟨ok, fields, count⟩ := ih restValid next (found + 1)
      refine ⟨ok, fields, ?_⟩
      intro success
      rw [count success, List.length_cons]
      omega

theorem parseFields_joinSpecs (admits : ∀ field, roles.Admits (addCall areAggrKeys field))
    (valid : roles.Valid lib)
    (specsValid : ∀ spec ∈ specs, ValidSpec lib fieldParse areAggrKeys spec) :
    parseFields lib fieldParse (joinSpecs specs) (roles.toFields lib) areAggrKeys =
      ((addAll (addBounds lib fieldParse areAggrKeys (roles.toFields lib)) specs []).1 &&
        !(areAggrKeys && specs.isEmpty),
        (grow fieldParse areAggrKeys roles (addAll
          (addBounds lib fieldParse areAggrKeys (roles.toFields lib)) specs []).2).toFields lib) := by
  have tokens : strtok ',' [] (joinSpecs specs) = specs :=
    strtok_joinSpecs fun spec member =>
      ⟨(specsValid spec member).nonempty, (specsValid spec member).undelimited⟩
  have start : (grow fieldParse areAggrKeys roles []).Valid lib := by rwa [grow_nil]
  obtain ⟨ok, fields, count⟩ := parseTokens_grow admits valid specsValid start 0
  rw [grow_nil] at ok fields count
  rw [parseFields, tokens, ← ok, ← fields]
  cases success : (parseTokens lib fieldParse areAggrKeys specs 0 (roles.toFields lib)).1 with
  | false => rfl
  | true =>
    rw [count success, Nat.zero_add]
    cases areAggrKeys <;> cases specs <;> rfl

end Grow

variable (lib : Libnf) (fieldParse : FieldParse) (areAggrKeys : Bool)

/-- Repeated fields make no difference unless they come when the last new field has just taken the
last place. -/
theorem repeated_fields_harmless_iff {calls : List Call} (callsValid : ∀ call ∈ calls, call.Valid lib)
    (ordered : calls.Pairwise Call.MayPrecede)
    (phase : ∀ call ∈ calls, ∀ field, call.MayPrecede (addCall areAggrKeys field))
    {specs : List (List Char)}
    (specsValid : ∀ spec ∈ specs, ValidSpec lib fieldParse areAggrKeys spec) :
    parseFields lib fieldParse (joinSpecs specs) (build lib calls) areAggrKeys =
        parseFields lib fieldParse (joinSpecs (withoutRepetitions fieldParse specs))
          (build lib calls) areAggrKeys ↔
      ¬ FillsUp (addBounds lib fieldParse areAggrKeys (build lib calls)) specs := by
  obtain ⟨roles, valid, built, later⟩ := build_roles callsValid ordered
  have admits (field : ParsedField) : roles.Admits (addCall areAggrKeys field) :=
    later _ fun call member => phase call member field
  have keptValid : ∀ spec ∈ withoutRepetitions fieldParse specs,
      ValidSpec lib fieldParse areAggrKeys spec :=
    fun spec member => specsValid spec ((firsts_sublist _ _ _).subset member)
  have empty : (withoutRepetitions fieldParse specs).isEmpty = specs.isEmpty := by
    cases specs <;> simp [withoutRepetitions, firsts]
  have key : withoutRepetitions fieldParse specs =
      firsts (addBounds lib fieldParse areAggrKeys (roles.toFields lib)).key [] specs := rfl
  rw [built, parseFields_joinSpecs admits valid specsValid,
    parseFields_joinSpecs admits valid keptValid, empty]
  constructor
  · intro same fills
    obtain ⟨fails, succeeds⟩ := (stalls_iff.mpr fills).differ tracks_nil
    rw [key, fails, succeeds] at same
    obtain ⟨front, x, back, rfl, -⟩ := fills
    have some : (front ++ x :: back).isEmpty = false := by cases front <;> rfl
    rw [some, Bool.and_false] at same
    cases congrArg Prod.fst same
  · intro free
    rw [key, ← (addAll_firsts_iff specs).mpr free]

/-- A libnf whose fields are all sortable keys. -/
def keyFields : Libnf where
  fldTerm := 12
  fldCalcBps := 13
  fldCalcBpp := 13
  fldBrec1 := 14
  aggrMin := 1
  aggrKey := 8
  sortNone := 0
  sortAsc := 1
  sortDesc := 2
  infoSize := fun _ => 8
  infoAggr := fun _ => 8
  infoSort := fun _ => 2
  infoSize_pos := fun _ _ _ => by decide
  infoAggr_range := fun _ _ _ => by decide
  infoSort_dir := fun _ _ _ => by decide

/-- A `field_parse` that knows the fields by the lengths of their names. -/
def byLength (token : List Char) : Option ParsedField :=
  if token.length < 12 then some ⟨token.length, 0, 0⟩ else none

theorem repeated_fields_harmless_iff_two :
    parseFields keyFields byLength (joinSpecs [['x'], ['x']]) (build keyFields []) true =
        parseFields keyFields byLength (joinSpecs (withoutRepetitions byLength [['x'], ['x']]))
          (build keyFields []) true ↔
      ¬ FillsUp (addBounds keyFields byLength true (build keyFields [])) [['x'], ['x']] := by
  have valid : ValidSpec keyFields byLength true ['x'] :=
    ⟨by decide, by decide, ⟨1, 0, 0⟩, by decide, by decide⟩
  exact repeated_fields_harmless_iff keyFields byLength true (by simp) .nil (by simp) (by simp [valid])

/-- Ten keys are accepted, but not when the first of them is repeated. -/
theorem eleventh_key_refused :
    withoutRepetitions byLength (List.map (List.replicate · 'x') [1, 2, 3, 4, 5, 6, 7, 8, 9, 10, 1]) =
        List.map (List.replicate · 'x') [1, 2, 3, 4, 5, 6, 7, 8, 9, 10] ∧
      (parseFields keyFields byLength
        (joinSpecs (List.map (List.replicate · 'x') [1, 2, 3, 4, 5, 6, 7, 8, 9, 10]))
        (build keyFields []) true).1 = true ∧
      (parseFields keyFields byLength
        (joinSpecs (List.map (List.replicate · 'x') [1, 2, 3, 4, 5, 6, 7, 8, 9, 10, 1]))
        (build keyFields []) true).1 = false := by
  refine ⟨by decide +kernel, by decide +kernel, by decide +kernel⟩

end Fdistdump.Args
