import Fdistdump.FieldSet.Build
import Fdistdump.Library.CountedArray

/-!
# Roles of the fields

What the fields structure stands for: aggregation keys with their alignments, perhaps a sort key, and
output fields. `toFields` lays roles out in the arrays, and the calls of `arg_parse` act on the arrays
as they act on the roles.
-/

namespace Fdistdump.FieldSet
open CountedArray

structure KeyRole where
  id : Int
  alignment : Int
  ipv6Alignment : Int
deriving DecidableEq

structure SortRole where
  id : Int
  direction : Int
deriving DecidableEq

structure Roles where
  keys : List KeyRole
  sort : Option SortRole
  outputs : List Int
deriving DecidableEq

namespace Roles

def keyIds (roles : Roles) : List Int := roles.keys.map KeyRole.id

def sortOnly (roles : Roles) : List Int :=
  (roles.sort.toList.map SortRole.id).filter fun id => id ∉ roles.keyIds

/-- The fields in the order in which they are laid out. -/
def ids (roles : Roles) : List Int := roles.keyIds ++ roles.sortOnly ++ roles.outputs

def empty : Roles := ⟨[], none, []⟩

variable (lib : Libnf)

structure Valid (roles : Roles) : Prop where
  distinct : roles.ids.Nodup
  inRange : ∀ id ∈ roles.ids, lib.inRangeExcl id
  aligned : ∀ key ∈ roles.keys, 0 ≤ key.alignment ∧ 0 ≤ key.ipv6Alignment
  directed : ∀ sort ∈ roles.sort, sort.direction = lib.sortAsc ∨ sort.direction = lib.sortDesc
  keysFit : roles.keys.length ≤ aggrKeysMax
  outputsFit : roles.outputs.length ≤ outputFieldsMax

def fieldOf (id : Int) : Field := { id := id, size := fieldGetSize lib id }

def aggrKeyOf (roles : Roles) (key : KeyRole) : AggrKey :=
  { field := roles.ids.idxOf? key.id, alignment := key.alignment, ipv6Alignment := key.ipv6Alignment }

def sortKeyOf (roles : Roles) : SortKey :=
  match roles.sort with
  | none => {}
  | some sort =>
    { field := roles.ids.idxOf? sort.id
      direction := sort.direction
      aggrFunc := fieldGetAggrFunc lib sort.id }

def outputFieldOf (roles : Roles) (id : Int) : OutputField :=
  { field := roles.ids.idxOf? id, aggrFunc := fieldGetAggrFunc lib id }

/-- The arrays that hold the roles. -/
def toFields (roles : Roles) : Fields where
  all := pad allFieldsMax {} (roles.ids.map (fieldOf lib))
  allCnt := roles.ids.length
  allSizesSum := (roles.ids.map (fieldGetSize lib)).sum
  aggrKeys := pad aggrKeysMax {} (roles.keys.map roles.aggrKeyOf)
  aggrKeysCnt := roles.keys.length
  sortKey := roles.sortKeyOf lib
  outputFields := pad outputFieldsMax {} (roles.outputs.map (roles.outputFieldOf lib))
  outputFieldsCnt := roles.outputs.length

def addKey (roles : Roles) (key : KeyRole) : Bool × Roles :=
  if roles.keys.length = aggrKeysMax then (false, roles)
  else if key.id ∈ roles.ids then (true, roles)
  else if (lib.fldCalcBps ≤ key.id ∧ key.id ≤ lib.fldCalcBpp) ∨ key.id = lib.fldBrec1 then (false, roles)
  else (true, { roles with keys := roles.keys ++ [key] })

def setSort (roles : Roles) (sort : SortRole) : Bool × Roles :=
  if fieldGetSortDir lib sort.id = lib.sortNone then (false, roles)
  else
    let direction := if sort.direction = lib.sortNone then fieldGetSortDir lib sort.id
      else sort.direction
    (true, { roles with sort := some { sort with direction := direction } })

def addOutput (roles : Roles) (id : Int) : Bool × Roles :=
  if roles.outputs.length = outputFieldsMax then (false, roles)
  else if id ∈ roles.ids then (true, roles)
  else (true, { roles with outputs := roles.outputs ++ [id] })

/-- What a call does to the roles. -/
def step (roles : Roles) : Call → Bool × Roles
  | .addAggrKey id alignment ipv6Alignment => roles.addKey lib ⟨id, alignment, ipv6Alignment⟩
  | .setSortKey id direction => roles.setSort lib ⟨id, direction⟩
  | .addOutputField id => roles.addOutput id

/-- The roles are in the phase in which the call is made. -/
def Admits (roles : Roles) : Call → Prop
  | .addAggrKey .. | .setSortKey .. => roles.sort = none ∧ roles.outputs = []
  | .addOutputField _ => True

variable {lib} {roles : Roles} {id : Int}

@[simp] theorem toFields_aggrKeysCnt (roles : Roles) :
    (roles.toFields lib).aggrKeysCnt = roles.keys.length := rfl

@[simp] theorem toFields_outputFieldsCnt (roles : Roles) :
    (roles.toFields lib).outputFieldsCnt = roles.outputs.length := rfl

theorem empty_valid (lib : Libnf) : empty.Valid lib where
  distinct := List.nodup_nil
  inRange := List.forall_mem_nil _
  aligned := List.forall_mem_nil _
  directed := fun _ => nofun
  keysFit := Nat.zero_le _
  outputsFit := Nat.zero_le _

theorem sortOnly_length (roles : Roles) : roles.sortOnly.length ≤ 1 := by
  refine Nat.le_trans (List.length_filter_le _ _) ?_
  cases roles.sort <;> simp

theorem mem_ids_of_mem_keys {key : KeyRole} (member : key ∈ roles.keys) : key.id ∈ roles.ids :=
  List.mem_append_left _ (List.mem_append_left _ (List.mem_map_of_mem member))

theorem mem_ids_of_mem_outputs (member : id ∈ roles.outputs) : id ∈ roles.ids :=
  List.mem_append_right _ member

theorem mem_placed_of_mem_sort {sort : SortRole} (set : roles.sort = some sort) :
    sort.id ∈ roles.keyIds ++ roles.sortOnly := by
  by_cases key : sort.id ∈ roles.keyIds
  · exact List.mem_append_left _ key
  · exact List.mem_append_right _ (by simp [sortOnly, set, key])

theorem mem_ids_of_mem_sort {sort : SortRole} (set : roles.sort = some sort) : sort.id ∈ roles.ids :=
  List.mem_append_left _ (mem_placed_of_mem_sort set)

theorem ids_length (roles : Roles) :
    roles.ids.length ≤ roles.keys.length + 1 + roles.outputs.length := by
  have sortOnly := sortOnly_length roles
  simp only [ids, keyIds, List.length_append, List.length_map]
  omega

def Keeps (roles grown : Roles) : Prop := ∀ id ∈ roles.ids, grown.ids.idxOf? id = roles.ids.idxOf? id

section Growth

variable {grown : Roles}

theorem Keeps.of_append (appended : grown.ids = roles.ids ++ [id]) : roles.Keeps grown := by
  intro other present
  rw [appended, idxOf?_append_of_mem present]

theorem Keeps.of_eq (same : grown.ids = roles.ids) : roles.Keeps grown := fun _ _ => by rw [same]

theorem Keeps.aggrKeys (keeps : roles.Keeps grown) :
    roles.keys.map grown.aggrKeyOf = roles.keys.map roles.aggrKeyOf := by
  apply List.map_congr_left
  intro key member
  rw [aggrKeyOf, aggrKeyOf, keeps _ (mem_ids_of_mem_keys member)]

theorem Keeps.outputFields (keeps : roles.Keeps grown) :
    roles.outputs.map (grown.outputFieldOf lib) = roles.outputs.map (roles.outputFieldOf lib) := by
  apply List.map_congr_left
  intro key member
  rw [outputFieldOf, outputFieldOf, keeps _ (mem_ids_of_mem_outputs member)]

theorem Keeps.sortKey (keeps : roles.Keeps grown) (same : grown.sort = roles.sort) :
    grown.sortKeyOf lib = roles.sortKeyOf lib := by
  rw [sortKeyOf, sortKeyOf, same]
  cases set : roles.sort with
  | none => rfl
  | some sort => simp only [keeps _ (mem_ids_of_mem_sort set)]

end Growth

theorem getFromAll_toFields (roles : Roles) (id : Int) :
    getFromAll (roles.toFields lib) id = roles.ids.idxOf? id := by
  rw [getFromAll, toFields, take_pad_map, List.findIdx?_map]
  rfl

theorem addToAll_toFields (room : roles.ids.length < allFieldsMax) :
    addToAll lib (roles.toFields lib) id =
      some (roles.ids.length,
        { roles.toFields lib with
          all := pad allFieldsMax {} ((roles.ids ++ [id]).map (fieldOf lib))
          allSizesSum := ((roles.ids ++ [id]).map (fieldGetSize lib)).sum
          allCnt := (roles.ids ++ [id]).length }) := by
  have written := set_pad ({} : Field) (roles.ids.map (fieldOf lib)) (fieldOf lib id)
    (by simpa using room)
  rw [List.length_map, ← List.map_singleton (f := fieldOf lib), ← List.map_append] at written
  rw [addToAll, if_neg (by simpa [toFields] using Nat.ne_of_lt room), ← written]
  simp [toFields, fieldOf]

end Roles

end Fdistdump.FieldSet
