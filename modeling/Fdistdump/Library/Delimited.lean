import Mathlib.Data.List.Basic

/-!
# Delimited tables

Cells with a separator between them, and an end mark behind each line. As long as no cell contains
either, the table can be read back from its text.
-/

namespace Delimited

variable {α : Type} [DecidableEq α] {sep eol : α}

def line (sep eol : α) (cells : List (List α)) : List α := [sep].intercalate cells ++ [eol]

def table (sep eol : α) (rows : List (List (List α))) : List α := rows.flatMap (line sep eol)

def readTable (sep eol : α) (text : List α) : List (List (List α)) :=
  (text.splitOn eol).dropLast.map fun cells => cells.splitOn sep

omit [DecidableEq α] in
theorem forall_mem_intercalate {P : α → Prop} {cells : List (List α)} (separator : P sep)
    (all : ∀ cell ∈ cells, ∀ x ∈ cell, P x) : ∀ x ∈ [sep].intercalate cells, P x := by
  induction cells with
  | nil => exact List.forall_mem_nil _
  | cons cell rest ih =>
    obtain ⟨here, others⟩ := List.forall_mem_cons.mp all
    cases rest with
    | nil =>
      rw [List.intercalate_singleton]
      exact here
    | cons next rest =>
      rw [List.intercalate_cons_cons]
      exact List.forall_mem_append.mpr
        ⟨List.forall_mem_append.mpr ⟨here, List.forall_mem_singleton.mpr separator⟩, ih others⟩

omit [DecidableEq α] in
theorem notMem_intercalate {x : α} {cells : List (List α)} (differ : x ≠ sep)
    (absent : ∀ cell ∈ cells, x ∉ cell) :
    x ∉ [sep].intercalate cells := by
  intro member
  have others : ∀ y ∈ [sep].intercalate cells, x ≠ y :=
    forall_mem_intercalate differ fun cell inside y here same => absent cell inside (same ▸ here)
  exact others x member rfl

theorem splitOn_table {lines : List (List α)} (absent : ∀ line ∈ lines, eol ∉ line) :
    (lines.flatMap fun line => line ++ [eol]).splitOn eol = lines ++ [[]] := by
  induction lines with
  | nil => rfl
  | cons line rest ih =>
    obtain ⟨here, others⟩ := List.forall_mem_cons.mp absent
    rw [List.flatMap_cons, List.append_assoc, List.singleton_append,
      List.splitOn_append_cons_self_of_not_mem here,
      ih others, List.cons_append]

theorem readTable_lines {lines : List (List α)} (absent : ∀ line ∈ lines, eol ∉ line) :
    readTable sep eol (lines.flatMap fun line => line ++ [eol]) = lines.map fun cells =>
      cells.splitOn sep := by
  rw [readTable, splitOn_table absent, List.dropLast_concat]

/-- A table behind a headline, which may be any line. A line without cells is read as one empty cell. -/
theorem readTable_headed {head : List α} {rows : List (List (List α))} (differ : eol ≠ sep)
    (headline : eol ∉ head) (plain : ∀ cells ∈ rows, ∀ cell ∈ cells, sep ∉ cell ∧ eol ∉ cell) :
    (readTable sep eol (head ++ [eol] ++ table sep eol rows)).tail =
      rows.map fun cells => if cells = [] then [[]] else cells := by
  have lines : head ++ [eol] ++ table sep eol rows =
      (head :: rows.map [sep].intercalate).flatMap fun line => line ++ [eol] := by
    rw [List.flatMap_cons, List.flatMap_map]
    rfl
  have absent : ∀ line ∈ head :: rows.map [sep].intercalate, eol ∉ line := by
    refine List.forall_mem_cons.mpr ⟨headline, List.forall_mem_map.mpr ?_⟩
    intro cells member
    exact notMem_intercalate differ fun cell inside => (plain cells member cell inside).2
  rw [lines, readTable_lines absent, List.map_cons, List.tail_cons, List.map_map]
  refine List.map_congr_left fun cells member => ?_
  split
  · rename_i empty
    subst empty
    rfl
  · rename_i some
    exact List.splitOn_intercalate sep (fun cell inside => (plain cells member cell inside).1) some

end Delimited
