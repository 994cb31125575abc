import Fdistdump.Output.PrintField

/-!
# Widths of cells

How far a cell that is not the last one reaches. A string that is printed whole and is one or two
characters longer than its column makes the cell shorter than the others.
-/

namespace Fdistdump.Output

def cellText (ellipsize : Bool) (string : String) (width : Nat) (alignment : Alignment) : List Char :=
  (alignedAndPadded ellipsize string (sizeToInt width) alignment false).text

/-- The cell takes its column and the protective padding, more only for a string that is printed
whole, and ends with a space. -/
structure CellLaw (ellipsize : Bool) (string : String) (width : Nat) (alignment : Alignment) : Prop where
  ellipsized : ellipsize = true →
    (cellText ellipsize string width alignment).length = width + protectivePadding
  whole : ellipsize = false →
    (cellText ellipsize string width alignment).length = max (width + protectivePadding)
      (string.length + 1) ∧
      string.toList <:+: cellText ellipsize string width alignment
  separated : (cellText ellipsize string width alignment).getLast? = some ' '

variable {ellipsize : Bool} {string : String} {width : Nat} {alignment : Alignment}

theorem getLast?_spaces (front : List Char) {n : Nat} (some : 0 < n) :
    (front ++ List.replicate n ' ').getLast? = .some ' ' := by
  obtain ⟨n, rfl⟩ := Nat.exists_eq_add_one.mpr some
  rw [List.replicate_succ', ← List.append_assoc]
  exact List.getLast?_concat

theorem cellText_of_fits (narrow : width < 2 ^ 31) (fits : string.length ≤ width) :
    cellText ellipsize string width alignment =
      match alignment with
      | .left => string.toList ++ List.replicate (width - string.length + protectivePadding) ' '
      | .right =>
        List.replicate (width - string.length) ' ' ++ string.toList ++
          List.replicate protectivePadding ' ' := by
  obtain ⟨spare, rfl⟩ := Nat.exists_eq_add_of_le fits
  have remainder : ((string.length + spare : Nat) : Int) - string.length = spare := by omega
  rw [cellText, alignedAndPadded, remainder_eq narrow (by omega), remainder, fitting_cell narrow,
    Nat.add_sub_cancel_left]
  cases alignment <;> rfl

theorem cellText_of_long (narrow : width < 2 ^ 31) (short : string.length < 2 ^ 63)
    (long : width < string.length) :
    cellText false string width alignment = string.toList ++ [' '] := by
  rw [cellText, alignedAndPadded, remainder_eq narrow short, whole_cell long]
  rfl

theorem cellText_infix (narrow : width < 2 ^ 31) (fits : string.length ≤ width) :
    string.toList <:+: cellText ellipsize string width alignment := by
  rw [cellText_of_fits narrow fits]
  cases alignment with
  | left => exact (List.prefix_append _ _).isInfix
  | right => exact List.infix_append ..

theorem cellText_length (room : 3 ≤ width) (narrow : width < 2 ^ 31) (short : string.length < 2 ^ 63) :
    (cellText ellipsize string width alignment).length =
      if string.length ≤ width ∨ ellipsize = true then width + protectivePadding
      else string.length + 1 := by
  rw [cellText, text_length room narrow short]
  by_cases fits : string.length ≤ width
  · simp [fits]
  · cases ellipsize <;> simp [fits]

theorem cellText_getLast? (room : 3 ≤ width) (narrow : width < 2 ^ 31) (short : string.length < 2 ^ 63) :
    (cellText ellipsize string width alignment).getLast? = some ' ' := by
  by_cases fits : string.length ≤ width
  · rw [cellText_of_fits narrow fits]
    cases alignment with
    | left => exact getLast?_spaces _ (by unfold protectivePadding; omega)
    | right => exact getLast?_spaces _ (by decide)
  · cases ellipsize with
    | true =>
      rw [cellText, alignedAndPadded, remainder_eq narrow short, sizeToInt_width narrow,
        ellipsized_cell room narrow (by omega)]
      exact getLast?_spaces _ (show 0 < protectivePadding by decide)
    | false =>
      rw [cellText_of_long narrow short (by omega)]
      exact List.getLast?_concat

/-- The law holds unless a string that is printed whole is one or two characters too long. -/
theorem cell_law_iff (room : 3 ≤ width) (narrow : width < 2 ^ 31) (short : string.length < 2 ^ 63) :
    CellLaw ellipsize string width alignment ↔
      ellipsize = true ∨ string.length ≤ width ∨ width + 3 ≤ string.length := by
  have length : (cellText ellipsize string width alignment).length = _ :=
    cellText_length room narrow short
  constructor
  · intro law
    cases ellipsize with
    | true => exact Or.inl rfl
    | false =>
      have exact' := (law.whole rfl).1
      rw [length] at exact'
      unfold protectivePadding at exact'
      right
      simp only [Bool.false_eq_true, or_false] at exact'
      split at exact' <;> omega
  · intro holds
    refine ⟨fun on => ?_, fun off => ⟨?_, ?_⟩, cellText_getLast? room narrow short⟩
    · rw [length, if_pos (Or.inr on)]
    · subst off
      rw [length]
      unfold protectivePadding
      simp only [Bool.false_eq_true, false_or, or_false] at holds ⊢
      split <;> omega
    · subst off
      by_cases fits : string.length ≤ width
      · exact cellText_infix narrow fits
      · rw [cellText_of_long narrow short (by omega)]
        exact (List.prefix_append _ _).isInfix

theorem cell_law_iff_port : CellLaw false "443" 5 .right :=
  (cell_law_iff (by decide) (by decide) (by decide)).mpr
  (Or.inr (Or.inl (by decide)))

/-- An IPv6 address of 16 characters in the column of an address: 17 characters instead of 19. -/
theorem cell_law_fails : ¬ CellLaw false "2001:db8::1:2:34" 15 .left := fun law =>
  absurd (law.whole rfl).1 (by decide)

end Fdistdump.Output
