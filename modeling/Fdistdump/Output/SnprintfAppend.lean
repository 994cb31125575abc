import Fdistdump.Library.ByteBuffer
import Fdistdump.Output.FieldText

/-!
# Appending with `snprintf`

`SNPRINTF_APPEND` moves a pointer and a remaining size through a buffer. Every write is kept with its
place, so that what is not written can be told from what is written again.
-/

namespace Fdistdump.Output
open ByteBuffer

/-- `str_term` as an offset, `remaining_size`, and what has been written where. -/
structure Appending where
  strTerm : Nat
  remainingSize : Nat
  written : List (Nat × List Char)
deriving DecidableEq, Repr

/-- `snprintf` of an already formatted string: the length of the whole string, and the write. -/
def snprintf (str size : Nat) (string : List Char) : Nat × List (Nat × List Char) :=
  (string.length, if size = 0 then [] else [(str, string.take (size - 1) ++ ['\x00'])])

/-- `SNPRINTF_APPEND` -/
def snprintfAppendMacro (s : Appending) (string : List Char) : Appending :=
  let (wouldWrite, write) := snprintf s.strTerm s.remainingSize string
  if wouldWrite ≥ s.remainingSize then { s with remainingSize := 0, written := s.written ++ write }
  else
    { strTerm := s.strTerm + wouldWrite
      remainingSize := s.remainingSize - wouldWrite
      written := s.written ++ write }

def appendAll (size : Nat) (strings : List (List Char)) : Appending :=
  strings.foldl snprintfAppendMacro { strTerm := 0, remainingSize := size, written := [] }

def stored (memory : List Char) (written : List (Nat × List Char)) : List Char :=
  written.foldl (fun memory w => write memory w.1 w.2) memory

/-- The memory starts with the text and a null byte. -/
def Terminated (memory text : List Char) : Prop := memory.take (text.length + 1) = text ++ ['\x00']

variable {size : Nat} {memory : List Char}

/-! ### One append -/

theorem snprintfAppendMacro_full {s : Appending} (full : s.remainingSize = 0) (string : List Char) :
    snprintfAppendMacro s string = s := by
  obtain ⟨strTerm, remainingSize, written⟩ := s
  obtain rfl : remainingSize = 0 := full
  simp [snprintfAppendMacro, snprintf]

theorem snprintfAppendMacro_cut {s : Appending} (room : 0 < s.remainingSize) {string : List Char}
    (long : s.remainingSize ≤ string.length) :
    snprintfAppendMacro s string =
      { strTerm := s.strTerm
        remainingSize := 0
        written := s.written ++ [(s.strTerm, string.take (s.remainingSize - 1) ++ ['\x00'])] } := by
  simp [snprintfAppendMacro, snprintf, long, Nat.ne_of_gt room]

theorem snprintfAppendMacro_whole {s : Appending} {string : List Char}
    (fits : string.length < s.remainingSize) :
    snprintfAppendMacro s string =
      { strTerm := s.strTerm + string.length
        remainingSize := s.remainingSize - string.length
        written := s.written ++ [(s.strTerm, string ++ ['\x00'])] } := by
  have all : string.take (s.remainingSize - 1) = string := List.take_of_length_le (by omega)
  simp [snprintfAppendMacro, snprintf, Nat.not_le.mpr fits, all, show s.remainingSize ≠ 0 by omega]

theorem stored_append (written : List (Nat × List Char)) (place : Nat) (items : List Char) :
    stored memory (written ++ [(place, items)]) = write (stored memory written) place items := by
  rw [stored, List.foldl_append]
  rfl

/-! ### The invariant -/

/-- The buffer holds the beginning of everything appended so far, terminated if it has been cut. -/
structure Holding (size : Nat) (memory : List Char) (s : Appending) (whole : List Char) : Prop where
  length : (stored memory s.written).length = memory.length
  inside : ∀ w ∈ s.written, w.1 + w.2.length ≤ size
  room : (s.remainingSize = 0 ∧ size - 1 ≤ whole.length ∧
      Terminated (stored memory s.written) (whole.take (size - 1))) ∨
    (0 < s.remainingSize ∧ s.strTerm = whole.length ∧ s.remainingSize + whole.length = size ∧
      (stored memory s.written).take whole.length = whole)

variable (memory) in
theorem Holding.start (positive : 1 ≤ size) :
    Holding size memory { strTerm := 0, remainingSize := size, written := [] } [] where
  length := rfl
  inside := List.forall_mem_nil _
  room := Or.inr ⟨positive, rfl, rfl, rfl⟩

theorem Holding.write {s : Appending} {whole : List Char} (holding : Holding size memory s whole)
    (enough : size ≤ memory.length) (place : s.strTerm = whole.length)
    (text : (stored memory s.written).take whole.length = whole) (part : List Char)
    (fits : whole.length + part.length + 1 ≤ size) (next : Appending)
    (written : next.written = s.written ++ [(s.strTerm, part ++ ['\x00'])]) :
    (stored memory next.written).length = memory.length ∧ (∀ w ∈ next.written, w.1 + w.2.length ≤ size) ∧
      Terminated (stored memory next.written) (whole ++ part) := by
  have length := holding.length
  have items : (part ++ ['\x00']).length = part.length + 1 := List.length_append
  rw [written, stored_append, place]
  refine ⟨?_, ?_, ?_⟩
  · rw [write_length (by rw [items]; omega), length]
  · intro w member
    rcases List.mem_append.mp member with old | new
    · exact holding.inside w old
    · obtain rfl := List.mem_singleton.mp new
      dsimp only
      rw [items]
      omega
  · have front := take_write (stored memory s.written) (part ++ ['\x00'])
      (show whole.length ≤ (stored memory s.written).length by omega)
    rw [text, items] at front
    rw [Terminated, List.length_append, Nat.add_assoc, front, List.append_assoc]

theorem Terminated.take {text : List Char} (terminated : Terminated memory text) :
    memory.take text.length = text := by
  have front := congrArg (List.take text.length) terminated
  rwa [List.take_take, Nat.min_eq_left (Nat.le_succ _), List.take_left] at front

theorem Holding.step {s : Appending} {whole : List Char} (holding : Holding size memory s whole)
    (enough : size ≤ memory.length) (string : List Char) :
    Holding size memory (snprintfAppendMacro s string) (whole ++ string) ∧
      Terminated (stored memory (snprintfAppendMacro s string).written)
        ((whole ++ string).take (size - 1)) := by
  rcases holding.room with ⟨full, past, terminated⟩ | ⟨room, place, total, text⟩
  · rw [snprintfAppendMacro_full full, List.take_append_of_le_length past]
    refine ⟨⟨holding.length, holding.inside, Or.inl ⟨full, ?_, ?_⟩⟩, terminated⟩
    · rw [List.length_append]
      omega
    · rwa [List.take_append_of_le_length past]
  · by_cases long : s.remainingSize ≤ string.length
    · have cut := snprintfAppendMacro_cut room long
      have part : (string.take (s.remainingSize - 1)).length = s.remainingSize - 1 := by
        rw [List.length_take]
        omega
      obtain ⟨length, inside, terminated⟩ := holding.write enough place text
        (string.take (s.remainingSize - 1)) (by omega) (snprintfAppendMacro s string) (by rw [cut])
      have first : (whole ++ string).take (size - 1) = whole ++ string.take (s.remainingSize - 1) := by
        rw [List.take_append, List.take_of_length_le (by omega), show size - 1 - whole.length =
          s.remainingSize - 1 by omega]
      rw [first]
      refine ⟨⟨length, inside, Or.inl ⟨by rw [cut], ?_, by rwa [first]⟩⟩, terminated⟩
      rw [List.length_append]
      omega
    · have uncut := snprintfAppendMacro_whole (Nat.not_le.mp long)
      obtain ⟨length, inside, terminated⟩ := holding.write enough place text string (by omega)
        (snprintfAppendMacro s string) (by rw [uncut])
      have all : (whole ++ string).take (size - 1) = whole ++ string :=
        List.take_of_length_le (by rw [List.length_append]; omega)
      rw [all]
      refine ⟨⟨length, inside, Or.inr ⟨?_, ?_, ?_, terminated.take⟩⟩, terminated⟩
      · rw [uncut]
        dsimp only
        omega
      · rw [uncut, List.length_append, place]
      · rw [uncut, List.length_append]
        dsimp only
        omega

/-! ### Any number of appends -/

theorem Holding.run {s : Appending} {whole : List Char} (holding : Holding size memory s whole)
    (enough : size ≤ memory.length) (strings : List (List Char)) :
    Holding size memory (strings.foldl snprintfAppendMacro s) (whole ++ strings.flatten) ∧
      (strings ≠ [] → Terminated (stored memory (strings.foldl snprintfAppendMacro s).written)
        ((whole ++ strings.flatten).take (size - 1))) := by
  induction strings generalizing s whole with
  | nil =>
    rw [List.flatten_nil, List.append_nil]
    exact ⟨holding, fun some => absurd rfl some⟩
  | cons string rest ih =>
    obtain ⟨next, terminated⟩ := holding.step enough string
    obtain ⟨after, last⟩ := ih next
    rw [List.foldl_cons, List.flatten_cons, ← List.append_assoc]
    refine ⟨after, ?_⟩
    intro _
    cases rest with
    | nil =>
      rw [List.flatten_nil, List.append_nil]
      exact terminated
    | cons => exact last (List.cons_ne_nil _ _)

theorem foldl_snprintfAppendMacro_full {s : Appending} (full : s.remainingSize = 0)
    (strings : List (List Char)) :
    strings.foldl snprintfAppendMacro s = s := by
  induction strings with
  | nil => rfl
  | cons string rest ih => rw [List.foldl_cons, snprintfAppendMacro_full full, ih]

theorem remainingSize_of_cut {s : Appending} {string : List Char}
    (long : s.remainingSize ≤ string.length) :
    (snprintfAppendMacro s string).remainingSize = 0 := by
  rcases Nat.eq_zero_or_pos s.remainingSize with full | room
  · rw [snprintfAppendMacro_full full, full]
  · rw [snprintfAppendMacro_cut room long]

theorem stored_behind {written : List (Nat × List Char)}
    (inside : ∀ w ∈ written, w.1 + w.2.length ≤ size)
    (enough : size ≤ memory.length) : (stored memory written).drop size = memory.drop size := by
  induction written generalizing memory with
  | nil => rfl
  | cons w rest ih =>
    obtain ⟨here, others⟩ := List.forall_mem_cons.mp inside
    have length : (write memory w.1 w.2).length = memory.length := write_length (by omega)
    have behind := congrArg (List.drop (size - (w.1 + w.2.length)))
      (drop_write memory w.2 (show w.1 ≤ memory.length by omega))
    rw [List.drop_drop, List.drop_drop, Nat.add_sub_cancel' here] at behind
    rw [← behind]
    exact ih others (show size ≤ (write memory w.1 w.2).length by omega)

/-- After any number of appends the buffer holds what fits of all strings, nothing is written behind it,
and a cut string is the last one of which anything is written. Without an append the text is the one
that was there. -/
theorem snprintf_append_concatenates (size : Nat) (positive : 1 ≤ size) (strings : List (List Char))
    (memory : List Char) (enough : size ≤ memory.length) :
    (strings ≠ [] ∨ memory.head? = some '\x00' →
      Terminated (stored memory (appendAll size strings).written) (strings.flatten.take (size - 1))) ∧
    (∀ w ∈ (appendAll size strings).written, w.1 + w.2.length ≤ size) ∧
    (stored memory (appendAll size strings).written).drop size = memory.drop size ∧
    ∀ front string back, strings = front ++ string :: back →
      (appendAll size front).remainingSize ≤ string.length →
        (appendAll size strings).written = (appendAll size (front ++ [string])).written := by
  obtain ⟨holding, terminated⟩ := (Holding.start memory positive).run enough strings
  refine ⟨fun given => ?_, holding.inside, stored_behind holding.inside enough, ?_⟩
  · by_cases none : strings = []
    · subst none
      have first := given.resolve_left fun some => some rfl
      obtain ⟨rest, rfl⟩ := List.head?_eq_some_iff.mp first
      rw [Terminated, List.flatten_nil, List.take_nil]
      rfl
    · exact terminated none
  · rintro front string back rfl long
    have cut : (appendAll size (front ++ [string])).remainingSize = 0 := by
      rw [appendAll, List.foldl_append]
      exact remainingSize_of_cut long
    have later := foldl_snprintfAppendMacro_full cut back
    rw [appendAll, ← List.foldl_append, List.append_assoc, List.singleton_append] at later
    exact congrArg Appending.written later

/-- Five bytes: the second string is cut, and the third one is not written. -/
theorem snprintf_append_concatenates_five :
    Terminated
      (stored (List.replicate 8 '?') (appendAll 5 ["ab".toList, "cdef".toList, "g".toList]).written)
      "abcd".toList :=
  (snprintf_append_concatenates 5 (by decide) ["ab".toList, "cdef".toList, "g".toList]
    (List.replicate 8 '?')
    (by decide)).1 (Or.inl (by decide))

/-! ### The texts -/

/-- What `libnf_brec_to_str` leaves in its static buffer is the text that it returns. -/
theorem libnfBrecToStr_stored (libc : Libc) (params : OutputParams) (data : Bytes)
    (enough : maxStrLen ≤ memory.length) :
    Terminated (stored memory (appendAll maxStrLen
        ((libnfBrecParts libc params (libc.brec1 (data.take libc.brec1Size))).map
          String.toList)).written)
      (libnfBrecToStr libc params data).toList := by
  rw [libnfBrecToStr_toList, List.flatMap_def]
  refine (snprintf_append_concatenates maxStrLen (by decide) _ memory enough).1 (Or.inl ?_)
  unfold libnfBrecParts
  cases params.format <;> exact List.cons_ne_nil _ _

end Fdistdump.Output
