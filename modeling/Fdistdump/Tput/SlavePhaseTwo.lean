import Fdistdump.Tput.TopN

/-!
# What a slave thread sends in phase 2

`tput_phase_2` counts the satisfying records at the front of its sorted memory and hands the count to
`send_raw_mem` as a limit, where zero means no limit.
-/

namespace Fdistdump.Tput
open Aggregation Exchange Ranking

variable {K : Type} {n : Nat} {lib : Libnf} (codec : RawCodec lib (Rec K n)) (q : TputQuery n)

/-- The slave's `tput_phase_2`, after the broadcast of the threshold, for the records of the thread in
the order of iteration. -/
def tputPhase2 (fuel : Nat) (buffs : BuffPair) (threshold : Nat) (mem : List (Rec K n)) :
    Option (List Bytes) :=
  let thresholdCnt := findThresholdCnt q threshold mem
  sendRawMem fuel buffs (codec.mem mem).recs thresholdCnt

/-- The messages carry these records, in this order, and end with the terminator. -/
def Carry (records : List (Rec K n)) (msgs : List Bytes) : Prop :=
  ∃ groups, msgs = groups.map encodeRecs ++ [[]] ∧ Packed (records.map codec.raw) groups

variable {codec q}

theorem carry_nil {msgs : List Bytes} : Carry codec [] msgs ↔ msgs = [[]] := by
  constructor
  · rintro ⟨groups, rfl, packed⟩
    have none : groups = [] := by
      rw [List.eq_nil_iff_forall_not_mem]
      intro g member
      obtain rfl := List.flatten_eq_nil_iff.mp packed.content g member
      exact packed.nonempty [] member rfl
    rw [none]
    rfl
  · rintro rfl
    exact ⟨[], rfl, rfl, by simp, by simp⟩

theorem carry_cons {e : Rec K n} {records : List (Rec K n)} {msgs : List Bytes}
    (carry : Carry codec (e :: records) msgs) : msgs ≠ [[]] := by
  obtain ⟨groups, rfl, packed⟩ := carry
  cases groups with
  | nil => cases packed.content
  | cons g rest => simp

theorem findThresholdCnt_eq {threshold : Nat} {mem : List (Rec K n)} (sorted : mem.Pairwise q.before) :
    findThresholdCnt q threshold mem = (mem.filter fun e => q.meets threshold e).length := by
  rw [findThresholdCnt, thresholdLoop_takeWhile, Nat.zero_add, satisfying_prefix q threshold sorted]

/-- A count above zero is a limit that ends with the last satisfying record; zero is no limit. -/
theorem limited_findThresholdCnt {threshold : Nat} {mem : List (Rec K n)}
    (sorted : mem.Pairwise q.before) :
    limited (findThresholdCnt q threshold mem) mem =
      if mem.filter (fun e => q.meets threshold e) = [] then mem
      else mem.filter fun e => q.meets threshold e := by
  rw [findThresholdCnt_eq sorted]
  split
  · rename_i none
    rw [none]
    rfl
  · rename_i some
    rw [limited_pos _ (List.length_pos_iff.mpr some), ← satisfying_prefix q threshold sorted]
    exact (List.prefix_iff_eq_take.mp (List.takeWhile_prefix _)).symm

variable (codec) in
theorem tputPhase2_sends (buffs : BuffPair) (threshold : Nat) {mem : List (Rec K n)}
    (sorted : mem.Pairwise q.before) {fuel : Nat} (enough : 2 * mem.length ≤ fuel) :
    ∃ msgs, tputPhase2 codec q fuel buffs threshold mem = some msgs ∧
      Carry codec (if mem.filter (fun e => q.meets threshold e) = [] then mem
        else mem.filter fun e => q.meets threshold e) msgs := by
  obtain ⟨msgs, returned, groups, shape, packed⟩ := sendRawMem_returns (codec.mem mem) buffs
    (findThresholdCnt q threshold mem)
    (show 2 * (codec.mem mem).recs.length ≤ fuel by simpa [RawCodec.mem] using enough)
  refine ⟨msgs, returned, groups, shape, ?_⟩
  rwa [RawCodec.mem, limited_map, limited_findThresholdCnt sorted] at packed

/-- Phase 2 sends exactly the satisfying records, unless there are records and none is satisfying. -/
theorem tput_phase_2_exact_iff (buffs : BuffPair) (threshold : Nat) {mem : List (Rec K n)}
    (sorted : mem.Pairwise q.before) {fuel : Nat} (enough : 2 * mem.length ≤ fuel) :
    (∃ msgs, tputPhase2 codec q fuel buffs threshold mem = some msgs ∧
        Carry codec (mem.filter fun e => q.meets threshold e) msgs) ↔
      mem = [] ∨ ∃ e ∈ mem, q.meets threshold e := by
  obtain ⟨msgs, returned, carry⟩ := tputPhase2_sends codec buffs threshold sorted enough
  constructor
  · intro ⟨sent, returned', exactly⟩
    obtain rfl : msgs = sent := Option.some.inj (returned.symm.trans returned')
    by_contra failing
    rw [not_or, not_exists] at failing
    obtain ⟨some, fails⟩ := failing
    have none : mem.filter (fun e => q.meets threshold e) = [] := by simpa using fails
    rw [none] at exactly
    rw [if_pos none] at carry
    obtain ⟨e, rest, rfl⟩ := List.exists_cons_of_ne_nil some
    exact carry_cons carry (carry_nil.mp exactly)
  · intro condition
    refine ⟨msgs, returned, ?_⟩
    split at carry
    · rename_i none
      rcases condition with rfl | ⟨e, member, meets⟩
      · exact carry
      · exact absurd meets (by simpa using List.filter_eq_nil_iff.mp none e member)
    · exact carry

theorem tput_phase_2_exact_iff_two :
    (∃ msgs, tputPhase2 keyedCodec (topOne .desc) 4
          ⟨fun _ => List.replicate xchgBuffSize 0, fun _ => List.length_replicate⟩ 2
          [⟨1, fun _ => 3⟩, ⟨2, fun _ => 1⟩] = some msgs ∧
        Carry keyedCodec [⟨1, fun _ => 3⟩] msgs) ↔
      ([⟨1, fun _ => 3⟩, ⟨2, fun _ => 1⟩] : List (Rec UInt8 1)) = [] ∨
        ∃ e ∈ ([⟨1, fun _ => 3⟩, ⟨2, fun _ => 1⟩] : List (Rec UInt8 1)), (topOne .desc).meets 2 e :=
  tput_phase_2_exact_iff _ 2 (q := topOne .desc) (by decide) (by decide)

/-- No record reaches the threshold, the count is zero, and the record is sent all the same. -/
theorem tput_phase_2_sends_failing_record :
    ∃ msgs, tputPhase2 keyedCodec (topOne .desc) 2
          ⟨fun _ => List.replicate xchgBuffSize 0, fun _ => List.length_replicate⟩ 2
            [⟨1, fun _ => 1⟩] = some msgs ∧
        Carry keyedCodec [⟨1, fun _ => 1⟩] msgs ∧
        ¬ Carry keyedCodec (([⟨1, fun _ => 1⟩] : List (Rec UInt8 1)).filter fun e =>
          (topOne .desc).meets 2 e) msgs := by
  have fails : ([⟨1, fun _ => 1⟩] : List (Rec UInt8 1)).filter (fun e => (topOne .desc).meets 2 e) =
      [] := by
    decide
  obtain ⟨msgs, returned, carry⟩ := tputPhase2_sends keyedCodec (q := topOne .desc)
    ⟨fun _ => List.replicate xchgBuffSize 0, fun _ => List.length_replicate⟩ 2
    (show List.Pairwise _ [⟨1, fun _ => 1⟩] by decide) (Nat.le_refl 2)
  rw [if_pos fails] at carry
  refine ⟨msgs, returned, carry, ?_⟩
  rw [fails, carry_nil]
  exact carry_cons carry

end Fdistdump.Tput
