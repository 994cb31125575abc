import Fdistdump.Aggregation
import Fdistdump.Library.Binary64
import Fdistdump.SortDir

/-!
# The computations of the TPUT phases

What the slaves and the master compute between the exchanges of the TPUT Top-N algorithm, each with
the closed form that the later modules use.
-/

namespace Fdistdump.Tput
open Aggregation KeyedFold Ranking

variable {K : Type} {n : Nat}

abbrev Rec (K : Type) (n : Nat) : Type := Entry K (Fields n)

/-- A Top-N query: aggregation, sorting by a summed field, and a record limit. -/
structure TputQuery (n : Nat) where
  funcs : Fin n → AggrFunc
  sortKey : Fin n
  summed : funcs sortKey = .sum
  dir : SortDir
  recLimit : Nat
  limited : 0 < recLimit

variable (q : TputQuery n)

/-- `lnf_rec_fget` of the sort key. -/
def TputQuery.value (e : Rec K n) : Nat := (e.2 q.sortKey).toNat

/-- The iteration order of a memory. -/
abbrev TputQuery.before : Rec K n → Rec K n → Prop := sortsBefore q.dir q.value

/-! ### Master, phase 1 -/

/-- The cursor loop of `tput_phase_1_find_bottom`. -/
def cursorNthOrLast (recLimit cursorPosition : Nat) (nthOrLast : Option (Rec K n)) :
    List (Rec K n) → Option (Rec K n)
  | [] => nthOrLast
  | e :: rest =>
    if cursorPosition < recLimit then cursorNthOrLast recLimit (cursorPosition + 1) (some e) rest
    else nthOrLast

/-- `tput_phase_1_find_bottom`. -/
def findBottom (mem : List (Rec K n)) : Nat :=
  match mem with
  | [] => 0
  | mem => ((cursorNthOrLast q.recLimit 0 none mem).map q.value).getD 0

theorem cursorNthOrLast_take {recLimit cursorPosition : Nat} (nthOrLast : Option (Rec K n))
    (mem : List (Rec K n)) :
    cursorNthOrLast recLimit cursorPosition nthOrLast mem =
      (mem.take (recLimit - cursorPosition)).getLast?.or nthOrLast := by
  induction mem generalizing cursorPosition nthOrLast with
  | nil => simp [cursorNthOrLast]
  | cons e rest ih =>
    rw [cursorNthOrLast]
    by_cases more : cursorPosition < recLimit
    · rw [if_pos more, ih, show recLimit - cursorPosition = recLimit - (cursorPosition + 1) + 1 by omega,
        List.take_succ_cons, List.getLast?_cons]
      cases (rest.take (recLimit - (cursorPosition + 1))).getLast? <;> rfl
    · rw [if_neg more, show recLimit - cursorPosition = 0 by omega]
      rfl

theorem findBottom_last (mem : List (Rec K n)) :
    findBottom q mem = ((mem.take q.recLimit).map q.value).getLast?.getD 0 := by
  unfold findBottom
  split
  · simp
  · rw [cursorNthOrLast_take, Option.or_none, Nat.sub_zero, List.getLast?_map]

/-! ### Master, phase 2 -/

/-- The threshold of the master's `tput_phase_2`: converted to double, divided, rounded up and converted
back. -/
def masterThreshold (bottom slaveThreadsCnt : Nat) : Nat :=
  ⌈Binary64.round (Binary64.round bottom / Binary64.round slaveThreadsCnt)⌉.toNat

theorem masterThreshold_exact {bottom m : Nat} (small : bottom ≤ 2 ^ 53) (threads : 0 < m) :
    masterThreshold bottom m = (bottom + m - 1) / m := by
  have divisor : (0 : ℚ) < m := by exact_mod_cast threads
  have ceil : ⌈(bottom : ℚ) / m⌉ = ((bottom + m - 1) / m : Nat) := by
    have parts := Nat.div_add_mod (bottom + m - 1) m
    have rest := Nat.mod_lt (bottom + m - 1) threads
    rw [Int.ceil_eq_iff, lt_div_iff₀ divisor, div_le_iff₀ divisor, sub_mul, one_mul, mul_comm]
    refine ⟨?_, ?_⟩
    · rw [sub_lt_iff_lt_add]
      exact_mod_cast (by omega)
    · exact_mod_cast (by omega)
  rw [masterThreshold, Binary64.ceil_round_div small threads, ceil, Int.toNat_natCast]

/-! ### Slaves, phase 2 -/

/-- The record loop of `tput_phase_2_find_threshold_cnt`. -/
def thresholdLoop (threshold recCntr : Nat) : List (Rec K n) → Nat
  | [] => recCntr
  | e :: rest =>
    if q.dir = .desc ∧ q.value e ≥ threshold then thresholdLoop threshold (recCntr + 1) rest
    else if q.dir = .asc ∧ q.value e ≤ threshold then thresholdLoop threshold (recCntr + 1) rest
    else recCntr

/-- `tput_phase_2_find_threshold_cnt`. -/
def findThresholdCnt (threshold : Nat) (mem : List (Rec K n)) : Nat := thresholdLoop q threshold 0 mem

/-- The record satisfies the threshold. -/
def TputQuery.meets (threshold : Nat) (e : Rec K n) : Prop := q.dir.le (q.value e) threshold

instance (threshold : Nat) (e : Rec K n) : Decidable (q.meets threshold e) :=
  inferInstanceAs (Decidable (q.dir.le _ _))

theorem thresholdLoop_takeWhile (threshold recCntr : Nat) (mem : List (Rec K n)) :
    thresholdLoop q threshold recCntr mem =
      recCntr + (mem.takeWhile fun e => q.meets threshold e).length := by
  induction mem generalizing recCntr with
  | nil => rfl
  | cons e rest ih =>
    rw [thresholdLoop, List.takeWhile_cons]
    cases direction : q.dir with
    | desc =>
      by_cases meets : q.value e ≥ threshold
      · have : q.meets threshold e := by simpa [TputQuery.meets, direction, SortDir.le] using meets
        simp [meets, this, ih]
        omega
      · have : ¬ q.meets threshold e := by simpa [TputQuery.meets, direction, SortDir.le] using meets
        simp [meets, this]
    | asc =>
      by_cases meets : q.value e ≤ threshold
      · have : q.meets threshold e := by simpa [TputQuery.meets, direction, SortDir.le] using meets
        simp [meets, this, ih]
        omega
      · have : ¬ q.meets threshold e := by simpa [TputQuery.meets, direction, SortDir.le] using meets
        simp [meets, this]

theorem meets_closed (threshold : Nat) {a b : Rec K n} (before : q.before a b)
    (meets : q.meets threshold b) : q.meets threshold a :=
  trans_of q.dir.le before meets

theorem satisfying_prefix (threshold : Nat) {mem : List (Rec K n)} (sorted : mem.Pairwise q.before) :
    mem.takeWhile (fun e => q.meets threshold e) = mem.filter (fun e => q.meets threshold e) :=
  takeWhile_eq_filter sorted fun a b before meets => by
    simpa using meets_closed q threshold before (by simpa using meets)

/-- What `send_raw_mem` sends in phase 2. A count of zero means no limit, so a thread without a
satisfying record sends everything. -/
theorem mem_phase2 {threshold : Nat} {mem : List (Rec K n)} (sorted : mem.Pairwise q.before)
    (e : Rec K n) :
    e ∈ limited (findThresholdCnt q threshold mem) mem ↔
      e ∈ mem ∧ (q.meets threshold e ∨ ∀ e' ∈ mem, ¬ q.meets threshold e') := by
  have satisfying := satisfying_prefix q threshold sorted
  rw [findThresholdCnt, thresholdLoop_takeWhile, Nat.zero_add, limited]
  split
  · rename_i none
    have none : mem.filter (fun e => q.meets threshold e) = [] := by
      rw [← satisfying]
      exact List.length_eq_zero_iff.mp none
    have fails : ∀ e' ∈ mem, ¬ q.meets threshold e' := by simpa using none
    exact ⟨fun member => ⟨member, Or.inr fails⟩, And.left⟩
  · rename_i some
    rw [← List.prefix_iff_eq_take.mp (List.takeWhile_prefix _), satisfying]
    have found : ∃ e' ∈ mem, q.meets threshold e' := by
      rw [satisfying] at some
      simpa using some
    obtain ⟨e', member', meets'⟩ := found
    simp only [List.mem_filter, decide_eq_true_eq]
    refine and_congr_right fun _ => ⟨Or.inl, fun h => h.resolve_right fun none => none e' member' meets'⟩

/-! ### Slaves, phase 3 -/

variable [DecidableEq K]

/-- The lookup loop of the slave's `tput_phase_3`. -/
def phase3Loop (mem : Table K (Fields n)) (found : List (Rec K n)) : List (Rec K n) → List (Rec K n)
  | [] => found
  | received :: rest =>
    match mem.lookup received.1 with
    | none => phase3Loop mem found rest
    | some fields => phase3Loop mem (found ++ [⟨received.1, fields⟩]) rest

/-- A thread answers for every received key it holds, with its own record. -/
theorem valuesAt_phase3Loop {mem : Table K (Fields n)} {found received : List (Rec K n)}
    (distinct : received.NodupKeys) (k : K) :
    valuesAt k (phase3Loop mem found received : Multiset (Rec K n)) =
      valuesAt k found + if k ∈ received.keys then ofOption (mem.lookup k) else 0 := by
  induction received generalizing found with
  | nil => simp [phase3Loop]
  | cons e rest ih =>
    obtain ⟨absent, distinct⟩ := List.nodupKeys_cons.mp distinct
    have keys : k ∈ (e :: rest).keys ↔ k = e.1 ∨ k ∈ rest.keys := by simp
    rw [phase3Loop]
    cases looked : mem.lookup e.1 with
    | none =>
      dsimp only
      rw [ih distinct]
      by_cases same : k = e.1
      · subst same
        rw [if_neg absent, if_pos (keys.mpr (Or.inl rfl)), looked]
        rfl
      · simp [same]
    | some fields =>
      dsimp only
      rw [ih distinct, ← Multiset.coe_add, valuesAt_add, Multiset.coe_singleton,
        ← Multiset.cons_zero, valuesAt_cons, valuesAt_zero, add_zero]
      by_cases same : k = e.1
      · subst same
        rw [if_neg absent, if_pos (keys.mpr (Or.inl rfl)), looked, if_pos rfl]
        simp [ofOption]
      · simp [same, Ne.symm same]

end Fdistdump.Tput
