import Fdistdump.Tput.Concurrent

/-!
# What TPUT promises

With TPUT a query runs to its end with the results of the naive method exactly when the records that
the master holds before phase 3 pack into fewer than `2 ^ 31` bytes and, in ascending order, pruning
was safe.
-/

namespace Fdistdump.Tput
open Aggregation ByteBuffer Exchange KeyedFold Ranking

variable {σ ι K : Type} {n : Nat} [DecidableEq K] {lib : Libnf} {codec : RawCodec lib (Rec K n)}
  {q : TputQuery n} {mems : ι → Table K (Fields n)} [Fintype ι]

namespace Setting

/-- No assertion of the master has failed, and no broadcast in a slave. -/
structure Alive {t : Setting σ ι codec q} (s : t.State) : Prop where
  master : .aborted ∉ s.issued
  slaves : ∀ slave, (s.team slave).shared.aborted = false

variable [DecidableEq ι] [DecidableEq σ]

/-- However the query is scheduled, nothing fails, it can always come to its end, and then the
memory that is printed meets the specification. -/
structure RunsTo (t : Setting σ ι codec q) (mems : ι → Table K (Fields n))
    (Spec : Table K (Fields n) → Prop) : Prop where
  alive : ∀ s, t.Reachable mems s → Alive s
  ends : ∀ s, t.Reachable mems s → ∃ s', Relation.ReflTransGen (Rounds.Step (t.program mems)) s s' ∧
    t.Finished mems s'
  meets : ∀ s, t.Reachable mems s → t.Finished mems s → Spec (t.master s)

variable [Nonempty ι] {t : Setting σ ι codec q} {length : Nat} {Spec : Table K (Fields n) → Prop}
  {s : t.State}

theorem alive (fits : t.Fits mems length) (reached : t.Reachable mems s) : Alive s := by
  obtain ⟨threshold, mem, info, packed, delivers, front⟩ := issued_prefix fits reached
  refine ⟨?_, (shared_ok fits reached).alive⟩
  intro failed
  have named := front.subset failed
  simp at named

/-- With too many bytes to broadcast the master's packing loop fails before phase 3. -/
theorem aborted_of_large (bounded : Bounded q mems) (common : ∀ r, (codec.raw r).length = length)
    (counted : (t.phase2Keys mems).card < 2 ^ 64) (large : 2 ^ 31 ≤ (t.phase2Keys mems).card * length)
    (reached : t.Reachable mems s) (finished : t.Finished mems s) : .aborted ∈ s.issued := by
  obtain ⟨before, earlier, phased, issued⟩ :=
    phased_three_earlier (Rounds.finished_phased (t.aligned mems) reached finished)
  obtain ⟨second, -⟩ := phased_two phased
  let mem := codec.mem second.selection.broadcast
  have raws : t.raws before = mem.recs := second.raws_eq
  have count : mem.recs.length = (t.phase2Keys mems).card :=
    (List.length_map _).trans (second.selection.broadcast_length (second.selection.small bounded))
  have sameLength : ∀ r ∈ mem.recs, r.length = length := by
    intro r member
    obtain ⟨e, -, rfl⟩ := List.mem_map.mp member
    exact common e
  obtain ⟨info, queried, fails⟩ := packLoop_memory_none mem sameLength (by omega)
    (by rw [count]; exact large)
  have last : t.cast 2 1 before = .aborted := by
    rw [cast, raws, queried]
    dsimp only
    rw [fails]
  rw [issued]
  apply List.mem_append_right
  show _ ∈ [t.cast 2 0 before, t.cast 2 1 before]
  simp [last]

theorem runsTo_of_fits [Fintype σ] (fits : t.Fits mems length)
    (meets : ∀ run : TputRun codec q mems, run.Fits length → run.order = t.threadOrder mems →
      Spec run.master) :
    t.RunsTo mems Spec where
  alive _ reached := t.alive fits reached
  ends _ reached := Rounds.exists_end (t.aligned mems) reached
  meets s reached finished := by
    obtain ⟨run, order, runFits, same⟩ := finished_run fits reached finished
    rw [same]
    exact meets run runFits order

theorem RunsTo.small (runs : t.RunsTo mems Spec) (bounded : Bounded q mems)
    (common : ∀ r, (codec.raw r).length = length) (counted : (t.phase2Keys mems).card < 2 ^ 64) :
    (t.phase2Keys mems).card * length < 2 ^ 31 := by
  by_contra large
  obtain ⟨s, reached, finished⟩ := runs.ends _ .refl
  exact (runs.alive s reached).master
    (aborted_of_large bounded common counted (by omega) reached finished)

/-! ### Descending order -/

section Claims
variable [Fintype σ] (t) (naive : AggrRun codec q.funcs mems)

/-- In descending order TPUT agrees with the naive method, in every schedule, exactly when the
records that phase 2 leaves pack into fewer than `2 ^ 31` bytes. That this is enough does not need
the records to be fewer than a `size_t` can count. -/
theorem tput_descending_agrees_iff (desc : q.dir = .desc) (bounded : Bounded q mems)
    (common : ∀ r, (codec.raw r).length = length) :
    ((t.phase2Keys mems).card * length < 2 ^ 31 →
      t.RunsTo mems fun master => DescendingAgrees q mems master naive.master) ∧
    ((t.phase2Keys mems).card < 2 ^ 64 →
      (t.RunsTo mems (fun master => DescendingAgrees q mems master naive.master) ↔
        (t.phase2Keys mems).card * length < 2 ^ 31)) := by
  have enough (small : (t.phase2Keys mems).card * length < 2 ^ 31) :
      t.RunsTo mems fun master => DescendingAgrees q mems master naive.master := by
    apply runsTo_of_fits (fits_of_phase2Keys bounded common small)
    intro run fits _
    exact run.descending_agrees naive fits desc bounded
  exact ⟨enough, fun counted => ⟨fun runs => runs.small bounded common counted, enough⟩⟩

end Claims

end Setting

theorem tput_descending_agrees_iff_uneven :
    ∃ naive : AggrRun keyedCodec (topOne .desc).funcs unevenMems,
      (unevenSetting .desc).RunsTo unevenMems fun master =>
        DescendingAgrees (topOne .desc) unevenMems master naive.master := by
  obtain ⟨naive⟩ := exists_aggrRun keyedCodec (topOne .desc).funcs unevenMems
  have common : ∀ r, (keyedCodec.raw r).length = 9 := fun _ => rfl
  have law := (unevenSetting .desc).tput_descending_agrees_iff naive rfl
    (unevenMems_bounded .desc) common
  exact ⟨naive, law.1 (by decide)⟩

/-- Eight bytes of key and one field. -/
def wideCodec : RawCodec shortRecords (Rec UInt64 1) where
  raw e := putLong e.1 ++ putLong (e.2 (Fin.last 0))
  unraw bytes := ⟨getLong bytes, fun _ => getLong (bytes.drop 8)⟩
  unraw_raw e := by
    obtain ⟨key, fields⟩ := e
    have value : (fun _ => getLong (putLong (fields (Fin.last 0)) ++ [])) = fields := by
      funext j
      rw [getLong_putLong, Subsingleton.elim j (Fin.last 0)]
    rw [List.append_nil] at value
    rw [getLong_putLong, drop_putLong, value]
  sized e := ⟨by simp, by simp; decide⟩

/-- The keys below `size`, each with the value one. -/
def flatMem (size : Nat) (few : size ≤ 2 ^ 64) : Table UInt64 (Fields 1) where
  entries := (List.range size).map fun key => ⟨UInt64.ofNat key, fun _ => 1⟩
  nodupKeys := by
    rw [List.NodupKeys, List.keys, List.map_map]
    refine List.Nodup.map_on ?_ List.nodup_range
    intro a inside b inside' same
    have low : a < 2 ^ 64 := (List.mem_range.mp inside).trans_le few
    have low' : b < 2 ^ 64 := (List.mem_range.mp inside').trans_le few
    have equal := congrArg UInt64.toNat (show UInt64.ofNat a = UInt64.ofNat b from same)
    rwa [UInt64.toNat_ofNat_of_lt' low, UInt64.toNat_ofNat_of_lt' low'] at equal

def flatMems (size : Nat) (few : size ≤ 2 ^ 64) : Fin 1 → Table UInt64 (Fields 1) := fun _ =>
    flatMem size few

def flatSetting : Setting (Fin 1) (Fin 1) wideCodec (topOne .desc) :=
  .unbuffered wideCodec (topOne .desc) id Function.surjective_id ListMode.blankBuffs

section Flat
variable {size : Nat} {few : size ≤ 2 ^ 64}

theorem flat_value {e : Rec UInt64 1} (member : e ∈ (flatMem size few).entries) :
    (topOne .desc).value e = 1 := by
  obtain ⟨key, -, rfl⟩ := List.mem_map.mp member
  rfl

theorem flat_total_le (k : UInt64) :
    total (topOne .desc) (fun i => (flatMems size few i).entries) k ≤ 1 := by
  rw [total, Finset.univ_unique, Finset.sum_singleton, flatMems]
  by_cases present : ∃ e ∈ (flatMem size few).entries, e.1 = k
  · obtain ⟨e, member, rfl⟩ := present
    rw [localValue_mem (flatMem size few).nodupKeys member, flat_value member]
  · rw [localValue_absent fun e member same => present ⟨e, member, same⟩]
    exact Nat.zero_le 1

theorem flat_bounded : Bounded (topOne .desc) (flatMems size few) := fun k =>
  (flat_total_le k).trans (by decide)

/-- Every key is kept. -/
theorem flat_phase2Keys : (flatSetting.phase2Keys (flatMems size few)).card = size := by
  have perm (i : Fin 1) : (flatSetting.threadOrder (flatMems size few) i).Perm
      (flatMem size few).entries :=
    (flatSetting.orders _).perm
  have all : keys (flatSetting.threadOrder (flatMems size few)) =
      ((flatMem size few).entries.map Sigma.fst).toFinset := by
    rw [keys_perm perm, keys, Finset.univ_unique, Finset.singleton_biUnion]
  have low : threshold (topOne .desc) (flatSetting.threadOrder (flatMems size few)) ≤ 1 := by
    have bottomLow : bottom (topOne .desc) (flatSetting.threadOrder (flatMems size few)) ≤ 1 :=
      bottom_le fun k => (congrFun (total_perm perm) k).trans_le (flat_total_le k)
    rw [threshold, Fintype.card_fin]
    omega
  rw [Setting.phase2Keys, Finset.filter_true_of_mem, all,
    card_keys_of_nodup (flatMem size few).nodupKeys]
  · exact (List.length_map _).trans List.length_range
  · intro k member
    obtain ⟨i, e, present, same⟩ := mem_keys.mp member
    refine ⟨i, e, present, same, .inl ?_⟩
    show threshold _ _ ≤ (topOne .desc).value e
    rw [flat_value ((perm i).mem_iff.mp present)]
    exact low

end Flat

def manyMems : Fin 1 → Table UInt64 (Fields 1) := flatMems (2 ^ 27) (by decide)

/-- One thread with 2^27 keys and records of 16 bytes: the master fails in phase 3. -/
theorem tput_descending_broadcast_fails :
    Bounded (topOne .desc) manyMems ∧ (∀ r, (wideCodec.raw r).length = 16) ∧
      (∃ s, flatSetting.Reachable manyMems s ∧ .aborted ∈ s.issued) ∧
      ∃ naive : AggrRun wideCodec (topOne .desc).funcs manyMems,
        ¬ flatSetting.RunsTo manyMems fun master => DescendingAgrees (topOne .desc) manyMems master
          naive.master := by
  have bounded : Bounded (topOne .desc) manyMems := flat_bounded
  have common : ∀ r, (wideCodec.raw r).length = 16 := fun _ => rfl
  have many : (flatSetting.phase2Keys manyMems).card = 2 ^ 27 := flat_phase2Keys
  obtain ⟨naive⟩ := exists_aggrRun wideCodec (topOne .desc).funcs manyMems
  obtain ⟨s, reached, finished⟩ := Rounds.exists_end (flatSetting.aligned manyMems) .refl
  have aborted := Setting.aborted_of_large bounded common (by rw [many]; decide)
    (by rw [many]; decide) reached
    finished
  exact ⟨bounded, common, ⟨s, reached, aborted⟩, naive, fun runs =>
    (runs.alive s reached).master aborted⟩

namespace Setting

section Claims
variable [Nonempty ι] [DecidableEq ι] [DecidableEq σ] [Fintype σ] {length : Nat}
  (t : Setting σ ι codec q) (naive : AggrRun codec q.funcs mems)

/-! ### Ascending order -/

/-- In ascending order TPUT agrees with the naive method, in every schedule, exactly when no key
among the `N` smallest totals was pruned and the records that phase 2 leaves pack into fewer than
`2 ^ 31` bytes. -/
theorem tput_ascending_agrees_iff (asc : q.dir = .asc) (bounded : Bounded q mems)
    (common : ∀ r, (codec.raw r).length = length) :
    (AscendingSafe q (t.threadOrder mems) ∧ (t.phase2Keys mems).card * length < 2 ^ 31 →
      t.RunsTo mems fun master => topValues q master = topValues q naive.master) ∧
    ((t.phase2Keys mems).card < 2 ^ 64 →
      (t.RunsTo mems (fun master => topValues q master = topValues q naive.master) ↔
        AscendingSafe q (t.threadOrder mems) ∧ (t.phase2Keys mems).card * length < 2 ^ 31)) := by
  have enough (both : AscendingSafe q (t.threadOrder mems) ∧
    (t.phase2Keys mems).card * length < 2 ^ 31) :
      t.RunsTo mems fun master => topValues q master = topValues q naive.master := by
    apply runsTo_of_fits (fits_of_phase2Keys bounded common both.2)
    intro run fits order
    exact (run.ascending_agrees_iff naive fits asc bounded).mpr (order ▸ both.1)
  refine ⟨enough, fun counted => ⟨fun runs => ?_, enough⟩⟩
  have small := runs.small bounded common counted
  -- one finished run decides whether pruning was safe
  obtain ⟨s, reached, finished⟩ := runs.ends _ .refl
  obtain ⟨run, order, fits, same⟩ :=
    finished_run (fits_of_phase2Keys bounded common small) reached finished
  have agrees := runs.meets s reached finished
  rw [same] at agrees
  exact ⟨order ▸ (run.ascending_agrees_iff naive fits asc bounded).mp agrees, small⟩

end Claims

end Setting

theorem tput_ascending_agrees_iff_uneven :
    ∃ naive : AggrRun keyedCodec (topOne .asc).funcs unevenMems,
      (unevenSetting .asc).RunsTo unevenMems
          (fun master => topValues (topOne .asc) master = topValues (topOne .asc) naive.master) ↔
        AscendingSafe (topOne .asc) ((unevenSetting .asc).threadOrder unevenMems) ∧
          ((unevenSetting .asc).phase2Keys unevenMems).card * 9 < 2 ^ 31 := by
  obtain ⟨naive⟩ := exists_aggrRun keyedCodec (topOne .asc).funcs unevenMems
  have common : ∀ r, (keyedCodec.raw r).length = 9 := fun _ => rfl
  have law := (unevenSetting .asc).tput_ascending_agrees_iff naive rfl (unevenMems_bounded .asc) common
  exact ⟨naive, law.2 (by decide)⟩

/-- Keys 1 and 3 hide the smallest total: TPUT answers 101 where the naive method answers 3. -/
theorem tput_ascending_misses_smallest :
    Bounded (topOne .asc) unevenMems ∧ ∃ naive : AggrRun keyedCodec (topOne .asc).funcs unevenMems,
      topValues (topOne .asc) naive.master = [3] ∧
      (∃ s, (unevenSetting .asc).Reachable unevenMems s ∧ (unevenSetting .asc).Finished unevenMems s ∧
        topValues (topOne .asc) ((unevenSetting .asc).master s) = [101]) ∧
      ¬ (unevenSetting .asc).RunsTo unevenMems
        fun master => topValues (topOne .asc) master = topValues (topOne .asc) naive.master := by
  have bounded := unevenMems_bounded .asc
  obtain ⟨naive⟩ := exists_aggrRun keyedCodec (topOne .asc).funcs unevenMems
  obtain ⟨s, reached, finished⟩ := Rounds.exists_end ((unevenSetting .asc).aligned unevenMems) .refl
  obtain ⟨run, order, fits, same⟩ :=
    Setting.finished_run (Setting.fits_of_packable unevenMems_packable) reached finished
  have smallest : topValues (topOne .asc) naive.master = [3] := by
    rw [topValues, naive_values run naive bounded, order]
    decide
  have wrong : topValues (topOne .asc) ((unevenSetting .asc).master s) = [101] := by
    rw [same, topValues, run.master_values fits bounded, order]
    decide
  refine ⟨bounded, naive, smallest, ⟨s, reached, finished, wrong⟩, ?_⟩
  intro runs
  have agrees := runs.meets s reached finished
  rw [wrong, smallest] at agrees
  exact absurd agrees (by decide)

end Fdistdump.Tput
