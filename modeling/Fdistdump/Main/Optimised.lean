import Fdistdump.Bfindex.Verdicts
import Fdistdump.Main.Results

/-!
# Queries with and without the optimisations

Indexes of the flow files, TPUT and the number of threads change how a query is evaluated. What
follows compares two finished executions of one query over the same files.
-/

namespace Fdistdump.Main
open Aggregation Bfindex Exchange KeyedFold Slave Args Ranking
open ListMode (blankBuffs)
open Summary (Config lossless_of_none)

/-! ### Indexes of the flow files -/

section Index
variable {R M τ : Type} {layout : ListMode.RecordLayout} {src dst : R → FfIp}

/-- The index files that belong to the flow files; `none` is one that cannot be loaded. An index
answers true for all addresses in its flow file. -/
structure IndexFiles (src dst : R → FfIp) where
  load : FlowFile R → Option (FfIp → Bool)
  covers : ∀ file isStored, load file = some isStored → Covers src dst isStored file

/-- The index of a thread as `thread_ctx_init` sets it up, for the filter of the query. Every thread
calls `bfindex_init`, and `earlier` threads of its slave have done so before it. -/
def IndexFiles.ofQuery (index : IndexFiles src dst) (useBfindex : Bool) (filter : Option (FfNode R))
    (earlier : Nat) :
    Option (FlowFile R → Bool) :=
  if useBfindex then
    (filter.bind fun root => (bfindexInit root (afterCalls (List.replicate earlier root))).1).map
      fun bfindexRoot file => bfindexContains (index.load file) bfindexRoot == some true
  else none

/-- No tree of a thread has an OR that has lost one operand: the equality tests of the threads
before it count. -/
def OrCompleteAfter (earlier : Nat) (filter : Option (FfNode R)) : Prop :=
  ∀ root ∈ filter, OrComplete root (earlier * eqTests root)

/-- With a filter whose OR operators keep both operands or none, no file with a matching record is
skipped. -/
theorem IndexFiles.lossless {index : IndexFiles src dst} {useBfindex : Bool} {filter : Option (FfNode R)}
    {earlier : τ → Nat} (complete : ∀ i, OrCompleteAfter (earlier i) filter)
    {config : Config layout τ R M}
    (filtered : config.query.filter = filter.map fun root record => accepts src dst record root)
    (indexed : config.bfindex = fun i => index.ofQuery useBfindex filter (earlier i)) :
    Summary.Lossless config := by
  intro i file skipped
  rw [indexed] at skipped
  dsimp only at skipped
  rw [IndexFiles.ofQuery] at skipped
  split at skipped
  · cases filter with
    | none => cases skipped
    | some root =>
      cases built : bfindexInit root (afterCalls (List.replicate (earlier i) root)) with
      | mk bfindexRoot s' =>
        cases bfindexRoot with
        | none => simp [built] at skipped
        | some bfindexRoot =>
          simp only [Option.bind_some, built, Option.map_some, Option.all_some] at skipped
          apply List.filter_eq_nil_iff.mpr
          intro record member accepted
          have matching : accepts src dst record root = true := by
            simpa [Query.accepts, filtered] using accepted
          cases loaded : index.load file with
          | none => simp [loaded, bfindexContains] at skipped
          | some isStored =>
            have whole := complete i root rfl
            rw [← sum_replicate_eqTests] at whole
            have kept := (orComplete_lossless built whole).kept file isStored
              (index.covers file isStored loaded) ⟨record, member, matching⟩
            rw [loaded, kept] at skipped
            cases skipped
  · cases skipped

end Index

variable {R σ : Type} {layout : ListMode.RecordLayout} {lib : Libnf} [DecidableEq σ] [Fintype σ]

/-! ### Sorting -/

section Sorting
open Fdistdump.Sort

variable {K : Type} [LinearOrder K] {codec : RawCodec lib R} {q : SortQuery R K}

variable {src dst : R → FfIp} {index : IndexFiles src dst} {useBfindex : Bool}
  {filter : Option (FfNode R)}
  {access : ListMode.Access layout R} {files : σ → List (FlowFile R)} {τ τ' : Type} [DecidableEq τ]
  [Fintype τ] [Nonempty τ] [DecidableEq τ'] [Fintype τ'] [Nonempty τ'] {earlier : τ → Nat}
  {t : SortSetting σ τ q} {t' : SortSetting σ τ' q}
  {buffs : τ → BuffPair} {buffs' : τ' → BuffPair} {s : State σ τ (List R) R Unit Unit Unit}
  {s' : State σ τ' (List R) R Unit Unit Unit}

end Sorting

/-! ### Top-N queries -/

section Topping
open Tput

variable {K : Type} [DecidableEq K] {n : Nat} {codec : RawCodec lib (Entry K (Fields n))}
  {aq : AggrQuery R K n} {q : TputQuery n} {files : σ → List (FlowFile R)}

variable {src dst : R → FfIp} {index : IndexFiles src dst} {useBfindex : Bool}
  {filter : Option (FfNode R)}
  {access : ListMode.Access layout R} {recLimit : Nat} {τ τ' : Type} [DecidableEq τ] [Fintype τ]
  [Nonempty τ]
  [DecidableEq τ'] [Fintype τ'] [Nonempty τ'] {earlier : τ → Nat} {t : Setting σ τ codec q}
  {t' : AggrSetting σ τ' K n}
  {buffs : τ → BuffPair} {buffs' : τ' → BuffPair}
  {s : State σ τ (Table K (Fields n)) R SlaveCtx Broadcast TputTag}
  {s' : State σ τ' (Table K (Fields n)) R Unit Unit Unit} {length : Nat}

end Topping

end Fdistdump.Main
