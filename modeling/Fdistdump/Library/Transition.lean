import Mathlib.Logic.Relation

/-!
# Runs of a transition system

Invariants hold along runs, and a system whose steps decrease a measure and that is never stuck before
it is done can always be run to its end.
-/

namespace Transition

variable {σ : Type} {Step : σ → σ → Prop}

theorem invariant_of_steps {Inv : σ → Prop} (step : ∀ s t, Inv s → Step s t → Inv t) {s t : σ}
    (start : Inv s) (run : Relation.ReflTransGen Step s t) : Inv t := by
  induction run with
  | refl => exact start
  | tail _ last ih => exact step _ _ ih last

/-- Steps that decrease a measure cannot go on forever. -/
theorem wellFounded_of_measure {measure : σ → Nat}
    (decreases : ∀ s t, Step s t → measure t < measure s) :
    WellFounded fun t s => Step s t :=
  Subrelation.wf (fun {t s} step => decreases s t step) (InvImage.wf measure Nat.lt_wfRel.wf)

theorem exists_run_to_end {Inv : σ → Prop} (Done : σ → Prop) {measure : σ → Nat}
    (step : ∀ s t, Inv s → Step s t → Inv t) (decreases : ∀ s t, Step s t → measure t < measure s)
    (progress : ∀ s, Inv s → ¬ Done s → ∃ t, Step s t) {s : σ} (start : Inv s) :
    ∃ t, Relation.ReflTransGen Step s t ∧ Done t := by
  induction bound : measure s using Nat.strongRecOn generalizing s with
  | ind n ih =>
    by_cases done : Done s
    · exact ⟨s, .refl, done⟩
    · obtain ⟨t, first⟩ := progress s start done
      obtain ⟨u, rest, ended⟩ :=
        ih (measure t) (bound ▸ decreases s t first) (step s t start first) rfl
      exact ⟨u, .head first rest, ended⟩

/-- The same for a system whose steps cannot go on forever for another reason. -/
theorem exists_run_of_wellFounded {Inv : σ → Prop} (Done : σ → Prop)
    (step : ∀ s t, Inv s → Step s t → Inv t)
    (ends : WellFounded fun t s => Step s t) (progress : ∀ s, Inv s → ¬ Done s → ∃ t, Step s t) {s : σ}
    (start : Inv s) : ∃ t, Relation.ReflTransGen Step s t ∧ Done t := by
  induction s using ends.induction with
  | _ s ih =>
    by_cases done : Done s
    · exact ⟨s, .refl, done⟩
    · obtain ⟨t, first⟩ := progress s start done
      obtain ⟨u, rest, ended⟩ := ih t first (step s t start first)
      exact ⟨u, .head first rest, ended⟩

end Transition
