/-!
# While loops

`run cond body fuel s` iterates `body` as long as `cond` holds and returns `none` when the fuel
ends first. `run_terminates` is the total-correctness rule: an invariant and a measure that the
body decreases give a fuel from which on the loop returns, in a state that satisfies the
invariant and fails the condition.
-/

namespace WhileLoop

variable {σ : Type} (cond : σ → Bool) (body : σ → σ)

def run : Nat → σ → Option σ
  | 0, s => if cond s then none else some s
  | fuel + 1, s => if cond s then run fuel (body s) else some s

variable {cond body}

theorem run_of_done {s : σ} (done : cond s = false) (fuel : Nat) : run cond body fuel s = some s := by
  cases fuel <;> simp [run, done]

theorem run_succ {s : σ} (more : cond s = true) (fuel : Nat) :
    run cond body (fuel + 1) s = run cond body fuel (body s) := by
  simp [run, more]

theorem run_mono {s t : σ} {n m : Nat} (h : run cond body n s = some t) (le : n ≤ m) :
    run cond body m s = some t := by
  induction n generalizing s m with
  | zero =>
    cases more : cond s with
    | true => simp [run, more] at h
    | false => rw [run_of_done more] at h ⊢; exact h
  | succ n ih =>
    cases more : cond s with
    | false => rw [run_of_done more] at h ⊢; exact h
    | true =>
      obtain ⟨m, rfl⟩ : ∃ k, m = k + 1 := ⟨m - 1, by omega⟩
      rw [run_succ more] at h ⊢
      exact ih h (by omega)

theorem run_unique {s t u : σ} {n m : Nat} (ht : run cond body n s = some t)
    (hu : run cond body m s = some u) : t = u := by
  have left := run_mono ht (Nat.le_max_left n m)
  have right := run_mono hu (Nat.le_max_right n m)
  exact Option.some.inj (left.symm.trans right)

/-- Partial correctness: what the body preserves holds of the result. -/
theorem run_invariant (inv : σ → Prop) (keep : ∀ s, inv s → cond s = true → inv (body s))
    {s t : σ} {fuel : Nat} (start : inv s) (h : run cond body fuel s = some t) :
    inv t ∧ cond t = false := by
  induction fuel generalizing s with
  | zero =>
    cases more : cond s with
    | true => simp [run, more] at h
    | false => rw [run_of_done more] at h; cases h; exact ⟨start, more⟩
  | succ fuel ih =>
    cases more : cond s with
    | false => rw [run_of_done more] at h; cases h; exact ⟨start, more⟩
    | true => rw [run_succ more] at h; exact ih (keep s start more) h

/-- Total correctness: with a measure that the body decreases, fuel up to the measure is enough. -/
theorem run_terminates (inv : σ → Prop) (measure : σ → Nat)
    (keep : ∀ s, inv s → cond s = true → inv (body s) ∧ measure (body s) < measure s)
    {s : σ} {fuel : Nat} (start : inv s) (enough : measure s ≤ fuel) :
    ∃ t, run cond body fuel s = some t ∧ inv t ∧ cond t = false := by
  induction fuel generalizing s with
  | zero =>
    cases more : cond s with
    | true => have := (keep s start more).2; omega
    | false => exact ⟨s, run_of_done more 0, start, more⟩
  | succ fuel ih =>
    cases more : cond s with
    | false => exact ⟨s, run_of_done more _, start, more⟩
    | true =>
      obtain ⟨kept, less⟩ := keep s start more
      rw [run_succ more]
      exact ih kept (by omega)

variable (cond body) in
theorem run_traced {α : Type} (trace : σ → List α) (fuel : Nat) (s : σ) (before : List α) :
    (run (fun p => cond p.1) (fun p => (body p.1, p.2 ++ trace p.1)) fuel (s, before)).map Prod.fst =
      run cond body fuel s := by
  induction fuel generalizing s before with
  | zero =>
    simp only [run]
    split <;> rfl
  | succ fuel ih =>
    simp only [run]
    split
    · exact ih (body s) (before ++ trace s)
    · rfl

/-! ### States at the head of the loop -/

variable (cond body) in
/-- The states in which the condition is evaluated. -/
inductive Visits (s : σ) : σ → Prop
  | start : Visits s s
  | again {t : σ} (earlier : Visits s t) (more : cond t = true) : Visits s (body t)

theorem visits_invariant (inv : σ → Prop) (keep : ∀ s, inv s → cond s = true → inv (body s)) {s t : σ}
    (start : inv s) (visits : Visits cond body s t) : inv t := by
  induction visits with
  | start => exact start
  | again _ more ih => exact keep _ ih more

theorem visits_family {n : Nat} (family : Nat → σ → Prop) {s : σ} (start : family 0 s)
    (next : ∀ k t, k < n → family k t → cond t = true ∧ family (k + 1) (body t)) :
    ∃ t, Visits cond body s t ∧ family n t := by
  induction n with
  | zero => exact ⟨s, .start, start⟩
  | succ n ih =>
    obtain ⟨t, visits, here⟩ := ih fun k u less => next k u (by omega)
    obtain ⟨more, there⟩ := next n t (by omega) here
    exact ⟨body t, .again visits more, there⟩

end WhileLoop
