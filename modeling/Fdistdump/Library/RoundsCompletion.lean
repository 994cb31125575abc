import Fdistdump.Library.RoundsFlow
import Mathlib.Algebra.BigOperators.Intervals
import Mathlib.Data.Finset.Max

/-!
# How a system of rounds ends

A system of rounds is never stuck before its end, whatever the network buffers, it cannot go on
forever, and when it has ended the root has what the rounds give one after the other.
-/

namespace Rounds
open Interleaving

variable {σ τ S H V T M : Type} {p : Program σ τ S H V T M} {data₀ : S} {shared : H}
  {s : State σ τ S H V T M}

/-! ### What is left to do -/

variable (p) in
/-- What a member has to do from round `k` on, and what the root has. -/
def toGo (k : Nat) : Nat := ∑ j ∈ Finset.Ico k p.rounds, (p.castCnt j + 4)

variable (p) in
def rootToGo (k : Nat) : Nat := ∑ j ∈ Finset.Ico k (p.rounds + 1), (2 * p.castCnt j + 2)

theorem toGo_of_lt {k : Nat} (inside : k < p.rounds) : toGo p k = p.castCnt k + 4 + toGo p (k + 1) :=
  Finset.sum_eq_sum_Ico_succ_bot inside _

theorem rootToGo_of_le {k : Nat} (inside : k ≤ p.rounds) :
    rootToGo p k = 2 * p.castCnt k + 2 + rootToGo p (k + 1) :=
  Finset.sum_eq_sum_Ico_succ_bot (Nat.lt_succ_of_le inside) _

variable (p) in
def Place.cost : Place M → Nat
  | ready k => toGo p k
  | body k c => toGo p (k + 1) + 3 + (p.castCnt k - c)
  | waiting k => toGo p (k + 1) + 2
  | sending k _ => toGo p (k + 1) + 1

variable (p) in
def Phase.cost (k : Nat) : Phase → Nat
  | casting c => rootToGo p (k + 1) + 1 + 2 * (p.castCnt k - c)
  | casted c => rootToGo p (k + 1) + 2 + 2 * (p.castCnt k - c)
  | collecting => rootToGo p (k + 1)

def Team.cost (team : Team H) : Nat := if team.released then 0 else 1

theorem sum_lt_of_one {ι : Type} [Fintype ι] {f g : ι → Nat} {i : ι} (less : f i < g i)
    (same : ∀ j, j ≠ i → f j = g j) : ∑ j, f j < ∑ j, g j := by
  refine Finset.sum_lt_sum (fun j _ => ?_) ⟨i, Finset.mem_univ i, less⟩
  by_cases here : j = i
  · exact here ▸ less.le
  · exact (same j here).le

/-! ### Reachable states -/

variable [DecidableEq σ] [DecidableEq τ] [Fintype τ]

abbrev Reachable (p : Program σ τ S H V T M) (data₀ : S) (shared : H) (s : State σ τ S H V T M) : Prop :=
  Relation.ReflTransGen (Step p) (.init data₀ shared) s

theorem Reachable.flow (aligned : Aligned p) (reached : Reachable p data₀ shared s) :
    ∃ begun earlier trace, Flow p data₀ shared s begun earlier trace := by
  have keeps : ∀ s t, (∃ begun earlier trace, Flow p data₀ shared s begun earlier trace) → Step p s t →
      ∃ begun earlier trace, Flow p data₀ shared t begun earlier trace := by
    rintro s t ⟨begun, earlier, trace, flow⟩ step
    exact step.flow aligned flow
  exact Transition.invariant_of_steps keeps ⟨_, _, _, .init p data₀ shared⟩ reached

theorem finished_phased (aligned : Aligned p) (reached : Reachable p data₀ shared s)
    (finished : s.Finished p) :
    Phased p data₀ shared p.rounds s.data s.issued := by
  obtain ⟨begun, earlier, trace, flow⟩ := reached.flow aligned
  have phase := flow.last finished.1
  have root := flow.root
  have issued := flow.issued
  rw [phase] at root issued
  rw [issued, Phase.issuedIn, List.take_zero, List.append_nil, root.1, ← finished.1]
  exact flow.phased

/-- While a member has messages to send, the memory of its team is the one it computed them from. -/
theorem memory_kept (aligned : Aligned p) (reached : Reachable p data₀ shared s) {i : τ} {k : Nat}
    {left : List M} (here : s.place i = .sending k left) (more : left ≠ []) :
    (s.team (p.home i)).released = false ∧ (s.team (p.home i)).received = before p (k + 1) ∧
      (s.team (p.home i)).shared = stored p shared (s.issued.take (before p (k + 1))) := by
  obtain ⟨begun, earlier, trace, flow⟩ := reached.flow aligned
  have away : s.place i ≠ .ready p.rounds := by simp [here]
  have received := flow.team.reached i (k + 1) (by simp [here]; omega)
  have late := (flow.sent i).late
  have early := flow.early aligned i
  rw [here, Place.rank_sending] at late early
  obtain rfl : k = s.round := by
    by_contra other
    have none := ((flow.sent i).none (by rw [here, Place.rank_sending]; omega)).2.2
    rw [here] at none
    exact more none
  have same := (flow.issued_all received).2
  exact ⟨flow.team.held away, same, flow.team.memory_after away same⟩

/-! ### Never stuck -/

section Stuck
variable (aligned : Aligned p) {begun : S} {earlier : List V} {trace : List (τ × M)}
  (flow : Flow p data₀ shared s begun earlier trace) (stuck : ∀ t, ¬ Step p s t)

omit [Fintype τ] in
include stuck in
theorem not_sending {i : τ} (empty : s.channel i = []) (k : Nat) (left : List M) :
    s.place i ≠ .sending k left := by
  intro here
  cases left with
  | nil => exact stuck _ (.endSend i k here (.inl empty))
  | cons message left => exact stuck _ (.send i k message left here (.inl empty))

omit [Fintype τ] in
include stuck in
theorem not_ready {i : τ} {k : Nat} (inside : k < p.rounds) : s.place i ≠ .ready k := by
  intro here
  by_cases none : p.castCnt k = 0
  · exact stuck _ (.begins i k here inside none)
  cases first : (s.team (p.home i)).claimed k with
  | false => exact stuck _ (.claim i k here inside none first)
  | true => exact stuck _ (.skip i k here inside none first)

omit [Fintype τ] in
include flow stuck in
/-- Nobody is behind the round. -/
theorem in_round (i : τ) : 4 * s.round ≤ (s.place i).rank := by
  have ok := flow.sent i
  have late := ok.late
  by_contra behind
  obtain ⟨empty, -, -⟩ := ok.none (by omega)
  have sending := not_sending stuck empty
  cases here : s.place i with
  | sending k left => exact sending k left here
  | _ =>
    rw [here] at late behind
    simp at late behind
    omega

omit [Fintype τ] in
include aligned flow stuck in
/-- A team that has not received what the root has issued has a member in the next broadcast. -/
theorem entering {n : σ} (missing : (s.team n).received < s.issued.length) :
    ∃ i c, p.home i = n ∧ s.place i = .body s.round c ∧ c < p.castCnt s.round := by
  obtain ⟨i, rfl⟩ := aligned.staffed n
  have late := in_round flow stuck i
  have received := flow.team.reached i s.round (by omega)
  have issued := flow.issued_le
  have length := flow.issued_length
  have early : (s.place i).rank < 4 * s.round + 3 := by
    by_contra ahead
    have := flow.team.reached i (s.round + 1) (by omega)
    omega
  rw [before_succ] at issued
  have inside : s.round < p.rounds := by
    have le := flow.round_le
    by_contra last
    rw [flow.last (by omega), Phase.issuedIn] at length
    omega
  have claimed : (s.team (p.home i)).claimed s.round = true := by
    apply flow.team.claimed i s.round (by omega)
    have notReady := not_ready stuck inside (i := i)
    cases here : s.place i with
    | ready k =>
      rw [here, Place.rank_ready] at late early
      obtain rfl : k = s.round := by omega
      exact absurd here notReady
    | _ =>
      rw [here] at late
      simp at late ⊢
      omega
  obtain done | ⟨j, c, home, body⟩ := flow.team.ran _ _ claimed
  · rw [before_succ] at done
    omega
  · have same := (flow.team.body j _ c body).1
    rw [home] at same
    exact ⟨j, c, home, body, by omega⟩

omit [Fintype τ] in
include aligned flow stuck in
theorem caught_up [Fintype σ] (n : σ) : (s.team n).received = s.issued.length := by
  apply Nat.le_antisymm (flow.team.received n)
  by_contra missing
  obtain ⟨m, -, least⟩ := Finset.exists_min_image Finset.univ (fun n => (s.team n).received)
    ⟨n, Finset.mem_univ n⟩
  have behind : (s.team m).received < s.issued.length := by
    have := least n (Finset.mem_univ n)
    omega
  obtain ⟨i, c, home, body, more⟩ := entering aligned flow stuck behind
  subst home
  refine stuck _ (.bcast i s.round c _ body more (List.getElem?_eq_getElem behind) (.inr ?_))
  -- the other teams are ahead, or in the same broadcast
  intro m
  obtain ahead | same := Nat.lt_or_eq_of_le (least m (Finset.mem_univ m))
  · exact .inl ahead
  · obtain ⟨j, d, home, body, more⟩ := entering aligned flow stuck (same ▸ behind)
    exact .inr ⟨same, j, s.round, d, home, body, more⟩

omit [Fintype τ] in
include aligned flow stuck in
/-- While the root collects, nobody has anything left to do in its round. -/
theorem all_sent [Fintype σ] (here : s.phase = .collecting) (inside : s.round < p.rounds)
    (empty : ∀ i, s.channel i = []) (i : τ) : 4 * s.round + 4 ≤ (s.place i).rank := by
  have length := flow.issued_length
  rw [here, Phase.issuedIn] at length
  have atBarrier : ∀ j, 4 * s.round + 2 ≤ (s.place j).rank := fun j => by
    have late := in_round flow stuck j
    cases place : s.place j with
    | ready k =>
      rw [place, Place.rank_ready] at late
      by_contra behind
      rw [Place.rank_ready] at behind
      obtain rfl : k = s.round := by omega
      exact not_ready stuck inside place
    | body k c =>
      rw [place, Place.rank_body] at late
      by_contra behind
      rw [Place.rank_body] at behind
      obtain rfl : k = s.round := by omega
      have same := (flow.team.body j _ c place).1
      rw [caught_up aligned flow stuck] at same
      obtain rfl : c = p.castCnt s.round := by omega
      exact stuck _ (.endBody j _ place)
    | waiting k =>
      rw [place, Place.rank_waiting] at late
      simp
      omega
    | sending k left => exact absurd place (not_sending stuck (empty j) k left)
  have late := atBarrier i
  cases place : s.place i with
  | waiting k =>
    rw [place, Place.rank_waiting] at late
    by_contra behind
    rw [Place.rank_waiting] at behind
    obtain rfl : k = s.round := by omega
    exact stuck _ (.pass i _ place fun j _ => atBarrier j)
  | sending k left => exact absurd place (not_sending stuck (empty i) k left)
  | _ =>
    rw [place] at late
    simp at late ⊢
    omega

include aligned flow stuck in
theorem finished_of_stuck [Fintype σ] : s.Finished p := by
  have same := caught_up aligned flow stuck
  obtain inside | last := Nat.lt_or_eq_of_le flow.round_le
  · exfalso
    cases here : s.phase with
    | casting c =>
      have le := flow.issuedIn
      rw [here, Phase.issuedIn] at le
      obtain more | rfl := Nat.lt_or_eq_of_le le
      · exact stuck _ (.cast c here inside more)
      · exact stuck _ (.listen here inside)
    | casted c =>
      refine stuck _ (.castReturns c here (.inr ?_))
      intro n number less
      exact .inl (by rwa [same n])
    | collecting =>
      cases active : p.active s.data with
      | false => exact stuck _ (.endRound here inside active)
      | true =>
        have empty : ∀ i, s.channel i = [] := fun i => by
          cases queued : s.channel i with
          | nil => rfl
          | cons entry back =>
            have tag := (flow.sent i).tags entry (by simp [queued])
            obtain ⟨tag', message⟩ := entry
            obtain rfl : tag' = p.tag s.round := tag
            exact absurd (.recv i [] message back here active queued (by simp)) (stuck _)
        have all := (flow.active_iff aligned here).mpr fun i => by
          have ahead := all_sent aligned flow stuck here inside empty i
          have early := flow.early aligned i
          have sent := (flow.sent i).sent (by omega)
          have left : (s.place i).left = [] := by
            cases place : s.place i with
            | sending k left => exact absurd place (not_sending stuck (empty i) k left)
            | _ => rfl
          rwa [empty i, left, List.map_nil, List.append_nil, List.append_nil] at sent
        rw [active] at all
        cases all
  · have arrived : ∀ i, s.place i = .ready p.rounds := fun i => by
      have late := in_round flow stuck i
      have inside := flow.team.inside i
      cases place : s.place i with
      | ready k =>
        rw [place, Place.rank_ready] at late inside
        rw [show k = p.rounds by omega]
      | _ =>
        rw [place] at late inside
        simp at late inside
        omega
    refine ⟨last, ?_⟩
    intro n
    by_contra held
    exact stuck _ (.release n (fun i _ => arrived i) (by simpa using held))

end Stuck

theorem exists_step [Fintype σ] (aligned : Aligned p) (reached : Reachable p data₀ shared s)
    (unfinished : ¬ s.Finished p) : ∃ t, Step p s t := by
  obtain ⟨begun, earlier, trace, flow⟩ := reached.flow aligned
  by_contra stuck
  exact unfinished (finished_of_stuck aligned flow (not_exists.mp stuck))

/-! ### Termination -/

variable [Fintype σ]

variable (p) in
/-- Places, phases and releases first, then the messages that have not been collected. -/
def work (s : State σ τ S H V T M) : Nat × Nat :=
  (∑ i, (s.place i).cost p + ∑ n, (s.team n).cost + s.phase.cost p s.round,
    ∑ i, (2 * (s.place i).left.length + (s.channel i).length))

omit [DecidableEq σ] in
/-- A step of one member that brings it nearer to its end. -/
theorem work_place {t : State σ τ S H V T M} {i : τ} {next : Place M}
    (place : t.place = Function.update s.place i next)
    (less : next.cost p < (s.place i).cost p) (held : ∀ n, (t.team n).released = (s.team n).released)
    (phase : t.phase = s.phase) (round : t.round = s.round) :
    Prod.Lex (· < ·) (· < ·) (work p t) (work p s) := by
  apply Prod.Lex.left
  have places : ∑ j, (t.place j).cost p < ∑ j, (s.place j).cost p := by
    rw [place]
    exact sum_lt_of_one (i := i) (by rwa [Function.update_self])
      fun j other => by rw [Function.update_of_ne other]
  have teams : ∑ n, (t.team n).cost = ∑ n, (s.team n).cost :=
    Finset.sum_congr rfl fun n _ => by rw [Team.cost, Team.cost, held]
  rw [phase, round]
  omega

/-- Every step takes something off what is to be done. -/
theorem Step.work_lt {t : State σ τ S H V T M} (step : Step p s t) :
    Prod.Lex (· < ·) (· < ·) (work p t) (work p s) := by
  have held : ∀ (n : σ) (team : Team H), team.released = (s.team n).released →
      ∀ m, (Function.update s.team n team m).released = (s.team m).released := by
    intro n team same m
    obtain ⟨rfl, now⟩ | ⟨-, now⟩ := update_cases s.team n team m <;> rw [now]
    exact same
  cases step with
  | begins i k here inside none =>
    refine work_place rfl ?_ (fun _ => rfl) rfl rfl
    rw [here, Place.cost, Place.cost, toGo_of_lt inside]
    omega
  | claim i k here inside casts first =>
    refine work_place rfl ?_ (held _ _ rfl) rfl rfl
    rw [here, Place.cost, Place.cost, toGo_of_lt inside]
    omega
  | skip i k here inside casts claimed =>
    refine work_place rfl ?_ (fun _ => rfl) rfl rfl
    rw [here, Place.cost, Place.cost, toGo_of_lt inside]
    omega
  | bcast i k c value here more issued returns =>
    refine work_place rfl ?_ (held _ _ rfl) rfl rfl
    rw [here, Place.cost, Place.cost]
    omega
  | endBody i k here =>
    refine work_place rfl ?_ (fun _ => rfl) rfl rfl
    rw [here, Place.cost, Place.cost]
    omega
  | pass i k here arrived =>
    refine work_place rfl ?_ (fun _ => rfl) rfl rfl
    rw [here, Place.cost, Place.cost]
    omega
  | endSend i k here free =>
    refine work_place rfl ?_ (fun _ => rfl) rfl rfl
    rw [here, Place.cost, Place.cost]
    omega
  | send i k message left here free =>
    have places : ∀ j, (Function.update s.place i (.sending k left) j).cost p =
      (s.place j).cost p := fun j => by
      obtain ⟨rfl, now⟩ | ⟨-, now⟩ := update_cases s.place i (.sending k left) j <;> rw [now]
      rw [here]
      rfl
    have same : ∑ j, (Function.update s.place i (.sending k left) j).cost p = ∑ j, (s.place j).cost p :=
      Finset.sum_congr rfl fun j _ => places j
    simp only [work, State.move, State.queue, same]
    apply Prod.Lex.right
    refine sum_lt_of_one (i := i) ?_ fun j other => ?_
    · simp [here]
      omega
    · simp [other]
  | release n arrived held =>
    apply Prod.Lex.left
    have teams : ∑ m, (Function.update s.team n ((s.team n).free (p.release (s.team n).shared)) m).cost <
        ∑ m, (s.team m).cost :=
      sum_lt_of_one (i := n) (by simp [Team.cost, Team.free, held])
        fun m other => by rw [Function.update_of_ne other]
    simp only [State.onTeam]
    omega
  | cast c here inside more =>
    apply Prod.Lex.left
    simp only [here, Phase.cost]
    omega
  | castReturns c here returns =>
    apply Prod.Lex.left
    simp only [here, Phase.cost]
    omega
  | listen here inside =>
    apply Prod.Lex.left
    simp only [here, Phase.cost]
    omega
  | recv i front message back here active queued first =>
    apply Prod.Lex.right
    refine sum_lt_of_one (i := i) ?_ fun j other => ?_
    · simp [State.queue, queued]
    · simp [State.queue, other]
  | endRound here inside done =>
    apply Prod.Lex.left
    simp only [here, Phase.cost]
    rw [rootToGo_of_le (k := s.round + 1) inside]
    omega

theorem steps_end : WellFounded fun t s : State σ τ S H V T M => Step p s t :=
  Subrelation.wf (fun {_ _} step => step.work_lt)
    (InvImage.wf (work p) (Prod.lex Nat.lt_wfRel Nat.lt_wfRel).wf)

theorem exists_end (aligned : Aligned p) (reached : Reachable p data₀ shared s) :
    ∃ t, Relation.ReflTransGen (Step p) s t ∧ t.Finished p := by
  have keeps : ∀ s t, Reachable p data₀ shared s → Step p s t → Reachable p data₀ shared t :=
    fun _ _ before step =>
    before.tail step
  exact Transition.exists_run_of_wellFounded (State.Finished p) keeps steps_end
    (fun _ before => exists_step aligned before) reached

end Rounds
