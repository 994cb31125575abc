import Fdistdump.Library.Rounds
import Mathlib.Algebra.Order.BigOperators.Group.Finset

/-!
# The teams in a system of rounds

What single sections and barriers guarantee inside a team, in every reachable state: one member at a
time receives broadcasts, nobody sends in a round before the team has all its broadcasts, and the
shared memory is what the received values make of it until it is released.
-/

namespace Rounds
open Interleaving

variable {σ τ S H V T M : Type} (p : Program σ τ S H V T M)

/-- The number of broadcasts before round `k`. -/
def before (k : Nat) : Nat := ∑ j ∈ Finset.range k, p.castCnt j

@[simp] theorem before_zero : before p 0 = 0 := rfl

theorem before_succ (k : Nat) : before p (k + 1) = before p k + p.castCnt k := Finset.sum_range_succ _ k

theorem before_mono {k l : Nat} (le : k ≤ l) : before p k ≤ before p l :=
  Finset.sum_le_sum_of_subset (Finset.range_mono le)

variable {p}

theorem update_cases {α β : Type} [DecidableEq α] (f : α → β) (a : α) (b : β) (x : α) :
    x = a ∧ Function.update f a b x = b ∨ x ≠ a ∧ Function.update f a b x = f x := by
  by_cases same : x = a
  · exact .inl ⟨same, by rw [same, Function.update_self]⟩
  · exact .inr ⟨same, Function.update_of_ne same _ _⟩

theorem stored_snoc (shared : H) (values : List V) (v : V) :
    stored p shared (values ++ [v]) = p.store v (stored p shared values) := by
  simp [stored]

/-- The invariant inside the teams. -/
structure TeamOk (p : Program σ τ S H V T M) (shared : H) (place : τ → Place M) (team : σ → Team H)
    (issued : List V) : Prop where
  inside : ∀ i, (place i).rank ≤ 4 * p.rounds
  reached : ∀ i k, 4 * k ≤ (place i).rank + 1 → before p k ≤ (team (p.home i)).received
  body : ∀ i k c, place i = .body k c →
    (team (p.home i)).received = before p k + c ∧ c ≤ p.castCnt k ∧ p.castCnt k ≠ 0
  claimed : ∀ i k, p.castCnt k ≠ 0 → 4 * k + 1 ≤ (place i).rank → (team (p.home i)).claimed k = true
  unclaimed : ∀ n k, p.castCnt k ≠ 0 → (team n).claimed k = false → (team n).received ≤ before p k
  ran : ∀ n k, (team n).claimed k = true →
    before p (k + 1) ≤ (team n).received ∨ ∃ i c, p.home i = n ∧ place i = .body k c
  once : ∀ i j k c l d, p.home i = p.home j → place i = .body k c → place j = .body l d → i = j
  barrier : ∀ i j k, p.home i = p.home j → p.castCnt k ≠ 0 → 4 * k + 3 ≤ (place i).rank →
    4 * k + 2 ≤ (place j).rank
  received : ∀ n, (team n).received ≤ issued.length
  memory : ∀ n, (team n).released = false →
    (team n).shared = stored p shared (issued.take (team n).received)
  freed : ∀ n, (team n).released = true →
    (team n).shared = p.release (stored p shared (issued.take (team n).received))
  released : ∀ n, (team n).released = true → ∀ i, p.home i = n → place i = .ready p.rounds

namespace TeamOk

variable {shared : H} {place : τ → Place M} {team : σ → Team H} {issued : List V}

theorem init (p : Program σ τ S H V T M) (shared : H) :
    TeamOk p shared (fun _ => .ready 0) (fun _ => { shared }) [] where
  inside := by simp
  reached := by
    intro i k le
    obtain rfl : k = 0 := by simp at le; omega
    simp
  body := by simp
  claimed := by simp
  unclaimed := by simp
  ran := by simp
  once := by simp
  barrier := by simp
  received := by simp
  memory := by simp [stored]
  freed := by simp
  released := by simp

theorem extend_keeps (ok : TeamOk p shared place team issued) (value : V) :
    TeamOk p shared place team (issued ++ [value]) where
  inside := ok.inside
  reached := ok.reached
  body := ok.body
  claimed := ok.claimed
  unclaimed := ok.unclaimed
  ran := ok.ran
  once := ok.once
  barrier := ok.barrier
  received n := by
    have := ok.received n
    simp
    omega
  memory := by
    intro n held
    rw [ok.memory n held, List.take_append_of_le_length (ok.received n)]
  freed := by
    intro n released
    rw [ok.freed n released, List.take_append_of_le_length (ok.received n)]
  released := ok.released

theorem held (ok : TeamOk p shared place team issued) {i : τ} (away : place i ≠ .ready p.rounds) :
    (team (p.home i)).released = false := by
  by_contra released
  exact away (ok.released _ (by simpa using released) i rfl)

theorem memory_after (ok : TeamOk p shared place team issued) {i : τ}
    (away : place i ≠ .ready p.rounds) {k : Nat}
    (received : (team (p.home i)).received = before p k) :
    (team (p.home i)).shared = stored p shared (issued.take (before p k)) := by
  rw [ok.memory _ (ok.held away), received]

variable [DecidableEq τ]

/-- A member walks on without touching the memory of its team. -/
theorem move_keeps (ok : TeamOk p shared place team issued) {i : τ} {next : Place M}
    (away : place i ≠ .ready p.rounds)
    (forward : (place i).rank ≤ next.rank) (inside : next.rank ≤ 4 * p.rounds)
    (reached : ∀ k, 4 * k ≤ next.rank + 1 → before p k ≤ (team (p.home i)).received)
    (noBody : ∀ k c, next ≠ .body k c)
    (claimed : ∀ k, p.castCnt k ≠ 0 → 4 * k + 1 ≤ next.rank → (team (p.home i)).claimed k = true)
    (ran : ∀ k c, place i = .body k c → before p (k + 1) ≤ (team (p.home i)).received)
    (barrier : ∀ j k, p.home j = p.home i → p.castCnt k ≠ 0 → 4 * k + 3 ≤ next.rank →
      4 * k + 2 ≤ (place j).rank) :
    TeamOk p shared (Function.update place i next) team issued := by
  have cases := update_cases place i next
  exact
    { inside := by
        intro j
        obtain ⟨rfl, at_⟩ | ⟨-, at_⟩ := cases j
        · rwa [at_]
        · rw [at_]
          exact ok.inside j
      reached := by
        intro j k
        obtain ⟨rfl, at_⟩ | ⟨-, at_⟩ := cases j
        · rw [at_]
          exact reached k
        · rw [at_]
          exact ok.reached j k
      body := by
        intro j k c
        obtain ⟨rfl, at_⟩ | ⟨-, at_⟩ := cases j
        · rw [at_]
          intro body
          exact absurd body (noBody k c)
        · rw [at_]
          exact ok.body j k c
      claimed := by
        intro j k
        obtain ⟨rfl, at_⟩ | ⟨-, at_⟩ := cases j
        · rw [at_]
          exact claimed k
        · rw [at_]
          exact ok.claimed j k
      unclaimed := ok.unclaimed
      ran := by
        intro n k taken
        obtain done | ⟨j, c, home, body⟩ := ok.ran n k taken
        · exact .inl done
        · obtain ⟨rfl, -⟩ | ⟨-, at_⟩ := cases j
          · exact .inl (home ▸ ran k c body)
          · exact .inr ⟨j, c, home, at_.trans body⟩
      once := by
        intro j l k c k' c' home
        obtain ⟨rfl, at_⟩ | ⟨-, at_⟩ := cases j
        · rw [at_]
          intro body
          exact absurd body (noBody k c)
        obtain ⟨rfl, at'⟩ | ⟨-, at'⟩ := cases l
        · rw [at']
          intro _ body
          exact absurd body (noBody k' c')
        · rw [at_, at']
          exact ok.once j l k c k' c' home
      barrier := by
        intro j l k home casts
        have behind : 4 * k + 3 ≤ (Function.update place i next j).rank →
            4 * k + 2 ≤ (place l).rank := by
          obtain ⟨rfl, at_⟩ | ⟨-, at_⟩ := cases j
          · rw [at_]
            exact barrier l k home.symm casts
          · rw [at_]
            exact ok.barrier j l k home casts
        intro past
        have := behind past
        obtain ⟨rfl, at_⟩ | ⟨-, at_⟩ := cases l <;> rw [at_] <;> omega
      received := ok.received
      memory := ok.memory
      freed := ok.freed
      released := by
        intro n released j home
        obtain ⟨rfl, -⟩ | ⟨-, at_⟩ := cases j
        · exact absurd (ok.released n released j home) away
        · exact at_.trans (ok.released n released j home) }

theorem begins_keeps (ok : TeamOk p shared place team issued) {i : τ} {k : Nat}
    (here : place i = .ready k)
    (inside : k < p.rounds) (none : p.castCnt k = 0) (messages : List M) :
    TeamOk p shared (Function.update place i (.sending k messages)) team issued := by
  have rank : (place i).rank = 4 * k := by rw [here, Place.rank_ready]
  refine ok.move_keeps (by rw [here]; simp; omega) (by simp [rank]) (by simp; omega) ?_ (by simp) ?_
    (by simp [here]) ?_
  · intro l le
    have first := ok.reached i k (by omega)
    have mono : before p l ≤ before p (k + 1) := before_mono p (by simp at le; omega)
    rw [before_succ, none] at mono
    omega
  · intro l casts le
    apply ok.claimed i l casts
    have other : l ≠ k := by
      rintro rfl
      exact casts none
    simp at le
    omega
  · intro j l home casts le
    apply ok.barrier i j l home.symm casts
    have other : l ≠ k := by
      rintro rfl
      exact casts none
    simp at le
    omega

theorem skip_keeps (ok : TeamOk p shared place team issued) {i : τ} {k : Nat} (here : place i = .ready k)
    (inside : k < p.rounds) (claimed : (team (p.home i)).claimed k = true) :
    TeamOk p shared (Function.update place i (.waiting k)) team issued := by
  have rank : (place i).rank = 4 * k := by rw [here, Place.rank_ready]
  refine ok.move_keeps (by rw [here]; simp; omega) (by simp [rank]) (by simp; omega) ?_ (by simp) ?_
    (by simp [here]) ?_
  · intro l le
    exact ok.reached i l (by simp at le; omega)
  · intro l casts le
    by_cases same : l = k
    · rwa [same]
    · exact ok.claimed i l casts (by simp at le; omega)
  · intro j l home casts le
    exact ok.barrier i j l home.symm casts (by simp at le; omega)

theorem endBody_keeps (ok : TeamOk p shared place team issued) {i : τ} {k : Nat}
    (here : place i = .body k (p.castCnt k)) :
    TeamOk p shared (Function.update place i (.waiting k)) team issued := by
  have rank : (place i).rank = 4 * k + 1 := by rw [here, Place.rank_body]
  have inside := ok.inside i
  refine ok.move_keeps (by simp [here]) (by simp [rank]) (by simp; omega) ?_ (by simp) ?_ ?_ ?_
  · intro l le
    exact ok.reached i l (by simp at le; omega)
  · intro l casts le
    exact ok.claimed i l casts (by simp at le; omega)
  · intro l c body
    obtain ⟨rfl, -⟩ := Place.body.inj (here.symm.trans body)
    rw [before_succ, (ok.body i k _ here).1]
  · intro j l home casts le
    exact ok.barrier i j l home.symm casts (by simp at le; omega)

omit [DecidableEq τ] in
/-- When everybody is at the barrier, all broadcasts of the round have been received. -/
theorem complete (ok : TeamOk p shared place team issued) {i : τ} {k : Nat} (here : place i = .waiting k)
    (arrived : ∀ j, p.home j = p.home i → 4 * k + 2 ≤ (place j).rank) :
    before p (k + 1) ≤ (team (p.home i)).received := by
  have rank : (place i).rank = 4 * k + 2 := by rw [here, Place.rank_waiting]
  by_cases casts : p.castCnt k = 0
  · rw [before_succ, casts]
    exact ok.reached i k (by omega)
  · obtain done | ⟨j, c, home, body⟩ := ok.ran _ k (ok.claimed i k casts (by omega))
    · exact done
    · have := arrived j home
      rw [body, Place.rank_body] at this
      omega

theorem pass_keeps (ok : TeamOk p shared place team issued) {i : τ} {k : Nat}
    (here : place i = .waiting k)
    (arrived : ∀ j, p.home j = p.home i → 4 * k + 2 ≤ (place j).rank) (messages : List M) :
    TeamOk p shared (Function.update place i (.sending k messages)) team issued := by
  have rank : (place i).rank = 4 * k + 2 := by rw [here, Place.rank_waiting]
  have inside := ok.inside i
  refine ok.move_keeps (by simp [here]) (by simp [rank]) (by simp; omega) ?_ (by simp) ?_
    (by simp [here]) ?_
  · intro l le
    exact (before_mono p (by simp at le; omega)).trans (ok.complete here arrived)
  · intro l casts le
    exact ok.claimed i l casts (by simp at le; omega)
  · intro j l home casts le
    have := arrived j home
    simp at le
    omega

theorem send_keeps (ok : TeamOk p shared place team issued) {i : τ} {k : Nat} {messages : List M}
    (here : place i = .sending k messages) (left : List M) :
    TeamOk p shared (Function.update place i (.sending k left)) team issued := by
  have rank : (place i).rank = 4 * k + 3 := by rw [here, Place.rank_sending]
  refine ok.move_keeps (by simp [here]) (by simp [rank]) (by simpa [rank] using ok.inside i) ?_
    (by simp) ?_
    (by simp [here]) ?_
  · intro l le
    exact ok.reached i l (by simp at le; omega)
  · intro l casts le
    exact ok.claimed i l casts (by simp at le; omega)
  · intro j l home casts le
    exact ok.barrier i j l home.symm casts (by simp at le; omega)

theorem endSend_keeps (ok : TeamOk p shared place team issued) {i : τ} {k : Nat} {messages : List M}
    (here : place i = .sending k messages) :
    TeamOk p shared (Function.update place i (.ready (k + 1))) team issued := by
  have rank : (place i).rank = 4 * k + 3 := by rw [here, Place.rank_sending]
  have inside := ok.inside i
  refine ok.move_keeps (by simp [here]) (by simp [rank]; omega) (by simp; omega) ?_ (by simp) ?_
    (by simp [here]) ?_
  · intro l le
    exact ok.reached i l (by simp at le; omega)
  · intro l casts le
    exact ok.claimed i l casts (by simp at le; omega)
  · intro j l home casts le
    exact ok.barrier i j l home.symm casts (by simp at le; omega)

/-! ### Steps that touch the memory of a team -/

variable [DecidableEq σ]

omit [DecidableEq τ] [DecidableEq σ] in
/-- No member of the team is in a single section. -/
theorem nobody (ok : TeamOk p shared place team issued) {i : τ} {k : Nat} (here : place i = .ready k)
    (casts : p.castCnt k ≠ 0) (first : (team (p.home i)).claimed k = false) {j : τ} {l c : Nat}
    (home : p.home j = p.home i) : place j ≠ .body l c := by
  intro body
  have rank : (place i).rank = 4 * k := by rw [here, Place.rank_ready]
  have other : (place j).rank = 4 * l + 1 := by rw [body, Place.rank_body]
  obtain less | more := Nat.lt_or_ge l k
  · -- member `i` has passed the barrier behind that section
    have := ok.barrier i j l home.symm (ok.body j l c body).2.2 (by omega)
    omega
  · have := ok.claimed j k casts (by omega)
    rw [home, first] at this
    exact Bool.false_ne_true this

theorem claim_keeps (ok : TeamOk p shared place team issued) {i : τ} {k : Nat}
    (here : place i = .ready k)
    (inside : k < p.rounds) (casts : p.castCnt k ≠ 0) (first : (team (p.home i)).claimed k = false) :
    TeamOk p shared (Function.update place i (.body k 0))
      (Function.update team (p.home i) ((team (p.home i)).claim k)) issued := by
  have rank : (place i).rank = 4 * k := by rw [here, Place.rank_ready]
  have away : place i ≠ .ready p.rounds := by rw [here]; simp; omega
  have same : (team (p.home i)).received = before p k :=
    Nat.le_antisymm (ok.unclaimed _ k casts first) (ok.reached i k (by omega))
  have received : ∀ n, (Function.update team (p.home i) ((team (p.home i)).claim k) n).received =
      (team n).received := fun n => by
    obtain ⟨rfl, now⟩ | ⟨-, now⟩ := update_cases team (p.home i) ((team (p.home i)).claim k) n <;>
      rw [now]
    rfl
  have memory : ∀ n, (Function.update team (p.home i) ((team (p.home i)).claim k) n).released =
      (team n).released ∧ (Function.update team (p.home i) ((team (p.home i)).claim k) n).shared =
      (team n).shared := fun n => by
    obtain ⟨rfl, now⟩ | ⟨-, now⟩ := update_cases team (p.home i) ((team (p.home i)).claim k) n <;>
      rw [now] <;> exact ⟨rfl, rfl⟩
  have claims : ∀ n l, (Function.update team (p.home i) ((team (p.home i)).claim k) n).claimed l = true ↔
      (team n).claimed l = true ∨ n = p.home i ∧ l = k := fun n l => by
    obtain ⟨rfl, now⟩ | ⟨other, now⟩ := update_cases team (p.home i) ((team (p.home i)).claim k) n
    · rw [now, Team.claim]
      by_cases here : l = k <;> simp [here]
    · rw [now]
      simp [other]
  have places := update_cases place i (.body k 0)
  exact
    { inside := by
        intro j
        obtain ⟨rfl, at_⟩ | ⟨-, at_⟩ := places j
        · rw [at_, Place.rank_body]
          omega
        · rw [at_]
          exact ok.inside j
      reached := by
        intro j l
        rw [received]
        obtain ⟨rfl, at_⟩ | ⟨-, at_⟩ := places j
        · rw [at_, Place.rank_body]
          intro le
          exact ok.reached j l (by omega)
        · rw [at_]
          exact ok.reached j l
      body := by
        intro j l c
        rw [received]
        obtain ⟨rfl, at_⟩ | ⟨-, at_⟩ := places j
        · rw [at_]
          rintro ⟨⟩
          exact ⟨same, Nat.zero_le _, casts⟩
        · rw [at_]
          exact ok.body j l c
      claimed := by
        intro j l casts'
        rw [claims]
        obtain ⟨rfl, at_⟩ | ⟨-, at_⟩ := places j
        · rw [at_, Place.rank_body]
          intro le
          by_cases this : l = k
          · exact .inr ⟨rfl, this⟩
          · exact .inl (ok.claimed j l casts' (by omega))
        · rw [at_]
          exact fun le => .inl (ok.claimed j l casts' le)
      unclaimed := by
        intro n l casts' free
        rw [received]
        apply ok.unclaimed n l casts'
        have := mt (claims n l).mpr (by simp [free])
        simp only [not_or] at this
        simpa using this.1
      ran := by
        intro n l taken
        rw [received]
        obtain old | ⟨rfl, rfl⟩ := (claims n l).mp taken
        · obtain done | ⟨j, c, home, body⟩ := ok.ran n l old
          · exact .inl done
          · obtain ⟨rfl, -⟩ | ⟨-, at_⟩ := places j
            · rw [here] at body
              cases body
            · exact .inr ⟨j, c, home, at_.trans body⟩
        · exact .inr ⟨i, 0, rfl, Function.update_self ..⟩
      once := by
        intro j l a c b d home
        obtain ⟨rfl, at_⟩ | ⟨-, at_⟩ := places j
        · obtain ⟨rfl, -⟩ | ⟨-, at'⟩ := places l
          · exact fun _ _ => rfl
          · rw [at']
            exact fun _ body => absurd body (ok.nobody here casts first home.symm)
        obtain ⟨rfl, -⟩ | ⟨-, at'⟩ := places l
        · rw [at_]
          exact fun body => absurd body (ok.nobody here casts first home)
        · rw [at_, at']
          exact ok.once j l a c b d home
      barrier := by
        intro j l a home casts'
        have behind : 4 * a + 3 ≤ (Function.update place i (.body k 0) j).rank →
            4 * a + 3 ≤ (place j).rank := by
          obtain ⟨rfl, at_⟩ | ⟨-, at_⟩ := places j
          · rw [at_, Place.rank_body]
            omega
          · rw [at_]
            exact id
        intro past
        have := ok.barrier j l a home casts' (behind past)
        obtain ⟨rfl, at_⟩ | ⟨-, at_⟩ := places l
        · rw [at_, Place.rank_body]
          omega
        · rwa [at_]
      received := by
        intro n
        rw [received]
        exact ok.received n
      memory := by
        intro n
        rw [(memory n).1, (memory n).2, received]
        exact ok.memory n
      freed := by
        intro n
        rw [(memory n).1, (memory n).2, received]
        exact ok.freed n
      released := by
        intro n released j home
        rw [(memory n).1] at released
        obtain ⟨rfl, -⟩ | ⟨-, at_⟩ := places j
        · exact absurd (ok.released n released j home) away
        · exact at_.trans (ok.released n released j home) }

theorem bcast_keeps (ok : TeamOk p shared place team issued) {i : τ} {k c : Nat} {value : V}
    (here : place i = .body k c)
    (more : c < p.castCnt k) (value_eq : issued[(team (p.home i)).received]? = some value) :
    TeamOk p shared (Function.update place i (.body k (c + 1)))
      (Function.update team (p.home i)
        ((team (p.home i)).receive (p.store value (team (p.home i)).shared))) issued := by
  have rank : (place i).rank = 4 * k + 1 := by rw [here, Place.rank_body]
  obtain ⟨same, -, casts⟩ := ok.body i k c here
  have away : place i ≠ .ready p.rounds := by simp [here]
  have held := ok.held away
  have teams := update_cases team (p.home i)
    ((team (p.home i)).receive (p.store value (team (p.home i)).shared))
  have grows : ∀ n, (team n).received ≤ (Function.update team (p.home i)
      ((team (p.home i)).receive (p.store value (team (p.home i)).shared)) n).received := fun n => by
    obtain ⟨rfl, now⟩ | ⟨-, now⟩ := teams n <;> rw [now]
    exact Nat.le_succ _
  have claims : ∀ n, (Function.update team (p.home i)
      ((team (p.home i)).receive (p.store value (team (p.home i)).shared)) n).claimed =
        (team n).claimed := fun n => by
    obtain ⟨rfl, now⟩ | ⟨-, now⟩ := teams n <;> rw [now]
    rfl
  have places := update_cases place i (.body k (c + 1))
  have ranks : ∀ j, (Function.update place i (.body k (c + 1)) j).rank = (place j).rank := fun j => by
    obtain ⟨rfl, at_⟩ | ⟨-, at_⟩ := places j <;> rw [at_]
    rw [rank, Place.rank_body]
  exact
    { inside := by
        intro j
        rw [ranks]
        exact ok.inside j
      reached := by
        intro j l le
        rw [ranks] at le
        exact (ok.reached j l le).trans (grows _)
      body := by
        intro j l d
        obtain ⟨rfl, at_⟩ | ⟨other, at_⟩ := places j
        · rw [at_, Function.update_self, Team.receive]
          rintro ⟨⟩
          exact ⟨by dsimp only; omega, more, casts⟩
        · rw [at_]
          intro body
          have away : p.home j ≠ p.home i := fun home => other (ok.once j i l d k c home body here)
          rw [Function.update_of_ne away]
          exact ok.body j l d body
      claimed := by
        intro j l casts'
        rw [ranks, claims]
        exact ok.claimed j l casts'
      unclaimed := by
        intro n l casts' free
        rw [claims] at free
        obtain ⟨rfl, now⟩ | ⟨-, now⟩ := teams n
        · have later : k < l := by
            by_contra le
            rw [ok.claimed i l casts' (by omega)] at free
            cases free
          have mono : before p (k + 1) ≤ before p l := before_mono p later
          rw [before_succ] at mono
          rw [now, Team.receive]
          dsimp only
          omega
        · rw [now]
          exact ok.unclaimed n l casts' free
      ran := by
        intro n l taken
        rw [claims] at taken
        obtain done | ⟨j, d, home, body⟩ := ok.ran n l taken
        · exact .inl (done.trans (grows n))
        · obtain ⟨rfl, at_⟩ | ⟨-, at_⟩ := places j
          · obtain ⟨rfl, -⟩ := Place.body.inj (here.symm.trans body)
            exact .inr ⟨j, c + 1, home, at_⟩
          · exact .inr ⟨j, d, home, at_.trans body⟩
      once := by
        have bodies : ∀ j l d, Function.update place i (.body k (c + 1)) j = .body l d →
            ∃ e, place j = .body l e := by
          intro j l d
          obtain ⟨rfl, at_⟩ | ⟨-, at_⟩ := places j <;> rw [at_]
          · rintro ⟨⟩
            exact ⟨c, here⟩
          · exact fun body => ⟨d, body⟩
        intro j l a d b e home first second
        obtain ⟨d', first⟩ := bodies j a d first
        obtain ⟨e', second⟩ := bodies l b e second
        exact ok.once j l a d' b e' home first second
      barrier := by
        intro j l a
        rw [ranks, ranks]
        exact ok.barrier j l a
      received := by
        intro n
        obtain ⟨rfl, now⟩ | ⟨-, now⟩ := teams n <;> rw [now]
        · exact (List.getElem?_eq_some_iff.mp value_eq).1
        · exact ok.received n
      memory := by
        intro n
        obtain ⟨rfl, now⟩ | ⟨-, now⟩ := teams n <;> rw [now]
        · intro _
          rw [Team.receive]
          dsimp only
          rw [ok.memory _ held, List.take_add_one, value_eq, Option.toList_some, stored_snoc]
        · exact ok.memory n
      freed := by
        intro n
        obtain ⟨rfl, now⟩ | ⟨-, now⟩ := teams n <;> rw [now]
        · intro released
          exact absurd (held.symm.trans released) Bool.false_ne_true
        · exact ok.freed n
      released := by
        intro n released j home
        have old : (team n).released = true := by
          obtain ⟨rfl, now⟩ | ⟨-, now⟩ := teams n <;> rw [now] at released <;> exact released
        obtain ⟨rfl, -⟩ | ⟨-, at_⟩ := places j
        · exact absurd (ok.released n old j home) away
        · exact at_.trans (ok.released n old j home) }

omit [DecidableEq τ] in
theorem release_keeps (ok : TeamOk p shared place team issued) {n : σ}
    (arrived : ∀ i, p.home i = n → place i = .ready p.rounds) (held : (team n).released = false) :
    TeamOk p shared place (Function.update team n ((team n).free (p.release (team n).shared)))
      issued := by
  have teams := update_cases team n ((team n).free (p.release (team n).shared))
  have received : ∀ m, (Function.update team n ((team n).free (p.release (team n).shared)) m).received =
      (team m).received := fun m => by
    obtain ⟨rfl, now⟩ | ⟨-, now⟩ := teams m <;> rw [now]
    rfl
  have claims : ∀ m, (Function.update team n ((team n).free (p.release (team n).shared)) m).claimed =
      (team m).claimed := fun m => by
    obtain ⟨rfl, now⟩ | ⟨-, now⟩ := teams m <;> rw [now]
    rfl
  refine ⟨ok.inside, ?_, ?_, ?_, ?_, ?_, ok.once, ok.barrier, ?_, ?_, ?_, ?_⟩
  · simpa only [received] using ok.reached
  · simpa only [received] using ok.body
  · simpa only [claims] using ok.claimed
  · simpa only [received, claims] using ok.unclaimed
  · simpa only [received, claims] using ok.ran
  · simpa only [received] using ok.received
  · intro m
    obtain ⟨rfl, now⟩ | ⟨-, now⟩ := teams m <;> rw [now]
    · intro held
      cases held
    · exact ok.memory m
  · intro m
    obtain ⟨rfl, now⟩ | ⟨-, now⟩ := teams m <;> rw [now]
    · intro _
      rw [Team.free]
      dsimp only
      rw [ok.memory _ held]
    · exact ok.freed m
  · intro m
    obtain ⟨rfl, now⟩ | ⟨-, now⟩ := teams m <;> rw [now]
    · exact fun _ => arrived
    · exact ok.released m

end TeamOk

/-- Every step keeps the invariant of the teams. -/
theorem Step.teamOk [DecidableEq σ] [DecidableEq τ] {shared : H} {s t : State σ τ S H V T M}
    (step : Step p s t)
    (ok : TeamOk p shared s.place s.team s.issued) : TeamOk p shared t.place t.team t.issued := by
  cases step with
  | begins i k here inside none => exact ok.begins_keeps here inside none _
  | claim i k here inside casts first => exact ok.claim_keeps here inside casts first
  | skip i k here inside casts claimed => exact ok.skip_keeps here inside claimed
  | bcast i k c value here more issued returns => exact ok.bcast_keeps here more issued
  | endBody i k here => exact ok.endBody_keeps here
  | pass i k here arrived => exact ok.pass_keeps here arrived _
  | send i k message left here free => exact ok.send_keeps here left
  | endSend i k here free => exact ok.endSend_keeps here
  | release n arrived held => exact ok.release_keeps arrived held
  | cast c here inside more => exact ok.extend_keeps _
  | castReturns | listen | recv | endRound => exact ok

theorem Step.finished [DecidableEq σ] [DecidableEq τ] {s t : State σ τ S H V T M} (step : Step p s t)
    (finished : s.Finished p) : t.Finished p := by
  obtain ⟨round, released⟩ := finished
  have kept : ∀ (n : σ) (team : Team H), team.released = true →
      ∀ m, (Function.update s.team n team m).released = true := by
    intro n team own m
    obtain ⟨rfl, now⟩ | ⟨-, now⟩ := update_cases s.team n team m <;> rw [now]
    · exact own
    · exact released m
  cases step with
  | claim i k here inside casts first => exact ⟨round, kept _ _ (released _)⟩
  | bcast i k c value here more issued returns => exact ⟨round, kept _ _ (released _)⟩
  | release n arrived held => exact ⟨round, kept _ _ rfl⟩
  | endRound here inside done => exact absurd round (Nat.ne_of_lt inside)
  | _ => exact ⟨round, released⟩

end Rounds
