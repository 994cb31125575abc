import Fdistdump.Library.RoundsTeams

/-!
# The messages in a system of rounds

In every reachable state the root has finished some rounds, each as if it had been run on its own,
and is in the middle of the next one: what a member of that round has sent is either collected or in
its channel, and no message of another round is about.
-/

namespace Rounds
open Interleaving

variable {σ τ S H V T M : Type} {p : Program σ τ S H V T M}

theorem casts_length (k : Nat) (data : S) : (casts p k data).length = p.castCnt k := by simp [casts]

theorem take_casts_succ {k c : Nat} (more : c < p.castCnt k) (data : S) :
    (casts p k data).take (c + 1) = (casts p k data).take c ++ [p.cast k c data] := by
  simp [casts, List.take_add_one, more]

theorem gather_snoc (k : Nat) (data : S) (trace : List (τ × M)) (i : τ) (message : M) :
    gather p k data (trace ++ [(i, message)]) = p.collect (gather p k data trace) message := by
  simp [gather]

/-! ### One member -/

/-- How far the messages of a member have come in round `k`, in which it has `full` to send. -/
structure Sent (p : Program σ τ S H V T M) (k : Nat) (full : List M) (place : Place M)
    (channel : List (T × M)) (collected : List M) : Prop where
  late : 4 * k ≤ place.rank + 1
  tags : ∀ entry ∈ channel, entry.1 = p.tag k
  none : place.rank < 4 * k + 3 → channel = [] ∧ collected = [] ∧ place.left = []
  sent : 4 * k + 3 ≤ place.rank → collected ++ channel.map Prod.snd ++ place.left = full

namespace Sent

variable {k : Nat} {full : List M} {place next : Place M} {channel : List (T × M)} {collected : List M}

theorem idle (late : 4 * k ≤ place.rank + 1) (early : place.rank < 4 * k + 3) (left : place.left = []) :
    Sent p k full place [] [] where
  late := late
  tags := by simp
  none := fun _ => ⟨rfl, rfl, left⟩
  sent := by omega

/-- A step that neither begins nor ends to send. -/
theorem walk (ok : Sent p k full place channel collected) (forward : place.rank ≤ next.rank)
    (left : next.left = place.left) (same : 4 * k + 3 ≤ next.rank → 4 * k + 3 ≤ place.rank) :
    Sent p k full next channel collected where
  late := ok.late.trans (by omega)
  tags := ok.tags
  none := by
    intro early
    rw [left]
    exact ok.none (by omega)
  sent := by
    intro begun
    rw [left]
    exact ok.sent (same begun)

theorem begins (ok : Sent p k full place channel collected) (early : place.rank < 4 * k + 3) :
    Sent p k full (.sending k full) channel collected where
  late := by simp; omega
  tags := ok.tags
  none := by simp
  sent := by
    obtain ⟨rfl, rfl, -⟩ := ok.none early
    simp

theorem send {message : M} {left : List M}
    (ok : Sent p k full (.sending k (message :: left)) channel collected) :
    Sent p k full (.sending k left) (channel ++ [(p.tag k, message)]) collected where
  late := by simp; omega
  tags := by
    intro entry member
    obtain old | new := List.mem_append.mp member
    · exact ok.tags entry old
    · rw [List.mem_singleton.mp new]
  none := by simp
  sent := by
    intro _
    have whole := ok.sent (by simp)
    simpa using whole

theorem recv {message : M} {back : List (T × M)}
    (ok : Sent p k full place ((p.tag k, message) :: back) collected) :
    Sent p k full place back (collected ++ [message]) where
  late := ok.late
  tags := fun entry member => ok.tags entry (List.mem_cons_of_mem _ member)
  none := by
    intro early
    cases (ok.none early).1
  sent := by
    intro begun
    have whole := ok.sent begun
    simpa using whole

/-- The next round can begin for a member of which everything has been collected. -/
theorem next_round (ok : Sent p k full place channel collected) (all : collected = full)
    (some : full ≠ [])
    (early : place.rank < 4 * k + 7) (full' : List M) : Sent p (k + 1) full' place channel [] := by
  have begun : 4 * k + 3 ≤ place.rank := by
    by_contra late
    obtain ⟨-, rfl, -⟩ := ok.none (by omega)
    exact some all.symm
  have whole := ok.sent begun
  rw [all, List.append_assoc] at whole
  obtain ⟨empty, left⟩ := List.append_eq_nil_iff.mp (List.append_right_eq_self.mp whole)
  obtain rfl := List.map_eq_nil_iff.mp empty
  exact .idle (by omega) (by omega) left

end Sent

/-! ### The whole system -/

variable [DecidableEq τ]

theorem Phased.length {data₀ : S} {shared : H} {k : Nat} {data : S} {issued : List V}
    (phased : Phased p data₀ shared k data issued) : issued.length = before p k := by
  induction phased with
  | start => rfl
  | round _ _ ih => rw [List.length_append, casts_length, before_succ, ih]

/-- The broadcasts of the round that the root has issued. -/
def Phase.issuedIn (p : Program σ τ S H V T M) (k : Nat) : Phase → Nat
  | .casting c => c
  | .casted c => c
  | .collecting => p.castCnt k

/-- The root's state in its round, from the state it began with and what it has collected. -/
def RootOk (p : Program σ τ S H V T M) (k : Nat) (begun data : S) (trace : List (τ × M)) : Phase → Prop
  | .collecting => data = gather p k begun trace
  | _ => data = begun ∧ trace = []

/-- The invariant of the whole system. -/
structure Flow (p : Program σ τ S H V T M) (data₀ : S) (shared : H) (s : State σ τ S H V T M) (begun : S)
    (earlier : List V) (trace : List (τ × M)) : Prop where
  team : TeamOk p shared s.place s.team s.issued
  round_le : s.round ≤ p.rounds
  phased : Phased p data₀ shared s.round begun earlier
  issuedIn : s.phase.issuedIn p s.round ≤ p.castCnt s.round
  issued : s.issued = earlier ++ (casts p s.round begun).take (s.phase.issuedIn p s.round)
  root : RootOk p s.round begun s.data trace s.phase
  last : s.round = p.rounds → s.phase = .casting 0
  sent : ∀ i, Sent p s.round (p.out s.round i (stored p shared (earlier ++ casts p s.round begun)))
    (s.place i)
    (s.channel i) (fromSource trace i)

namespace Flow

variable {data₀ : S} {shared : H} {s : State σ τ S H V T M} {begun : S} {earlier : List V}
  {trace : List (τ × M)}

theorem init (p : Program σ τ S H V T M) (data₀ : S) (shared : H) :
    Flow p data₀ shared (.init data₀ shared) data₀ [] [] where
  team := .init p shared
  round_le := Nat.zero_le _
  phased := .start
  issuedIn := Nat.zero_le _
  issued := by simp [State.init, Phase.issuedIn]
  root := ⟨rfl, rfl⟩
  last := fun _ => rfl
  sent := fun _ => .idle (by simp [State.init]) (by simp [State.init]) rfl

section
variable (flow : Flow p data₀ shared s begun earlier trace)
include flow

theorem issued_length : s.issued.length = before p s.round + s.phase.issuedIn p s.round := by
  have := flow.issuedIn
  rw [flow.issued, List.length_append, flow.phased.length, List.length_take, casts_length]
  omega

theorem issued_le : s.issued.length ≤ before p (s.round + 1) := by
  have := flow.issuedIn
  rw [flow.issued_length, before_succ]
  omega

/-- A team that has all broadcasts of the round: the root has issued them all. -/
theorem issued_all {n : σ} (received : before p (s.round + 1) ≤ (s.team n).received) :
    s.issued = earlier ++ casts p s.round begun ∧ (s.team n).received = before p (s.round + 1) := by
  have le := flow.team.received n
  have all := flow.issuedIn
  rw [flow.issued_length] at le
  rw [before_succ] at received
  refine ⟨?_, by rw [before_succ]; omega⟩
  rw [flow.issued, List.take_of_length_le (by rw [casts_length]; omega)]

/-- Nobody sends in a round that the root has not reached. -/
theorem early (aligned : Aligned p) (i : τ) : (s.place i).rank < 4 * s.round + 7 := by
  by_contra late
  have inside := flow.team.inside i
  have reached := flow.team.reached i (s.round + 2) (by omega)
  have le := (flow.team.received (p.home i)).trans flow.issued_le
  have casts := aligned.casts (s.round + 1) (by omega) (by omega)
  rw [before_succ] at reached
  omega

/-- What a member computes from the memory of its team is what the round says. -/
theorem out_eq {i : τ} (away : s.place i ≠ .ready p.rounds)
    (received : before p (s.round + 1) ≤ (s.team (p.home i)).received) :
    p.out s.round i (s.team (p.home i)).shared =
      p.out s.round i (stored p shared (earlier ++ casts p s.round begun)) := by
  obtain ⟨issued, same⟩ := flow.issued_all received
  rw [flow.team.memory _ (flow.team.held away), same, issued, List.take_of_length_le]
  rw [List.length_append, flow.phased.length, casts_length, before_succ]

end

/-- A step in which one member walks on. -/
theorem moved (flow : Flow p data₀ shared s begun earlier trace) {i : τ} {next : Place M}
    {channel : List (T × M)}
    {team : σ → Team H} (ok : TeamOk p shared (Function.update s.place i next) team s.issued)
    (sent : Sent p s.round (p.out s.round i (stored p shared (earlier ++ casts p s.round begun)))
      next channel
      (fromSource trace i)) :
    Flow p data₀ shared
      { s with
        place := Function.update s.place i next, team, channel :=
          Function.update s.channel i channel }
      begun earlier trace where
  team := ok
  round_le := flow.round_le
  phased := flow.phased
  issuedIn := flow.issuedIn
  issued := flow.issued
  root := flow.root
  last := flow.last
  sent := by
    intro j
    by_cases same : j = i
    · subst same
      simpa using sent
    · simpa [same] using flow.sent j

theorem walked (flow : Flow p data₀ shared s begun earlier trace) {i : τ} {next : Place M}
    {team : σ → Team H} (ok : TeamOk p shared (Function.update s.place i next) team s.issued)
    (sent : Sent p s.round (p.out s.round i (stored p shared (earlier ++ casts p s.round begun)))
      next (s.channel i)
      (fromSource trace i)) :
    Flow p data₀ shared { s with place := Function.update s.place i next, team } begun earlier
      trace := by
  have moved := flow.moved ok sent
  rwa [Function.update_eq_self] at moved

/-- A member begins to send: its round is the one of the root, and it sends what the round says. -/
theorem sends (flow : Flow p data₀ shared s begun earlier trace) (aligned : Aligned p) {i : τ} {k : Nat}
    (here : 4 * k ≤ (s.place i).rank) (early : (s.place i).rank < 4 * k + 3)
    (received : before p (k + 1) ≤ (s.team (p.home i)).received) (inside : k < p.rounds)
    (ok : TeamOk p shared
      (Function.update s.place i (.sending k (p.out k i (s.team (p.home i)).shared))) s.team
      s.issued) :
    Flow p data₀ shared (s.move i (.sending k (p.out k i (s.team (p.home i)).shared))) begun earlier
      trace := by
  have away : s.place i ≠ .ready p.rounds := by
    intro last
    rw [last, Place.rank_ready] at early
    omega
  obtain rfl : k = s.round := by
    have late := (flow.sent i).late
    have bound := flow.early aligned i
    have le := (flow.team.received (p.home i)).trans flow.issued_le
    by_contra other
    obtain rfl : k = s.round + 1 := by omega
    have casts := aligned.casts (s.round + 1) (by omega) inside
    rw [before_succ p (s.round + 1)] at received
    omega
  apply flow.walked ok
  rw [flow.out_eq away received]
  exact (flow.sent i).begins early

/-- A member walks on, neither beginning nor ending to send. -/
theorem walks (flow : Flow p data₀ shared s begun earlier trace) {i : τ} {next : Place M}
    {team : σ → Team H}
    (ok : TeamOk p shared (Function.update s.place i next) team s.issued) {k : Nat}
    (here : 4 * k ≤ (s.place i).rank) (forward : (s.place i).rank ≤ next.rank)
    (early : next.rank < 4 * k + 3) (left : next.left = (s.place i).left) :
    Flow p data₀ shared { s with place := Function.update s.place i next, team } begun earlier trace :=
  flow.walked ok ((flow.sent i).walk forward left (by omega))

theorem send (flow : Flow p data₀ shared s begun earlier trace) (aligned : Aligned p) {i : τ} {k : Nat}
    {message : M} {left : List M} (here : s.place i = .sending k (message :: left)) :
    Flow p data₀ shared ((s.move i (.sending k left)).queue i (s.channel i ++ [(p.tag k, message)]))
      begun earlier
      trace := by
  have ok := flow.sent i
  rw [here] at ok
  have bound := flow.early aligned i
  rw [here, Place.rank_sending] at bound
  have late := ok.late
  rw [Place.rank_sending] at late
  obtain rfl : k = s.round := by
    by_contra other
    have := (ok.none (by rw [Place.rank_sending]; omega)).2.2
    cases this
  exact flow.moved (flow.team.send_keeps here left) ok.send

theorem release (flow : Flow p data₀ shared s begun earlier trace) [DecidableEq σ] {n : σ}
    {team : Team H} (ok : TeamOk p shared s.place (Function.update s.team n team) s.issued) :
    Flow p data₀ shared (s.onTeam n team) begun earlier trace where
  team := ok
  round_le := flow.round_le
  phased := flow.phased
  issuedIn := flow.issuedIn
  issued := flow.issued
  root := flow.root
  last := flow.last
  sent := flow.sent

/-! ### Steps of the root -/

theorem cast (flow : Flow p data₀ shared s begun earlier trace) {c : Nat} (here : s.phase = .casting c)
    (inside : s.round < p.rounds) (more : c < p.castCnt s.round) :
    Flow p data₀ shared
    { s with phase := .casted (c + 1), issued := s.issued ++ [p.cast s.round c s.data] } begun
      earlier trace := by
  have root := flow.root
  have issued := flow.issued
  rw [here] at root issued
  refine ⟨flow.team.extend_keeps _, flow.round_le, flow.phased, more, ?_, root, ?_, flow.sent⟩
  · rw [issued, root.1, Phase.issuedIn, Phase.issuedIn, take_casts_succ more, List.append_assoc]
  · intro done
    dsimp only at done
    omega

theorem castReturns (flow : Flow p data₀ shared s begun earlier trace) {c : Nat}
    (here : s.phase = .casted c) :
    Flow p data₀ shared { s with phase := .casting c } begun earlier trace := by
  have root := flow.root
  have issued := flow.issued
  have issuedIn := flow.issuedIn
  have last := flow.last
  rw [here] at root issued issuedIn last
  exact ⟨flow.team, flow.round_le, flow.phased, issuedIn, issued, root, fun done =>
    (nomatch last done), flow.sent⟩

theorem listen (flow : Flow p data₀ shared s begun earlier trace)
    (here : s.phase = .casting (p.castCnt s.round)) (inside : s.round < p.rounds) :
    Flow p data₀ shared { s with phase := .collecting, data := p.start s.round s.data } begun
      earlier trace := by
  have root := flow.root
  have issued := flow.issued
  rw [here] at root issued
  refine ⟨flow.team, flow.round_le, flow.phased, Nat.le_refl _, issued, ?_, ?_, flow.sent⟩
  · obtain ⟨data, rfl⟩ := root
    rw [RootOk, data]
    rfl
  · intro done
    dsimp only at done
    omega

theorem recv (flow : Flow p data₀ shared s begun earlier trace) (here : s.phase = .collecting) {i : τ}
    {front : List (T × M)} {message : M} {back : List (T × M)}
    (queued : s.channel i = front ++ (p.tag s.round, message) :: back)
    (first : ∀ entry ∈ front, entry.1 ≠ p.tag s.round) :
    Flow p data₀ shared { s.queue i (front ++ back) with data := p.collect s.data message } begun earlier
      (trace ++ [(i, message)]) := by
  have root := flow.root
  rw [here] at root
  have tags := (flow.sent i).tags
  -- no message of another round waits before it
  obtain rfl : front = [] := by
    apply List.eq_nil_iff_forall_not_mem.mpr
    intro entry member
    exact first entry member (tags entry (by rw [queued]; simp [member]))
  refine ⟨flow.team, flow.round_le, flow.phased, flow.issuedIn, flow.issued, ?_, flow.last, ?_⟩
  · dsimp only [State.queue]
    rw [here, RootOk, gather_snoc, root]
  · intro j
    dsimp only [State.queue]
    rw [fromSource_append, fromSource_cons]
    by_cases same : i = j
    · subst same
      have ok := flow.sent i
      rw [queued] at ok
      simpa using ok.recv
    · rw [Function.update_of_ne (Ne.symm same), if_neg same]
      simpa using flow.sent j

theorem rest [Fintype τ] (flow : Flow p data₀ shared s begun earlier trace) :
    ∃ back,
      Interleaves (fun i => p.out s.round i (stored p shared (earlier ++ casts p s.round begun)))
        (trace ++ back) ∧
      (back = [] ↔ ∀ i, fromSource trace i = p.out s.round i
        (stored p shared (earlier ++ casts p s.round begun))) := by
  have tails : ∀ i, ∃ tail, fromSource trace i ++ tail =
      p.out s.round i (stored p shared (earlier ++ casts p s.round begun)) := fun i => by
    obtain early | begun := Nat.lt_or_ge (s.place i).rank (4 * s.round + 3)
    · exact ⟨_, by rw [((flow.sent i).none early).2.1, List.nil_append]⟩
    · exact ⟨_, by rw [← (flow.sent i).sent begun, List.append_assoc]⟩
  choose tail whole using tails
  obtain ⟨back, merges⟩ := exists_interleaves tail
  refine ⟨back, fun i => by rw [fromSource_append, merges i, whole i], ?_, ?_⟩
  · rintro rfl i
    rw [← whole i, ← merges i, fromSource_nil, List.append_nil]
  · intro all
    have none : ∀ i, fromSource back i = [] := fun i => by
      rw [merges i]
      have := whole i
      rw [all i] at this
      exact List.append_right_eq_self.mp this
    cases back with
    | nil => rfl
    | cons entry rest =>
      have head := none entry.1
      rw [fromSource_cons, if_pos rfl] at head
      cases head

/-- The root goes on collecting exactly while something has not been collected. -/
theorem active_iff [Fintype τ] (flow : Flow p data₀ shared s begun earlier trace) (aligned : Aligned p)
    (here : s.phase = .collecting) :
    p.active s.data = false ↔
      ∀ i, fromSource trace i =
        p.out s.round i (stored p shared (earlier ++ casts p s.round begun)) := by
  have root := flow.root
  rw [here] at root
  obtain ⟨back, merges, all⟩ := flow.rest
  have drains := aligned.drains s.round begun _ trace back merges
  rw [← all, root]
  simpa using not_congr drains

theorem endRound [Fintype τ] (flow : Flow p data₀ shared s begun earlier trace) (aligned : Aligned p)
    (here : s.phase = .collecting) (inside : s.round < p.rounds) (done : p.active s.data = false) :
    Flow p data₀ shared { s with phase := .casting 0, round := s.round + 1 } s.data
      (earlier ++ casts p s.round begun) [] := by
  have root := flow.root
  have issued := flow.issued
  rw [here] at root issued
  have all := (flow.active_iff aligned here).mp done
  refine ⟨flow.team, inside, ?_, Nat.zero_le _, ?_, ⟨rfl, rfl⟩, fun _ => rfl, ?_⟩
  · rw [root]
    exact .round flow.phased all
  · rw [Phase.issuedIn] at issued
    rw [Phase.issuedIn, List.take_zero, List.append_nil, issued,
      List.take_of_length_le (by rw [casts_length])]
  · intro i
    exact (flow.sent i).next_round (all i) (aligned.sends _ _ _) (flow.early aligned i) _

end Flow

/-- Every step keeps the invariant of the system. -/
theorem Step.flow [DecidableEq σ] [Fintype τ] (aligned : Aligned p) {data₀ : S} {shared : H}
    {s t : State σ τ S H V T M} {begun : S} {earlier : List V} {trace : List (τ × M)} (step : Step p s t)
    (flow : Flow p data₀ shared s begun earlier trace) :
    ∃ begun earlier trace, Flow p data₀ shared t begun earlier trace := by
  have team := step.teamOk flow.team
  cases step with
  | begins i k here inside none =>
    have received := flow.team.reached i k (by simp [here])
    refine ⟨_, _, _, flow.sends aligned (by simp [here]) (by simp [here]) ?_ inside team⟩
    rwa [before_succ, none]
  | claim i k here inside casts first =>
    exact ⟨_, _, _, flow.walks team (k := k) (by simp [here]) (by simp [here]) (by simp)
      (by simp [here])⟩
  | skip i k here inside casts claimed =>
    exact ⟨_, _, _, flow.walks team (k := k) (by simp [here]) (by simp [here]) (by simp)
      (by simp [here])⟩
  | bcast i k c value here more issued returns =>
    exact ⟨_, _, _, flow.walks team (k := k) (by simp [here]) (by simp [here]) (by simp)
      (by simp [here])⟩
  | endBody i k here =>
    exact ⟨_, _, _, flow.walks team (k := k) (by simp [here]) (by simp [here]) (by simp)
      (by simp [here])⟩
  | pass i k here arrived =>
    have inside := flow.team.inside i
    rw [here, Place.rank_waiting] at inside
    exact ⟨_, _, _, flow.sends aligned (by simp [here]) (by simp [here])
      (flow.team.complete here arrived)
      (by omega) team⟩
  | send i k message left here free => exact ⟨_, _, _, flow.send aligned here⟩
  | endSend i k here free =>
    have ok := flow.sent i
    have early := flow.early aligned i
    refine ⟨_, _, _, flow.walked team (ok.walk (by simp [here]; omega) (by simp [here]) ?_)⟩
    have late := ok.late
    simp only [here, Place.rank_sending, Place.rank_ready] at late early ⊢
    omega
  | release n arrived held => exact ⟨_, _, _, flow.release team⟩
  | cast c here inside more => exact ⟨_, _, _, flow.cast here inside more⟩
  | castReturns c here returns => exact ⟨_, _, _, flow.castReturns here⟩
  | listen here inside => exact ⟨_, _, _, flow.listen here inside⟩
  | recv i front message back here active queued first => exact ⟨_, _, _, flow.recv here queued first⟩
  | endRound here inside done => exact ⟨_, _, _, flow.endRound aligned here inside done⟩

end Rounds
