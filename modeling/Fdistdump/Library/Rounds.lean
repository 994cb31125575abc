import Fdistdump.Library.Interleaving
import Fdistdump.Library.Transition

/-!
# Rounds of a root and teams of members

A root and several teams run through the same rounds. In a round the root broadcasts some values,
which one member of every team stores into the memory the team shares while the others wait at a
barrier; then every member sends messages to the root, which collects them from any member until it
has all. At the end each team waits for its members and releases the shared memory.

Broadcasts and sends may or may not return before they are matched: the network decides.
-/

namespace Rounds
open Interleaving

/-- What the root and the members do in each round, and what the network promises. -/
structure Program (σ τ S H V T M : Type) where
  rounds : Nat
  home : τ → σ
  castCnt : Nat → Nat
  tag : Nat → T
  cast : Nat → Nat → S → V
  start : Nat → S → S
  active : S → Bool
  collect : S → M → S
  store : V → H → H
  out : Nat → τ → H → List M
  release : H → H
  /-- Whether a send returns although messages of these members have not been received. -/
  sendBuffers : (τ → List (T × M)) → Prop
  /-- Whether a broadcast returns although some team has not entered it. -/
  castBuffers : Prop

/-- Where a member is: before round `k`, in the body of its single section after `c` broadcasts, at
the barrier behind it, or sending. -/
inductive Place (M : Type)
  | ready (k : Nat)
  | body (k c : Nat)
  | waiting (k : Nat)
  | sending (k : Nat) (left : List M)

/-- A team: which single sections have been claimed, the number of broadcasts received, and the
shared memory. -/
structure Team (H : Type) where
  claimed : Nat → Bool := fun _ => false
  received : Nat := 0
  shared : H
  released : Bool := false

/-- The root in a round: `casting c` after `c` broadcasts, `casted c` in the `c`-th of them. -/
inductive Phase
  | casting (c : Nat)
  | casted (c : Nat)
  | collecting
deriving DecidableEq

structure State (σ τ S H V T M : Type) where
  place : τ → Place M
  team : σ → Team H
  channel : τ → List (T × M)
  round : Nat
  phase : Phase
  data : S
  issued : List V

variable {σ τ S H V T M : Type}

/-! ### Steps -/

namespace Place

/-- Places in the order in which a member passes them. -/
def rank : Place M → Nat
  | ready k => 4 * k
  | body k _ => 4 * k + 1
  | waiting k => 4 * k + 2
  | sending k _ => 4 * k + 3

def left : Place M → List M
  | sending _ left => left
  | _ => []

variable (k c : Nat) (messages : List M)

@[simp] theorem rank_ready : (ready k : Place M).rank = 4 * k := rfl
@[simp] theorem rank_body : (body k c : Place M).rank = 4 * k + 1 := rfl
@[simp] theorem rank_waiting : (waiting k : Place M).rank = 4 * k + 2 := rfl
@[simp] theorem rank_sending : (sending k messages).rank = 4 * k + 3 := rfl
@[simp] theorem left_ready : (ready k : Place M).left = [] := rfl
@[simp] theorem left_body : (body k c : Place M).left = [] := rfl
@[simp] theorem left_waiting : (waiting k : Place M).left = [] := rfl
@[simp] theorem left_sending : (sending k messages).left = messages := rfl

end Place

namespace Team

variable (team : Team H)

def claim [DecidableEq Nat] (k : Nat) : Team H :=
  { team with claimed := Function.update team.claimed k true }

def receive (shared : H) : Team H := { team with received := team.received + 1, shared }

def free (shared : H) : Team H := { team with released := true, shared }

end Team

namespace State

def move [DecidableEq τ] (s : State σ τ S H V T M) (i : τ) (place : Place M) : State σ τ S H V T M :=
  { s with place := Function.update s.place i place }

def onTeam [DecidableEq σ] (s : State σ τ S H V T M) (n : σ) (team : Team H) : State σ τ S H V T M :=
  { s with team := Function.update s.team n team }

def queue [DecidableEq τ] (s : State σ τ S H V T M) (i : τ) (messages : List (T × M)) :
    State σ τ S H V T M :=
  { s with channel := Function.update s.channel i messages }

end State

variable [DecidableEq σ] [DecidableEq τ] (p : Program σ τ S H V T M)

/-- Team `n` has entered the broadcast with this number, counted over all rounds. -/
def Entered (s : State σ τ S H V T M) (n : σ) (number : Nat) : Prop :=
  number < (s.team n).received ∨
    number = (s.team n).received ∧ ∃ i k c, p.home i = n ∧ s.place i = .body k c ∧ c < p.castCnt k

inductive Step (s : State σ τ S H V T M) : State σ τ S H V T M → Prop
  | begins (i : τ) (k : Nat) (here : s.place i = .ready k) (inside : k < p.rounds)
    (none : p.castCnt k = 0) :
      Step s (s.move i (.sending k (p.out k i (s.team (p.home i)).shared)))
  | claim (i : τ) (k : Nat) (here : s.place i = .ready k) (inside : k < p.rounds)
    (casts : p.castCnt k ≠ 0)
      (first : (s.team (p.home i)).claimed k = false) :
      Step s ((s.move i (.body k 0)).onTeam (p.home i) ((s.team (p.home i)).claim k))
  | skip (i : τ) (k : Nat) (here : s.place i = .ready k) (inside : k < p.rounds)
    (casts : p.castCnt k ≠ 0)
      (claimed : (s.team (p.home i)).claimed k = true) :
      Step s (s.move i (.waiting k))
  | bcast (i : τ) (k c : Nat) (value : V) (here : s.place i = .body k c) (more : c < p.castCnt k)
      (issued : s.issued[(s.team (p.home i)).received]? = some value)
      (returns : p.castBuffers ∨ ∀ n, Entered p s n (s.team (p.home i)).received) :
      Step s ((s.move i (.body k (c + 1))).onTeam (p.home i)
        ((s.team (p.home i)).receive (p.store value (s.team (p.home i)).shared)))
  | endBody (i : τ) (k : Nat) (here : s.place i = .body k (p.castCnt k)) :
      Step s (s.move i (.waiting k))
  | pass (i : τ) (k : Nat) (here : s.place i = .waiting k)
      (arrived : ∀ j, p.home j = p.home i → 4 * k + 2 ≤ (s.place j).rank) :
      Step s (s.move i (.sending k (p.out k i (s.team (p.home i)).shared)))
  | send (i : τ) (k : Nat) (message : M) (left : List M)
    (here : s.place i = .sending k (message :: left))
      (free : s.channel i = [] ∨ p.sendBuffers s.channel) :
      Step s ((s.move i (.sending k left)).queue i (s.channel i ++ [(p.tag k, message)]))
  | endSend (i : τ) (k : Nat) (here : s.place i = .sending k [])
      (free : s.channel i = [] ∨ p.sendBuffers s.channel) :
      Step s (s.move i (.ready (k + 1)))
  | release (n : σ) (arrived : ∀ i, p.home i = n → s.place i = .ready p.rounds)
      (held : (s.team n).released = false) :
      Step s (s.onTeam n ((s.team n).free (p.release (s.team n).shared)))
  | cast (c : Nat) (here : s.phase = .casting c) (inside : s.round < p.rounds)
    (more : c < p.castCnt s.round) :
      Step s { s with phase := .casted (c + 1), issued := s.issued ++ [p.cast s.round c s.data] }
  | castReturns (c : Nat) (here : s.phase = .casted c)
      (returns : p.castBuffers ∨ ∀ n number, number < s.issued.length → Entered p s n number) :
      Step s { s with phase := .casting c }
  | listen (here : s.phase = .casting (p.castCnt s.round)) (inside : s.round < p.rounds) :
      Step s { s with phase := .collecting, data := p.start s.round s.data }
  | recv (i : τ) (front : List (T × M)) (message : M) (back : List (T × M))
    (here : s.phase = .collecting)
      (active : p.active s.data = true)
      (queued : s.channel i = front ++ (p.tag s.round, message) :: back)
      (first : ∀ entry ∈ front, entry.1 ≠ p.tag s.round) :
      Step s { s.queue i (front ++ back) with data := p.collect s.data message }
  | endRound (here : s.phase = .collecting) (inside : s.round < p.rounds)
    (done : p.active s.data = false) :
      Step s { s with phase := .casting 0, round := s.round + 1 }

variable {p} in
/-- A step does not depend on what the members that it leaves alone would send. -/
theorem Step.with_out {s t : State σ τ S H V T M} (step : Step p s t) {out : Nat → τ → H → List M}
    (same : ∀ i, t.place i ≠ s.place i → ∀ k shared, out k i shared = p.out k i shared) :
    Step { p with out } s t := by
  let q : Program σ τ S H V T M := { p with out }
  cases step with
  | begins i k here inside none =>
    have own := same i (by simp [State.move, here]) k (s.team (p.home i)).shared
    rw [← own]
    exact Step.begins (p := q) i k here inside none
  | claim i k here inside casts first => exact Step.claim (p := q) i k here inside casts first
  | skip i k here inside casts claimed => exact Step.skip (p := q) i k here inside casts claimed
  | bcast i k c value here more issued returns =>
    exact Step.bcast (p := q) i k c value here more issued returns
  | endBody i k here => exact Step.endBody (p := q) i k here
  | pass i k here arrived =>
    have own := same i (by simp [State.move, here]) k (s.team (p.home i)).shared
    rw [← own]
    exact Step.pass (p := q) i k here arrived
  | send i k message left here free => exact Step.send (p := q) i k message left here free
  | endSend i k here free => exact Step.endSend (p := q) i k here free
  | release n arrived held => exact Step.release (p := q) n arrived held
  | cast c here inside more => exact Step.cast (p := q) c here inside more
  | castReturns c here returns => exact Step.castReturns (p := q) c here returns
  | listen here inside => exact Step.listen (p := q) here inside
  | recv i front message back here active queued first =>
    exact Step.recv (p := q) i front message back here active queued first
  | endRound here inside done => exact Step.endRound (p := q) here inside done

def State.init (data : S) (shared : H) : State σ τ S H V T M where
  place _ := .ready 0
  team _ := { shared }
  channel _ := []
  round := 0
  phase := .casting 0
  data
  issued := []

def State.Finished (s : State σ τ S H V T M) : Prop :=
  s.round = p.rounds ∧ ∀ n, (s.team n).released = true

/-! ### One round after the other -/

def casts (k : Nat) (data : S) : List V := (List.range (p.castCnt k)).map fun c => p.cast k c data

/-- The shared memory of a team that has received these values. -/
def stored (shared : H) (values : List V) : H := values.foldl (fun h v => p.store v h) shared

def gather (k : Nat) (data : S) (trace : List (τ × M)) : S :=
  (trace.map Prod.snd).foldl p.collect (p.start k data)

/-- The rounds without concurrency: broadcast, compute the messages, collect them in some order. -/
inductive Phased (data : S) (shared : H) : Nat → S → List V → Prop
  | start : Phased data shared 0 data []
  | round {k : Nat} {before : S} {issued : List V} {trace : List (τ × M)}
      (earlier : Phased data shared k before issued)
      (merges : Interleaves (fun i => p.out k i (stored p shared (issued ++ casts p k before))) trace) :
      Phased data shared (k + 1) (gather p k before trace) (issued ++ casts p k before)

/-- What the program has to keep to for the rounds to stay apart: only the first may be without
broadcasts, every team has a member, nobody sends nothing, and the root knows when it has all
messages. -/
structure Aligned : Prop where
  casts : ∀ k, 0 < k → k < p.rounds → p.castCnt k ≠ 0
  staffed : ∀ n, ∃ i, p.home i = n
  sends : ∀ k i shared, p.out k i shared ≠ []
  drains : ∀ k data shared front back,
    Interleaves (fun i => p.out k i shared) (front ++ back) →
      (p.active (gather p k data front) = true ↔ back ≠ [])

end Rounds
