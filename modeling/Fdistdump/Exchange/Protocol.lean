import Fdistdump.Exchange.Delivery
import Fdistdump.Library.RoundsCompletion

/-!
# Exchanges as rounds

The working modes in which the slaves send their memories: in each round every thread runs
`send_raw_mem` on some memory while the master runs `recv_loop`. Between the rounds the master
broadcasts, and one thread of every slave receives.
-/

namespace Fdistdump.Exchange
open Interleaving

/-- What a working mode puts around `send_raw_mem` and `recv_loop`: `mem` and `limit` say what a
thread sends in a round, from its own memory and from what its slave shares. -/
structure Exchanges (σ ι M H V T : Type) (lib : Libnf) where
  rounds : Nat
  home : ι → σ
  staffed : ∀ slave, ∃ i, home i = slave
  tag : Nat → T
  castCnt : Nat → Nat
  casts : ∀ k, 0 < k → k < rounds → castCnt k ≠ 0
  cast : Nat → Nat → RecvState → V
  store : V → H → H
  buffs : Nat → ι → BuffPair
  mem : Nat → M → H → RawMem lib
  limit : Nat → M → H → Nat
  release : H → H
  sendBuffers : (ι → List (T × Bytes)) → Prop
  castBuffers : Prop

/-- The messages of `send_raw_mem`. -/
def rawMemMessages (buffs : BuffPair) (recs : List Bytes) (recLimit : Nat) : List Bytes :=
  (sendRawMem (2 * recs.length) buffs recs recLimit).getD []

variable {σ ι M H V T : Type} {lib : Libnf}

theorem sendRawMem_messages_eq (mem : RawMem lib) (buffs : BuffPair) (recLimit : Nat) :
    sendRawMem (2 * mem.recs.length) buffs mem.recs recLimit =
      some (rawMemMessages buffs mem.recs recLimit) := by
  obtain ⟨msgs, returned, -⟩ := sendRawMem_returns mem buffs recLimit (Nat.le_refl _)
  rw [rawMemMessages, returned, Option.getD_some]

theorem foldl_recvMessage {recLimit : Nat} {s t : RecvState} {msgs : List Bytes}
    (ran : recvLoop recLimit s msgs = (t, [])) : msgs.foldl (recvMessage recLimit) s = t := by
  induction msgs generalizing s with
  | nil =>
    rw [recvLoop] at ran
    exact (Prod.mk.inj ran).1
  | cons msg rest ih =>
    rw [recvLoop] at ran
    split at ran
    · cases (Prod.mk.inj ran).2
    · exact ih ran

variable [Fintype ι]

def Exchanges.program (e : Exchanges σ ι M H V T lib) (mems : ι → M) :
    Rounds.Program σ ι RecvState H V T Bytes where
  rounds := e.rounds
  home := e.home
  castCnt := e.castCnt
  tag := e.tag
  cast := e.cast
  start _ _ := recvInit (Fintype.card ι)
  active s := decide (s.activeSources ≠ 0)
  collect := recvMessage 0
  store := e.store
  out k i slave := rawMemMessages (e.buffs k i) (e.mem k (mems i) slave).recs (e.limit k (mems i) slave)
  release := e.release
  sendBuffers := e.sendBuffers
  castBuffers := e.castBuffers

variable [DecidableEq ι]

/-- The messages of a round in the order of their arrival are an exchange. -/
theorem Exchanges.exchange (e : Exchanges σ ι M H V T lib) {mems : ι → M} {k : Nat} {slave : H}
    {trace : List (ι × Bytes)} (merges : Interleaves (fun i => (e.program mems).out k i slave) trace) :
    ∃ run : ExchangeRun (fun i => e.mem k (mems i) slave) (fun i => e.limit k (mems i) slave),
      run.trace = trace :=
  ⟨⟨_, e.buffs k, _, fun i => sendRawMem_messages_eq (e.mem k (mems i) slave) (e.buffs k i)
    (e.limit k (mems i) slave),
    trace, merges⟩, rfl⟩

variable [Nonempty ι]

theorem ExchangeRun.gathered {mems : ι → RawMem lib} {limits : ι → Nat} (run : ExchangeRun mems limits)
    {front back : List (ι × Bytes)} (parts : run.trace = front ++ back) :
    ((front.map Prod.snd).foldl (recvMessage 0) (recvInit (Fintype.card ι))).activeSources =
      activeIn (fromSource back) := by
  obtain ⟨t, ran, count, -, -⟩ := run.receives parts
  rw [foldl_recvMessage ran, count]

theorem ExchangeRun.gathered_calls {mems : ι → RawMem lib} {limits : ι → Nat}
    (run : ExchangeRun mems limits) :
    ((run.trace.map Prod.snd).foldl (recvMessage 0) (recvInit (Fintype.card ι))).calls = run.calls := by
  obtain ⟨t, ran, -, -, -⟩ := run.receives (List.append_nil run.trace).symm
  rw [foldl_recvMessage ran, ExchangeRun.calls, ran]

omit [Nonempty ι] in
theorem activeIn_fromSource_zero {back : List (ι × Bytes)} :
    activeIn (fromSource back) = 0 ↔ back = [] := by
  rw [activeIn_zero]
  constructor
  · intro none
    cases back with
    | nil => rfl
    | cons entry rest =>
      have head := none entry.1
      rw [fromSource_cons, if_pos rfl] at head
      cases head
  · rintro rfl i
    rfl

/-- Every slave has a thread and only the first round is without a broadcast: the rounds stay apart. -/
theorem Exchanges.aligned (e : Exchanges σ ι M H V T lib) (mems : ι → M) :
    Rounds.Aligned (e.program mems) where
  casts := e.casts
  staffed := e.staffed
  sends := by
    intro k i slave none
    have sent := sendRawMem_messages_eq (e.mem k (mems i) slave) (e.buffs k i) (e.limit k (mems i) slave)
    obtain ⟨groups, shape, -⟩ := sendRawMem_messages sent
    rw [show rawMemMessages (e.buffs k i) (e.mem k (mems i) slave).recs (e.limit k (mems i) slave) =
      [] from none] at shape
    simp at shape
  drains := by
    intro k data slave front back merges
    obtain ⟨run, same⟩ := e.exchange merges
    have count := run.gathered same
    rw [show (e.program mems).active (Rounds.gather (e.program mems) k data front) = decide
      (_ ≠ 0) from rfl,
      decide_eq_true_eq]
    exact not_congr (count ▸ activeIn_fromSource_zero)

/-! ### One round -/

/-- A working mode with a single exchange of the threads' memories. -/
def singleExchange {T : Type} (home : ι → σ) (staffed : ∀ slave, ∃ i, home i = slave) (tag : T)
    (buffs : ι → BuffPair) (mem : M → RawMem lib) (limit : Nat)
    (sendBuffers : (ι → List (T × Bytes)) → Prop) : Exchanges σ ι M Unit Unit T lib where
  rounds := 1
  home := home
  staffed := staffed
  tag _ := tag
  castCnt _ := 0
  casts k later inside := absurd inside (by omega)
  cast _ _ _ := ()
  store _ slave := slave
  buffs _ := buffs
  mem _ m _ := mem m
  limit _ _ _ := limit
  release := id
  sendBuffers := sendBuffers
  castBuffers := True

theorem first_exchange {e : Exchanges σ ι M H V T lib} (none : e.castCnt 0 = 0) {mems : ι → M}
    {data : RecvState} {slave : H} {s : RecvState} {issued : List V}
    (phased : Rounds.Phased (e.program mems) data slave 1 s issued) :
    ∃ run : ExchangeRun (fun i => e.mem 0 (mems i) slave) (fun i => e.limit 0 (mems i) slave),
      s.calls = run.calls ∧ issued = [] := by
  cases phased with
  | round earlier merges =>
    cases earlier
    have nothing : Rounds.casts (e.program mems) 0 data = [] := by
      rw [Rounds.casts, show (e.program mems).castCnt 0 = 0 from none]
      rfl
    rw [nothing] at merges ⊢
    obtain ⟨run, rfl⟩ := e.exchange merges
    exact ⟨run, run.gathered_calls, rfl⟩

end Fdistdump.Exchange
