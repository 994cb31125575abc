import Fdistdump.Exchange.SendRawMem
import Fdistdump.Library.Requests

/-!
# How `send_raw_mem` uses its buffers

The trace of `send_raw_mem` on its two buffers. libnf may write into the current buffer in every
iteration, also when it refuses the record; the send that is pending is always that of the other one.
-/

namespace Fdistdump.Exchange
open Requests

/-- `MPI_Wait` and `MPI_Isend` of the current buffer. -/
def SendState.isendOps (s : SendState) : List (Op Bool) := [.complete, .start s.buffIdx]

def sendBodyOps (s : SendState) : List (Op Bool) :=
  match s.cursor with
  | [] => []
  | record :: _ =>
    .touch s.buffIdx ::
      match lnfMemReadRawC record s.buffRemaining with
      | some _ => []
      | none => s.isendOps

def sendTailOps (s : SendState) : List (Op Bool) :=
  (if s.buffRecCntr != 0 then s.isendOps else []) ++ [.complete]

/-- The operations of `send_raw_mem` before its terminator. -/
def sendRawMemOps (fuel : Nat) (buffs : BuffPair) (recs : List Bytes) (recLimit : Nat) :
    Option (List (Op Bool)) :=
  (WhileLoop.run (fun p => sendMore recLimit p.1) (fun p => (sendBody p.1, p.2 ++ sendBodyOps p.1)) fuel
    (sendInit buffs recs, [])).map fun p => p.2 ++ sendTailOps p.1

/-- The rules have been kept, and what is pending is the send of the other buffer, if anything. -/
structure SendTraced (s : SendState) (ops : List (Op Bool)) : Prop where
  exclusive : Always Exclusive [] ops
  pending : after [] ops = s.request.toList
  other : s.request ≠ some s.buffIdx

theorem isendOps_exclusive (s : SendState) (request : Option Bool) :
    Always Exclusive request.toList s.isendOps ∧ after request.toList s.isendOps = [s.buffIdx] := by
  cases request <;> exact ⟨⟨trivial, rfl, trivial⟩, rfl⟩

theorem SendTraced.body {s : SendState} {ops : List (Op Bool)} (traced : SendTraced s ops) :
    SendTraced (sendBody s) (ops ++ sendBodyOps s) := by
  obtain ⟨exclusive, pending, other⟩ := traced
  unfold sendBody sendBodyOps
  cases s.cursor with
  | nil => exact ⟨by rwa [List.append_nil], by rwa [List.append_nil], other⟩
  | cons record next =>
    have free : s.buffIdx ∉ s.request.toList := by simpa using other
    dsimp only
    cases lnfMemReadRawC record s.buffRemaining with
    | some raw =>
      refine ⟨always_append.mpr ⟨exclusive, ?_⟩, ?_, other⟩
      · rw [pending]
        exact ⟨free, trivial⟩
      · rw [after_append, pending]
        rfl
    | none =>
      obtain ⟨sending, sent⟩ := isendOps_exclusive s s.request
      refine ⟨always_append.mpr ⟨exclusive, ?_⟩, ?_, ?_⟩
      · rw [pending]
        exact ⟨free, sending⟩
      · rw [after_append, pending]
        exact sent
      · simp [sendRead, SendState.isend]

theorem SendTraced.tail {s : SendState} {ops : List (Op Bool)} (traced : SendTraced s ops) :
    Always Exclusive [] (ops ++ sendTailOps s) ∧ after [] (ops ++ sendTailOps s) = [] := by
  obtain ⟨exclusive, pending, -⟩ := traced
  obtain ⟨sending, sent⟩ := isendOps_exclusive s s.request
  unfold sendTailOps
  rw [always_append, after_append, pending, always_append, after_append]
  split
  · rw [sent]
    exact ⟨⟨exclusive, sending, trivial, trivial⟩, rfl⟩
  · refine ⟨⟨exclusive, trivial, trivial, trivial⟩, ?_⟩
    cases s.request <;> rfl

theorem sendRawMemOps_exclusive {lib : Libnf} (mem : RawMem lib) (buffs : BuffPair) (recLimit : Nat)
    {fuel : Nat} (enough : 2 * mem.recs.length ≤ fuel) :
    ∃ ops, sendRawMemOps fuel buffs mem.recs recLimit = some ops ∧ Always Exclusive [] ops ∧ after
    [] ops = [] := by
  obtain ⟨msgs, returned, -⟩ := sendRawMem_returns mem buffs recLimit enough
  obtain ⟨t, ended, -⟩ := Option.map_eq_some_iff.mp returned
  have traced := WhileLoop.run_traced (sendMore recLimit) sendBody sendBodyOps fuel
    (sendInit buffs mem.recs) []
  rw [ended] at traced
  obtain ⟨⟨s, ops⟩, ran, rfl⟩ := Option.map_eq_some_iff.mp traced
  have start : SendTraced (sendInit buffs mem.recs) [] := ⟨trivial, rfl, by simp [sendInit]⟩
  obtain ⟨kept, -⟩ := WhileLoop.run_invariant (fun p : SendState × List (Op Bool) => SendTraced p.1 p.2)
    (fun p inv _ => inv.body) start ran
  exact ⟨_, by rw [sendRawMemOps, ran]; rfl, kept.tail⟩

end Fdistdump.Exchange
