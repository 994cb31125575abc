import Fdistdump.ListMode.ReadAndSend

/-!
# What a thread has done with its records

A ledger follows the matching records of one thread: received, in flight, in the buffer. Nothing is
ever invented or repeated, and nothing is lost while the slave is below the record limit.
-/

namespace Fdistdump.ListMode
open ByteBuffer Exchange

/-- A record together with the bytes that were written for it. -/
abbrev Entry (R : Type) : Type := R × Bytes

structure Ledger (R : Type) where
  flying : List (List (Entry R)) := []  -- the records of each message that has not been received
  buffered : List (Entry R) := []
  counted : Nat := 0                    -- this thread's share of the slave's counter
  terminated : Bool := false            -- the terminator has been received

variable {layout : RecordLayout} {R : Type}

/-- The bytes of a record, written over something. -/
def Written (access : Access layout R) (entry : Entry R) : Prop :=
  ∃ old : Bytes, layout.allSizesSum ≤ old.length ∧ entry.2 = access.bytes entry.1 old

/-- The message that carries a group of entries. -/
def groupBytes (group : List (Entry R)) : Bytes := encodeRecs (group.map Prod.snd)

def Ledger.sent (l : Ledger R) (delivered : List (Entry R)) : List (Entry R) :=
  delivered ++ l.flying.flatten

def Ledger.entries (l : Ledger R) (delivered : List (Entry R)) : List (Entry R) :=
  l.sent delivered ++ l.buffered

/-- A record limit has been reached by the slave's counter. -/
def Reached (recLimit counter : Nat) : Prop := recLimit ≠ 0 ∧ recLimit ≤ counter

/-- The ledger agrees with what is seen of a thread: its channel, the matching records it has still to
deal with, the sent records it has not added to the counter, and whether it has sent its terminator. -/
structure Ledger.Agrees (job : Job layout R) (matching : List R) (counter : Nat)
    (delivered : List (Entry R))
    (channel : List Bytes) (todo : List R) (uncounted : Nat) (closed : Bool) (l : Ledger R) : Prop where
  channel : channel = l.flying.map groupBytes ++ if closed && !l.terminated then [[]] else []
  nonempty : ∀ group ∈ l.flying, group ≠ []
  written : ∀ entry ∈ l.entries delivered, Written job.access entry
  sublist : ((l.entries delivered).map Prod.fst ++ todo).Sublist matching
  complete : ¬ Reached job.recLimit counter → (l.entries delivered).map Prod.fst ++ todo = matching
  counted : l.counted + uncounted ≤ (l.sent delivered).length
  terminated : l.terminated = true → closed = true ∧ l.flying = []

namespace Ledger.Agrees

variable {job : Job layout R} {matching todo : List R} {counter uncounted : Nat}
  {delivered : List (Entry R)} {channel : List Bytes} {closed : Bool} {l : Ledger R}

theorem mono {counter' : Nat}
    (agrees : l.Agrees job matching counter delivered channel todo uncounted closed)
    (more : counter ≤ counter') :
    l.Agrees job matching counter' delivered channel todo uncounted closed where
  channel := agrees.channel
  nonempty := agrees.nonempty
  written := agrees.written
  sublist := agrees.sublist
  complete := fun below => agrees.complete fun reached => below ⟨reached.1, Nat.le_trans reached.2 more⟩
  counted := agrees.counted
  terminated := agrees.terminated

theorem skip {todo' : List R}
    (agrees : l.Agrees job matching counter delivered channel todo uncounted closed)
    (reached : Reached job.recLimit counter) (fewer : todo'.Sublist todo) :
    l.Agrees job matching counter delivered channel todo' uncounted closed where
  channel := agrees.channel
  nonempty := agrees.nonempty
  written := agrees.written
  sublist := ((List.Sublist.refl _).append fewer).trans agrees.sublist
  complete := fun below => absurd reached below
  counted := agrees.counted
  terminated := agrees.terminated

theorem discard (agrees : l.Agrees job matching counter delivered channel todo uncounted closed)
    (reached : Reached job.recLimit counter) :
    ({ l with buffered := [] } : Ledger R).Agrees job matching counter delivered channel todo
      uncounted closed where
  channel := agrees.channel
  nonempty := agrees.nonempty
  written := fun entry member => agrees.written entry (by
    simp only [entries, List.append_nil] at member
    exact List.mem_append_left _ member)
  sublist := by
    refine List.Sublist.trans (List.Sublist.append_right ?_ todo) agrees.sublist
    simp only [entries, List.append_nil]
    exact (List.sublist_append_left _ _).map _
  complete := fun below => absurd reached below
  counted := agrees.counted
  terminated := agrees.terminated

theorem store {record : R} {data : Bytes}
    (agrees : l.Agrees job matching counter delivered channel (record :: todo) uncounted closed)
    (written : Written job.access (record, data)) :
    ({ l with buffered := l.buffered ++ [(record, data)] } : Ledger R).Agrees job matching counter
      delivered channel
      todo uncounted closed := by
  have same : ({ l with buffered := l.buffered ++ [(record, data)] } : Ledger R).entries delivered =
      l.entries delivered ++ [(record, data)] := (List.append_assoc ..).symm
  have moved : (l.entries delivered ++ [(record, data)]).map Prod.fst ++ todo =
      (l.entries delivered).map Prod.fst ++ record :: todo := by simp
  refine ⟨agrees.channel, agrees.nonempty, ?_, ?_, ?_, agrees.counted, agrees.terminated⟩
  · rw [same]
    intro entry member
    rcases List.mem_append.mp member with old | new
    · exact agrees.written entry old
    · exact List.mem_singleton.mp new ▸ written
  · rw [same, moved]
    exact agrees.sublist
  · rw [same, moved]
    exact agrees.complete

theorem send (agrees : l.Agrees job matching counter delivered channel todo 0 false)
    (some : l.buffered ≠ []) :
    ({ l with flying := l.flying ++ [l.buffered], buffered := [] } : Ledger R).Agrees job matching
      counter delivered
      (channel ++ [groupBytes l.buffered]) todo l.buffered.length false := by
  have same : ({ l with flying := l.flying ++ [l.buffered], buffered := [] } : Ledger R).entries
    delivered =
      l.entries delivered := by simp [entries, sent]
  refine ⟨?_, ?_, ?_, ?_, ?_, ?_, fun terminated => nomatch (agrees.terminated terminated).1⟩
  · simp [agrees.channel]
  · intro group member
    rcases List.mem_append.mp member with old | new
    · exact agrees.nonempty group old
    · exact List.mem_singleton.mp new ▸ some
  · rw [same]
    exact agrees.written
  · rw [same]
    exact agrees.sublist
  · rw [same]
    exact agrees.complete
  · have counted := agrees.counted
    simp only [sent, List.flatten_append, List.flatten_cons, List.flatten_nil, List.append_nil,
      List.length_append] at counted ⊢
    omega

theorem count (agrees : l.Agrees job matching counter delivered channel todo uncounted closed) :
    ({ l with counted := l.counted + uncounted } : Ledger R).Agrees job matching
      (counter + uncounted) delivered
      channel todo 0 closed := by
  obtain ⟨channel, nonempty, written, sublist, complete, counted, terminated⟩ :=
    agrees.mono (Nat.le_add_right counter uncounted)
  exact ⟨channel, nonempty, written, sublist, complete, counted, terminated⟩

theorem close (agrees : l.Agrees job matching counter delivered channel todo uncounted false) :
    l.Agrees job matching counter delivered (channel ++ [[]]) todo uncounted true := by
  have running : l.terminated = false := by
    cases terminated : l.terminated with
    | false => rfl
    | true => exact nomatch (agrees.terminated terminated).1
  refine ⟨?_, agrees.nonempty, agrees.written, agrees.sublist, agrees.complete, agrees.counted, ?_⟩
  · simp [agrees.channel, running]
  · exact fun terminated => absurd terminated (by simp [running])

theorem receive {group : List (Entry R)} {more : List (List (Entry R))} {rest : List Bytes}
    (agrees : l.Agrees job matching counter delivered (groupBytes group :: rest) todo uncounted closed)
    (first : l.flying = group :: more) :
    ({ l with flying := more } : Ledger R).Agrees job matching counter (delivered ++ group) rest
      todo uncounted
      closed := by
  have sameSent : ({ l with flying := more } : Ledger R).sent (delivered ++ group) =
      l.sent delivered := by
    simp [sent, first]
  have same : ({ l with flying := more } : Ledger R).entries (delivered ++ group) =
      l.entries delivered := by
    rw [entries, entries, sameSent]
  refine ⟨?_, ?_, ?_, ?_, ?_, ?_, ?_⟩
  · have channel := agrees.channel
    rw [first, List.map_cons, List.cons_append, List.cons.injEq] at channel
    exact channel.2
  · exact fun group' member => agrees.nonempty group' (first ▸ List.mem_cons_of_mem _ member)
  · rw [same]
    exact agrees.written
  · rw [same]
    exact agrees.sublist
  · rw [same]
    exact agrees.complete
  · rw [sameSent]
    exact agrees.counted
  · exact fun terminated => absurd (agrees.terminated terminated).2 (by simp [first])

theorem terminate {msg : Bytes} {rest : List Bytes}
    (agrees : l.Agrees job matching counter delivered (msg :: rest) todo uncounted closed)
    (last : l.flying = []) :
    msg = [] ∧ l.terminated = false ∧
      ({ l with terminated := true } : Ledger R).Agrees job matching counter delivered rest todo
        uncounted closed := by
  have channel := agrees.channel
  rw [last, List.map_nil, List.nil_append] at channel
  split at channel
  · rename_i open'
    rw [Bool.and_eq_true, Bool.not_eq_true'] at open'
    rw [List.cons.injEq] at channel
    refine ⟨channel.1, open'.2, ?_, agrees.nonempty, agrees.written, agrees.sublist,
      agrees.complete, agrees.counted,
      fun _ => ⟨open'.1, last⟩⟩
    simp [channel.2, last]
  · exact absurd channel (List.cons_ne_nil _ _)

end Ledger.Agrees

end Fdistdump.ListMode
