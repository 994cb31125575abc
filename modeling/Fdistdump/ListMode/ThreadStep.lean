import Fdistdump.ListMode.Ledger

/-!
# The invariant of a thread

`Tracks` ties a thread to its ledger at every position in `ff_read_and_send`; every step of the thread
moves the ledger along.
-/

namespace Fdistdump.ListMode
open ByteBuffer Exchange Slave

variable {layout : RecordLayout} {R : Type}

def Pc.isDone : Pc R → Bool
  | .done => true
  | _ => false

/-- The matching records of the current file that are not in the buffer yet. -/
def Thread.current (job : Job layout R) (t : Thread R) : List R :=
  match t.pc with
  | .read => t.recs.filter job.accepts
  | .full record | .sendFull record | .countFull record | .testFull record =>
    record :: t.recs.filter job.accepts
  | _ => []

def Thread.todo (job : Job layout R) (t : Thread R) : List R :=
  t.current job ++ matchingRecs job.accepts t.files

/-- Records that are sent and not yet counted. -/
def Thread.uncounted (t : Thread R) : Nat :=
  match t.pc with
  | .countFull _ | .countTail => t.buffRecCntr
  | _ => 0

/-- The current buffer holds the buffered entries. -/
structure Holding (layout : RecordLayout) (t : Thread R) (buffered : List (Entry R)) : Prop where
  content : (t.buff t.buffIdx).take t.buffOff = groupBytes buffered
  off : t.buffOff = buffered.length * layout.space
  fits : t.buffOff ≤ xchgBuffSize
  count : t.buffRecCntr = buffered.length

/-- What holds at each position. -/
def Phase (job : Job layout R) (counter : Nat) (t : Thread R) (buffered : List (Entry R)) : Prop :=
  match t.pc with
  | .read => Holding layout t buffered
  | .full _ | .sendFull _ => Holding layout t buffered ∧ buffered ≠ []
  | .testFull _ => buffered = [] ∧ t.buffOff = 0 ∧ t.buffRecCntr = 0
  | .setFull => buffered = [] ∧ t.buffRecCntr = 0 ∧ Reached job.recLimit counter
  | .tail => t.buffRecCntr = buffered.length ∧ (buffered ≠ [] → Holding layout t buffered)
  | .setTail => buffered = [] ∧ Reached job.recLimit counter
  | .done => buffered = [] ∧ t.files = []
  | .nextFile | .countFull _ | .countTail | .testTail => buffered = []

structure Tracks (job : Job layout R) (matching : List R) (counter : Nat) (delivered : List (Entry R))
    (t : Thread R) (l : Ledger R) : Prop where
  sizes : ∀ i, (t.buff i).length = xchgBuffSize
  agrees : l.Agrees job matching counter delivered t.channel (t.todo job) t.uncounted t.pc.isDone
  phase : Phase job counter t l.buffered

theorem Phase.mono {job : Job layout R} {counter counter' : Nat} {t : Thread R}
    {buffered : List (Entry R)} (phase : Phase job counter t buffered) (more : counter ≤ counter') :
    Phase job counter' t buffered := by
  unfold Phase at phase ⊢
  cases pc : t.pc <;> rw [pc] at phase <;> dsimp only at phase ⊢
  case setFull => exact ⟨phase.1, phase.2.1, phase.2.2.1, Nat.le_trans phase.2.2.2 more⟩
  case setTail => exact ⟨phase.1, phase.2.1, Nat.le_trans phase.2.2 more⟩
  all_goals exact phase

variable {job : Job layout R} {matching : List R} {delivered : List (Entry R)} {t : Thread R}
  {l : Ledger R}

theorem Tracks.mono {counter counter' : Nat} (tracks : Tracks job matching counter delivered t l)
    (more : counter ≤ counter') : Tracks job matching counter' delivered t l :=
  ⟨tracks.sizes, tracks.agrees.mono more, tracks.phase.mono more⟩

/-! ### The buffer -/

variable (job) in
theorem Holding.store {buffered : List (Entry R)} (holding : Holding layout t buffered) (record : R)
    (sizes : ∀ i, (t.buff i).length = xchgBuffSize) (room : t.buffOff + layout.space ≤ xchgBuffSize) :
    ∃ data, Written job.access (record, data) ∧ Holding layout (t.store job record)
      (buffered ++ [(record, data)]) ∧
      ∀ i, ((t.store job record).buff i).length = xchgBuffSize := by
  have inside : t.buffOff + layout.space ≤ (t.buff t.buffIdx).length := by rw [sizes]; exact room
  have space : layout.space = sizeofXchgRecSize + layout.allSizesSum := rfl
  set old := (t.buff t.buffIdx).drop (t.buffOff + sizeofXchgRecSize) with old_eq
  have oldRoom : layout.allSizesSum ≤ old.length := by
    rw [old_eq, List.length_drop]
    omega
  have written := writeRecord_eq job.access record inside
  rw [← old_eq] at written
  have length : (encodeRec (job.access.bytes record old)).length = layout.space := by
    rw [encodeRec_length, job.access.bytes_length record oldRoom, space]
  have front := take_write (t.buff t.buffIdx) (encodeRec (job.access.bytes record old))
    (show t.buffOff ≤ _ by omega)
  rw [length] at front
  refine ⟨job.access.bytes record old, ⟨old, oldRoom, rfl⟩, ⟨?_, ?_, ?_, ?_⟩, fun i => ?_⟩
  · simp only [Thread.store, written, Function.update_self]
    rw [front, holding.content, groupBytes, groupBytes, List.map_append, encodeRecs_append]
    simp [encodeRecs_singleton]
  · simp only [Thread.store, written, List.length_append, List.length_singleton]
    rw [Nat.add_mul, Nat.one_mul, holding.off]
  · simp only [Thread.store, written]
    exact room
  · simp only [Thread.store, List.length_append, List.length_singleton, holding.count]
  · simp only [Thread.store, written, Function.update_apply]
    split
    · rw [write_length (by omega), sizes]
    · exact sizes i

theorem Holding.nonempty {buffered : List (Entry R)} (holding : Holding layout t buffered)
    (fits : layout.space ≤ xchgBuffSize)
    (noRoom : xchgBuffSize < t.buffOff + layout.allSizesSum + sizeofXchgRecSize) : buffered ≠ [] := by
  rintro rfl
  have off := holding.off
  simp only [RecordLayout.space, List.length_nil, Nat.zero_mul] at off fits
  omega

theorem holding_nil (noOff : t.buffOff = 0) (noRecs : t.buffRecCntr = 0) : Holding layout t [] where
  content := by rw [noOff]; rfl
  off := by rw [noOff]; simp
  fits := by rw [noOff]; exact Nat.zero_le _
  count := noRecs

/-! ### Steps -/

/-- How a step moves a ledger: the thread's share grows with the slave's counter. -/
structure Moves (s s' : SlaveCtx) (l l' : Ledger R) : Prop where
  counter : s'.procRecCntr + l.counted = s.procRecCntr + l'.counted
  grows : s.procRecCntr ≤ s'.procRecCntr
  terminated : l'.terminated = l.terminated

theorem moves_refl (s : SlaveCtx) (l : Ledger R) : Moves s s l l := ⟨rfl, Nat.le_refl _, rfl⟩

theorem limitReached_iff {s : SlaveCtx} :
    limitReached job s = true ↔ Reached job.recLimit s.procRecCntr := by
  simp [limitReached, Reached]

variable {s : SlaveCtx}

/-- After one step the flag is still justified and some ledger still tracks the thread. -/
structure StepTracked (job : Job layout R) (matching : List R) (delivered : List (Entry R))
    (s : SlaveCtx) (l : Ledger R) (next : SlaveCtx × Thread R) : Prop where
  flag : next.1.recLimitReached = true → Reached job.recLimit next.1.procRecCntr
  tracked : ∃ l', Tracks job matching next.1.procRecCntr delivered next.2 l' ∧ Moves s next.1 l l'

theorem stepTracked_local {t' : Thread R}
    (flag : s.recLimitReached = true → Reached job.recLimit s.procRecCntr)
    (tracks : Tracks job matching s.procRecCntr delivered t' l) :
    StepTracked job matching delivered s l (s, t') :=
  ⟨flag, l, tracks, moves_refl s l⟩

theorem nextFile_tracked (pc : t.pc = .nextFile)
    (flag : s.recLimitReached = true → Reached job.recLimit s.procRecCntr)
    (tracks : Tracks job matching s.procRecCntr delivered t l) :
    StepTracked job matching delivered s l (threadStep job s t) := by
  obtain ⟨sizes, agrees, phase⟩ := tracks
  simp only [Phase, pc] at phase
  simp only [Thread.todo, Thread.current, Thread.uncounted, Pc.isDone, pc, List.nil_append] at agrees
  rw [threadStep, pc]
  dsimp only
  cases files : t.files with
  | nil =>
    rw [files] at agrees
    exact stepTracked_local flag ⟨sizes, agrees.close, phase, rfl⟩
  | cons file rest =>
    rw [files, matchingRecs, List.flatMap_cons] at agrees
    dsimp only
    split
    · rename_i opened
      rw [Bool.and_eq_true] at opened
      rw [if_pos opened.1] at agrees
      refine stepTracked_local flag ⟨sizes, agrees, ?_⟩
      simp only [Phase, phase]
      exact holding_nil rfl rfl
    · rename_i skipped
      refine stepTracked_local flag ⟨sizes, ?_, by simpa only [Phase, pc] using phase⟩
      simp only [Thread.todo, Thread.current, Thread.uncounted, Pc.isDone, List.nil_append]
      by_cases opens : file.opens = true
      · -- the flag is set, so the file may be left out
        have reached := flag (by simpa [opens] using skipped)
        exact agrees.skip reached (List.sublist_append_right _ _)
      · rwa [if_neg opens, List.nil_append] at agrees

theorem read_tracked (pc : t.pc = .read) (fits : layout.space ≤ xchgBuffSize)
    (flag : s.recLimitReached = true → Reached job.recLimit s.procRecCntr)
    (tracks : Tracks job matching s.procRecCntr delivered t l) :
    StepTracked job matching delivered s l (threadStep job s t) := by
  obtain ⟨sizes, agrees, phase⟩ := tracks
  simp only [Phase, pc] at phase
  simp only [Thread.todo, Thread.current, Thread.uncounted, Pc.isDone, pc] at agrees
  rw [threadStep, pc]
  dsimp only
  cases recs : t.recs with
  | nil =>
    rw [recs] at agrees
    refine stepTracked_local flag ⟨sizes, agrees, phase.count, ?_⟩
    intro _
    exact ⟨phase.content, phase.off, phase.fits, phase.count⟩
  | cons record rest =>
    rw [recs, List.filter_cons] at agrees
    dsimp only
    split
    · rename_i rejected
      rw [Bool.not_eq_true'] at rejected
      rw [rejected, if_neg Bool.false_ne_true] at agrees
      refine stepTracked_local flag ⟨sizes, ?_, ?_⟩
      · simpa only [Thread.todo, Thread.current, Thread.uncounted, Pc.isDone, pc] using agrees
      · simp only [Phase]
        exact ⟨phase.content, phase.off, phase.fits, phase.count⟩
    rename_i accepted
    rw [Bool.not_eq_true', Bool.not_eq_false] at accepted
    rw [if_pos accepted, List.cons_append] at agrees
    split
    · rename_i noRoom
      refine stepTracked_local flag ⟨sizes, agrees, ?_, phase.nonempty fits noRoom⟩
      exact ⟨phase.content, phase.off, phase.fits, phase.count⟩
    · rename_i room
      have enough : t.buffOff + layout.space ≤ xchgBuffSize := by
        simp only [RecordLayout.space]
        omega
      have holding : Holding layout { t with recs := rest } l.buffered :=
        ⟨phase.content, phase.off, phase.fits, phase.count⟩
      obtain ⟨data, written, stored, sizes'⟩ := holding.store job record sizes enough
      refine ⟨flag, { l with buffered := l.buffered ++ [(record, data)] }, ⟨sizes', ?_, ?_⟩,
        ⟨rfl, Nat.le_refl _, rfl⟩⟩
      · simpa only [Thread.store, Thread.todo, Thread.current, Thread.uncounted, Pc.isDone, pc] using
          agrees.store written
      · simpa only [Phase, Thread.store, pc] using stored

theorem full_tracked {record : R} (pc : t.pc = .full record)
    (flag : s.recLimitReached = true → Reached job.recLimit s.procRecCntr)
    (tracks : Tracks job matching s.procRecCntr delivered t l) :
    StepTracked job matching delivered s l (threadStep job s t) := by
  obtain ⟨sizes, agrees, phase⟩ := tracks
  simp only [Phase, pc] at phase
  simp only [Thread.todo, Thread.current, Thread.uncounted, Pc.isDone, pc] at agrees
  rw [threadStep, pc]
  dsimp only
  split
  · rename_i set
    have reached := flag set
    have skipped := (agrees.discard reached).skip reached (List.sublist_append_right _ _)
    exact ⟨flag, { l with buffered := [] }, ⟨sizes, skipped, rfl, fun some => absurd rfl some⟩,
      ⟨rfl, Nat.le_refl _, rfl⟩⟩
  · exact stepTracked_local flag ⟨sizes, agrees,
      ⟨phase.1.content, phase.1.off, phase.1.fits, phase.1.count⟩, phase.2⟩

theorem sendFull_tracked {record : R} (pc : t.pc = .sendFull record)
    (flag : s.recLimitReached = true → Reached job.recLimit s.procRecCntr)
    (tracks : Tracks job matching s.procRecCntr delivered t l) :
    StepTracked job matching delivered s l (threadStep job s t) := by
  obtain ⟨sizes, agrees, phase⟩ := tracks
  simp only [Phase, pc] at phase
  simp only [Thread.todo, Thread.current, Thread.uncounted, Pc.isDone, pc] at agrees
  have sent := agrees.send phase.2
  rw [← phase.1.content, ← phase.1.count] at sent
  rw [threadStep, pc]
  exact ⟨flag, { l with flying := l.flying ++ [l.buffered], buffered := [] }, ⟨sizes, sent, rfl⟩,
    ⟨rfl, Nat.le_refl _, rfl⟩⟩

theorem countFull_tracked {record : R} (pc : t.pc = .countFull record)
    (flag : s.recLimitReached = true → Reached job.recLimit s.procRecCntr)
    (tracks : Tracks job matching s.procRecCntr delivered t l) :
    StepTracked job matching delivered s l (threadStep job s t) := by
  obtain ⟨sizes, agrees, phase⟩ := tracks
  simp only [Phase, pc] at phase
  simp only [Thread.todo, Thread.current, Thread.uncounted, Pc.isDone, pc] at agrees
  rw [threadStep, pc]
  refine ⟨fun set => ?_, { l with counted := l.counted + t.buffRecCntr },
    ⟨sizes, agrees.count, phase, rfl, rfl⟩,
    ⟨by dsimp only; omega, Nat.le_add_right _ _, rfl⟩⟩
  exact ⟨(flag set).1, Nat.le_add_right_of_le (flag set).2⟩

theorem testFull_tracked {record : R} (pc : t.pc = .testFull record) (fits : layout.space ≤ xchgBuffSize)
    (flag : s.recLimitReached = true → Reached job.recLimit s.procRecCntr)
    (tracks : Tracks job matching s.procRecCntr delivered t l) :
    StepTracked job matching delivered s l (threadStep job s t) := by
  obtain ⟨sizes, agrees, phase⟩ := tracks
  simp only [Phase, pc] at phase
  simp only [Thread.todo, Thread.current, Thread.uncounted, Pc.isDone, pc] at agrees
  rw [threadStep, pc]
  dsimp only
  split
  · rename_i limit
    have reached := limitReached_iff.mp limit
    exact stepTracked_local flag ⟨sizes, agrees.skip reached (List.sublist_append_right _ _),
      phase.1, phase.2.2, reached⟩
  · have empty : Holding layout t [] := holding_nil phase.2.1 phase.2.2
    obtain ⟨data, written, stored, sizes'⟩ := empty.store job record sizes (by rw [phase.2.1]; omega)
    refine ⟨flag, { l with buffered := l.buffered ++ [(record, data)] },
      ⟨sizes', agrees.store written, ?_⟩,
      ⟨rfl, Nat.le_refl _, rfl⟩⟩
    rw [phase.1]
    exact ⟨stored.content, stored.off, stored.fits, stored.count⟩

theorem tail_tracked (pc : t.pc = .tail)
    (flag : s.recLimitReached = true → Reached job.recLimit s.procRecCntr)
    (tracks : Tracks job matching s.procRecCntr delivered t l) :
    StepTracked job matching delivered s l (threadStep job s t) := by
  obtain ⟨sizes, agrees, phase⟩ := tracks
  simp only [Phase, pc] at phase
  simp only [Thread.todo, Thread.current, Thread.uncounted, Pc.isDone, pc] at agrees
  rw [threadStep, pc]
  dsimp only
  split
  · rename_i some
    have nonempty : l.buffered ≠ [] := by
      intro none
      simp [phase.1, none] at some
    have sent := agrees.send nonempty
    rw [← (phase.2 nonempty).content, ← phase.1] at sent
    exact ⟨flag, { l with flying := l.flying ++ [l.buffered], buffered := [] }, ⟨sizes, sent, rfl⟩,
      ⟨rfl, Nat.le_refl _, rfl⟩⟩
  · rename_i none
    have empty : l.buffered = [] := by
      rw [← List.length_eq_zero_iff, ← phase.1]
      simpa using none
    exact stepTracked_local flag ⟨sizes, agrees, empty⟩

theorem threadStep_tracked (fits : layout.space ≤ xchgBuffSize)
    (flag : s.recLimitReached = true → Reached job.recLimit s.procRecCntr)
    (tracks : Tracks job matching s.procRecCntr delivered t l) :
    StepTracked job matching delivered s l (threadStep job s t) := by
  cases pc : t.pc with
  | nextFile => exact nextFile_tracked pc flag tracks
  | read => exact read_tracked pc fits flag tracks
  | full record => exact full_tracked pc flag tracks
  | sendFull record => exact sendFull_tracked pc flag tracks
  | countFull record => exact countFull_tracked pc flag tracks
  | testFull record => exact testFull_tracked pc fits flag tracks
  | tail => exact tail_tracked pc flag tracks
  | setFull =>
    obtain ⟨sizes, agrees, phase⟩ := tracks
    simp only [Phase, pc] at phase
    simp only [Thread.todo, Thread.current, Thread.uncounted, Pc.isDone, pc] at agrees
    rw [threadStep, pc]
    refine ⟨fun _ => phase.2.2, l, ⟨sizes, agrees, ?_, fun some => absurd phase.1 some⟩,
      ⟨rfl, Nat.le_refl _, rfl⟩⟩
    rw [phase.1]
    exact phase.2.1
  | countTail =>
    obtain ⟨sizes, agrees, phase⟩ := tracks
    simp only [Phase, pc] at phase
    simp only [Thread.todo, Thread.current, Thread.uncounted, Pc.isDone, pc] at agrees
    rw [threadStep, pc]
    refine ⟨fun set => ?_, { l with counted := l.counted + t.buffRecCntr }, ⟨sizes, agrees.count, phase⟩,
      ⟨by dsimp only; omega, Nat.le_add_right _ _, rfl⟩⟩
    exact ⟨(flag set).1, Nat.le_add_right_of_le (flag set).2⟩
  | testTail =>
    obtain ⟨sizes, agrees, phase⟩ := tracks
    simp only [Phase, pc] at phase
    simp only [Thread.todo, Thread.current, Thread.uncounted, Pc.isDone, pc] at agrees
    rw [threadStep, pc]
    dsimp only
    split
    · rename_i limit
      exact stepTracked_local flag ⟨sizes, agrees, phase, limitReached_iff.mp limit⟩
    · exact stepTracked_local flag ⟨sizes, agrees, phase⟩
  | setTail =>
    obtain ⟨sizes, agrees, phase⟩ := tracks
    simp only [Phase, pc] at phase
    simp only [Thread.todo, Thread.current, Thread.uncounted, Pc.isDone, pc] at agrees
    rw [threadStep, pc]
    exact ⟨fun _ => phase.2, l, ⟨sizes, agrees, phase.1⟩, ⟨rfl, Nat.le_refl _, rfl⟩⟩
  | done =>
    rw [threadStep, pc]
    exact stepTracked_local flag tracks

end Fdistdump.ListMode
