import Fdistdump.Summary.Run

/-!
# What a slave and its threads hold

Between them the queue of a slave, the private counters of its threads that are not shared yet and its
shared counters always hold the same amount. `Account` says what a counter needs for that.
-/

namespace Fdistdump.Summary
open Slave Args Output ListMode Exchange Reduction

variable {R M σ τ : Type} {layout : RecordLayout} [DecidableEq σ] [DecidableEq τ] [Fintype σ]

/-- The counters a thread has still to share. -/
def Place.left : Place → List Counter
  | .files => shareOrder
  | .sharing left => left
  | .done => []

def unshared (c : Counter) (w : Worker M R) : UInt64 := if c ∈ w.place.left then w.summ.counter c else 0

def held [Fintype τ] (home : τ → σ) (c : Counter) (holding : Worker M R → UInt64)
    (slaves : σ → SlaveState R) (workers : τ → Worker M R) (slave : σ) : UInt64 :=
  (slaves slave).summ.counter c + ∑ i with home i = slave, holding (workers i)

section Held

variable [Fintype τ] {home : τ → σ} {c : Counter} {holding : Worker M R → UInt64}
  {slaves slaves' : σ → SlaveState R} {workers : τ → Worker M R} {i : τ} {w : Worker M R}

omit [Fintype σ] in
theorem held_gain {gain : UInt64} (summ : ∀ slave, (slaves' slave).summ = (slaves slave).summ)
    (grown : holding w = holding (workers i) + gain) (slave : σ) :
    held home c holding slaves' (Function.update workers i w) slave =
      held home c holding slaves workers slave + if home i = slave then gain else 0 := by
  unfold held
  rw [summ, sum_group_update home holding workers grown, add_assoc]

omit [Fintype σ] in
theorem held_share {shared : SlaveState R} {moved : UInt64}
    (given : holding (workers i) = holding w + moved)
    (taken : shared.summ.counter c = (slaves (home i)).summ.counter c + moved) (slave : σ) :
    held home c holding (Function.update slaves (home i) shared) (Function.update workers i w) slave =
      held home c holding slaves workers slave := by
  have grown : holding w = holding (workers i) + -moved := by rw [given, add_neg_cancel_right]
  unfold held
  rw [sum_group_update home holding workers grown]
  by_cases here : home i = slave
  · subst here
    rw [Function.update_self, if_pos rfl, taken]
    rw [add_assoc, add_left_comm moved, add_neg_cancel, add_zero]
  · rw [Function.update_of_ne (Ne.symm here), if_neg here, add_zero]

end Held

/-! ### Where threads are -/

theorem threadStep_running {job : Job layout R} {ctx : SlaveCtx} {t : Thread R} (running : t.pc ≠ .done)
    (next : t.pc = .nextFile → t.files ≠ []) : (threadStep job ctx t).2.pc ≠ .done := by
  unfold threadStep
  cases pc : t.pc with
  | done => exact absurd pc running
  | nextFile =>
    dsimp only
    cases files : t.files with
    | nil => exact absurd files (next pc)
    | cons file rest =>
      dsimp only
      split <;> nofun
  | read =>
    dsimp only
    cases t.recs with
    | nil => nofun
    | cons record rest =>
      dsimp only
      split
      · nofun
      · split <;> nofun
  | full record | testFull record | tail | testTail =>
    dsimp only
    split <;> nofun
  | sendFull record | countFull record | setFull | countTail | setTail => nofun

/-- A thread that has left the loop over files has left an empty queue behind. -/
structure Placed (queue : List (FlowFile R)) (w : Worker M R) : Prop where
  emptied : w.place = .files ∨ queue = [] ∧ w.reader.pc = .nextFile
  running : w.reader.pc ≠ .done
  nodup : w.place.left.Nodup

/-- What a file does to a thread, whatever is skipped. -/
structure FileEffect (file : FlowFile R) (w w' : Worker M R) : Prop where
  place : w'.place = w.place
  metadata : ∀ info, w'.summ.metadataSumm.counter info =
    w.summ.metadataSumm.counter info + if file.opens then lnfInfo file info else 0
  running : w.reader.pc ≠ .done → w'.reader.pc ≠ .done

omit [DecidableEq τ] in
theorem processFileMt_effect {config : Config layout τ R M} {i : τ} {ctx : SlaveCtx} {w w' : Worker M R}
    {file : FlowFile R} (processed : processFileMt config i ctx w file = some w') :
    FileEffect file w w' := by
  unfold processFileMt at processed
  by_cases opens : file.opens = true
  · rw [if_pos opens] at processed
    have counted (info : LnfInfo) : (metadataSummUpdate w.summ.metadataSumm file).counter info =
        w.summ.metadataSumm.counter info + if file.opens then lnfInfo file info else 0 := by
      rw [metadataSummUpdate_counter, if_pos opens]
    dsimp only at processed
    split at processed
    · cases mode : config.workingMode with
      | unset => simp [mode] at processed
      | list =>
        rw [mode] at processed
        obtain rfl := Option.some.inj processed
        exact ⟨rfl, counted, fun running => threadStep_running running fun _ => List.cons_ne_nil _ _⟩
      | sort | aggr | metadata =>
        rw [mode] at processed
        obtain rfl := Option.some.inj processed
        exact ⟨rfl, counted, id⟩
    · obtain rfl := Option.some.inj processed
      exact ⟨rfl, counted, id⟩
  · rw [if_neg opens] at processed
    obtain rfl := Option.some.inj processed
    exact ⟨rfl, fun info => by rw [if_neg opens, add_zero], id⟩

section Placed

variable {config : Config layout τ R M} {home : τ → σ} {s s' : State σ τ M R}

omit [DecidableEq σ] [Fintype σ] in
theorem placed_update (slaves : σ → SlaveState R) {workers : τ → Worker M R} {i : τ} {w : Worker M R}
    (others : ∀ j, Placed (slaves (home j)).queue (workers j))
    (placed : Placed (slaves (home i)).queue w)
    (j : τ) : Placed (slaves (home j)).queue (Function.update workers i w j) := by
  by_cases here : j = i
  · subst here
    rwa [Function.update_self]
  · rw [Function.update_of_ne here]
    exact others j

omit [Fintype σ] [DecidableEq τ] in
theorem placed_dequeue (placed : ∀ i, Placed (s.slaves (home i)).queue (s.workers i)) {i : τ}
    {file : FlowFile R}
    {rest : List (FlowFile R)} (queue : (s.slaves (home i)).queue = file :: rest) (j : τ) :
    Placed (Function.update s.slaves (home i) ((s.slaves (home i)).setQueue rest) (home j)).queue
      (s.workers j) := by
  by_cases here : home j = home i
  · rw [here, Function.update_self]
    refine ⟨.inl ?_, (placed j).running, (placed j).nodup⟩
    refine (placed j).emptied.resolve_right ?_
    intro emptied
    rw [here, queue] at emptied
    cases emptied.1
  · rw [Function.update_of_ne here]
    exact placed j

omit [DecidableEq σ] [Fintype σ] in
theorem placed_local {slaves : σ → SlaveState R} {i : τ} {w : Worker M R}
    (placed : ∀ i, Placed (s.slaves (home i)).queue (s.workers i))
    (same : ∀ slave, (slaves slave).queue = (s.slaves slave).queue)
    (own : Placed (s.slaves (home i)).queue w)
    (j : τ) : Placed (slaves (home j)).queue (Function.update s.workers i w j) := by
  rw [same]
  exact placed_update s.slaves placed own j

omit [Fintype σ] [DecidableEq τ] in
theorem update_queue (slave : σ) {state : SlaveState R}
    (same : state.queue = (s.slaves slave).queue) (other : σ) :
    (Function.update s.slaves slave state other).queue = (s.slaves other).queue := by
  rw [Function.update_apply]
  split
  · rename_i here
    rw [here, same]
  · rfl

theorem step_placed (placed : ∀ i, Placed (s.slaves (home i)).queue (s.workers i))
    (step : Step config home s s') :
    ∀ i, Placed (s'.slaves (home i)).queue (s'.workers i) := by
  cases step with
  | @processFile i file rest w place between queue processed =>
    have effect := processFileMt_effect processed
    refine placed_update _ (placed_dequeue placed queue)
      ⟨.inl (effect.place.trans place), effect.running (placed i).running, ?_⟩
    rw [effect.place]
    exact (placed i).nodup
  | readAndSend i place reading running =>
    refine placed_local placed (update_queue _ rfl) ⟨.inl place, ?_, (placed i).nodup⟩
    exact threadStep_running running fun next => absurd next reading
  | endFiles i place between queue =>
    exact placed_local placed (fun _ => rfl) ⟨.inr ⟨queue, between⟩, (placed i).running,
      shareOrder_nodup⟩
  | @share i c left place =>
    have nodup := (placed i).nodup
    rw [place] at nodup
    refine placed_local placed (update_queue _ rfl)
      ⟨.inr ?_, (placed i).running, (List.nodup_cons.mp nodup).2⟩
    exact (placed i).emptied.resolve_left (by rw [place]; nofun)
  | postprocess i place set =>
    refine placed_local placed (fun _ => rfl) ⟨.inr ?_, (placed i).running, List.nodup_nil⟩
    exact (placed i).emptied.resolve_left (by rw [place]; nofun)
  | reduce done before all all' => exact placed

end Placed

/-! ### Accounts -/

/-- What a counter needs to be accounted for: the amount that the files of a queue stand for and what a
thread holds of it. `Fine` is what list mode has to keep to. -/
structure Account (config : Config layout τ R M) (c : Counter) (amount : List (FlowFile R) → UInt64)
    (holding : Worker M R → UInt64) (Fine : SlaveCtx → Thread R → Prop) : Prop where
  file : ∀ {i ctx w w' file}, w.place = .files → w.reader.pc = .nextFile → Fine ctx w.reader →
    processFileMt config i ctx w file = some w' →
    ∃ gain, holding w' = holding w + gain ∧ ∀ rest, amount (file :: rest) = gain + amount rest
  read : ∀ {ctx w}, w.place = .files → w.reader.pc ≠ .nextFile → w.reader.pc ≠ .done →
    Fine ctx w.reader →
    holding (readAndSend config ctx w) = holding w
  endFiles : ∀ {w}, w.place = .files → holding (w.goto (.sharing shareOrder)) = holding w
  share : ∀ {w d left}, w.place = .sharing (d :: left) → d ∉ left →
    holding w = holding (w.goto (.sharing left)) + if d = c then w.summ.counter c else 0
  postprocess : ∀ {w}, w.place = .sharing [] → holding (w.goto .done) = holding w
  fresh : ∀ {lnfMem reader}, reader.pc = .nextFile → holding ⟨.files, Summ.zero, lnfMem, reader⟩ = 0
  finished : ∀ {w}, w.place = .done → w.reader.pc = .nextFile → holding w = 0
  empty : amount [] = 0

section Account

variable [Fintype τ] {config : Config layout τ R M} {home : τ → σ} {s s' : State σ τ M R} {c : Counter}
  {amount : List (FlowFile R) → UInt64} {holding : Worker M R → UInt64}
  {Fine : SlaveCtx → Thread R → Prop}

omit [Fintype σ] [DecidableEq τ] [Fintype τ] in
theorem update_summ (slave : σ) {state : SlaveState R} (same : state.summ = (s.slaves slave).summ)
    (other : σ) :
    (Function.update s.slaves slave state other).summ = (s.slaves other).summ := by
  rw [Function.update_apply]
  split
  · rename_i here
    rw [here, same]
  · rfl

omit [Fintype σ] in
theorem balanced_local {slaves : σ → SlaveState R} {i : τ} {w : Worker M R}
    (summ : ∀ slave, (slaves slave).summ = (s.slaves slave).summ)
    (queue : ∀ slave, (slaves slave).queue = (s.slaves slave).queue)
    (kept : holding w = holding (s.workers i)) (slave : σ) :
    held home c holding slaves (Function.update s.workers i w) slave + amount (slaves slave).queue =
      held home c holding s.slaves s.workers slave + amount (s.slaves slave).queue := by
  rw [← add_zero (holding (s.workers i))] at kept
  rw [held_gain summ kept, ite_self, add_zero, queue]

omit [Fintype σ] in
theorem balanced_file {i : τ} {w : Worker M R} {file : FlowFile R} {state : SlaveState R} {gain : UInt64}
    (summ : state.summ = (s.slaves (home i)).summ)
    (queue : (s.slaves (home i)).queue = file :: state.queue)
    (grown : holding w = holding (s.workers i) + gain)
    (left : amount (file :: state.queue) = gain + amount state.queue) (slave : σ) :
    held home c holding (Function.update s.slaves (home i) state) (Function.update s.workers i w) slave +
        amount (Function.update s.slaves (home i) state slave).queue =
      held home c holding s.slaves s.workers slave + amount (s.slaves slave).queue := by
  rw [held_gain (update_summ _ summ) grown]
  by_cases here : home i = slave
  · subst here
    rw [if_pos rfl, Function.update_self, queue, left, add_assoc]
  · rw [if_neg here, Function.update_of_ne (Ne.symm here), add_zero]

omit [Fintype σ] in
theorem balanced_share {i : τ} {w : Worker M R} {state : SlaveState R} {moved : UInt64}
    (queue : state.queue = (s.slaves (home i)).queue) (given : holding (s.workers i) = holding w + moved)
    (taken : state.summ.counter c = (s.slaves (home i)).summ.counter c + moved) (slave : σ) :
    held home c holding (Function.update s.slaves (home i) state) (Function.update s.workers i w) slave +
        amount (Function.update s.slaves (home i) state slave).queue =
      held home c holding s.slaves s.workers slave + amount (s.slaves slave).queue := by
  rw [held_share given taken, update_queue _ queue]

theorem step_balanced (account : Account config c amount holding Fine)
    (placed : ∀ i, Placed (s.slaves (home i)).queue (s.workers i))
    (fine : ∀ i, Fine (s.slaves (home i)).ctx (s.workers i).reader) (step : Step config home s s')
    (slave : σ) :
    held home c holding s'.slaves s'.workers slave + amount (s'.slaves slave).queue =
      held home c holding s.slaves s.workers slave + amount (s.slaves slave).queue := by
  cases step <;> dsimp only
  case processFile i file rest w place between queue processed =>
    obtain ⟨gain, grown, left⟩ := account.file place between (fine i) processed
    exact balanced_file (by rfl) queue grown (left _) slave
  case readAndSend i place reading running =>
    have kept := account.read place reading running (fine i)
    exact balanced_local (update_summ _ (by rfl)) (update_queue _ (by rfl)) kept slave
  case endFiles i place between queue =>
    have kept := account.endFiles place
    exact balanced_local (fun _ => rfl) (fun _ => rfl) kept slave
  case share i d left place =>
    have nodup := (placed i).nodup
    rw [place] at nodup
    have given := account.share place (List.nodup_cons.mp nodup).1
    have taken : ((s.slaves (home i)).summ.share (s.workers i).summ d).counter c =
        (s.slaves (home i)).summ.counter c + if d = c then (s.workers i).summ.counter c else 0 := by
      by_cases this : d = c
      · rw [this, share_counter, if_pos rfl]
      · rw [share_other _ _ (Ne.symm this), if_neg this, add_zero]
    exact balanced_share (by rfl) given taken slave
  case postprocess i place set =>
    have kept := account.postprocess place
    exact balanced_local (fun _ => rfl) (fun _ => rfl) kept slave

end Account

end Fdistdump.Summary
