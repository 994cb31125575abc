import Fdistdump.ListMode.Delivery
import Fdistdump.ListMode.Scheduled
import Fdistdump.Main.System

/-!
# List mode inside a query

What slaves and master do in list mode is a run of the list mode system over the files that the
schedule has given to the threads so far and that their indexes have not skipped.
-/

namespace Fdistdump.Main
open Exchange Slave Args
open ListMode (SlaveCtx Thread threadStep threadStep_sent)
open Summary (Config Given Worker)

variable {R M σ τ H V T : Type} {layout : ListMode.RecordLayout} {lib : Libnf}
  {config : Config layout τ R M}

/-- Whether a thread reads a file. -/
def reads (config : Config layout τ R M) (i : τ) (file : FlowFile R) : Bool :=
  file.opens && (config.bfindex i).all fun contains => contains file

/-- A thread as the list mode system has it. -/
def listThread (config : Config layout τ R M) (w : Worker M R) (taken : Nat) : Thread R :=
  { w.reader with
    pc :=
      match w.place with
      | .done => .done
      | _ => w.reader.pc
    channel := (sent config w).drop taken }

def State.listing (config : Config layout τ R M) (s : State σ τ M R H V T) : ListMode.State σ τ R where
  slaves slave := (s.files.slaves slave).ctx
  threads i := listThread config (s.files.workers i) (s.taken i)
  master := s.listed

/-! ### The threads -/

section Threads

variable {w w' : Worker M R} {i : τ} {ctx : SlaveCtx} {file : FlowFile R} {taken : Nat}

theorem sent_running (running : w.place ≠ .done) : sent config w = w.reader.channel := by
  unfold sent
  split
  · rename_i done
    exact absurd done running
  · rfl

theorem listThread_running (running : w.place ≠ .done) :
    listThread config w taken = { w.reader with channel := w.reader.channel.drop taken } := by
  rw [listThread, sent_running running]
  cases place : w.place with
  | done => exact absurd place running
  | _ => rfl

/-- A step of the reader is a step of the thread, whatever has been received before. -/
theorem threadStep_listThread {t : Thread R} (running : w'.place ≠ .done)
    (few : taken ≤ t.channel.length) (reader : w'.reader = (threadStep config.job ctx t).2) :
    threadStep config.job ctx { t with channel := t.channel.drop taken } =
        ((threadStep config.job ctx t).1, listThread config w' taken) ∧
      taken ≤ (sent config w').length := by
  have split : { { t with channel := t.channel.drop taken } with
      channel := t.channel.take taken ++ t.channel.drop taken } = t := by
    rw [List.take_append_drop]
  have stepped := threadStep_sent config.job ctx { t with channel := t.channel.drop taken }
    (t.channel.take taken)
  rw [split] at stepped
  have length : (t.channel.take taken).length = taken := List.length_take_of_le few
  rw [listThread_running running, sent_running running, reader, stepped]
  refine ⟨?_, ?_⟩
  · dsimp only
    rw [List.drop_left' length]
  · simp [length]

theorem processFileMt_reads (list : config.workingMode = .list)
    (processed : Summary.processFileMt config i ctx w file = some w') :
    w'.place = w.place ∧ w'.reader =
      if reads config i file then (threadStep config.job ctx { w.reader with files := [file] }).2
      else w.reader := by
  unfold Summary.processFileMt at processed
  unfold reads
  cases opens : file.opens with
  | false =>
    rw [opens, if_neg Bool.false_ne_true] at processed
    obtain rfl := Option.some.inj processed
    exact ⟨rfl, rfl⟩
  | true =>
    rw [opens, if_pos rfl] at processed
    rw [Bool.true_and]
    dsimp only at processed
    cases contains : (config.bfindex i).all fun contains => contains file with
    | false =>
      rw [contains, if_neg Bool.false_ne_true] at processed
      obtain rfl := Option.some.inj processed
      exact ⟨rfl, rfl⟩
    | true =>
      rw [contains, if_pos rfl, list] at processed
      obtain rfl := Option.some.inj processed
      exact ⟨rfl, rfl⟩

end Threads

/-! ### Steps -/

variable [DecidableEq σ] [DecidableEq τ] [Fintype σ] [Fintype τ]

/-- The files in the queues and with the threads, and the run of the list mode system over what they
read. -/
structure Listed (config : Config layout τ R M) (e : Exchanges σ τ M H V T lib) (input : Input σ τ M H R)
    (s : State σ τ M R H V T) (assigned : τ → List (FlowFile R)) : Prop where
  taken : ∀ i, s.taken i ≤ (sent config (s.files.workers i)).length
  noFiles : ∀ i, (s.files.workers i).reader.files = []
  given : Given e.home input.files s.files assigned
  run : ListMode.Reachable config.job e.home (fun i => (assigned i).filter (reads config i))
    input.buffs (s.listing config)

variable {e : Exchanges σ τ M H V T lib} {input : Input σ τ M H R} {s s' : State σ τ M R H V T}
  {assigned : τ → List (FlowFile R)}

omit [Fintype σ] [Fintype τ] in
/-- What a step of one thread changes for the list mode system. -/
theorem listing_update (config : Config layout τ R M) {slaves : σ → Summary.SlaveState R}
    {ctx : SlaveCtx} {slave : σ}
    (same : ∀ n, (slaves n).ctx = Function.update (fun n => (s.files.slaves n).ctx) slave ctx n)
    (i : τ) (w : Worker M R) :
    { s with
      files := { s.files with slaves, workers := Function.update s.files.workers i w } }.listing
        config =
      { s.listing config with
        slaves := Function.update (s.listing config).slaves slave ctx
        threads := Function.update (s.listing config).threads i (listThread config w (s.taken i)) } := by
  have threads (j : τ) := Function.apply_update (fun k w => listThread config w (s.taken k))
    s.files.workers i w j
  simp only [State.listing, same, threads]

omit [Fintype σ] in
theorem Listed.update (listed : Listed config e input s assigned) {given : τ → List (FlowFile R)}
    {slaves : σ → Summary.SlaveState R} {ctx : SlaveCtx} {i : τ} {w : Worker M R}
    (ctxs : ∀ n, (slaves n).ctx = Function.update (fun n => (s.files.slaves n).ctx) (e.home i) ctx n)
    (few : s.taken i ≤ (sent config w).length) (noFiles : w.reader.files = [])
    (all : Given e.home input.files
      { s.files with slaves, workers := Function.update s.files.workers i w } given)
    (run : ListMode.Reachable config.job e.home (fun j => (given j).filter (reads config j)) input.buffs
      { s.listing config with
        slaves := Function.update (s.listing config).slaves (e.home i) ctx
        threads := Function.update (s.listing config).threads i (listThread config w (s.taken i)) }) :
    Listed config e input
      { s with files := { s.files with slaves, workers := Function.update s.files.workers i w } }
        given where
  taken := by
    apply (Function.forall_update_iff s.files.workers fun j worker =>
      s.taken j ≤ (sent config worker).length).mpr
    exact ⟨few, fun j _ => listed.taken j⟩
  noFiles := by
    apply (Function.forall_update_iff s.files.workers fun _ worker => worker.reader.files = []).mpr
    exact ⟨noFiles, fun j _ => listed.noFiles j⟩
  given := all
  run := by
    rw [listing_update config ctxs i w]
    exact run

omit [Fintype σ] in
/-- The thread, the flag and the counter of its slave are for the list mode system as they were. -/
theorem Listed.unread (listed : Listed config e input s assigned) {given : τ → List (FlowFile R)}
    {slaves : σ → Summary.SlaveState R} {i : τ} {w : Worker M R}
    (ctxs : ∀ n, (slaves n).ctx = (s.files.slaves n).ctx)
    (reader : w.reader = (s.files.workers i).reader) (before : (s.files.workers i).place ≠ .done)
    (after : w.place ≠ .done) (all : Given e.home input.files
      { s.files with slaves, workers := Function.update s.files.workers i w } given)
    (unread : ∀ j, (given j).filter (reads config j) = (assigned j).filter (reads config j)) :
    Listed config e input
      { s with files := { s.files with slaves, workers := Function.update s.files.workers i w } }
        given := by
  have thread : listThread config w (s.taken i) = (s.listing config).threads i :=
    (listThread_running after).trans (reader ▸ (listThread_running before).symm)
  have few : s.taken i ≤ (sent config w).length := by
    rw [sent_running after, reader, ← sent_running before]
    exact listed.taken i
  have same : ∀ n, (slaves n).ctx =
      Function.update (fun n => (s.files.slaves n).ctx) (e.home i)
        (s.files.slaves (e.home i)).ctx n := by
    intro n
    rw [ctxs, Function.update_eq_self]
  refine listed.update same few (reader ▸ listed.noFiles i) all ?_
  have ctx : Function.update (s.listing config).slaves (e.home i) (s.files.slaves (e.home i)).ctx =
      (s.listing config).slaves := Function.update_eq_self _ _
  rw [ctx, thread, Function.update_eq_self]
  simp only [unread]
  exact listed.run

omit [Fintype σ] in
/-- The thread takes a step of `ff_read_and_send`, from where it stood or with the file that it has
just got. -/
theorem Listed.step (listed : Listed config e input s assigned) {given : τ → List (FlowFile R)}
    {slaves : σ → Summary.SlaveState R} {i : τ} {t : Thread R} {w : Worker M R}
    (ctxs : ∀ n, (slaves n).ctx = Function.update (fun n => (s.files.slaves n).ctx) (e.home i)
      (threadStep config.job (s.files.slaves (e.home i)).ctx t).1 n)
    (few : s.taken i ≤ t.channel.length) (noFiles : w.reader.files = []) (place : w.place ≠ .done)
    (reader : w.reader = (threadStep config.job (s.files.slaves (e.home i)).ctx t).2)
    (running : t.pc ≠ .done) (all : Given e.home input.files
      { s.files with slaves, workers := Function.update s.files.workers i w } given)
    (run : ListMode.Reachable config.job e.home (fun j => (given j).filter (reads config j)) input.buffs
      ((s.listing config).setThread i { t with channel := t.channel.drop (s.taken i) })) :
    Listed config e input
      { s with files := { s.files with slaves, workers := Function.update s.files.workers i w } }
        given := by
  obtain ⟨stepped, few'⟩ := threadStep_listThread place few reader
  have left : ({ t with channel := t.channel.drop (s.taken i) } : Thread R).pc ≠ .done := running
  have step : ListMode.Step config.job e.home _ _ := ListMode.step_setThread (s.listing config) i left
  have slave : (s.listing config).slaves (e.home i) = (s.files.slaves (e.home i)).ctx := rfl
  rw [slave, stepped] at step
  exact listed.update ctxs few' noFiles all (run.tail step)

omit [Fintype σ] in
theorem update_ctx (slaves : σ → Summary.SlaveState R) (slave : σ)
    (state : Summary.SlaveState R) (n : σ) :
    (Function.update slaves slave state n).ctx = Function.update (fun n => (slaves n).ctx) slave
      state.ctx n :=
  Function.apply_update (fun _ state => Summary.SlaveState.ctx state) slaves slave state n

omit [Fintype σ] in
theorem Listed.readAndSend (listed : Listed config e input s assigned) {i : τ}
    (place : (s.files.workers i).place = .files) (running : (s.files.workers i).reader.pc ≠ .done) :
    Listed config e input
      { s with
        files :=
          { s.files with
            slaves := Function.update s.files.slaves (e.home i)
              ((s.files.slaves (e.home i)).setCtx
                (threadStep config.job (s.files.slaves (e.home i)).ctx (s.files.workers i).reader).1)
            workers := Function.update s.files.workers i
              (Summary.readAndSend config (s.files.slaves (e.home i)).ctx (s.files.workers i)) } }
                assigned := by
  have before : (s.files.workers i).place ≠ .done := by simp [place]
  have few : s.taken i ≤ (s.files.workers i).reader.channel.length :=
    sent_running before ▸ listed.taken i
  have here : (s.listing config).setThread i
      { (s.files.workers i).reader with
        channel := (s.files.workers i).reader.channel.drop (s.taken i) } =
        s.listing config := by
    rw [← listThread_running before, ListMode.State.setThread]
    exact congrArg (ListMode.State.mk _ · _) (Function.update_eq_self i (s.listing config).threads)
  refine listed.step (update_ctx _ _ _) few ?_ before rfl running
    (listed.given.kept (Summary.update_queue _ rfl)) ?_
  · exact ListMode.threadStep_files _ _ (by rw [listed.noFiles i]; rfl) fun _ => listed.noFiles i
  · rw [here]
    exact listed.run

omit [Fintype σ] [Fintype τ] in
theorem filter_given (config : Config layout τ R M) (assigned : τ → List (FlowFile R)) (i : τ)
    (file : FlowFile R) (j : τ) :
    (Function.update assigned i (assigned i ++ [file]) j).filter (reads config j) =
      Function.update (fun j => (assigned j).filter (reads config j)) i
        ((assigned i).filter (reads config i) ++ if reads config i file then [file] else []) j := by
  have last : [file].filter (reads config i) = if reads config i file then [file] else [] := by
    rw [List.filter_cons, List.filter_nil]
  rw [← last, ← List.filter_append]
  exact Function.apply_update (fun j files => List.filter (reads config j) files) assigned i _ j

omit [Fintype σ] in
theorem Listed.processFile (list : config.workingMode = .list)
    (listed : Listed config e input s assigned) {i : τ}
    {file : FlowFile R} {rest : List (FlowFile R)} {w : Worker M R}
    (place : (s.files.workers i).place = .files)
    (between : (s.files.workers i).reader.pc = .nextFile)
    (queue : (s.files.slaves (e.home i)).queue = file :: rest)
    (processed : Summary.processFileMt config i (s.files.slaves (e.home i)).ctx
      (s.files.workers i) file = some w) :
    Listed config e input
      { s with
        files :=
          { s.files with
            slaves := Function.update s.files.slaves (e.home i)
              ((s.files.slaves (e.home i)).setQueue rest)
            workers := Function.update s.files.workers i w } }
      (Function.update assigned i (assigned i ++ [file])) := by
  obtain ⟨place', reader⟩ := processFileMt_reads list processed
  have before : (s.files.workers i).place ≠ .done := by simp [place]
  have few : s.taken i ≤ (s.files.workers i).reader.channel.length :=
    sent_running before ▸ listed.taken i
  have all : Given e.home input.files
      { s.files with
        slaves := Function.update s.files.slaves (e.home i) ((s.files.slaves (e.home i)).setQueue rest)
        workers := Function.update s.files.workers i w }
          (Function.update assigned i (assigned i ++ [file])) :=
    listed.given.take queue rfl
  have ctxs := update_ctx s.files.slaves (e.home i) ((s.files.slaves (e.home i)).setQueue rest)
  by_cases read : reads config i file = true
  · obtain ⟨t, begun⟩ : ∃ t : Thread R, { (s.files.workers i).reader with files := [file] } =
      t := ⟨_, rfl⟩
    have next : t.pc = .nextFile := begun ▸ between
    rw [if_pos read, begun] at reader
    have thread : ((s.listing config).threads i).give file =
        { t with channel := t.channel.drop (s.taken i) } := by
      show (listThread config _ _).give file = _
      rw [listThread_running before, Thread.give, ← begun]
      dsimp only
      rw [listed.noFiles i, List.nil_append]
    have running : ((s.listing config).threads i).pc ≠ .done := by
      show (listThread config _ _).pc ≠ _
      simp [listThread_running before, between]
    have run := listed.run.give running file
    rw [ListMode.State.give, thread] at run
    have ctx : ((s.files.slaves (e.home i)).setQueue rest).ctx =
        (threadStep config.job (s.files.slaves (e.home i)).ctx t).1 :=
          (ListMode.threadStep_nextFile _ _ next).symm
    refine listed.step (ctx ▸ ctxs) (begun ▸ few) ?_ (place' ▸ before) reader (by simp [next]) all ?_
    · rw [reader]
      exact ListMode.threadStep_files _ _ (begun ▸ rfl) fun reading => absurd next reading
    · simp only [filter_given, if_pos read]
      exact run
  · rw [if_neg read] at reader
    refine listed.unread (fun n => (ctxs n).trans ?_) reader before (place' ▸ before) all fun j => ?_
    · exact congrFun (Function.update_eq_self (e.home i) fun n => (s.files.slaves n).ctx) n
    · rw [filter_given, if_neg read, List.append_nil]
      exact congrFun (Function.update_eq_self i fun j => (assigned j).filter (reads config j)) j

omit [Fintype σ] in
/-- `postprocess_mt` sends the terminator. -/
theorem Listed.postprocess (list : config.workingMode = .list)
    (listed : Listed config e input s assigned) {i : τ}
    (place : (s.files.workers i).place = .sharing [])
    (next : (s.files.workers i).reader.pc = .nextFile) :
    Listed config e input
      { s with
        files :=
          { s.files with workers := Function.update s.files.workers i ((s.files.workers i).goto
            .done) } }
      assigned := by
  have before : (s.files.workers i).place ≠ .done := by simp [place]
  have few : s.taken i ≤ (s.files.workers i).reader.channel.length :=
    sent_running before ▸ listed.taken i
  have all : sent config ((s.files.workers i).goto .done) = (s.files.workers i).reader.channel ++
      [[]] := by
    rw [sent, list]
    rfl
  have stepped : threadStep config.job ((s.listing config).slaves (e.home i))
    ((s.listing config).threads i) =
      ((s.files.slaves (e.home i)).ctx, listThread config ((s.files.workers i).goto .done)
        (s.taken i)) := by
    show threadStep config.job (s.files.slaves (e.home i)).ctx (listThread config _ _) = _
    rw [listThread_running before, listThread, all, List.drop_append_of_le_length few]
    simp only [threadStep, next, listed.noFiles i, Worker.goto]
  have running : ((s.listing config).threads i).pc ≠ .done := by
    show (listThread config _ _).pc ≠ _
    simp [listThread_running before, next]
  have step : ListMode.Step config.job e.home _ _ := .thread i running
  rw [ListMode.State.runThread, stepped] at step
  refine listed.update (fun n => ?_) (all ▸ few.trans (by simp)) (listed.noFiles i)
    (listed.given.kept fun _ => rfl)
    (listed.run.tail step)
  exact congrFun (Function.update_eq_self (e.home i) fun n => (s.files.slaves n).ctx).symm n

omit [DecidableEq σ] [DecidableEq τ] [Fintype σ] [Fintype τ] in
theorem inFlight_next {i : τ} {msg : Bytes} {rest : List Bytes}
    (queued : s.inFlight config i = msg :: rest) :
    (sent config (s.files.workers i)).drop (s.taken i + 1) = rest := by
  rw [← List.drop_drop]
  exact congrArg (List.drop 1) queued

omit [Fintype σ] in
theorem Listed.receive (listed : Listed config e input s assigned) {i : τ} {msg : Bytes}
    {rest : List Bytes}
    (queued : s.inFlight config i = msg :: rest) (receiving : s.listed.activeSources ≠ 0) :
    Listed config e input
      { s with
        listed := recvMessage config.recLimit s.listed msg
        taken := Function.update s.taken i (s.taken i + 1) } assigned where
  taken := by
    apply (Function.forall_update_iff s.taken fun j taken =>
      taken ≤ (sent config (s.files.workers j)).length).mpr
    have below : s.taken i < (sent config (s.files.workers i)).length := by
      by_contra past
      rw [State.inFlight, List.drop_eq_nil_of_le (by omega)] at queued
      cases queued
    exact ⟨below, fun j _ => listed.taken j⟩
  noFiles := listed.noFiles
  given := listed.given
  run := by
    have step : ListMode.Step config.job e.home (s.listing config)
        ((s.listing config).deliver config.job i msg rest) :=
      .deliver i queued receiving
    have same : (s.listing config).deliver config.job i msg rest =
        { s with
          listed := recvMessage config.recLimit s.listed msg
          taken := Function.update s.taken i (s.taken i + 1) }.listing config := by
      simp only [ListMode.State.deliver, State.listing]
      congr 1
      funext j
      by_cases here : j = i
      · subst here
        rw [Function.update_self, Function.update_self]
        simp only [listThread, inFlight_next queued]
      · rw [Function.update_of_ne here, Function.update_of_ne here]
    exact same ▸ listed.run.tail step

theorem Step.listed (list : config.workingMode = .list) (joined : Joined config e s)
    (step : Step config e s s')
    (listed : Listed config e input s assigned) : ∃ assigned, Listed config e input s' assigned := by
  cases step with
  | @files files step free last =>
    cases step with
    | processFile i place between queue processed =>
      exact ⟨_, listed.processFile list place between queue processed⟩
    | readAndSend i place reading running => exact ⟨_, listed.readAndSend place running⟩
    | endFiles i place between queue =>
      exact ⟨_, listed.unread (fun _ => rfl) rfl
        (by rw [place]; nofun) nofun (listed.given.kept fun _ => rfl) fun _ => rfl⟩
    | share i place =>
      refine ⟨_, listed.unread (fun n => ?_) rfl (by rw [place]; nofun) nofun
        (listed.given.kept (Summary.update_queue _ rfl)) fun _ => rfl⟩
      rw [update_ctx]
      exact congrFun (Function.update_eq_self (e.home i) fun n => (s.files.slaves n).ctx) n
    | postprocess i place set =>
      have left := (joined.placed i).emptied.resolve_left (by rw [place]; nofun)
      exact ⟨_, listed.postprocess list place left.2⟩
    | reduce done before all all' =>
      exact ⟨_, listed.taken, listed.noFiles, listed.given.kept fun _ => rfl, listed.run⟩
  | exchange step participants => exact ⟨_, listed.taken, listed.noFiles, listed.given, listed.run⟩
  | receive i queued receiving => exact ⟨_, listed.receive queued receiving⟩

theorem Reachable.listed (list : config.workingMode = .list) (reached : Reachable config e input s) :
    ∃ assigned, Listed config e input s assigned := by
  have keeps : ∀ a b : State σ τ M R H V T,
    (Joined config e a ∧ ∃ assigned, Listed config e input a assigned) →
      Step config e a b → Joined config e b ∧ ∃ assigned, Listed config e input b assigned := by
    rintro a b ⟨joined, assigned, listed⟩ step
    exact ⟨step_joined a b joined step, step.listed list joined listed⟩
  have begun : (initial e input : State σ τ M R H V T).listing config =
      ListMode.initial (fun i => ([] : List (FlowFile R)).filter (reads config i)) input.buffs := by
    simp only [State.listing, initial, Summary.initial, ListMode.initial, List.filter_nil]
    congr 1
    funext i
    simp [listThread, sent]
  have begins : Listed config e input (initial e input) fun _ => [] :=
    { taken := fun _ => Nat.zero_le _
      noFiles := fun _ => rfl
      given := fun slave => by simp [initial, Input.cluster, Summary.initial]
      run := begun ▸ .refl }
  exact (Transition.invariant_of_steps keeps ⟨initial_joined, _, begins⟩ reached).2

/-! ### The end of list mode -/

omit [DecidableEq σ] [DecidableEq τ] [Fintype σ] in
theorem listing_place {i : τ} (joined : Joined config e s)
    (done : ((s.listing config).threads i).pc = .done) :
    (s.files.workers i).place = .done := by
  by_contra running
  have pc : ((s.listing config).threads i).pc = (s.files.workers i).reader.pc := by
    show (listThread config _ _).pc = _
    rw [listThread_running running]
  exact (joined.placed i).running (pc ▸ done)

omit [Fintype σ] in
/-- `recv_loop` returns when all threads have sent their terminators. -/
theorem Listed.returned (fits : layout.space ≤ xchgBuffSize) (joined : Joined config e s)
    (listed : Listed config e input s assigned) (returned : s.listed.activeSources = 0) (i : τ) :
    (s.files.workers i).place = .done := by
  obtain ⟨b, explains⟩ := ListMode.reachable_explained fits listed.run
  exact listing_place joined ((explains.threads i).done (explains.terminated returned i))

omit [Fintype σ] in
/-- Until `recv_loop` returns and while no thread has more to send, some message is in flight. -/
theorem Listed.message (fits : layout.space ≤ xchgBuffSize) (listed : Listed config e input s assigned)
    (done : ∀ i, (s.files.workers i).place = .done) (receiving : s.listed.activeSources ≠ 0) :
    ∃ i msg rest, s.inFlight config i = msg :: rest := by
  obtain ⟨_, step⟩ := ListMode.step_possible config.job e.home
    (ListMode.reachable_explained fits listed.run) receiving
  cases step with
  | thread i running =>
    have ended : ((s.listing config).threads i).pc = .done := by
      show (listThread config _ _).pc = _
      rw [listThread, done i]
    exact absurd ended running
  | deliver i queued _ => exact ⟨i, _, _, queued⟩

end Fdistdump.Main
