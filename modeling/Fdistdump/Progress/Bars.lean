import Fdistdump.Output.FieldToStr
import Fdistdump.Progress.Completion
import Fdistdump.Progress.Percentage

/-!
# What the progress bar shows

The bars that `progress_bar_print` prints in a run, their percentages, and their texts in a stream
and in a file.
-/

namespace Fdistdump.Progress
open Slave
open Summary (Cluster)

variable {R σ τ : Type}

/-! ### The text of a bar -/

/-- `stdout` and `stderr` are streams; every other destination is a file. -/
inductive OutStream
  | stream
  | file
deriving DecidableEq, Repr

def ProgressBarCtx.totalPercentage (pbCtx : ProgressBarCtx σ) : Nat :=
  percentage pbCtx.filesCntSum pbCtx.filesCntGoalSum

def ProgressBarCtx.sourcePercentage (pbCtx : ProgressBarCtx σ) (source : σ) : Nat :=
  percentage (pbCtx.filesCnt source) (pbCtx.filesCntGoal source)

/-- `PROGRESS_BAR_FMT`. -/
def progressBarFmt (cnt goal percentage : Nat) : String :=
  toString cnt ++ "/" ++ toString goal ++ " (" ++ toString percentage ++ " %)"

def perslavePart (pbCtx : ProgressBarCtx σ) (i : Nat) (source : σ) : String :=
  " | " ++ toString (i + 1) ++ ": " ++
    progressBarFmt (pbCtx.filesCnt source) (pbCtx.filesCntGoal source) (pbCtx.sourcePercentage source)

def jsonPart (pbCtx : ProgressBarCtx σ) (i : Nat) (source : σ) : String :=
  ",\"slave" ++ toString (i + 1) ++ "\":" ++ toString (pbCtx.sourcePercentage source)

/-- What `progress_bar_print` puts out; `sources` are the slaves in the order of their ranks. -/
def progressBarText (outStream : OutStream) (sources : List σ) (pbCtx : ProgressBarCtx σ) : String :=
  (match pbCtx.type with
    | .total =>
      "reading files: " ++ progressBarFmt pbCtx.filesCntSum pbCtx.filesCntGoalSum pbCtx.totalPercentage
    | .perslave =>
      "reading files: total: " ++ progressBarFmt pbCtx.filesCntSum pbCtx.filesCntGoalSum
        pbCtx.totalPercentage ++
        String.join (sources.mapIdx (perslavePart pbCtx))
    | .json =>
      "\x7b\"total\":" ++ toString pbCtx.totalPercentage ++ String.join
        (sources.mapIdx (jsonPart pbCtx)) ++ "\x7d"
    | .none | .unset => "") ++
  match outStream with
  | .stream => if pbCtx.filesCntSum = pbCtx.filesCntGoalSum then " DONE\n" else " ...\r"
  | .file => "\n"

/-- The file after it has been written from its beginning. -/
def overwrite (content : List Char) (text : String) : List Char :=
  text.toList ++ content.drop text.length

/-! ### Overwriting -/

theorem foldl_overwrite {texts : List String} (longer : texts.Pairwise fun a b => a.length ≤ b.length) :
    texts.foldl overwrite [] = texts.getLast?.elim [] String.toList := by
  induction texts using List.reverseRecOn with
  | nil => rfl
  | append_singleton texts text ih =>
    obtain ⟨earlier, -, below⟩ := List.pairwise_append.mp longer
    rw [List.foldl_append, ih earlier, List.getLast?_concat]
    have covered : (texts.getLast?.elim [] String.toList).length ≤ text.length := by
      cases last : texts.getLast? with
      | none => exact Nat.zero_le _
      | some bar => exact below bar (List.mem_of_getLast? last) text (List.mem_singleton_self _)
    rw [List.foldl_cons, List.foldl_nil, overwrite, List.drop_eq_nil_of_le covered, List.append_nil]
    rfl

theorem toString_length_mono {a b : Nat} (le : a ≤ b) : (toString a).length ≤ (toString b).length := by
  have digits : b < 10 ^ (toString b).length := (Nat.length_repr_le_iff Nat.length_repr_pos).mp
    (Nat.le_refl _)
  exact (Nat.length_repr_le_iff Nat.length_repr_pos).mpr (le.trans_lt digits)

theorem join_mapIdx_length {f g : Nat → σ → String}
    (le : ∀ i source, (f i source).length ≤ (g i source).length) (sources : List σ) :
    (String.join (sources.mapIdx f)).length ≤ (String.join (sources.mapIdx g)).length := by
  induction sources generalizing f g with
  | nil => exact Nat.le_refl _
  | cons source rest ih =>
    have first := le 0 source
    have others := ih fun i => le (i + 1)
    simp only [List.mapIdx_cons, String.join_cons, String.length_append]
    omega

theorem progressBarFmt_length {cnt cnt' goal p p' : Nat} (cnts : cnt ≤ cnt') (percentages : p ≤ p') :
    (progressBarFmt cnt goal p).length ≤ (progressBarFmt cnt' goal p').length := by
  have first := toString_length_mono cnts
  have last := toString_length_mono percentages
  simp only [progressBarFmt, String.length_append]
  omega

/-! ### Bars one after another -/

/-- The second bar comes later in the same run. -/
structure Grows (a b : ProgressBarCtx σ) : Prop where
  type : a.type = b.type
  goal : a.filesCntGoal = b.filesCntGoal
  goalSum : a.filesCntGoalSum = b.filesCntGoalSum
  cnt : ∀ slave, a.filesCnt slave ≤ b.filesCnt slave
  sum : a.filesCntSum ≤ b.filesCntSum

theorem Grows.trans {a b c : ProgressBarCtx σ} (first : Grows a b) (second : Grows b c) : Grows a c where
  type := first.type.trans second.type
  goal := first.goal.trans second.goal
  goalSum := first.goalSum.trans second.goalSum
  cnt slave := (first.cnt slave).trans (second.cnt slave)
  sum := first.sum.trans second.sum

theorem Grows.totalPercentage {a b : ProgressBarCtx σ} (grows : Grows a b) :
    a.totalPercentage ≤ b.totalPercentage := by
  rw [ProgressBarCtx.totalPercentage, grows.goalSum]
  exact percentage_mono grows.sum

theorem Grows.sourcePercentage {a b : ProgressBarCtx σ} (grows : Grows a b) (slave : σ) :
    a.sourcePercentage slave ≤ b.sourcePercentage slave := by
  rw [ProgressBarCtx.sourcePercentage, grows.goal]
  exact percentage_mono (grows.cnt slave)

theorem progressBarText_length (sources : List σ) {a b : ProgressBarCtx σ} (grows : Grows a b) :
    (progressBarText .file sources a).length ≤ (progressBarText .file sources b).length := by
  have total : (progressBarFmt a.filesCntSum a.filesCntGoalSum a.totalPercentage).length ≤
      (progressBarFmt b.filesCntSum b.filesCntGoalSum b.totalPercentage).length := by
    rw [← grows.goalSum]
    exact progressBarFmt_length grows.sum grows.totalPercentage
  have perslave : ∀ i source, (perslavePart a i source).length ≤ (perslavePart b i source).length := by
    intro i source
    have part : (progressBarFmt (a.filesCnt source) (b.filesCntGoal source) _).length ≤ _ :=
      progressBarFmt_length (grows.cnt source) (grows.sourcePercentage source)
    simp only [perslavePart, grows.goal, String.length_append]
    omega
  have json : ∀ i source, (jsonPart a i source).length ≤ (jsonPart b i source).length := by
    intro i source
    have part := toString_length_mono (grows.sourcePercentage source)
    simp only [jsonPart, String.length_append]
    omega
  have number := toString_length_mono grows.totalPercentage
  have slaves := join_mapIdx_length perslave sources
  have members := join_mapIdx_length json sources
  unfold progressBarText
  rw [grows.type]
  cases b.type with
  | total | perslave | json =>
    simp only [String.length_append]
    omega
  | none | unset => exact Nat.le_refl _

/-- What a step does to the bar. -/
inductive BarStep (s s' : State σ τ R) : Prop
  | quiet (bar : s'.pbCtx = s.pbCtx) (i : s'.i = s.i)
      (phase : s'.phase = s.phase ∨ s.phase = .receiving ∧ s'.phase = .done)
  | gather (phase : s.phase = .gathering) (phase' : s'.phase = .receiving) (i : s'.i = s.i)
      (type : s'.pbCtx.type = s.pbCtx.type)
  | receive (phase : s.phase = .receiving) (phase' : s'.phase = .receiving) (i : s'.i = s.i + 1)
      (grows : Grows s.pbCtx s'.pbCtx)

/-- The bar is printed when the goals are known and whenever a message has been received. -/
def shownBy (s s' : State σ τ R) : List (ProgressBarCtx σ) :=
  if (s.phase = .gathering ∧ s'.phase = .receiving ∨ s.i < s'.i) ∧ s'.pbCtx.type ≠ .none then [s'.pbCtx] else []

variable {s s' : State σ τ R} {bars : List (ProgressBarCtx σ)}

theorem shownBy_printed (printed : s.phase = .gathering ∧ s'.phase = .receiving ∨ s.i < s'.i) :
    shownBy s s' = if s'.pbCtx.type ≠ .none then [s'.pbCtx] else [] :=
  if_congr (and_iff_right printed) rfl rfl

variable [Fintype σ]

theorem State.print_eq (s : State σ τ R) :
    s.print.pbCtx = s.pbCtx ∧ s.print.phase = s.phase ∧ s.print.i = s.i := by
  unfold State.print
  split <;> exact ⟨rfl, rfl, rfl⟩

/-- The sums are those of the slaves, and no count is above its goal. -/
structure ProgressBarCtx.Sound (pbCtx : ProgressBarCtx σ) : Prop where
  sum : pbCtx.filesCntSum = ∑ slave, pbCtx.filesCnt slave
  goalSum : pbCtx.filesCntGoalSum = ∑ slave, pbCtx.filesCntGoal slave
  cnt : ∀ slave, pbCtx.filesCnt slave ≤ pbCtx.filesCntGoal slave

/-- The invariant of the bars that were printed on the way to `s`. -/
structure BarsOk (s : State σ τ R) (bars : List (ProgressBarCtx σ)) : Prop where
  early : s.phase = .gathering → s.i = 0 ∧ bars = []
  silent : s.pbCtx.type = .none → bars = []
  counts : s.phase ≠ .gathering → s.pbCtx.type ≠ .none → bars.map (·.filesCntSum) = List.range (s.i + 1)
  last : s.phase ≠ .gathering → s.pbCtx.type ≠ .none → bars.getLast? = some s.pbCtx
  ascending : bars.Pairwise Grows
  before : ∀ bar ∈ bars, Grows bar s.pbCtx
  sound : ∀ bar ∈ bars, bar.Sound

/-- Nothing is printed, and the bar stays as it is. -/
theorem BarsOk.quiet (ok : BarsOk s bars) (bar : s'.pbCtx = s.pbCtx) (i : s'.i = s.i)
    (phase : s'.phase = s.phase ∨ s.phase = .receiving ∧ s'.phase = .done) :
    BarsOk s' (bars ++ shownBy s s') := by
  have gathering : s'.phase = .gathering ↔ s.phase = .gathering := by
    rcases phase with same | ⟨receiving, done⟩
    · rw [same]
    · simp [receiving, done]
  have nothing : shownBy s s' = [] := by
    apply if_neg
    rintro ⟨⟨before, after⟩ | more, -⟩
    · rw [gathering.mpr before] at after
      cases after
    · omega
  rw [nothing, List.append_nil]
  exact
    { early := by
        rw [i, gathering]
        exact ok.early
      silent := by
        rw [bar]
        exact ok.silent
      counts := by
        rw [bar, i, Ne, gathering]
        exact ok.counts
      last := by
        rw [bar, Ne, gathering]
        exact ok.last
      ascending := ok.ascending
      before := by
        rw [bar]
        exact ok.before
      sound := ok.sound }

/-- Another bar is printed, the one of the new state. -/
theorem BarsOk.print (sound : s'.pbCtx.Sound) (gathered : s'.phase ≠ .gathering)
    (counts : s'.pbCtx.type ≠ .none → bars.map (·.filesCntSum) = List.range s'.i)
    (count : s'.i = s'.pbCtx.filesCntSum)
    (silent : s'.pbCtx.type = .none → bars = []) (ascending : bars.Pairwise Grows)
    (before : ∀ bar ∈ bars, Grows bar s'.pbCtx) (sounds : ∀ bar ∈ bars, bar.Sound) :
    BarsOk s' (bars ++ if s'.pbCtx.type ≠ .none then [s'.pbCtx] else []) := by
  have self : Grows s'.pbCtx s'.pbCtx := ⟨rfl, rfl, rfl, fun _ => le_rfl, le_rfl⟩
  by_cases none : s'.pbCtx.type = .none
  · rw [if_neg (not_not.mpr none), List.append_nil]
    exact ⟨fun gathering => absurd gathering gathered, silent, fun _ shown => absurd none shown,
      fun _ shown => absurd none shown, ascending, before, sounds⟩
  · rw [if_pos none]
    refine ⟨fun gathering => absurd gathering gathered, fun hidden => absurd hidden none, ?_, ?_,
      ?_, ?_, ?_⟩
    · intro _ _
      rw [List.map_append, counts none, List.map_singleton, List.range_succ, count]
    · intro _ _
      exact List.getLast?_concat
    · refine List.pairwise_append.mpr ⟨ascending, List.pairwise_singleton _ _, ?_⟩
      intro bar member last isLast
      obtain rfl := List.mem_singleton.mp isLast
      exact before bar member
    · refine List.forall_mem_append.mpr ⟨before, ?_⟩
      exact List.forall_mem_singleton.mpr self
    · refine List.forall_mem_append.mpr ⟨sounds, ?_⟩
      exact List.forall_mem_singleton.mpr sound

/-! ### The bars of a run -/

section Bars
variable [DecidableEq σ] [DecidableEq τ]

/-- A run to `s` that has printed `bars`. -/
inductive Shows (config : Config τ R) (cluster : Cluster σ τ R) :
    State σ τ R → List (ProgressBarCtx σ) → Prop
  | start : Shows config cluster (initial config cluster) []
  | step {s s' : State σ τ R} {bars : List (ProgressBarCtx σ)} (before : Shows config cluster s bars)
      (step : Step config cluster s s') : Shows config cluster s' (bars ++ shownBy s s')

variable {config : Config τ R} {cluster : Cluster σ τ R}

theorem Shows.reachable (shows : Shows config cluster s bars) : Reachable config cluster s := by
  induction shows with
  | start => exact .refl
  | step before step ih => exact ih.tail step

theorem Reachable.shows (reachable : Reachable config cluster s) :
    ∃ bars, Shows config cluster s bars := by
  induction reachable with
  | refl => exact ⟨[], .start⟩
  | tail before step ih =>
    obtain ⟨bars, shows⟩ := ih
    exact ⟨_, shows.step step⟩

theorem Step.bar (step : Step config cluster s s') : BarStep s s' := by
  cases step with
  | gather phase all =>
    obtain ⟨bar, phase', i⟩ := (s.gathered _).print_eq
    exact .gather phase phase' i (by rw [bar]; rfl)
  | @receive i front back phase more arrived =>
    obtain ⟨bar, phase', loop⟩ := (s.received (cluster.home i) (front ++ back)).print_eq
    refine .receive phase (phase'.trans phase) loop ?_
    rw [bar]
    refine ⟨rfl, rfl, rfl, ?_, Nat.le_succ _⟩
    intro slave
    show s.pbCtx.filesCnt slave ≤ Function.update s.pbCtx.filesCnt (cluster.home i) _ slave
    by_cases same : slave = cluster.home i
    · rw [same, Function.update_self]
      exact Nat.le_succ _
    · rw [Function.update_of_ne same]
  | endReceiving phase all => exact .quiet rfl rfl (.inr ⟨phase, rfl⟩)
  | _ => exact .quiet rfl rfl (.inl rfl)

theorem Shows.type (shows : Shows config cluster s bars) :
    s.pbCtx.type = if config.destOpens then argParseType config.progressBarType else .none := by
  induction shows with
  | start => rfl
  | step before step ih =>
    rw [← ih]
    cases step.bar with
    | quiet bar _ _ => rw [bar]
    | gather _ _ _ type => exact type
    | receive _ _ _ grows => exact grows.type.symm

theorem Shows.shown (shows : Shows config cluster s bars) (opens : config.destOpens = true)
    (wanted : config.progressBarType ≠ .none) : s.pbCtx.type ≠ .none := by
  rw [shows.type, if_pos opens, argParseType]
  split
  · decide
  · exact wanted

variable [Fintype τ]

omit [DecidableEq τ] in
theorem Accounts.sound (accounts : Accounts cluster s) (gathered : s.phase ≠ .gathering) :
    s.pbCtx.Sound := by
  obtain ⟨goal, goalSum⟩ := accounts.goals gathered
  refine ⟨accounts.sum, by rw [goalSum, goal], ?_⟩
  intro slave
  obtain ⟨counted, sent⟩ := accounts.filesCnt_le slave
  rw [goal]
  exact Nat.le_trans counted sent

theorem step_barsOk (accounts : Accounts cluster s) (ok : BarsOk s bars)
    (step : Step config cluster s s') :
    BarsOk s' (bars ++ shownBy s s') := by
  have accounts' := step_accounts accounts step
  have count : s'.i = s'.pbCtx.filesCntSum := accounts'.iterations
  cases step.bar with
  | quiet bar i phase => exact ok.quiet bar i phase
  | gather phase phase' i type =>
    obtain ⟨zero, rfl⟩ := ok.early phase
    have gathered : s'.phase ≠ .gathering := by rw [phase']; decide
    rw [shownBy_printed (.inl ⟨phase, phase'⟩)]
    apply BarsOk.print (accounts'.sound gathered) gathered _ count (fun _ => rfl) .nil nofun nofun
    intro _
    rw [i, zero]
    rfl
  | receive phase phase' i grows =>
    have gathered : s.phase ≠ .gathering := by rw [phase]; decide
    have gathered' : s'.phase ≠ .gathering := by rw [phase']; decide
    rw [shownBy_printed (.inr (by omega))]
    apply BarsOk.print (accounts'.sound gathered') gathered' _ count _ ok.ascending _ ok.sound
    · intro shown
      rw [i]
      exact ok.counts gathered (grows.type ▸ shown)
    · intro none
      exact ok.silent (grows.type ▸ none)
    · intro bar member
      exact (ok.before bar member).trans grows

theorem Shows.ok (shows : Shows config cluster s bars) : BarsOk s bars := by
  induction shows with
  | start =>
    refine ⟨fun _ => ⟨rfl, rfl⟩, fun _ => rfl, ?_, ?_, .nil, nofun, nofun⟩
    · exact fun gathered => absurd rfl gathered
    · exact fun gathered => absurd rfl gathered
  | step before step ih => exact step_barsOk before.reachable.accounts ih step

theorem Shows.gathered (shows : Shows config cluster s bars) {bar : ProgressBarCtx σ}
    (member : bar ∈ bars) :
    s.phase ≠ .gathering := by
  intro gathering
  rw [(shows.ok.early gathering).2] at member
  cases member

theorem Shows.goalSum_eq (shows : Shows config cluster s bars) {bar : ProgressBarCtx σ}
    (member : bar ∈ bars) :
    bar.filesCntGoalSum = ∑ slave, (cluster.files slave).length :=
  (shows.ok.before bar member).goalSum.trans (shows.reachable.accounts.goals (shows.gathered member)).2

theorem Shows.goal_eq (shows : Shows config cluster s bars) {bar : ProgressBarCtx σ}
    (member : bar ∈ bars) :
    bar.filesCntGoal = fun slave => (cluster.files slave).length :=
  (shows.ok.before bar member).goal.trans (shows.reachable.accounts.goals (shows.gathered member)).1

omit [DecidableEq σ] [Fintype τ] [DecidableEq τ] in
theorem ProgressBarCtx.Sound.sum_le {bar : ProgressBarCtx σ} (sound : bar.Sound) :
    bar.filesCntSum ≤ bar.filesCntGoalSum := by
  rw [sound.sum, sound.goalSum]
  exact Finset.sum_le_sum fun slave _ => sound.cnt slave

omit [DecidableEq σ] [Fintype τ] [DecidableEq τ] in
theorem ProgressBarCtx.Sound.goal_le {bar : ProgressBarCtx σ} (sound : bar.Sound) (slave : σ) :
    bar.filesCntGoal slave ≤ bar.filesCntGoalSum := by
  rw [sound.goalSum]
  exact Finset.single_le_sum (fun _ _ => Nat.zero_le _) (Finset.mem_univ slave)

omit [DecidableEq σ] [Fintype τ] [DecidableEq τ] in
/-- A bar shows a hundred percent when it shows them for every slave. -/
theorem ProgressBarCtx.Sound.hundred_iff {bar : ProgressBarCtx σ} (sound : bar.Sound)
    (small : bar.filesCntGoalSum ≤ 2 ^ 53) :
    bar.totalPercentage = 100 ↔ ∀ slave, bar.sourcePercentage slave = 100 := by
  have total : bar.totalPercentage = 100 ↔ bar.filesCntSum = bar.filesCntGoalSum :=
    percentage_eq_iff sound.sum_le small
  rw [total, sound.sum, sound.goalSum, Finset.sum_eq_sum_iff_of_le fun slave _ => sound.cnt slave]
  apply forall_congr'
  intro slave
  rw [ProgressBarCtx.sourcePercentage, percentage_eq_iff (sound.cnt slave)
    ((sound.goal_le slave).trans small)]
  exact ⟨fun all => all (Finset.mem_univ slave), fun same _ => same⟩

/-- At the end the last bar, and no other, has counted all files. -/
theorem Shows.last_complete (shows : Shows config cluster s bars) (shown : s.pbCtx.type ≠ .none)
    (done : s.phase = .done) :
    ∃ earlier, bars = earlier ++ [s.pbCtx] ∧ s.pbCtx.filesCntSum = s.pbCtx.filesCntGoalSum ∧
      ∀ bar ∈ earlier, bar.filesCntSum < bar.filesCntGoalSum := by
  have ok := shows.ok
  have gathered : s.phase ≠ .gathering := by rw [done]; decide
  have accounts := shows.reachable.accounts
  obtain ⟨earlier, split⟩ := List.getLast?_eq_some_iff.mp (ok.last gathered shown)
  have complete : s.pbCtx.filesCntSum = s.pbCtx.filesCntGoalSum := by
    rw [← accounts.iterations]
    exact accounts.ended done
  refine ⟨earlier, split, complete, ?_⟩
  intro bar member
  have inside : bar ∈ bars := split ▸ List.mem_append_left _ member
  have counts : earlier.map (·.filesCntSum) = List.range s.i := by
    have all := ok.counts gathered shown
    rw [split, List.map_append, List.range_succ] at all
    exact (List.append_inj' all rfl).1
  rw [(ok.before bar inside).goalSum, ← complete, ← accounts.iterations, ← List.mem_range, ← counts]
  exact List.mem_map_of_mem member

/-- The bars of a run count the messages one by one; no percentage ever falls, each tells how much
of the files has been read, and a hundred percent stand in the last bar only, when nothing is
missing from any slave. -/
theorem progress_bar_shows (opens : config.destOpens = true) (wanted : config.progressBarType ≠ .none)
    (small : ∑ slave, (cluster.files slave).length ≤ 2 ^ 53) (shows : Shows config cluster s bars) :
    bars.map (·.filesCntSum) = (if s.phase = .gathering then [] else List.range (s.i + 1)) ∧
    (bars.Pairwise fun a b => a.totalPercentage ≤ b.totalPercentage ∧
      ∀ slave, a.sourcePercentage slave ≤ b.sourcePercentage slave) ∧
    (∀ bar ∈ bars, Tells bar.totalPercentage bar.filesCntSum (∑ slave, (cluster.files slave).length) ∧
      (∀ slave, Tells (bar.sourcePercentage slave) (bar.filesCnt slave) (cluster.files slave).length) ∧
      (bar.totalPercentage = 100 ↔ ∀ slave, bar.sourcePercentage slave = 100)) ∧
    (s.phase = .done → ∃ earlier last, bars = earlier ++ [last] ∧ last.totalPercentage = 100 ∧
      ∀ bar ∈ earlier, bar.totalPercentage < 100) := by
  have ok := shows.ok
  have shown := shows.shown opens wanted
  have goals {bar : ProgressBarCtx σ} (member : bar ∈ bars) : bar.filesCntGoalSum ≤ 2 ^ 53 :=
    (shows.goalSum_eq member).trans_le small
  refine ⟨?_, ?_, ?_, ?_⟩
  · split
    · rename_i gathering
      rw [(ok.early gathering).2, List.map_nil]
    · rename_i gathered
      exact ok.counts gathered shown
  · refine ok.ascending.imp ?_
    intro a b grows
    exact ⟨grows.totalPercentage, grows.sourcePercentage⟩
  · intro bar member
    have sound := ok.sound bar member
    refine ⟨?_, ?_, sound.hundred_iff (goals member)⟩
    · rw [← shows.goalSum_eq member]
      exact percentage_tells sound.sum_le (goals member)
    · intro slave
      rw [← congrFun (shows.goal_eq member) slave]
      exact percentage_tells (sound.cnt slave) ((sound.goal_le slave).trans (goals member))
  · intro done
    obtain ⟨earlier, split, complete, below⟩ := shows.last_complete shown done
    refine ⟨earlier, s.pbCtx, split, ?_, ?_⟩
    · rw [ProgressBarCtx.totalPercentage, complete]
      exact percentage_goal _
    · intro bar member
      exact percentage_lt (below bar member) (goals (split ▸ List.mem_append_left _ member))

theorem exists_end (set : config.workingMode ≠ .unset) (cluster : Cluster σ τ R) :
    ∃ s bars, Shows config cluster s bars ∧ Finished s := by
  have steps (s s' : State σ τ R) (before : Reachable config cluster s)
    (step : Step config cluster s s') :
      Reachable config cluster s' := before.tail step
  obtain ⟨s, run, finished⟩ := Transition.exists_run_to_end Finished steps (step_work config cluster)
    (fun s reachable unfinished => step_possible set reachable.accounts unfinished) .refl
  obtain ⟨bars, shows⟩ := Reachable.shows run
  exact ⟨s, bars, shows, finished⟩

theorem progress_bar_shows_two :
    ∃ s bars, Shows synchronous twoSlaves s bars ∧ s.phase = .done ∧
      bars.map (·.filesCntSum) = [0, 1] := by
  obtain ⟨s, bars, shows, -, done⟩ :=
    exists_end (show synchronous.workingMode ≠ .unset by decide) twoSlaves
  obtain ⟨counts, -⟩ := progress_bar_shows rfl (by decide) (by decide) shows
  have accounts := shows.reachable.accounts
  have all : s.i = 1 := (accounts.ended done).trans (accounts.goals (by rw [done]; decide)).2
  refine ⟨s, bars, shows, done, ?_⟩
  rw [counts, if_neg (by rw [done]; decide), all]
  rfl

/-- A file has the last bar and nothing else: what an earlier bar has left behind is overwritten,
because no bar is shorter than the one before. -/
theorem progress_file_holds_last (sources : List σ) (shows : Shows config cluster s bars) :
    (bars.map (progressBarText .file sources)).foldl overwrite [] =
      ((bars.map (progressBarText .file sources)).getLast?.elim [] String.toList) := by
  apply foldl_overwrite
  rw [List.pairwise_map]
  exact shows.ok.ascending.imp (progressBarText_length sources)

theorem progress_file_holds_last_two :
    ∃ s bars, Shows synchronous twoSlaves s bars ∧ s.phase = .done ∧
      (bars.map (progressBarText .file [false, true])).foldl overwrite [] =
        ((bars.map (progressBarText .file [false, true])).getLast?.elim [] String.toList) := by
  obtain ⟨s, bars, shows, -, done⟩ :=
    exists_end (show synchronous.workingMode ≠ .unset by decide) twoSlaves
  exact ⟨s, bars, shows, done, progress_file_holds_last [false, true] shows⟩

end Bars

end Fdistdump.Progress
