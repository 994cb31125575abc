import Mathlib.Data.List.Basic

/-!
# Insertion into a bounded set

Items are inserted one after the other into a set with a number of free places. Capacity is tested before
presence, so a full set refuses also what it already holds. `firsts` leaves out the items whose key has
occurred before, and `addAll_firsts_iff` says when that makes a difference.
-/

namespace BoundedInsert

structure Bounds (α κ : Type) where
  key : α → κ
  /-- The keys that the set holds from the start. -/
  base : κ → Bool
  allowed : κ → Bool
  /-- The number of free places. -/
  room : Nat

variable {α κ : Type} [DecidableEq κ] (b : Bounds α κ)

def add (added : List α) (x : α) : Bool × List α :=
  if added.length = b.room then (false, added)
  else if b.base (b.key x) ∨ b.key x ∈ added.map b.key then (true, added)
  else if b.allowed (b.key x) then (true, added ++ [x])
  else (false, added)

def addAll : List α → List α → Bool × List α
  | [], added => (true, added)
  | x :: rest, added =>
    let next := add b added x
    if !next.1 then next else addAll rest next.2

/-- The items whose keys have not occurred before, nor among `seen`. -/
def firsts (key : α → κ) (seen : List κ) : List α → List α
  | [] => []
  | x :: rest => if key x ∈ seen then firsts key seen rest else x :: firsts key (key x :: seen) rest

/-- Those of them that the set does not hold from the start. -/
def news (seen : List κ) (xs : List α) : List α :=
  (firsts b.key seen xs).filter fun x => !b.base (b.key x)

/-- What has been seen is in the set, and the other way round for what has been added. -/
structure Tracks (seen : List κ) (added : List α) : Prop where
  held : ∀ k ∈ seen, b.base k ∨ k ∈ added.map b.key
  seen : ∀ x ∈ added, b.key x ∈ seen

def FillsUp (xs : List α) : Prop :=
  ∃ front x back, xs = front ++ x :: back ∧ back ≠ [] ∧
    (∀ y ∈ back, b.key y ∈ (front ++ [x]).map b.key) ∧
    b.base (b.key x) = false ∧ b.key x ∉ front.map b.key ∧
      (∀ y ∈ news b [] (front ++ [x]), b.allowed (b.key y)) ∧
    (news b [] (front ++ [x])).length = b.room

variable {b} {seen : List κ} {added r xs : List α} {x : α}

omit [DecidableEq κ] in
theorem tracks_nil : Tracks b [] [] := ⟨by simp, by simp⟩

theorem add_full (full : added.length = b.room) (x : α) : add b added x = (false, added) := if_pos full

theorem add_held (space : added.length ≠ b.room) (held : b.base (b.key x) ∨ b.key x ∈ added.map b.key) :
    add b added x = (true, added) := by
  rw [add, if_neg space, if_pos held]

theorem add_new (space : added.length ≠ b.room) (new : ¬ (b.base (b.key x) ∨ b.key x ∈ added.map b.key))
    (allowed : b.allowed (b.key x)) : add b added x = (true, added ++ [x]) := by
  rw [add, if_neg space, if_neg new, if_pos allowed]

theorem add_true (inserted : add b added x = (true, r)) :
    added.length ≠ b.room ∧
      ((b.base (b.key x) ∨ b.key x ∈ added.map b.key) ∧ r = added ∨
        ¬ (b.base (b.key x) ∨ b.key x ∈ added.map b.key) ∧ b.allowed (b.key x) ∧ r = added ++ [x]) := by
  unfold add at inserted
  split at inserted
  · cases inserted
  rename_i space
  split at inserted
  · rename_i held
    cases inserted
    exact ⟨space, .inl ⟨held, rfl⟩⟩
  rename_i new
  split at inserted
  · rename_i allowed
    cases inserted
    exact ⟨space, .inr ⟨new, allowed, rfl⟩⟩
  · cases inserted

theorem addAll_cons_true (next : add b added x = (true, r)) (rest : List α) :
    addAll b (x :: rest) added = addAll b rest r := by
  simp [addAll, next]

theorem addAll_cons_false (next : add b added x = (false, r)) (rest : List α) :
    addAll b (x :: rest) added = (false, r) := by
  simp [addAll, next]

theorem addAll_append {ys : List α} (front : addAll b xs added = (true, r)) :
    addAll b (xs ++ ys) added = addAll b ys r := by
  induction xs generalizing added with
  | nil =>
    cases front
    rfl
  | cons x rest ih =>
    rw [List.cons_append]
    rcases next : add b added x with ⟨_ | _, added'⟩
    · rw [addAll_cons_false next] at front
      cases front
    · rw [addAll_cons_true next] at front ⊢
      exact ih front

theorem addAll_append_true {ys : List α} (ran : addAll b (xs ++ ys) added = (true, r)) :
    ∃ between, addAll b xs added = (true, between) ∧ addAll b ys between = (true, r) := by
  rcases front : addAll b xs added with ⟨_ | _, between⟩
  · exfalso
    induction xs generalizing added with
    | nil => cases front
    | cons x rest ih =>
      rw [List.cons_append] at ran
      rcases next : add b added x with ⟨_ | _, added'⟩
      · rw [addAll_cons_false next] at ran
        cases ran
      · rw [addAll_cons_true next] at front ran
        exact ih ran front
  · exact ⟨between, rfl, addAll_append front ▸ ran⟩

theorem Tracks.inserted (tracks : Tracks b seen added) (inserted : add b added x = (true, r)) :
    Tracks b (b.key x :: seen) r := by
  obtain ⟨-, ⟨held, rfl⟩ | ⟨-, -, rfl⟩⟩ := add_true inserted
  · exact ⟨List.forall_mem_cons.mpr ⟨held, tracks.held⟩, fun y member => List.mem_cons_of_mem _
      (tracks.seen y member)⟩
  · refine ⟨List.forall_mem_cons.mpr ⟨.inr (by simp), fun k member => ?_⟩, fun y member => ?_⟩
    · rw [List.map_append]
      exact (tracks.held k member).imp_right (List.mem_append_left _)
    · rcases List.mem_append.mp member with old | new
      · exact List.mem_cons_of_mem _ (tracks.seen y old)
      · rw [List.mem_singleton.mp new]
        exact List.mem_cons_self ..

theorem Tracks.addedAll (tracks : Tracks b seen added) (ran : addAll b xs added = (true, r)) :
    ∃ seen', Tracks b seen' r ∧ (∀ k ∈ seen, k ∈ seen') ∧ ∀ y ∈ xs, b.key y ∈ seen' := by
  induction xs generalizing seen added with
  | nil =>
    cases ran
    exact ⟨seen, tracks, fun _ => id, by simp⟩
  | cons x rest ih =>
    rcases next : add b added x with ⟨_ | _, added'⟩
    · rw [addAll_cons_false next] at ran
      cases ran
    · rw [addAll_cons_true next] at ran
      obtain ⟨seen', tracks', kept, later⟩ := ih (tracks.inserted next) ran
      refine ⟨seen', tracks', fun k member => kept k (List.mem_cons_of_mem _ member),
        List.forall_mem_cons.mpr ⟨?_, later⟩⟩
      exact kept _ (List.mem_cons_self ..)

omit [DecidableEq κ] in
theorem Tracks.held_iff (tracks : Tracks b seen added) (fresh : b.key x ∉ seen) :
    b.base (b.key x) ∨ b.key x ∈ added.map b.key ↔ b.base (b.key x) := by
  apply or_iff_left
  intro member
  obtain ⟨y, inside, same⟩ := List.mem_map.mp member
  exact fresh (same ▸ tracks.seen y inside)

omit [DecidableEq κ] in
theorem Tracks.of_seen (tracks : Tracks b (b.key x :: seen) added) (old : b.key x ∈ seen) :
    Tracks b seen added :=
  ⟨fun k member => tracks.held k (List.mem_cons_of_mem _ member), fun y member =>
    (List.mem_cons.mp (tracks.seen y member)).elim (fun same => same ▸ old) id⟩

/-! ### Success -/

theorem addAll_true (tracks : Tracks b seen added) (ran : addAll b xs added = (true, r)) :
    r = added ++ news b seen xs ∧ (∀ y ∈ news b seen xs, b.allowed (b.key y)) ∧
      addAll b (firsts b.key seen xs) added = (true, r) := by
  induction xs generalizing seen added with
  | nil =>
    cases ran
    simp [news, firsts, addAll]
  | cons x rest ih =>
    rcases next : add b added x with ⟨_ | _, added'⟩
    · rw [addAll_cons_false next] at ran
      cases ran
    rw [addAll_cons_true next] at ran
    have tracks' := tracks.inserted next
    obtain ⟨-, outcome⟩ := add_true next
    by_cases old : b.key x ∈ seen
    · have same : added' = added := by
        rcases outcome with ⟨-, same⟩ | ⟨new, -, -⟩
        · exact same
        · exact absurd (tracks.held _ old) new
      subst same
      rw [news, firsts, if_pos old]
      exact ih (tracks'.of_seen old) ran
    · obtain ⟨grown, allowed, again⟩ := ih tracks' ran
      rw [tracks.held_iff old] at outcome
      rw [news, firsts, if_neg old, addAll_cons_true next, List.filter_cons]
      rcases outcome with ⟨held, rfl⟩ | ⟨new, allowed', rfl⟩
      · rw [if_neg (by simp [held])]
        exact ⟨grown, allowed, again⟩
      · rw [if_pos (by simpa using new)]
        refine ⟨by rw [grown, List.append_assoc]; rfl, List.forall_mem_cons.mpr ⟨allowed', allowed⟩,
          again⟩

theorem addAll_of_room (tracks : Tracks b seen added)
    (room : added.length + (news b seen xs).length < b.room)
    (allowed : ∀ y ∈ news b seen xs, b.allowed (b.key y)) :
    addAll b xs added = (true, added ++ news b seen xs) := by
  induction xs generalizing seen added with
  | nil => simp [news, firsts, addAll]
  | cons x rest ih =>
    have space : added.length ≠ b.room := by omega
    rw [news, firsts] at room allowed ⊢
    by_cases old : b.key x ∈ seen
    · rw [if_pos old] at room allowed ⊢
      rw [addAll_cons_true (add_held space (tracks.held _ old))]
      exact ih tracks room allowed
    rw [if_neg old, List.filter_cons] at room allowed ⊢
    by_cases held : b.base (b.key x)
    · rw [if_neg (by simp [held])] at room allowed ⊢
      have next := add_held space (.inl held : _ ∨ b.key x ∈ added.map b.key)
      rw [addAll_cons_true next]
      exact ih (tracks.inserted next) room allowed
    · rw [if_pos (by simpa using held)] at room allowed ⊢
      obtain ⟨first, later⟩ := List.forall_mem_cons.mp allowed
      have next := add_new space (mt (tracks.held_iff old).mp held) first
      rw [addAll_cons_true next, ih (tracks.inserted next) ?_ later]
      · simp [news]
      · simp only [List.length_cons, List.length_append, List.length_nil, news] at room ⊢
        omega

/-! ### Repetitions -/

def Stalls (seen : List κ) (added xs : List α) : Prop :=
  ∃ front back full, xs = front ++ back ∧ back ≠ [] ∧
    (∀ y ∈ back, b.key y ∈ seen ∨ b.key y ∈ front.map b.key) ∧
    addAll b front added = (true, full) ∧ full.length = b.room

theorem firsts_eq_nil : firsts b.key seen xs = [] ↔ ∀ x ∈ xs, b.key x ∈ seen := by
  induction xs with
  | nil => simp [firsts]
  | cons x rest ih =>
    rw [firsts, List.forall_mem_cons]
    by_cases old : b.key x ∈ seen
    · rw [if_pos old, ih]
      exact (and_iff_right old).symm
    · simp [old]

theorem firsts_sublist (key : α → κ) (seen : List κ) (xs : List α) :
    (firsts key seen xs).Sublist xs := by
  induction xs generalizing seen with
  | nil => exact .slnil
  | cons x rest ih =>
    rw [firsts]
    split
    · exact (ih seen).cons x
    · exact (ih _).cons_cons x

theorem news_subset (seen : List κ) (xs : List α) : news b seen xs ⊆ xs :=
  fun _ member => (firsts_sublist b.key seen xs).subset (List.mem_of_mem_filter member)

theorem firsts_append_of_repeated {ys : List α}
    (repeated : ∀ y ∈ ys, b.key y ∈ seen ∨ b.key y ∈ xs.map b.key) :
    firsts b.key seen (xs ++ ys) = firsts b.key seen xs := by
  induction xs generalizing seen with
  | nil => exact firsts_eq_nil.mpr fun y member => (repeated y member).resolve_right (by simp)
  | cons x rest ih =>
    rw [List.cons_append, firsts, firsts]
    by_cases old : b.key x ∈ seen
    · rw [if_pos old, if_pos old]
      refine ih fun y member => (repeated y member).elim .inl fun later => ?_
      rcases List.mem_cons.mp later with same | later
      · exact .inl (same ▸ old)
      · exact .inr later
    · rw [if_neg old, if_neg old]
      congr 1
      refine ih fun y member => (repeated y member).elim
        (fun earlier => .inl (List.mem_cons_of_mem _ earlier)) fun later => ?_
      rcases List.mem_cons.mp later with same | later
      · exact .inl (same ▸ List.mem_cons_self ..)
      · exact .inr later

theorem Stalls.cons {added' : List α} (next : add b added x = (true, added'))
    (stalls : Stalls (b := b) (b.key x :: seen) added' xs) : Stalls (b := b) seen added (x :: xs) := by
  obtain ⟨front, back, full, rfl, more, repeated, ran, filled⟩ := stalls
  refine ⟨x :: front, back, full, rfl, more, fun y member => ?_,
    (addAll_cons_true next front).trans ran, filled⟩
  rw [List.map_cons, List.mem_cons]
  rcases repeated y member with earlier | later
  · exact (List.mem_cons.mp earlier).elim (fun same => .inr (.inl same)) .inl
  · exact .inr (.inr later)

theorem addAll_false (tracks : Tracks b seen added) (ran : addAll b xs added = (false, r)) :
    addAll b (firsts b.key seen xs) added = (false, r) ∨ Stalls (b := b) seen added xs := by
  induction xs generalizing seen added with
  | nil => cases ran
  | cons x rest ih =>
    by_cases full : added.length = b.room
    · -- the whole rest is refused
      rw [addAll_cons_false (add_full full x)] at ran
      cases ran
      cases left : firsts b.key seen (x :: rest) with
      | nil =>
        have repeated := firsts_eq_nil.mp left
        exact .inr ⟨[], x :: rest, _, rfl, List.cons_ne_nil x rest, fun y member =>
          .inl (repeated y member), rfl, full⟩
      | cons y more => exact .inl (addAll_cons_false (add_full full y) more)
    rcases next : add b added x with ⟨_ | _, added'⟩
    · have new : b.key x ∉ seen := fun old => by
        rw [add_held full (tracks.held _ old)] at next
        cases next
      rw [addAll_cons_false next] at ran
      cases ran
      rw [firsts, if_neg new]
      exact .inl (addAll_cons_false next _)
    · rw [addAll_cons_true next] at ran
      have tracks' := tracks.inserted next
      by_cases old : b.key x ∈ seen
      · have same : added' = added := by
          rw [add_held full (tracks.held _ old)] at next
          exact (Prod.mk.inj next).2.symm
        subst same
        rw [firsts, if_pos old]
        refine (ih (tracks'.of_seen old) ran).imp_right fun stalls => Stalls.cons next ?_
        obtain ⟨front, back, full, shape, more, repeated, ran, filled⟩ := stalls
        exact ⟨front, back, full, shape, more, fun y member => (repeated y member).imp_left
          (List.mem_cons_of_mem _), ran,
          filled⟩
      · rw [firsts, if_neg old, addAll_cons_true next]
        exact (ih tracks' ran).imp_right (Stalls.cons next)

theorem Stalls.differ (tracks : Tracks b seen added) (stalls : Stalls (b := b) seen added xs) :
    (addAll b xs added).1 = false ∧ (addAll b (firsts b.key seen xs) added).1 = true := by
  obtain ⟨front, back, full, rfl, more, repeated, ran, filled⟩ := stalls
  obtain ⟨y, rest, rfl⟩ := List.exists_cons_of_ne_nil more
  rw [addAll_append ran, addAll_cons_false (add_full filled y), firsts_append_of_repeated repeated,
    (addAll_true tracks ran).2.2]
  exact ⟨rfl, rfl⟩

theorem news_append_new (old : b.base (b.key x) = false) (fresh : b.key x ∉ xs.map b.key)
    (unseen : b.key x ∉ seen) :
    news b seen (xs ++ [x]) = news b seen xs ++ [x] := by
  induction xs generalizing seen with
  | nil => simp [news, firsts, unseen, old]
  | cons y rest ih =>
    rw [List.map_cons, List.mem_cons, not_or] at fresh
    simp only [news, List.cons_append, firsts] at ih ⊢
    split
    · exact ih fresh.2 unseen
    · have unseen' : b.key x ∉ b.key y :: seen := by simp [fresh.1, unseen]
      rw [List.filter_cons, List.filter_cons]
      split
      · rw [List.cons_append, ih fresh.2 unseen']
      · exact ih fresh.2 unseen'

theorem stalls_iff : Stalls (b := b) [] [] xs ↔ FillsUp b xs := by
  constructor
  · rintro ⟨front, back, full, rfl, more, repeated, ran, filled⟩
    obtain ⟨y, rest, rfl⟩ := List.exists_cons_of_ne_nil more
    rcases List.eq_nil_or_concat front with rfl | ⟨front, x, rfl⟩
    · simpa using repeated y (List.mem_cons_self ..)
    rw [List.concat_eq_append] at *
    obtain ⟨grown, allowed, -⟩ := addAll_true tracks_nil ran
    obtain ⟨between, ran, last⟩ := addAll_append_true ran
    obtain ⟨seen', tracks', -, seen⟩ := tracks_nil.addedAll ran
    have next : add b between x = (true, full) := by
      rcases next : add b between x with ⟨_ | _, added'⟩
      · rw [addAll_cons_false next] at last
        cases last
      · rwa [addAll_cons_true next] at last
    obtain ⟨space, ⟨-, rfl⟩ | ⟨new, -, -⟩⟩ := add_true next
    · exact absurd filled space
    rw [not_or] at new
    refine ⟨front, x, y :: rest, by simp, more, fun z member => (repeated z member).resolve_left
      (by simp),
      by simpa using new.1, fun member => ?_, allowed, by rw [← filled, grown, List.nil_append]⟩
    obtain ⟨z, inside, same⟩ := List.mem_map.mp member
    have held := tracks'.held _ (seen z inside)
    rw [same] at held
    exact held.elim new.1 new.2
  · rintro ⟨front, x, back, rfl, more, repeated, new, fresh, allowed, filled⟩
    rw [news_append_new new fresh (by simp)] at allowed filled
    rw [List.length_append, List.length_singleton] at filled
    obtain ⟨before, last⟩ := List.forall_mem_append.mp allowed
    have ran := addAll_of_room tracks_nil (by rw [List.length_nil]; omega) before
    have absent : b.key x ∉ (news b [] front).map b.key := fun member =>
      fresh (List.map_subset _ (news_subset _ _) member)
    have next : add b (news b [] front) x = (true, news b [] front ++ [x]) :=
      add_new (by omega) (by simp [new, absent]) (last x (List.mem_singleton_self x))
    refine ⟨front ++ [x], back, news b [] front ++ [x], by simp, more, fun y member =>
      .inr (repeated y member), ?_,
      by simp [filled]⟩
    rw [addAll_append ran, List.nil_append, addAll_cons_true next]
    rfl

theorem addAll_firsts_iff (xs : List α) :
    addAll b xs [] = addAll b (firsts b.key [] xs) [] ↔ ¬ FillsUp b xs := by
  rw [← stalls_iff]
  constructor
  · intro same stalls
    obtain ⟨fails, succeeds⟩ := stalls.differ tracks_nil
    rw [same, succeeds] at fails
    cases fails
  · intro free
    rcases ran : addAll b xs [] with ⟨_ | _, added⟩
    · exact ((addAll_false tracks_nil ran).resolve_right free).symm
    · exact (addAll_true tracks_nil ran).2.2.symm

end BoundedInsert
