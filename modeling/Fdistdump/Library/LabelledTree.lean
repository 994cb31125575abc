import Mathlib.Data.List.Basic

/-!
# Trees with labelled edges

A state is passed down the edges of a tree, and an edge may refuse it. `leaves` walks the tree from
the first child to the last; it comes to exactly the leaves that `locate` finds, in the order of
their positions.
-/

namespace LabelledTree

inductive Tree (α ε : Type) where
  | leaf (value : α)
  | node (children : List (ε × Tree α ε))

variable {σ α ε : Type} (descend : σ → ε → Option σ)

mutual

/-- The leaves in the order of the walk, each with its position and the state that comes to it. -/
def leaves (s : σ) : Tree α ε → List (List Nat × σ × α)
  | .leaf value => [([], s, value)]
  | .node children => leavesFrom s 0 children

/-- The same for children that are numbered from `i`. -/
def leavesFrom (s : σ) (i : Nat) : List (ε × Tree α ε) → List (List Nat × σ × α)
  | [] => []
  | (label, child) :: rest =>
    ((descend s label).elim [] fun s' => (leaves s' child).map fun l => (i :: l.1, l.2)) ++
      leavesFrom s (i + 1) rest

end

/-- The subtree at a position, and the state that comes to it. -/
def locate (s : σ) (t : Tree α ε) : List Nat → Option (σ × Tree α ε)
  | [] => some (s, t)
  | i :: position =>
    match t with
    | .leaf _ => none
    | .node children =>
      children[i]?.bind fun edge => (descend s edge.1).bind fun s' => locate s' edge.2 position

variable {descend} {s x : σ} {t : Tree α ε} {children : List (ε × Tree α ε)}

theorem locate_cons {i : Nat} {position : List Nat} {found : σ × Tree α ε} :
    locate descend s (.node children) (i :: position) = some found ↔
      ∃ edge s', children[i]? = some edge ∧ descend s edge.1 = some s' ∧
        locate descend s' edge.2 position = some found := by
  simp only [locate, Option.bind_eq_some_iff]
  exact ⟨fun ⟨edge, at', s', down, found⟩ => ⟨edge, s', at', down, found⟩,
    fun ⟨edge, s', at', down, found⟩ => ⟨edge, at', s', down, found⟩⟩

theorem locate_first (label : ε) (child : Tree α ε) (rest : List (ε × Tree α ε)) (below : List Nat) :
    locate descend s (.node ((label, child) :: rest)) (0 :: below) =
      (descend s label).bind fun s' => locate descend s' child below := rfl

theorem locate_later (edge : ε × Tree α ε) (rest : List (ε × Tree α ε)) (i : Nat) (below : List Nat) :
    locate descend s (.node (edge :: rest)) ((i + 1) :: below) = locate descend s (.node rest)
    (i :: below) := rfl

/-! ### The walk comes to the leaves that can be located -/

theorem mem_leaves_leaf (value : α) {position : List Nat} {value' : α} :
    (position, x, value') ∈ leaves descend s (.leaf value : Tree α ε) ↔
      locate descend s (.leaf value : Tree α ε) position = some (x, .leaf value') := by
  rw [leaves, List.mem_singleton]
  cases position with
  | nil => simp [locate, eq_comm]
  | cons i position => simp [locate]

theorem mem_first {i : Nat} {label : ε} {child : Tree α ε} {position : List Nat} {value : α} :
    (position, x, value) ∈
        (descend s label).elim [] (fun s' => (leaves descend s' child).map fun l => (i :: l.1, l.2)) ↔
      ∃ below s', position = i :: below ∧ descend s label = some s' ∧
        (below, x, value) ∈ leaves descend s' child := by
  cases down : descend s label with
  | none => simp
  | some s' =>
    simp only [Option.elim_some, List.mem_map, Prod.mk.injEq, Option.some.injEq]
    constructor
    · rintro ⟨⟨below, found⟩, member, rfl, rfl⟩
      exact ⟨below, s', rfl, rfl, member⟩
    · rintro ⟨below, s', rfl, rfl, member⟩
      exact ⟨_, member, rfl, rfl⟩

mutual

theorem mem_leaves (s : σ) : ∀ (t : Tree α ε) {position : List Nat} {value : α},
    (position, x, value) ∈ leaves descend s t ↔ locate descend s t position = some (x, .leaf value)
  | .leaf value, _, _ => mem_leaves_leaf value
  | .node children, position, value => by
    rw [leaves, mem_leavesFrom s 0 children]
    simp only [Nat.zero_add]
    constructor
    · rintro ⟨k, below, rfl, found⟩
      exact found
    · intro found
      cases position with
      | nil => cases found
      | cons k below => exact ⟨k, below, rfl, found⟩

theorem mem_leavesFrom (s : σ) (i : Nat) : ∀ (children : List (ε × Tree α ε)) {position : List Nat}
    {value : α},
    (position, x, value) ∈ leavesFrom descend s i children ↔ ∃ k below, position = (i + k) :: below ∧
      locate descend s (.node children) (k :: below) = some (x, .leaf value)
  | [], position, value => by
    simp only [leavesFrom, List.not_mem_nil, false_iff]
    rintro ⟨k, below, -, found⟩
    cases found
  | (label, child) :: rest, position, value => by
    rw [leavesFrom, List.mem_append, mem_first, mem_leavesFrom s (i + 1) rest]
    constructor
    · rintro (⟨below, s', rfl, down, member⟩ | ⟨k, below, rfl, found⟩)
      · refine ⟨0, below, rfl, ?_⟩
        rw [locate_first, down]
        exact (mem_leaves s' child).mp member
      · exact ⟨k + 1, below, by rw [Nat.add_right_comm]; rfl, by rwa [locate_later]⟩
    · rintro ⟨_ | k, below, rfl, found⟩
      · rw [locate_first, Option.bind_eq_some_iff] at found
        obtain ⟨s', down, found⟩ := found
        exact .inl ⟨below, s', rfl, down, (mem_leaves s' child).mpr found⟩
      · rw [locate_later] at found
        exact .inr ⟨k, below, by rw [Nat.add_right_comm]; rfl, found⟩

end

/-! ### In the order of the positions -/

mutual

theorem leaves_sorted (s : σ) : ∀ t : Tree α ε, (leaves descend s t).Pairwise fun l l' => l.1 < l'.1
  | .leaf _ => List.pairwise_singleton _ _
  | .node children => leavesFrom_sorted s 0 children

theorem leavesFrom_sorted (s : σ) (i : Nat) : ∀ children : List (ε × Tree α ε),
    (leavesFrom descend s i children).Pairwise fun l l' => l.1 < l'.1
  | [] => .nil
  | (label, child) :: rest => by
    refine List.pairwise_append.mpr ⟨?_, leavesFrom_sorted s (i + 1) rest, ?_⟩
    · cases descend s label with
      | none => exact .nil
      | some s' =>
        refine List.pairwise_map.mpr ((leaves_sorted s' child).imp fun less => ?_)
        exact List.cons_lt_cons_iff.mpr (.inr ⟨rfl, less⟩)
    · intro ⟨position, found⟩ first ⟨position', found'⟩ later
      obtain ⟨below, s', rfl, -, -⟩ := mem_first.mp first
      obtain ⟨k, below', rfl, -⟩ := (mem_leavesFrom s (i + 1) rest).mp later
      exact List.cons_lt_cons_iff.mpr (.inl (by omega))

end

end LabelledTree
