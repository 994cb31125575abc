import Mathlib.Algebra.GroupWithZero.Nat
import Mathlib.Data.List.Forall2
import Mathlib.Data.List.Induction
import Fdistdump.Bfindex.Pruning

/-!
# Errors while building an address tree

`build_node` disposes of every leaf that it reaches through AND and OR in one of three ways. The error
code that decides in `bfindex_init` is that of the last leaf that set it: a skipped leaf clears what a
rejected address has reported, and a call starts with the code and the counter of the call before it.
-/

namespace Fdistdump.Bfindex

variable {R : Type}

/-- An address that becomes a node, an address that is an error, and a leaf that is no address. -/
inductive Verdict
  | usable
  | rejected
  | skipped
deriving DecidableEq, Repr

/-- The leaves in the order in which they are visited; `cnt` equality tests came before. -/
def leaves : FfNode R → Nat → List Verdict
  | .null, _ => []
  | .node type oper net _ left right, cnt =>
    match type with
    | .addr => [if oper = .eq ∧ cnt < maxIpAddreses ∧ net.usingMask = false then .usable else .rejected]
    | .unsupported =>
      match operNodeType oper with
      | none => [.skipped]
      | some _ => leaves left cnt ++ leaves right (cnt + eqTests left)
    | _ => [.skipped]

def errorAfter : Bool → List Verdict → Bool
  | error, [] => error
  | error, .usable :: rest => errorAfter error rest
  | _, .rejected :: rest => errorAfter true rest
  | _, .skipped :: rest => errorAfter false rest

theorem errorAfter_append (error : Bool) (xs ys : List Verdict) :
    errorAfter error (xs ++ ys) = errorAfter (errorAfter error xs) ys := by
  induction xs generalizing error with
  | nil => rfl
  | cons v rest ih => cases v <;> exact ih _

/-- Every skipped leaf comes before a rejected address. -/
def SkipsFollowed (vs : List Verdict) : Prop :=
  ∀ before after, vs = before ++ .skipped :: after → .rejected ∈ after

theorem skipsFollowed_nil : SkipsFollowed [] := by
  intro before after split
  simp at split

theorem skipsFollowed_cons {v : Verdict} {rest : List Verdict} :
    SkipsFollowed (v :: rest) ↔ (v = .skipped → .rejected ∈ rest) ∧ SkipsFollowed rest := by
  constructor
  · intro followed
    refine ⟨fun skipped => followed [] rest (by rw [skipped]; rfl), ?_⟩
    intro before after split
    exact followed (v :: before) after (by rw [split]; rfl)
  · intro ⟨first, followed⟩ before after split
    cases before with
    | nil =>
      obtain ⟨skipped, rfl⟩ := List.cons.inj split
      exact first skipped
    | cons w before => exact followed before after (List.cons.inj split).2

/-- An error is left when one was there or was found, and no skipped leaf came last. -/
theorem errorAfter_iff {error : Bool} {vs : List Verdict} :
    errorAfter error vs = true ↔ SkipsFollowed vs ∧ (error = true ∨ .rejected ∈ vs) := by
  induction vs generalizing error with
  | nil => simp [errorAfter, skipsFollowed_nil]
  | cons v rest ih =>
    rw [skipsFollowed_cons]
    cases v with
    | usable => simp [errorAfter, ih]
    | rejected => simp [errorAfter, ih]
    | skipped =>
      simp only [errorAfter, ih, List.mem_cons, reduceCtorEq, false_or, Bool.false_eq_true]
      constructor
      · intro ⟨followed, found⟩
        exact ⟨⟨fun _ => found, followed⟩, Or.inr found⟩
      · rintro ⟨⟨found, followed⟩, -⟩
        exact ⟨followed, found trivial⟩

/-! ### What a call returns -/

theorem pruneOperSubtree_null {type : NodeType} {left right : BfindexNode} :
    pruneOperSubtree type left right = .null ↔ left = .null ∧ right = .null := by
  cases left <;> cases right <;> simp [pruneOperSubtree]
  split <;> simp

/-- What a visit of the leaves `vs` leaves behind. -/
structure Visited (s : BfState) (vs : List Verdict) (result : BfindexNode × BfState) : Prop where
  null : result.1 = .null ↔ .usable ∉ vs
  error : (result.2.globalEcode != .ok) = errorAfter (s.globalEcode != .ok) vs

theorem buildAddrNode_visited (oper : FfOp) (net : FfNet) (s : BfState) :
    Visited s
      [if oper = .eq ∧ s.ipCnt < maxIpAddreses ∧ net.usingMask = false then .usable else .rejected]
      (buildAddrNode oper net s) := by
  unfold buildAddrNode
  by_cases equality : oper = .eq
  · by_cases room : s.ipCnt < maxIpAddreses
    · cases masked : net.usingMask with
      | true => constructor <;> simp [equality, room, Nat.not_lt.mpr room, errorAfter]
      | false => constructor <;> simp [equality, room, Nat.not_lt.mpr room, errorAfter]
    · have exceeded : maxIpAddreses < s.ipCnt + 1 := by omega
      constructor <;> simp [equality, room, exceeded, errorAfter]
  · constructor <;> simp [equality, errorAfter]

theorem visited_skipped (s : BfState) : Visited s [.skipped] (.null, { s with globalEcode := .ok }) :=
  ⟨by simp, rfl⟩

theorem buildNode_visited (filter : FfNode R) (s : BfState) :
    Visited s (leaves filter s.ipCnt) (buildNode filter s) := by
  induction filter generalizing s with
  | null => exact ⟨by simp [leaves, buildNode], rfl⟩
  | node type oper net test left right ihl ihr =>
    cases type with
    | addr => exact buildAddrNode_visited oper net s
    | unsupported =>
      rw [buildNode, leaves]
      dsimp only
      cases connective : operNodeType oper with
      | none => exact visited_skipped s
      | some nodeType =>
        have count := (buildNode_denotes (fun _ => false) left s).2
        obtain ⟨nullLeft, errorLeft⟩ := ihl s
        obtain ⟨nullRight, errorRight⟩ := ihr (buildNode left s).2
        rw [count] at nullRight errorRight
        constructor
        · rw [pruneOperSubtree_null, nullLeft, nullRight, List.mem_append, not_or]
        · rw [errorRight, errorLeft, errorAfter_append]
    | _ => exact visited_skipped s

/-- A call returns NULL when no leaf is usable or an error is left. -/
theorem bfindexInit_eq_none (filter : FfNode R) (s : BfState) :
    (bfindexInit filter s).1 = none ↔
      .usable ∉ leaves filter s.ipCnt ∨ errorAfter (s.globalEcode != .ok) (leaves filter s.ipCnt) =
        true := by
  obtain ⟨null, error⟩ := buildNode_visited filter s
  rw [← null, ← error]
  unfold bfindexInit
  split
  · rename_i built
    simp [built]
  · rename_i root after present built
    rw [built]
    simp only [bne_iff_ne, ne_eq]
    by_cases ok : after.globalEcode = .ok
    · simpa [ok] using present
    · simp [ok]

/-! ### A rejected address on a fresh process -/

/-- On a fresh process a filter with a rejected address is refused exactly when no address is usable or
every skipped leaf comes before a rejected address. -/
theorem rejected_address_disables_iff (filter : FfNode R) (present : .rejected ∈ leaves filter 0) :
    (bfindexInit filter {}).1 = none ↔ .usable ∉ leaves filter 0 ∨ SkipsFollowed (leaves filter 0) := by
  rw [bfindexInit_eq_none, errorAfter_iff]
  exact or_congr_right ⟨And.left, fun followed => ⟨followed, Or.inr present⟩⟩

def networkFilter : FfNode FlowKey :=
  .node .addr .eq ⟨.v4, ipv4 0x0a000000, ⟨0, 0, 0, 0xff000000⟩⟩
    (fun r => r.srcip.data3 >>> 24 == 10) .null .null

theorem rejected_address_disables_iff_network :
    (bfindexInit (connective .or networkFilter hostFilter) {}).1 = none ↔
      .usable ∉ leaves (connective .or networkFilter hostFilter) 0 ∨
        SkipsFollowed (leaves (connective .or networkFilter hostFilter) 0) :=
  rejected_address_disables_iff _ (by decide)

/-- `src net 10.0.0.0/8 or (proto tcp and ip 10.0.0.1)`: the protocol comes after the network and clears
its error, so files without the one address are skipped. -/
theorem skipped_leaf_clears_error :
    .rejected ∈ leaves (connective .or networkFilter (connective .and tcpFilter hostFilter)) 0 ∧
      (bfindexInit (connective .or networkFilter (connective .and tcpFilter hostFilter)) {}).1 ≠
        none := by
  constructor <;> decide

/-! ### Earlier calls -/

def afterCalls (earlier : List (FfNode R)) : BfState :=
  earlier.foldl (fun s filter => (bfindexInit filter s).2) {}

/-- The filter is refused on a fresh process already. -/
def Refused (filter : FfNode R) : Prop :=
  .usable ∉ leaves filter 0 ∨ .rejected ∈ leaves filter 0 ∧ SkipsFollowed (leaves filter 0)

/-- What earlier calls have left cannot be seen: no further address is over the limit, and an error code
that is still set is overwritten. -/
def Unaffected (filter : FfNode R) (s : BfState) : Prop :=
  leaves filter s.ipCnt = leaves filter 0 ∧ (s.globalEcode = .ok ∨ ∃ v ∈ leaves filter 0, v ≠ .usable)

theorem refused_iff (filter : FfNode R) : Refused filter ↔ (bfindexInit filter {}).1 = none := by
  rw [bfindexInit_eq_none, errorAfter_iff, Refused]
  exact or_congr_right ⟨fun ⟨found, followed⟩ => ⟨followed, Or.inr found⟩,
    fun ⟨followed, found⟩ => ⟨found.resolve_left (by decide), followed⟩⟩

theorem bfindexInit_root {filter : FfNode R} {s : BfState} (accepted : (bfindexInit filter s).1 ≠ none) :
    (bfindexInit filter s).1 = some (buildNode filter s).1 := by
  unfold bfindexInit at accepted ⊢
  split at accepted
  · exact absurd rfl accepted
  · rename_i built
    split at accepted
    · exact absurd rfl accepted
    · rename_i noError
      rw [if_neg noError, built]

/-- A verdict that more earlier equality tests may have turned from usable to rejected. -/
def NoBetter (v v' : Verdict) : Prop := v = v' ∨ v = .rejected ∧ v' = .usable

/-- More earlier equality tests only put further addresses over the limit. -/
theorem leaves_noBetter (filter : FfNode R) {cnt cnt' : Nat} (le : cnt' ≤ cnt) :
    List.Forall₂ NoBetter (leaves filter cnt) (leaves filter cnt') := by
  induction filter generalizing cnt cnt' with
  | null => exact .nil
  | node type oper net test left right ihl ihr =>
    cases type with
    | addr =>
      refine .cons ?_ .nil
      by_cases usable : oper = .eq ∧ cnt < maxIpAddreses ∧ net.usingMask = false
      · obtain ⟨equality, room, unmasked⟩ := usable
        rw [if_pos ⟨equality, room, unmasked⟩, if_pos ⟨equality, by omega, unmasked⟩]
        exact Or.inl rfl
      · rw [if_neg usable]
        split
        · exact Or.inr ⟨rfl, rfl⟩
        · exact Or.inl rfl
    | unsupported =>
      simp only [leaves]
      cases operNodeType oper with
      | none => exact .cons (Or.inl rfl) .nil
      | some nodeType => exact List.rel_append (ihl le) (ihr (by omega))
    | _ => exact .cons (Or.inl rfl) .nil

theorem mem_of_noBetter {v : Verdict} {vs vs' : List Verdict} (worse : List.Forall₂ NoBetter vs vs')
    (member : v ∈ vs) (notRejected : v ≠ .rejected) : v ∈ vs' := by
  induction worse with
  | nil => exact member
  | cons head _ ih =>
    rcases List.mem_cons.mp member with rfl | later
    · rcases head with rfl | ⟨rejected, -⟩
      · exact List.mem_cons_self
      · exact absurd rejected notRejected
    · exact List.mem_cons_of_mem _ (ih later)

theorem eq_of_noBetter {vs vs' : List Verdict} (worse : List.Forall₂ NoBetter vs vs')
    (clean : .rejected ∉ vs) : vs = vs' := by
  induction worse with
  | nil => rfl
  | cons head _ ih =>
    rw [List.mem_cons, not_or] at clean
    obtain ⟨first, others⟩ := clean
    rcases head with rfl | ⟨rejected, -⟩
    · rw [ih others]
    · exact absurd rejected.symm first

theorem errorAfter_noBetter {vs vs' : List Verdict} (worse : List.Forall₂ NoBetter vs vs')
    {error error' : Bool} (more : error' = true → error = true) (left : errorAfter error' vs' = true) :
    errorAfter error vs = true := by
  induction worse generalizing error error' with
  | nil => exact more left
  | @cons v v' _ _ head _ ih =>
    rcases head with rfl | ⟨rfl, rfl⟩
    · cases v with
      | usable => exact ih more left
      | rejected => exact ih id left
      | skipped => exact ih id left
    · exact ih (fun _ => rfl) left

theorem bfindexInit_refused {filter : FfNode R} (refused : Refused filter) (s : BfState) :
    (bfindexInit filter s).1 = none := by
  have worse := leaves_noBetter filter (Nat.zero_le s.ipCnt)
  rw [bfindexInit_eq_none]
  rcases refused with nothing | ⟨found, followed⟩
  · exact Or.inl fun usable => nothing (mem_of_noBetter worse usable (by decide))
  · have left : errorAfter false (leaves filter 0) = true := errorAfter_iff.mpr ⟨followed, Or.inr found⟩
    exact Or.inr (errorAfter_noBetter worse (by simp) left)

theorem buildAddrNode_fst (oper : FfOp) (net : FfNet) (s : BfState) :
    (buildAddrNode oper net s).1 =
      if oper = .eq ∧ s.ipCnt < maxIpAddreses ∧ net.usingMask = false then .addr net.nodeType net.ip
      else .null := by
  unfold buildAddrNode
  by_cases equality : oper = .eq
  · by_cases room : s.ipCnt < maxIpAddreses
    · cases masked : net.usingMask <;> simp [equality, room, Nat.not_lt.mpr room]
    · have exceeded : maxIpAddreses < s.ipCnt + 1 := by omega
      simp [equality, room, exceeded]
  · simp [equality]

theorem buildNode_congr {filter : FfNode R} {s t : BfState}
    (same : leaves filter s.ipCnt = leaves filter t.ipCnt) :
    (buildNode filter s).1 = (buildNode filter t).1 := by
  induction filter generalizing s t with
  | null => rfl
  | node type oper net test left right ihl ihr =>
    cases type with
    | addr =>
      have verdict := List.singleton_inj.mp same
      simp only [buildNode, buildAddrNode_fst]
      split_ifs at verdict ⊢ <;> rfl
    | unsupported =>
      simp only [leaves] at same
      simp only [buildNode]
      cases connective : operNodeType oper with
      | none => rfl
      | some nodeType =>
        simp only [connective] at same
        have long : (leaves left s.ipCnt).length = (leaves left t.ipCnt).length :=
          (leaves_noBetter left (Nat.zero_le s.ipCnt)).length_eq.trans
            (leaves_noBetter left (Nat.zero_le t.ipCnt)).length_eq.symm
        obtain ⟨sameLeft, sameRight⟩ := List.append_inj same long
        have countS := (buildNode_denotes (fun _ => false) left s).2
        have countT := (buildNode_denotes (fun _ => false) left t).2
        rw [← countS, ← countT] at sameRight
        dsimp only
        rw [ihl sameLeft, ihr sameRight]
    | _ => rfl

theorem errorAfter_hidden {error : Bool} {vs : List Verdict}
    (hidden : error = false ∨ ∃ v ∈ vs, v ≠ .usable) : errorAfter error vs = errorAfter false vs := by
  rw [Bool.eq_iff_iff, errorAfter_iff, errorAfter_iff]
  constructor
  · intro ⟨followed, found⟩
    refine ⟨followed, Or.inr ?_⟩
    rcases hidden with none | ⟨v, member, notUsable⟩
    · exact found.resolve_left (by simp [none])
    · cases v with
      | usable => exact absurd rfl notUsable
      | rejected => exact member
      | skipped =>
        obtain ⟨before, after, rfl⟩ := List.append_of_mem member
        exact List.mem_append_right _ (List.mem_cons_of_mem _ (followed before after rfl))
  · intro ⟨followed, found⟩
    exact ⟨followed, Or.inr (found.resolve_left (by simp))⟩

theorem bfindexInit_unaffected {filter : FfNode R} {s : BfState} (unaffected : Unaffected filter s) :
    (bfindexInit filter s).1 = (bfindexInit filter {}).1 := by
  obtain ⟨same, hidden⟩ := unaffected
  have error : errorAfter (s.globalEcode != .ok) (leaves filter s.ipCnt) =
      errorAfter false (leaves filter 0) := by
    rw [same]
    exact errorAfter_hidden (hidden.imp (by simp) id)
  have agree : (bfindexInit filter s).1 = none ↔ (bfindexInit filter {}).1 = none := by
    rw [bfindexInit_eq_none, bfindexInit_eq_none, error, same]
    rfl
  by_cases refused : (bfindexInit filter s).1 = none
  · rw [refused, agree.mp refused]
  · rw [bfindexInit_root refused, bfindexInit_root (mt agree.mpr refused)]
    exact congrArg some (buildNode_congr same)

/-- Where no leaf is skipped, only an unaffected call returns the tree of a fresh process. -/
theorem unaffected_of_same {filter : FfNode R} {s : BfState} (noSkip : .skipped ∉ leaves filter 0)
    (same : (bfindexInit filter s).1 = (bfindexInit filter {}).1) (accepted : ¬ Refused filter) :
    Unaffected filter s := by
  have followed {vs : List Verdict} (none : .skipped ∉ vs) : SkipsFollowed vs := by
    intro before after split
    exact absurd (split ▸ by simp) none
  have worse := leaves_noBetter filter (Nat.zero_le s.ipCnt)
  have noSkipNow : .skipped ∉ leaves filter s.ipCnt := fun skipped =>
    noSkip (mem_of_noBetter worse skipped (by decide))
  have acceptedNow := accepted
  rw [refused_iff, ← same, bfindexInit_eq_none, errorAfter_iff, not_or, not_and, not_or] at acceptedNow
  obtain ⟨usable, clean⟩ := acceptedNow
  obtain ⟨noError, noReject⟩ := clean (followed noSkipNow)
  exact ⟨eq_of_noBetter worse noReject, Or.inl (by simpa using noError)⟩

/-- After any earlier calls a call returns what it returns on a fresh process when it is refused there or
cannot see the earlier calls; a filter whose leaves are all addresses is accepted in no other case. -/
theorem bfindex_init_repeats (earlier : List (FfNode R)) (filter : FfNode R) :
    (Refused filter ∨ Unaffected filter (afterCalls earlier) →
        (bfindexInit filter (afterCalls earlier)).1 = (bfindexInit filter {}).1) ∧
      (.skipped ∉ leaves filter 0 →
        (bfindexInit filter (afterCalls earlier)).1 = (bfindexInit filter {}).1 →
          Refused filter ∨ Unaffected filter (afterCalls earlier)) := by
  constructor
  · rintro (refused | unaffected)
    · rw [bfindexInit_refused refused, bfindexInit_refused refused]
    · exact bfindexInit_unaffected unaffected
  · intro noSkip same
    exact or_iff_not_imp_left.mpr (unaffected_of_same noSkip same)

theorem bfindex_init_repeats_host :
    (bfindexInit hostFilter (afterCalls [hostFilter, tcpFilter])).1 = (bfindexInit hostFilter {}).1 :=
  (bfindex_init_repeats [hostFilter, tcpFilter] hostFilter).1 <|
    Or.inr ⟨by decide, Or.inl (by decide)⟩

def addressFilter (address : UInt32) : FfNode FlowKey :=
  .node .addr .eq ⟨.v4, ipv4 address, ipv6MaskUnused⟩ (fun r => r.srcip == ipv4 address) .null .null

def elevenAddresses : FfNode FlowKey :=
  [2, 3, 4, 5, 6, 7, 8, 9, 10, 11].foldl (fun f address => connective .or f (addressFilter address))
  (addressFilter 1)

/-- The second thread with the same eleven addresses is over the limit of twenty. -/
theorem bfindex_init_counts_on :
    (bfindexInit elevenAddresses {}).1 ≠ none ∧
      (bfindexInit elevenAddresses (afterCalls [elevenAddresses])).1 = none := by
  constructor <;> decide

/-! ### The counter over a whole run -/

theorem bfindexInit_snd (filter : FfNode R) (s : BfState) :
    (bfindexInit filter s).2 = (buildNode filter s).2 := by
  unfold bfindexInit
  split
  · rename_i built
    rw [built]
  · rename_i built
    rw [built]
    split <;> rfl

theorem afterCalls_append (earlier : List (FfNode R)) (filter : FfNode R) :
    afterCalls (earlier ++ [filter]) = (buildNode filter (afterCalls earlier)).2 := by
  rw [afterCalls, List.foldl_append, List.foldl_cons, List.foldl_nil, bfindexInit_snd, ← afterCalls]

/-- The counter is never reset: it counts the equality tests of all calls. -/
theorem afterCalls_ipCnt (earlier : List (FfNode R)) :
    (afterCalls earlier).ipCnt = (earlier.map eqTests).sum := by
  induction earlier using List.reverseRecOn with
  | nil => rfl
  | append_singleton calls last ih =>
    rw [afterCalls_append, (buildNode_denotes (fun _ => false) last _).2, ih]
    simp

theorem sum_replicate_eqTests (threads : Nat) (filter : FfNode R) :
    (afterCalls (List.replicate threads filter)).ipCnt = threads * eqTests filter := by
  simp [afterCalls_ipCnt]

end Fdistdump.Bfindex
