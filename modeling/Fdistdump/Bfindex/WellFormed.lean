import Fdistdump.Bfindex.Build
import Mathlib.Data.List.Basic

/-!
# The shape of a built tree

Evaluation follows both children of an operator node without a check. What `build_node` returns has
them, and it has the value of the filter without the nodes that were dropped.
-/

namespace Fdistdump.Bfindex

variable {R : Type} {filter : FfNode R} {s : BfState}

/-! ### Trees -/

def WellBuilt : BfindexNode → Prop
  | .null => False
  | .addr type _ => nodeTypeIsAddr type
  | .oper type left right => nodeTypeIsOper type ∧ WellBuilt left ∧ WellBuilt right

def BfindexNode.addrs : BfindexNode → List (NodeType × FfIp)
  | .null => []
  | .addr type ip => [(type, ip)]
  | .oper _ left right => left.addrs ++ right.addrs

/-- The equality tests of addresses without a mask, anywhere in the filter. -/
def plainTests : FfNode R → List FfNet
  | .null => []
  | .node type oper net _ left right =>
    match type with
    | .addr => if oper = .eq ∧ net.usingMask = false then [net] else []
    | .unsupported => plainTests left ++ plainTests right
    | _ => []

/-- The filter without the leaves that `build_node` drops. An operator that has lost an operand is
replaced by the other one. `cnt` equality tests came before. -/
def withoutDropped : FfNode R → Nat → Option (FfNode R)
  | .null, _ => none
  | .node type oper net test left right, cnt =>
    match type with
    | .addr =>
      if oper = .eq ∧ cnt < maxIpAddreses ∧ net.usingMask = false then
        some (.node type oper net test left right)
      else none
    | .unsupported =>
      match operNodeType oper with
      | none => none
      | some _ =>
        (withoutDropped left cnt).merge (fun left right => .node type oper net test left right)
          (withoutDropped right (cnt + eqTests left))
    | _ => none

/-- The value of a filter of AND, OR and equality tests when an address is looked up. -/
def lookupValue (isStored : FfIp → Bool) : FfNode R → Bool
  | .null => false
  | .node type oper net _ left right =>
    match type with
    | .addr => isStored net.ip
    | _ =>
      match oper with
      | .and => lookupValue isStored left && lookupValue isStored right
      | _ => lookupValue isStored left || lookupValue isStored right

/-! ### Pruning -/

theorem pruneOperSubtree_cases (type : NodeType) (left right : BfindexNode) :
    (left = .null ∧ pruneOperSubtree type left right = right) ∨
    (right = .null ∧ pruneOperSubtree type left right = left) ∨
    (left = right ∧ pruneOperSubtree type left right = left) ∨
    (left ≠ .null ∧ right ≠ .null ∧ pruneOperSubtree type left right = .oper type left right) := by
  cases left with
  | null => exact Or.inl ⟨rfl, by cases right <;> rfl⟩
  | oper leftType leftLeft leftRight =>
    cases right with
    | null => exact Or.inr (Or.inl ⟨rfl, rfl⟩)
    | addr | oper => exact Or.inr (Or.inr (Or.inr ⟨by simp, by simp, rfl⟩))
  | addr leftType leftIp =>
    cases right with
    | null => exact Or.inr (Or.inl ⟨rfl, rfl⟩)
    | oper => exact Or.inr (Or.inr (Or.inr ⟨by simp, by simp, rfl⟩))
    | addr rightType rightIp =>
      right
      right
      rw [pruneOperSubtree]
      split
      · rename_i same
        simp only [Bool.and_eq_true, beq_iff_eq] at same
        obtain ⟨⟨-, sameType⟩, sameIp⟩ := same
        exact Or.inl ⟨by rw [sameType, sameIp], rfl⟩
      · exact Or.inr ⟨by simp, by simp, rfl⟩

theorem WellBuilt.prune {type : NodeType} {left right : BfindexNode} (operator : nodeTypeIsOper type)
    (goodLeft : left ≠ .null → WellBuilt left) (goodRight : right ≠ .null → WellBuilt right)
    (present : pruneOperSubtree type left right ≠ .null) :
    WellBuilt (pruneOperSubtree type left right) := by
  rcases pruneOperSubtree_cases type left right with ⟨-, same⟩ | ⟨-, same⟩ | ⟨-, same⟩ | ⟨hasLeft,
    hasRight, same⟩
  · rw [same] at present ⊢
    exact goodRight present
  · rw [same] at present ⊢
    exact goodLeft present
  · rw [same] at present ⊢
    exact goodLeft present
  · rw [same]
    exact ⟨operator, goodLeft hasLeft, goodRight hasRight⟩

theorem addrs_prune (type : NodeType) (left right : BfindexNode) :
    (pruneOperSubtree type left right).addrs.Sublist (left.addrs ++ right.addrs) := by
  rcases pruneOperSubtree_cases type left right with ⟨-, same⟩ | ⟨-, same⟩ | ⟨-, same⟩ | ⟨-, -, same⟩
  · rw [same]
    exact List.sublist_append_right _ _
  · rw [same]
    exact List.sublist_append_left _ _
  · rw [same]
    exact List.sublist_append_left _ _
  · rw [same]
    exact List.Sublist.refl _

/-- Either operator on an address and itself has the value of the address. -/
theorem merged_value (isStored : FfIp → Bool) {type addrType : NodeType} (operator : nodeTypeIsOper type)
    (address : nodeTypeIsAddr addrType) (ip : FfIp) :
    pruneOperSubtree type (.addr addrType ip) (.addr addrType ip) = .addr addrType ip ∧
      bfindexTreeContains isStored (.oper type (.addr addrType ip) (.addr addrType ip)) =
        bfindexTreeContains isStored (.addr addrType ip) := by
  have value : bfindexTreeContains isStored (.addr addrType ip) = some (isStored ip) := if_pos address
  have both := (denotes_oper operator value value).value
  have idempotent : connect type (isStored ip) (isStored ip) = isStored ip := by
    cases type <;> cases isStored ip <;> rfl
  refine ⟨?_, by rw [both, value, idempotent]⟩
  rw [pruneOperSubtree, if_pos]
  simp [address]

/-! ### Building -/

theorem nodeType_isAddr (net : FfNet) : nodeTypeIsAddr net.nodeType := by
  cases version : net.ver <;> simp [FfNet.nodeType, version, nodeTypeIsAddr]

theorem buildAddrNode_cases (oper : FfOp) (net : FfNet) (s : BfState) :
    (buildAddrNode oper net s).1 = .null ∨
      (oper = .eq ∧ net.usingMask = false ∧ s.ipCnt < maxIpAddreses ∧
        (buildAddrNode oper net s).1 = .addr net.nodeType net.ip) := by
  unfold buildAddrNode
  split
  · exact Or.inl rfl
  · rename_i equality
    dsimp only
    split
    · exact Or.inl rfl
    · rename_i room
      split
      · exact Or.inl rfl
      · rename_i plain
        exact Or.inr ⟨not_not.mp equality, by simpa using plain, by omega, rfl⟩

theorem buildNode_wellBuilt (filter : FfNode R) (s : BfState)
    (present : (buildNode filter s).1 ≠ .null) :
    WellBuilt (buildNode filter s).1 := by
  induction filter generalizing s with
  | null => exact absurd rfl present
  | node type oper net test left right ihl ihr =>
    cases type with
    | addr =>
      rcases buildAddrNode_cases oper net s with none | ⟨-, -, -, built⟩
      · exact absurd none present
      · rw [buildNode, built]
        exact nodeType_isAddr net
    | unsupported =>
      simp only [buildNode] at present ⊢
      cases connective : operNodeType oper with
      | none => simp [connective] at present
      | some nodeType =>
        have operator : nodeTypeIsOper nodeType := by
          rcases operNodeType_cases connective with ⟨rfl, -⟩ | ⟨rfl, -⟩ <;> rfl
        simp only [connective] at present ⊢
        exact WellBuilt.prune operator (ihl s) (ihr (buildNode left s).2) present
    | _ => exact absurd rfl present

theorem buildNode_addrs (filter : FfNode R) (s : BfState) :
    (buildNode filter s).1.addrs.Sublist ((plainTests filter).map fun net => (net.nodeType, net.ip)) ∧
      (buildNode filter s).1.addrs.length ≤ eqTests filter ∧
      (buildNode filter s).1.addrs.length ≤ maxIpAddreses - s.ipCnt := by
  induction filter generalizing s with
  | null => exact ⟨List.Sublist.refl _, Nat.zero_le _, Nat.zero_le _⟩
  | node type oper net test left right ihl ihr =>
    cases type with
    | addr =>
      rcases buildAddrNode_cases oper net s with none | ⟨equality, plain, room, built⟩
      · rw [buildNode, none]
        exact ⟨List.nil_sublist _, Nat.zero_le _, Nat.zero_le _⟩
      · rw [buildNode, built, plainTests, eqTests, if_pos ⟨equality, plain⟩, if_pos equality]
        exact ⟨List.Sublist.refl _, Nat.le_refl _, show 1 ≤ maxIpAddreses - s.ipCnt by omega⟩
    | unsupported =>
      simp only [buildNode, plainTests, eqTests]
      cases connective : operNodeType oper with
      | none => exact ⟨List.nil_sublist _, Nat.zero_le _, Nat.zero_le _⟩
      | some nodeType =>
        obtain ⟨amongLeft, testsLeft, roomLeft⟩ := ihl s
        obtain ⟨amongRight, testsRight, roomRight⟩ := ihr (buildNode left s).2
        have counted := (buildNode_denotes (fun _ => false) left s).2
        have pruned := addrs_prune nodeType (buildNode left s).1 (buildNode right (buildNode left s).2).1
        have fewer := pruned.length_le
        rw [List.length_append] at fewer
        rw [counted] at roomRight
        dsimp only
        rw [List.map_append, Option.isSome_some, if_pos rfl]
        exact ⟨pruned.trans (amongLeft.append amongRight), by omega, by omega⟩
    | _ => exact ⟨List.nil_sublist _, Nat.zero_le _, Nat.zero_le _⟩

/-! ### The value -/

theorem skeleton_eq (isStored : FfIp → Bool) (filter : FfNode R) (cnt : Nat) :
    skeleton isStored filter cnt = (withoutDropped filter cnt).map (lookupValue isStored) := by
  induction filter generalizing cnt with
  | null => rfl
  | node type oper net test left right ihl ihr =>
    cases type with
    | addr =>
      simp only [skeleton, withoutDropped]
      split <;> rfl
    | unsupported =>
      simp only [skeleton, withoutDropped]
      cases connective : operNodeType oper with
      | none => rfl
      | some nodeType =>
        dsimp only
        rw [ihl cnt, ihr (cnt + eqTests left)]
        have value (l r : FfNode R) : connect nodeType (lookupValue isStored l)
          (lookupValue isStored r) =
            lookupValue isStored (.node .unsupported oper net test l r) := by
          rcases operNodeType_cases connective with ⟨rfl, rfl⟩ | ⟨rfl, rfl⟩ <;> rfl
        cases withoutDropped left cnt <;> cases withoutDropped right (cnt + eqTests left) <;>
          simp [value]
    | _ => rfl

/-- A built tree is complete, small and made of the filter's addresses, and looking it up gives the
value of the filter without what was dropped. -/
theorem buildNode_wellFormed (filter : FfNode R) (s : BfState)
    (present : (buildNode filter s).1 ≠ .null) :
    WellBuilt (buildNode filter s).1 ∧
    (buildNode filter s).1.addrs.Sublist ((plainTests filter).map fun net => (net.nodeType, net.ip)) ∧
    (buildNode filter s).1.addrs.length ≤ maxIpAddreses ∧
    (∃ rest, withoutDropped filter s.ipCnt = some rest ∧
      ∀ isStored, bfindexTreeContains isStored (buildNode filter s).1 =
        some (lookupValue isStored rest)) ∧
    ∀ isStored type addrType ip, nodeTypeIsOper type → nodeTypeIsAddr addrType →
      pruneOperSubtree type (.addr addrType ip) (.addr addrType ip) = .addr addrType ip ∧
        bfindexTreeContains isStored (.oper type (.addr addrType ip) (.addr addrType ip)) =
          bfindexTreeContains isStored (.addr addrType ip) := by
  obtain ⟨among, -, room⟩ := buildNode_addrs filter s
  refine ⟨buildNode_wellBuilt filter s present, among, Nat.le_trans room (Nat.sub_le _ _), ?_,
    fun isStored type addrType ip operator address => merged_value isStored operator address ip⟩
  cases left : withoutDropped filter s.ipCnt with
  | none =>
    have nothing := (buildNode_denotes (fun _ => false) filter s).1.null (by rw [skeleton_eq, left]; rfl)
    exact absurd nothing present
  | some rest =>
    refine ⟨rest, rfl, ?_⟩
    intro isStored
    rw [(buildNode_denotes isStored filter s).1.value, skeleton_eq, left]
    rfl

def plainTest (ip : UInt32) : FfNode Unit :=
  .node .addr .eq ⟨.v4, ⟨0, 0, 0, ip⟩, ipv6MaskUnused⟩ (fun _ => true) .null .null

def joined (oper : FfOp) (left right : FfNode Unit) : FfNode Unit :=
  .node .unsupported oper ⟨.v4, ⟨0, 0, 0, 0⟩, ipv6MaskUnused⟩ (fun _ => true) left right

def mixedFilter : FfNode Unit :=
  joined .and (joined .or (plainTest 7) (plainTest 7))
    (joined .or (plainTest 8) (.node .uint16 .eq ⟨.v4, ⟨0, 0, 0, 0⟩, ipv6MaskUnused⟩
      (fun _ => true) .null .null))

theorem buildNode_wellFormed_mixed :
    (buildNode mixedFilter {}).1 =
        .oper .operAnd (.addr .addrV4 ⟨0, 0, 0, 7⟩) (.addr .addrV4 ⟨0, 0, 0, 8⟩) ∧
      WellBuilt (buildNode mixedFilter {}).1 :=
  ⟨by decide, (buildNode_wellFormed mixedFilter {} (by decide)).1⟩

end Fdistdump.Bfindex
