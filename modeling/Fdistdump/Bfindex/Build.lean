/-!
# Building the address tree of a filter

`bfindexInit` follows `bfindex_init`: it walks the filter tree and keeps its usable addresses under
AND and OR nodes. A static address counter and a static error code survive from call to call.
-/

namespace Fdistdump.Bfindex

inductive FfType
  | unsupported | addr | unsigned | unsignedBig | signed | signedBig | uint8 | uint16 | uint32 | uint64
  | int8 | int16 | int32 | int64 | double | mac | string | mpls | timestamp | timestampBig | term
deriving DecidableEq, Repr

inductive FfOp
  | undef | not | or | and | inOp | yes | noop | eq | lt | gt | isset | isnset | exist | term
deriving DecidableEq, Repr

structure FfIp where
  data0 : UInt32
  data1 : UInt32
  data2 : UInt32
  data3 : UInt32
deriving DecidableEq, Repr

inductive IpVersion
  | v4
  | v6
deriving DecidableEq, Repr

/-- `ff_net_t`, the value of an address node. -/
structure FfNet where
  ver : IpVersion
  ip : FfIp
  mask : FfIp
deriving DecidableEq, Repr

/-- `ff_node_t`. `test` is what the filter library makes of the node's field, operator and value; it
matters for nodes that are not connectives. -/
inductive FfNode (R : Type)
  | null
  | node (type : FfType) (oper : FfOp) (net : FfNet) (test : R → Bool) (left right : FfNode R)

inductive NodeType
  | unset
  | operAnd
  | operOr
  | addrV4
  | addrV6
deriving DecidableEq, Repr

/-- `struct bfindex_node`, or NULL. -/
inductive BfindexNode
  | null
  | addr (type : NodeType) (ip : FfIp)
  | oper (type : NodeType) (left right : BfindexNode)
deriving DecidableEq, Repr

inductive BfindexEcode
  | ok
  | mem
  | limit
  | noEq
  | mask
deriving DecidableEq, Repr

/-- The static variables. -/
structure BfState where
  ipCnt : Nat := 0
  globalEcode : BfindexEcode := .ok
deriving DecidableEq, Repr

def maxIpAddreses : Nat := 20

def ipv6MaskUnused : FfIp := ⟨0xffffffff, 0xffffffff, 0xffffffff, 0xffffffff⟩

def nodeTypeIsAddr (type : NodeType) : Bool := type == .addrV4 || type == .addrV6

def nodeTypeIsOper (type : NodeType) : Bool := type == .operAnd || type == .operOr

def FfNet.nodeType (net : FfNet) : NodeType :=
  match net.ver with
  | .v4 => .addrV4
  | .v6 => .addrV6

def FfNet.usingMask (net : FfNet) : Bool :=
  match net.ver with
  | .v4 => net.mask.data3 != 0xffffffff
  | .v6 => net.mask != ipv6MaskUnused

/-- `build_addr_node`; memory is always available. -/
def buildAddrNode (oper : FfOp) (net : FfNet) (s : BfState) : BfindexNode × BfState :=
  if oper ≠ .eq then (.null, { s with globalEcode := .noEq })
  else
    let s := { s with ipCnt := s.ipCnt + 1 }
    if s.ipCnt > maxIpAddreses then (.null, { s with globalEcode := .limit })
    else if net.usingMask then (.null, { s with globalEcode := .mask })
    else (.addr net.nodeType net.ip, s)

/-- `prune_oper_subtree` of an operator node with the given children. -/
def pruneOperSubtree (type : NodeType) : BfindexNode → BfindexNode → BfindexNode
  | .null, .null => .null
  | .null, right => right
  | left, .null => left
  | .addr leftType leftIp, .addr rightType rightIp =>
    if nodeTypeIsAddr leftType && nodeTypeIsAddr rightType && leftType == rightType && leftIp == rightIp then
      .addr leftType leftIp
    else .oper type (.addr leftType leftIp) (.addr rightType rightIp)
  | left, right => .oper type left right

/-- The node types of `build_oper_node`; other operators are skipped. -/
def operNodeType : FfOp → Option NodeType
  | .and => some .operAnd
  | .or => some .operOr
  | _ => none

variable {R : Type}

/-- `build_node` with `build_oper_node`. Only nodes below AND and OR are visited; the code asserts that
none of them is NULL. -/
def buildNode : FfNode R → BfState → BfindexNode × BfState
  | .null, s => (.null, s)
  | .node type oper net _ left right, s =>
    match type with
    | .addr => buildAddrNode oper net s
    | .unsupported =>
      match operNodeType oper with
      | none => (.null, { s with globalEcode := .ok })
      | some nodeType =>
        let (left, s) := buildNode left s
        let (right, s) := buildNode right s
        (pruneOperSubtree nodeType left right, s)
    | _ => (.null, { s with globalEcode := .ok })

def bfindexInit (filterRoot : FfNode R) (s : BfState) : Option BfindexNode × BfState :=
  match buildNode filterRoot s with
  | (.null, s) => (none, s)
  | (root, s) => if s.globalEcode ≠ .ok then (none, s) else (some root, s)

/-- `bfindex_tree_contains`; `none` where the code would abort or follow a NULL pointer. -/
def bfindexTreeContains (isStored : FfIp → Bool) : BfindexNode → Option Bool
  | .null => none
  | .addr type ip => if nodeTypeIsAddr type then some (isStored ip) else none
  | .oper type left right =>
    match type with
    | .operAnd =>
      (bfindexTreeContains isStored left).bind fun found =>
        if found then bfindexTreeContains isStored right else some false
    | .operOr =>
      (bfindexTreeContains isStored left).bind fun found =>
        if found then some true else bfindexTreeContains isStored right
    | _ => none

/-- `bfindex_contains`; `index` is the lookup of the index file, `none` when it cannot be loaded. -/
def bfindexContains (index : Option (FfIp → Bool)) (root : BfindexNode) : Option Bool :=
  match index with
  | none => some true
  | some isStored => bfindexTreeContains isStored root

/-! ### What is left of a filter -/

/-- Equality tests of addresses that are reached through AND and OR. -/
def eqTests : FfNode R → Nat
  | .null => 0
  | .node type oper _ _ left right =>
    match type with
    | .addr => if oper = .eq then 1 else 0
    | .unsupported => if (operNodeType oper).isSome then eqTests left + eqTests right else 0
    | _ => 0

def connect : NodeType → Bool → Bool → Bool
  | .operAnd, a, b => a && b
  | _, a, b => a || b

/-- The value of what is left when everything except usable address tests is taken out of the filter:
an operator with one operand left is that operand. `cnt` equality tests came before. -/
def skeleton (isStored : FfIp → Bool) : FfNode R → Nat → Option Bool
  | .null, _ => none
  | .node type oper net _ left right, cnt =>
    match type with
    | .addr =>
      if oper = .eq ∧ cnt < maxIpAddreses ∧ net.usingMask = false then some (isStored net.ip)
      else none
    | .unsupported =>
      match operNodeType oper with
      | none => none
      | some nodeType =>
        (skeleton isStored left cnt).merge (connect nodeType)
          (skeleton isStored right (cnt + eqTests left))
    | _ => none

theorem operNodeType_cases {oper : FfOp} {nodeType : NodeType}
    (some : operNodeType oper = some nodeType) :
    nodeType = .operAnd ∧ oper = .and ∨ nodeType = .operOr ∧ oper = .or := by
  cases oper with
  | and => exact .inl ⟨(Option.some.inj some).symm, rfl⟩
  | or => exact .inr ⟨(Option.some.inj some).symm, rfl⟩
  | _ => cases some

/-- The node has the value `a`; a NULL node has none. -/
structure Denotes (isStored : FfIp → Bool) (node : BfindexNode) (a : Option Bool) : Prop where
  value : bfindexTreeContains isStored node = a
  null : a = none → node = .null

theorem denotes_null (isStored : FfIp → Bool) : Denotes isStored .null none := ⟨rfl, fun _ => rfl⟩

theorem Denotes.some {isStored : FfIp → Bool} {node : BfindexNode} {a : Option Bool}
    (h : Denotes isStored node a) (present : node ≠ .null) :
    ∃ v, a = some v ∧ bfindexTreeContains isStored node = some v := by
  cases a with
  | none => exact absurd (h.null rfl) present
  | some v => exact ⟨v, rfl, h.value⟩

theorem denotes_oper {isStored : FfIp → Bool} {type : NodeType} (oper : nodeTypeIsOper type)
    {left right : BfindexNode} {a b : Bool} (hl : bfindexTreeContains isStored left = some a)
    (hr : bfindexTreeContains isStored right = some b) :
    Denotes isStored (.oper type left right) (some (connect type a b)) := by
  refine ⟨?_, fun none => by cases none⟩
  cases type with
  | operAnd | operOr =>
    simp only [bfindexTreeContains, hl, hr, Option.bind_some, connect]
    cases a <;> rfl
  | unset | addrV4 | addrV6 => cases oper

theorem denotes_prune {isStored : FfIp → Bool} {type : NodeType} (oper : nodeTypeIsOper type)
    {left right : BfindexNode} {a b : Option Bool} (hl : Denotes isStored left a)
    (hr : Denotes isStored right b) :
    Denotes isStored (pruneOperSubtree type left right) (a.merge (connect type) b) := by
  by_cases noLeft : left = .null
  · subst noLeft
    obtain rfl : none = a := hl.value
    rw [Option.merge_none_left]
    cases right with
    | null => exact hr
    | addr => exact hr
    | oper => exact hr
  by_cases noRight : right = .null
  · subst noRight
    obtain rfl : none = b := hr.value
    rw [Option.merge_none_right]
    cases left with
    | null => exact hl
    | addr => exact hl
    | oper => exact hl
  obtain ⟨x, rfl, valueLeft⟩ := hl.some noLeft
  obtain ⟨y, rfl, valueRight⟩ := hr.some noRight
  have both := denotes_oper oper valueLeft valueRight
  cases left with
  | null => exact absurd rfl noLeft
  | oper => cases right <;> first | exact absurd rfl noRight | exact both
  | addr leftType leftIp =>
    cases right with
    | null => exact absurd rfl noRight
    | oper => exact both
    | addr rightType rightIp =>
      rw [pruneOperSubtree]
      split
      · -- equal addresses: either operator has the value of one of them
        rename_i same
        simp only [Bool.and_eq_true, beq_iff_eq] at same
        obtain ⟨⟨-, rfl⟩, rfl⟩ := same
        obtain rfl : x = y := Option.some.inj (valueLeft.symm.trans valueRight)
        have idempotent : connect type x x = x := by cases type <;> cases x <;> rfl
        rw [Option.merge_some_some, idempotent]
        exact hl
      · exact both

theorem buildAddrNode_denotes (isStored : FfIp → Bool) (oper : FfOp) (net : FfNet) (s : BfState) :
    Denotes isStored (buildAddrNode oper net s).1
        (if oper = .eq ∧ s.ipCnt < maxIpAddreses ∧ net.usingMask = false then some (isStored net.ip)
          else none) ∧
      (buildAddrNode oper net s).2.ipCnt = s.ipCnt + if oper = .eq then 1 else 0 := by
  unfold buildAddrNode
  by_cases equality : oper = .eq
  · by_cases room : s.ipCnt < maxIpAddreses
    · cases masked : net.usingMask with
      | true => simp [equality, room, denotes_null, Nat.not_lt.mpr room]
      | false =>
        have value : Denotes isStored (.addr net.nodeType net.ip) (some (isStored net.ip)) := by
          refine ⟨?_, fun none => by cases none⟩
          cases version : net.ver <;> simp [bfindexTreeContains, FfNet.nodeType, version, nodeTypeIsAddr]
        simp [equality, room, Nat.not_lt.mpr room, value]
    · have exceeded : maxIpAddreses < s.ipCnt + 1 := by omega
      simp [equality, room, denotes_null, exceeded]
  · simp [equality, denotes_null]

/-- `build_node` returns the skeleton of the filter and counts its equality tests. -/
theorem buildNode_denotes (isStored : FfIp → Bool) (filter : FfNode R) (s : BfState) :
    Denotes isStored (buildNode filter s).1 (skeleton isStored filter s.ipCnt) ∧
      (buildNode filter s).2.ipCnt = s.ipCnt + eqTests filter := by
  induction filter generalizing s with
  | null => exact ⟨denotes_null _, rfl⟩
  | node type oper net test left right ihl ihr =>
    cases type with
    | addr => exact buildAddrNode_denotes isStored oper net s
    | unsupported =>
      rw [buildNode, skeleton, eqTests]
      dsimp only
      cases connective : operNodeType oper with
      | none => exact ⟨denotes_null _, rfl⟩
      | some nodeType =>
        have operator : nodeTypeIsOper nodeType := by
          rcases operNodeType_cases connective with ⟨rfl, -⟩ | ⟨rfl, -⟩ <;> rfl
        obtain ⟨valueLeft, countLeft⟩ := ihl s
        obtain ⟨valueRight, countRight⟩ := ihr (buildNode left s).2
        rw [countLeft] at valueRight countRight
        exact ⟨denotes_prune operator valueLeft valueRight, by simp [countRight, Nat.add_assoc]⟩
    | _ => exact ⟨denotes_null _, rfl⟩

end Fdistdump.Bfindex
