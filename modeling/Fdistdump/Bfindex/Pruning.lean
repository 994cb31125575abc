import Fdistdump.Bfindex.Build
import Fdistdump.Slave.ProcessFile

/-!
# When the Bloom index loses no record

A file is skipped when the address tree is false on its index. The tree has the value of the filter's
skeleton, so nothing is lost exactly when the filter implies its skeleton. AND nodes may drop operands;
an OR node that drops one of its operands forgets the records that only this operand accepts.
-/

namespace Fdistdump.Bfindex
open Slave

variable {R : Type} (src dst : R → FfIp)

/-- `ff_eval` of a record: AND, OR and NOT are connectives, an unmasked equality test of an address
accepts only records with that source or destination, everything else is arbitrary. -/
def accepts (record : R) : FfNode R → Bool
  | .null => false
  | .node type oper net test left right =>
    match type with
    | .addr =>
      if oper = .eq ∧ net.usingMask = false then
        test record && (net.ip == src record || net.ip == dst record)
      else test record
    | .unsupported =>
      match oper with
      | .and => accepts record left && accepts record right
      | .or => accepts record left || accepts record right
      | .not => !accepts record left
      | _ => test record
    | _ => test record

def endpoints (record : R) (ip : FfIp) : Bool := ip == src record || ip == dst record

/-- The index answers true for at least all addresses in the file. -/
def Covers (isStored : FfIp → Bool) (file : FlowFile R) : Prop :=
  ∀ record ∈ file.recs, isStored (src record) = true ∧ isStored (dst record) = true

variable {src dst}

theorem endpoints_stored {isStored : FfIp → Bool} {file : FlowFile R}
    (covers : Covers src dst isStored file)
    {record : R} (member : record ∈ file.recs) (ip : FfIp) (h : endpoints src dst record ip = true) :
    isStored ip = true := by
  obtain ⟨source, destination⟩ := covers record member
  simp only [endpoints, Bool.or_eq_true, beq_iff_eq] at h
  rcases h with rfl | rfl
  · exact source
  · exact destination

theorem connect_mono {type : NodeType} {a b a' b' : Bool} (ha : a = true → a' = true)
    (hb : b = true → b' = true) (h : connect type a b = true) : connect type a' b' = true := by
  cases type with
  | operAnd =>
    obtain ⟨left, right⟩ := Bool.and_eq_true_iff.mp h
    exact Bool.and_eq_true_iff.mpr ⟨ha left, hb right⟩
  | _ => exact Bool.or_eq_true_iff.mpr ((Bool.or_eq_true_iff.mp h).imp ha hb)

theorem merge_mono {type : NodeType} {a b a' b' : Option Bool}
    (ha : a.isSome = a'.isSome ∧ (a = some true → a' = some true))
    (hb : b.isSome = b'.isSome ∧ (b = some true → b' = some true)) :
    (a.merge (connect type) b).isSome = (a'.merge (connect type) b').isSome ∧
      (a.merge (connect type) b = some true → a'.merge (connect type) b' = some true) := by
  match a, a', b, b' with
  | none, none, _, _ => simpa using hb
  | some _, some _, none, none => simpa using ha
  | some _, some _, some _, some _ =>
    simp only [Option.merge_some_some, Option.isSome_some, Option.some.injEq, true_and] at ha hb ⊢
    exact connect_mono ha hb
  | none, some _, _, _ => cases ha.1
  | some _, none, _, _ => cases ha.1
  | _, _, none, some _ => cases hb.1
  | _, _, some _, none => cases hb.1

theorem skeleton_mono {f g : FfIp → Bool} (more : ∀ ip, f ip = true → g ip = true) (filter : FfNode R)
    (cnt : Nat) :
    ((skeleton f filter cnt).isSome = (skeleton g filter cnt).isSome) ∧
      (skeleton f filter cnt = some true → skeleton g filter cnt = some true) := by
  induction filter generalizing cnt with
  | null => exact ⟨rfl, id⟩
  | node type oper net test left right ihl ihr =>
    cases type with
    | addr =>
      simp only [skeleton]
      split
      · exact ⟨rfl, fun h => by rw [more _ (Option.some.inj h)]⟩
      · exact ⟨rfl, id⟩
    | unsupported =>
      simp only [skeleton]
      cases connective : operNodeType oper with
      | none => exact ⟨rfl, id⟩
      | some nodeType =>
        exact merge_mono (ihl cnt) (ihr (cnt + eqTests left))
    | _ => exact ⟨rfl, id⟩

theorem bfindexInit_contains {filter : FfNode R} {s s' : BfState} {root : BfindexNode}
    (built : bfindexInit filter s = (some root, s')) (isStored : FfIp → Bool) :
    ∃ v, skeleton isStored filter s.ipCnt = some v ∧ bfindexContains (some isStored) root = some v := by
  obtain ⟨denotes, -⟩ := buildNode_denotes isStored filter s
  rw [bfindexInit] at built
  split at built
  · cases built
  · split at built
    · cases built
    · rename_i node _ present shape _
      obtain rfl : node = root := Option.some.inj (Prod.mk.inj built).1
      rw [shape] at denotes
      exact denotes.some present

/-- Using the index changes nothing: files with a matching record are read, and reading the others
would have changed nothing. -/
structure Lossless (src dst : R → FfIp) (filter : FfNode R) (root : BfindexNode) : Prop where
  kept : ∀ (file : FlowFile R) (isStored : FfIp → Bool), Covers src dst isStored file →
    (∃ record ∈ file.recs, accepts src dst record filter = true) →
      bfindexContains (some isStored) root = some true
  same : ∀ (file : FlowFile R) (isStored : FfIp → Bool), Covers src dst isStored file →
    ∀ {M : Type} (query : Query R M) (t : ThreadCtx M),
      query.filter = some (fun record => accepts src dst record filter) →
        processFileMt query (some fun _ => bfindexContains (some isStored) root == some true) t file =
          processFileMt query none t file

theorem ffReadAndStore_nothing {M : Type} {query : Query R M} {recs : List R}
    (nothing : ∀ record ∈ recs, query.accepts record = false) (t : ThreadCtx M) :
    ffReadAndStore query recs t = t := by
  induction recs with
  | nil => rfl
  | cons record rest ih =>
    have rejected : query.filter.any (fun accepts => !accepts record) = true := by
      have := nothing record (by simp)
      unfold Query.accepts at this
      cases filter : query.filter with
      | none => simp [filter] at this
      | some f => simpa [filter] using this
    rw [ffReadAndStore, if_pos rejected]
    exact ih fun r member => nothing r (by simp [member])

theorem lossless_of_implied {filter : FfNode R} {s s' : BfState} {root : BfindexNode}
    (built : bfindexInit filter s = (some root, s'))
    (implied : ∀ record, accepts src dst record filter = true →
      skeleton (endpoints src dst record) filter s.ipCnt = some true) :
    Lossless src dst filter root := by
  have kept : ∀ (file : FlowFile R) (isStored : FfIp → Bool), Covers src dst isStored file →
      (∃ record ∈ file.recs, accepts src dst record filter = true) →
        bfindexContains (some isStored) root = some true := by
    intro file isStored covers ⟨record, member, accepted⟩
    obtain ⟨v, value, contains⟩ := bfindexInit_contains built isStored
    have more := (skeleton_mono (endpoints_stored covers member) filter s.ipCnt).2
      (implied record accepted)
    rw [contains, ← value, more]
  refine ⟨kept, ?_⟩
  intro file isStored covers M query t sameFilter
  obtain ⟨v, -, contains⟩ := bfindexInit_contains built isStored
  cases v with
  | true => simp [processFileMt, contains]
  | false =>
    have nothing : ∀ record ∈ file.recs, query.accepts record = false := fun record member => by
      have filtered : query.accepts record = accepts src dst record filter := by
        simp [Query.accepts, sameFilter]
      cases accepted : accepts src dst record filter with
      | false => rw [filtered, accepted]
      | true =>
        rw [kept file isStored covers ⟨record, member, accepted⟩] at contains
        cases contains
    simp [processFileMt, contains, ffReadAndStore_nothing nothing]

/-- Pruning loses nothing exactly when every record that the filter accepts satisfies what is left of
the filter without everything but its usable address tests. -/
theorem bfindex_lossless_iff {filter : FfNode R} {s s' : BfState} {root : BfindexNode}
    (built : bfindexInit filter s = (some root, s')) :
    Lossless src dst filter root ↔ ∀ record, accepts src dst record filter = true →
      skeleton (endpoints src dst record) filter s.ipCnt = some true := by
  refine ⟨fun lossless record accepted => ?_, lossless_of_implied built⟩
  obtain ⟨v, value, contains⟩ := bfindexInit_contains built (endpoints src dst record)
  have covers : Covers src dst (endpoints src dst record) ⟨true, fun _ => 0, [record]⟩ := by
    intro r member
    obtain rfl := List.mem_singleton.mp member
    simp [endpoints]
  rw [lossless.kept _ _ covers ⟨record, by simp, accepted⟩] at contains
  rw [value, contains]

/-- What the examples filter: addresses and the protocol. -/
structure FlowKey where
  srcip : FfIp
  dstip : FfIp
  proto : UInt8
deriving DecidableEq, Repr

def ipv4 (address : UInt32) : FfIp := ⟨0, 0, 0, address⟩

def anyNet : FfNet := ⟨.v4, ipv4 0, ipv4 0⟩

/-- `ip 10.0.0.1`, which the filter compiler expands to the source or the destination. -/
def hostFilter : FfNode FlowKey :=
  .node .unsupported .or anyNet (fun _ => false)
    (.node .addr .eq ⟨.v4, ipv4 0x0a000001, ipv6MaskUnused⟩ (fun r => r.srcip == ipv4 0x0a000001)
      .null .null)
    (.node .addr .eq ⟨.v4, ipv4 0x0a000001, ipv6MaskUnused⟩ (fun r => r.dstip == ipv4 0x0a000001)
      .null .null)

/-- `proto tcp`. -/
def tcpFilter : FfNode FlowKey := .node .uint8 .eq anyNet (fun r => r.proto == 6) .null .null

def connective (oper : FfOp) (left right : FfNode FlowKey) : FfNode FlowKey :=
  .node .unsupported oper anyNet (fun _ => false) left right

theorem bfindex_lossless_iff_host :
    Lossless FlowKey.srcip FlowKey.dstip (connective .and hostFilter tcpFilter)
        (.addr .addrV4 (ipv4 0x0a000001)) ↔
      ∀ record, accepts FlowKey.srcip FlowKey.dstip record
        (connective .and hostFilter tcpFilter) = true →
        skeleton (endpoints FlowKey.srcip FlowKey.dstip record)
          (connective .and hostFilter tcpFilter) 0 =
          some true :=
  bfindex_lossless_iff (show bfindexInit (connective .and hostFilter tcpFilter) {} =
    (_, ⟨2, .ok⟩) by decide)

/-- `ip 10.0.0.1 or proto tcp`: only the address is looked up, so a file with other addresses is skipped
although its TCP record matches. -/
theorem bfindex_loses_other_operand :
    ∃ root s', bfindexInit (connective .or hostFilter tcpFilter) {} = (some root, s') ∧
      ∃ (file : FlowFile FlowKey) (isStored : FfIp → Bool),
        Covers FlowKey.srcip FlowKey.dstip isStored file ∧
        (∃ record ∈ file.recs, accepts FlowKey.srcip FlowKey.dstip record
          (connective .or hostFilter tcpFilter) = true) ∧
        bfindexContains (some isStored) root = some false := by
  refine ⟨.addr .addrV4 (ipv4 0x0a000001), ⟨2, .ok⟩, by decide,
    ⟨true, fun _ => 0, [⟨ipv4 0x0a000002, ipv4 0x0a000003, 6⟩]⟩,
    fun ip => ip == ipv4 0x0a000002 || ip == ipv4 0x0a000003, ?_, ?_, by decide⟩
  · intro record member
    obtain rfl := List.mem_singleton.mp member
    decide
  · exact ⟨_, List.mem_singleton_self _, by decide⟩

/-! ### Filters that are safe to prune -/

/-- No OR of the filter keeps exactly one of its operands. -/
def OrComplete : FfNode R → Nat → Prop
  | .null, _ => True
  | .node type oper _ _ left right, cnt =>
    match type with
    | .unsupported =>
      match operNodeType oper with
      | none => True
      | some nodeType =>
        OrComplete left cnt ∧ OrComplete right (cnt + eqTests left) ∧
          (nodeType = .operOr → (skeleton (fun _ => true) left cnt).isSome =
            (skeleton (fun _ => true) right (cnt + eqTests left)).isSome)
    | _ => True

theorem merge_and_ne_false {a b : Option Bool} (ha : a ≠ some false) (hb : b ≠ some false) :
    a.merge (connect .operAnd) b ≠ some false := by
  match a, b with
  | none, _ => simpa using hb
  | some _, none => simpa using ha
  | some true, some true => decide
  | some false, _ => exact absurd rfl ha
  | _, some false => exact absurd rfl hb

theorem merge_or_ne_false {a b : Option Bool} (both : a.isSome = b.isSome)
    (h : a ≠ some false ∨ b ≠ some false) : a.merge (connect .operOr) b ≠ some false := by
  match a, b with
  | none, none => simp
  | some true, some _ => simp [connect]
  | some false, some true => decide
  | some false, some false => simp at h
  | none, some _ => cases both
  | some _, none => cases both

theorem accepts_skeleton {filter : FfNode R} {cnt : Nat} (complete : OrComplete filter cnt) {record : R}
    (accepted : accepts src dst record filter = true) :
    skeleton (endpoints src dst record) filter cnt ≠ some false := by
  induction filter generalizing cnt with
  | null => simp [skeleton]
  | node type oper net test left right ihl ihr =>
    cases type with
    | addr =>
      simp only [skeleton]
      split
      · rename_i usable
        simp only [accepts, usable.1, usable.2.2, and_self, if_true, Bool.and_eq_true] at accepted
        simp [endpoints, accepted.2]
      · simp
    | unsupported =>
      simp only [skeleton]
      cases shape : operNodeType oper with
      | none => simp
      | some nodeType =>
        simp only [OrComplete, shape] at complete
        obtain ⟨completeLeft, completeRight, together⟩ := complete
        rcases operNodeType_cases shape with ⟨rfl, rfl⟩ | ⟨rfl, rfl⟩
        · obtain ⟨acceptedLeft, acceptedRight⟩ := Bool.and_eq_true_iff.mp accepted
          exact merge_and_ne_false (ihl completeLeft acceptedLeft) (ihr completeRight acceptedRight)
        · have same := together rfl
          rw [← (skeleton_mono (f := endpoints src dst record) (fun _ _ => rfl) left cnt).1,
            ← (skeleton_mono (f := endpoints src dst record) (fun _ _ => rfl) right _).1] at same
          exact merge_or_ne_false same <| (Bool.or_eq_true_iff.mp accepted).imp (ihl completeLeft)
            (ihr completeRight)
    | _ => simp [skeleton]

theorem orComplete_lossless {filter : FfNode R} {s s' : BfState} {root : BfindexNode}
    (built : bfindexInit filter s = (some root, s')) (complete : OrComplete filter s.ipCnt) :
    Lossless src dst filter root := by
  apply lossless_of_implied built
  intro record accepted
  obtain ⟨v, value, -⟩ := bfindexInit_contains built (endpoints src dst record)
  have notFalse := accepts_skeleton complete accepted
  cases v with
  | true => exact value
  | false => exact absurd value notFalse

end Fdistdump.Bfindex
