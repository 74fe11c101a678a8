import TorrentSync.Source.RoutingTableQuery

/-!
# Node lists of replies

Which nodes the reply to a find_node query lists. BEP 5 asks for the nodes closest to the
target; the handler looks up the id of the node it answers.
-/
namespace TorrentSync.Source

open Lib Bencode

/-- A transaction id that leaves room for some nodes leaves room for one. -/
theorem Reply.FindNode.Fits.one {count : Nat} {transactionID : Buffer}
    (fits : Reply.FindNode.Fits count transactionID) : Reply.FindNode.Fits 1 transactionID := by
  obtain ⟨some', filled, room⟩ := fits
  have fewer := (Decimal.digits_length_le (26 * 1) 2 (by decide)).mpr (by decide)
  have more : 1 < (Decimal.digits (26 * count)).length := by
    rw [← Nat.not_le, Decimal.digits_length_le (26 * count) 1 (by decide)]
    omega
  exact ⟨by decide, filled, by omega⟩

namespace RoutingTable

open Callbacks

/-! ## The node list of a reply -/

/-- The node list of the reply in a buffer. -/
def nodeListOf (host : Host) (b : Buffer) : Option Buffer :=
  match Message.parseMessage host b with
  | .ok (some m) => m.find (Field.nested Field.Reply Field.Nodes)
  | _ => none

/-- The packed form of the nodes `getClosestNodes` returns. -/
def packedLookup (host : Host) (data : NodeData) (rt : RoutingTable) : Fallible Buffer := do
  let nodes ← rt.table.getClosestNodes data
  let packed ← nodes.mapM (Node.getPackedNode host)
  .ok packed.flatten

/-- A reply to this node can be made from the lookup of its own id. -/
def Replies (node : Node) (t : Buffer) (rt : RoutingTable) : Prop :=
  node.endpoint.isSome ∧ (∀ n ∈ rt.table.closest node.nodeData, n.HasV4) ∧
    Reply.FindNode.Fits (rt.table.closestCount node.nodeData) t

theorem packedLookup_v4 (host : Host) {data : NodeData} {rt : RoutingTable} (h : rt.Valid)
    (v4 : ∀ n ∈ rt.table.closest data, n.HasV4) :
    rt.packedLookup host data = .ok (packedNodes host (rt.table.closest data)) := by
  have packed : ∀ nodes : List Node, (∀ n ∈ nodes, n.HasV4) →
      nodes.mapM (Node.getPackedNode host) = .ok (nodes.map (Node.packed host)) := by
    intro nodes
    induction nodes with
    | nil => exact fun _ => rfl
    | cons n rest ih =>
      intro v4
      have head := ((v4 n List.mem_cons_self).getPackedNode host).1
      rw [List.mapM_cons, head, ih fun m member => v4 m (List.mem_cons_of_mem _ member)]
      rfl
  simp only [packedLookup, h.getClosestNodes_spec, packed _ v4, ok_bind, packedNodes, List.flatMap]

/-- The reply lists the lookup of the id of the node it is sent to. -/
theorem handleFindNodeQuery_lists (host : Host) {m : Message} {t : Buffer}
    (transaction : m.getTransactionID = .ok t) (node : Node) {rt : RoutingTable} (h : rt.Valid) :
    (rt.Replies node t ∧ ∃ b endpoint list, nodeListOf host b = some list ∧
      rt.handleFindNodeQuery host m node = .ok (rt.sendMessage b endpoint) ∧
      rt.packedLookup host node.nodeData = .ok list) ∨
    (¬ rt.Replies node t ∧ ∃ fault, rt.handleFindNodeQuery host m node = .error fault) := by
  have count := rt.table.closest_length node.nodeData
  have packable := unpackable_eq_none (rt.table.closest node.nodeData)
  rcases handleFindNodeQuery_spec host transaction node h with
    ⟨endpoint, known, none, fits, run⟩ | ⟨-, ⟨n, first, -⟩, run⟩ | ⟨stuck, fault, run, -⟩
  · have v4 := packable.mp none
    obtain ⟨reply, parsed, -, listed, -⟩ := Reply.FindNode.parse_dictionary host rt.getTableNode _
      fits.short (packedNodes_short host v4 (rt.table.closest_length_le node.nodeData))
    rw [count] at fits
    refine .inl ⟨⟨by rw [known]; rfl, v4, fits⟩, _, endpoint, _, ?_, run, packedLookup_v4 host h v4⟩
    simp only [nodeListOf, parsed, listed]
  · refine .inr ⟨?_, _, run⟩
    rintro ⟨-, v4, -⟩
    rw [packable.mpr v4] at first
    cases first
  · refine .inr ⟨?_, fault, run⟩
    rintro ⟨known, v4, fits⟩
    refine stuck ⟨known, ?_⟩
    rw [packable.mpr v4, count]
    exact fits

/-- The packed form of the nodes closest to the query's target. -/
def targetList (host : Host) (m : Message) (rt : RoutingTable) : Fallible Buffer := do
  let target ← Query.FindNode.getTarget m
  let data ← NodeData.ofBuffer host target
  rt.packedLookup host data

/-- If a reply is sent, its node list is that of the query's target. -/
def ListsTarget (host : Host) (m : Message) (rt : RoutingTable) (outcome : Fallible RoutingTable) :
    Prop :=
  ∀ rt', outcome = .ok rt' → ∃ b endpoint list, rt' = rt.sendMessage b endpoint ∧
    nodeListOf host b = some list ∧ rt.targetList host m = .ok list

/-- If both replies are sent, they have the same node list. -/
def SameLists (host : Host) (rt : RoutingTable) (outcome outcome' : Fallible RoutingTable) : Prop :=
  ∀ rt₁ rt₂, outcome = .ok rt₁ → outcome' = .ok rt₂ → ∃ b₁ b₂ endpoint₁ endpoint₂ list,
    rt₁ = rt.sendMessage b₁ endpoint₁ ∧ rt₂ = rt.sendMessage b₂ endpoint₂ ∧
    nodeListOf host b₁ = some list ∧ nodeListOf host b₂ = some list

private theorem sendMessage_injective {rt : RoutingTable} {b b' : Buffer} {endpoint endpoint' : Endpoint}
    (same : rt.sendMessage b endpoint = rt.sendMessage b' endpoint') : b = b' := by
  have log := congrArg handed same
  have last := List.append_cancel_left log
  exact (Datagram.mk.inj (List.cons.inj last).1).1

/-- In one state the list is that of the target if the two lookups are packed alike. -/
theorem listsTarget_iff (host : Host) {m : Message} {t : Buffer} {target : NodeData}
    (transaction : m.getTransactionID = .ok t) (node : Node) {rt : RoutingTable} (h : rt.Valid)
    (asked : rt.targetList host m = rt.packedLookup host target) :
    ListsTarget host m rt (rt.handleFindNodeQuery host m node) ↔
      (rt.Replies node t → rt.packedLookup host target = rt.packedLookup host node.nodeData) := by
  rcases handleFindNodeQuery_lists host transaction node h with
    ⟨replies, b, endpoint, list, listed, run, looked⟩ | ⟨silent, fault, run⟩
  · rw [run, looked]
    constructor
    · intro lists _
      obtain ⟨b', endpoint', list', same, listed', looked'⟩ := lists _ rfl
      obtain rfl := sendMessage_injective same
      rw [listed] at listed'
      cases listed'
      rw [← asked, looked']
    · intro agree rt' returned
      cases returned
      exact ⟨b, endpoint, list, rfl, listed, asked.trans (agree replies)⟩
  · rw [run]
    refine iff_of_true ?_ fun replies => absurd replies silent
    intro rt' returned
    cases returned

theorem sameLists_iff (host : Host) {m m' : Message} {t : Buffer}
    (transaction : m.getTransactionID = .ok t) (transaction' : m'.getTransactionID = .ok t)
    (node node' : Node) {rt : RoutingTable} (h : rt.Valid) :
    SameLists host rt (rt.handleFindNodeQuery host m node) (rt.handleFindNodeQuery host m' node') ↔
      (rt.Replies node t → rt.Replies node' t →
        rt.packedLookup host node.nodeData = rt.packedLookup host node'.nodeData) := by
  rcases handleFindNodeQuery_lists host transaction node h with
    ⟨replies, b, endpoint, list, listed, run, looked⟩ | ⟨silent, fault, run⟩
  · rcases handleFindNodeQuery_lists host transaction' node' h with
      ⟨replies', b', endpoint', list', listed', run', looked'⟩ | ⟨silent', fault', run'⟩
    · rw [run, run', looked, looked']
      constructor
      · intro same _ _
        obtain ⟨b₁, b₂, endpoint₁, endpoint₂, both, first, second, inFirst, inSecond⟩ :=
          same _ _ rfl rfl
        obtain rfl := sendMessage_injective first
        obtain rfl := sendMessage_injective second
        rw [listed] at inFirst
        rw [listed'] at inSecond
        cases inFirst
        cases inSecond
        rfl
      · intro agree rt₁ rt₂ returned returned'
        cases returned
        cases returned'
        cases agree replies replies'
        exact ⟨b, b', endpoint, endpoint', list, rfl, rfl, listed, listed'⟩
    · rw [run']
      refine iff_of_true ?_ fun _ replies' => absurd replies' silent'
      intro rt₁ rt₂ _ returned'
      cases returned'
  · rw [run]
    refine iff_of_true ?_ fun replies => absurd replies silent
    intro rt₁ rt₂ returned
    cases returned

/-! ## Different lookups -/

/-- The lookup of a stored node, and when it is listed. -/
theorem packedLookup_stored (host : Host) {rt : RoutingTable} (h : rt.Valid) {x : Node}
    (stored : x ∈ rt.table.nodes) (v4 : x.HasV4)
    (unique : ∀ y ∈ rt.table.nodes, y.nodeData = x.nodeData → y = x) :
    rt.packedLookup host x.nodeData = .ok (x.packed host) ∧
    ∀ node t, node.nodeData = x.nodeData → node.endpoint.isSome → Reply.FindNode.Fits 1 t →
      rt.Replies node t := by
  have closest : rt.table.closest x.nodeData = [x] := NodeTree.closest_of_mem stored unique
  have reached : ∀ n ∈ rt.table.closest x.nodeData, n.HasV4 := by
    rw [closest]
    intro n member
    rw [List.mem_singleton.mp member]
    exact v4
  constructor
  · rw [packedLookup_v4 host h reached, closest, packedNodes, List.flatMap_singleton]
  · intro node t own known fits
    have count := rt.table.closest_length x.nodeData
    rw [closest] at count
    rw [Replies, own, ← count]
    exact ⟨known, reached, fits⟩

private theorem packed_ne (host : Host) {x y : Node} (v4 : x.HasV4) (v4' : y.HasV4)
    (other : x.nodeData ≠ y.nodeData) : x.packed host ≠ y.packed host := by
  obtain ⟨address, port, endpoint⟩ := v4
  obtain ⟨address', port', endpoint'⟩ := v4'
  intro same
  simp only [Node.packed, endpoint, endpoint'] at same
  exact other (NodeData.write_injective (List.append_inj_left same (by simp)))

/-- Two ids have different lookups in a table that stores a node of each. -/
theorem exists_separating (host : Host) {a b : NodeData} (other : a ≠ b) :
    ∃ rt : RoutingTable, rt.Valid ∧ rt.packedLookup host a ≠ rt.packedLookup host b ∧
      ∀ node t, node.nodeData = a ∨ node.nodeData = b → node.endpoint.isSome →
        Reply.FindNode.Fits 1 t → rt.Replies node t := by
  let x : Node := ⟨a, 0, 0, some ⟨.v4 0, 0⟩⟩
  let y : Node := ⟨b, 0, 0, some ⟨.v4 0, 0⟩⟩
  have v4 : x.HasV4 := ⟨0, 0, rfl⟩
  have v4' : y.HasV4 := ⟨0, 0, rfl⟩
  obtain ⟨table, valid, -, perm⟩ := NodeTree.exists_of_nodes a [x, y] (show 2 ≤ 8 by decide)
  have members : ∀ n, n ∈ table.nodes ↔ n = x ∨ n = y := by simp [perm.mem_iff]
  let rt : RoutingTable := { new a with table := table }
  have h : rt.Valid := ⟨⟨0, valid⟩, empty_valid⟩
  obtain ⟨looked, replies⟩ := packedLookup_stored host h ((members x).mpr (.inl rfl)) v4 (by
    intro n member own
    rcases (members n).mp member with rfl | rfl
    · rfl
    · exact absurd own.symm other)
  obtain ⟨looked', replies'⟩ := packedLookup_stored host h ((members y).mpr (.inr rfl)) v4' (by
    intro n member own
    rcases (members n).mp member with rfl | rfl
    · exact absurd own other
    · rfl)
  refine ⟨rt, h, ?_, ?_⟩
  · intro same
    rw [looked, looked', Except.ok.injEq] at same
    exact packed_ne host v4 v4' other same
  · rintro node t (own | own)
    · exact replies node t own
    · exact replies' node t own

/-! ## Every state -/

/-- The list is that of the target in every state exactly if the node answered has the
target as its own id, and replies to different ids differ in some state, unless no reply
is ever sent. In one state the lookups decide. -/
theorem handleFindNodeQuery_listsTarget_iff (host : Host) {m : Message} {t asked : Buffer}
    {target : NodeData} (transaction : m.getTransactionID = .ok t)
    (asks : Query.FindNode.getTarget m = .ok asked)
    (decoded : NodeData.ofBuffer host asked = .ok target) (node : Node) :
    ((∀ rt : RoutingTable, rt.Valid → ListsTarget host m rt (rt.handleFindNodeQuery host m node)) ↔
      (node.endpoint.isSome → Reply.FindNode.Fits 1 t → node.nodeData = target)) ∧
    (∀ m' node', m'.getTransactionID = .ok t → Query.FindNode.getTarget m' = .ok asked →
      ((∀ rt : RoutingTable, rt.Valid →
          SameLists host rt (rt.handleFindNodeQuery host m node) (rt.handleFindNodeQuery host m' node')) ↔
        (node.endpoint.isSome → node'.endpoint.isSome → Reply.FindNode.Fits 1 t →
          node.nodeData = node'.nodeData))) ∧
    ∀ rt : RoutingTable, rt.Valid →
      (ListsTarget host m rt (rt.handleFindNodeQuery host m node) ↔
        (rt.Replies node t → rt.packedLookup host target = rt.packedLookup host node.nodeData)) := by
  have lookup : ∀ rt : RoutingTable, rt.targetList host m = rt.packedLookup host target := by
    intro rt
    simp only [targetList, asks, decoded, ok_bind]
  refine ⟨⟨?_, ?_⟩, ?_, fun rt h => listsTarget_iff host transaction node h (lookup rt)⟩
  · intro lists known fits
    by_contra other
    obtain ⟨rt, h, differ, replies⟩ := exists_separating host other
    exact differ ((listsTarget_iff host transaction node h (lookup rt)).mp (lists rt h)
      (replies node t (.inl rfl) known fits)).symm
  · intro own rt h
    rw [listsTarget_iff host transaction node h (lookup rt)]
    intro replies
    rw [own replies.1 replies.2.2.one]
  · intro m' node' transaction' _
    constructor
    · intro same known known' fits
      by_contra other
      obtain ⟨rt, h, differ, replies⟩ := exists_separating host other
      exact differ ((sameLists_iff host transaction transaction' node node' h).mp (same rt h)
        (replies node t (.inl rfl) known fits) (replies node' t (.inr rfl) known' fits))
    · intro own rt h
      rw [sameLists_iff host transaction transaction' node node' h]
      intro replies replies'
      rw [own replies.1 replies'.1 replies.2.2.one]

/-- The node with the least id. -/
def leastNode : Node := ⟨NodeData.minValue, 0, 0, some ⟨.v4 1, 6881⟩⟩

/-- A table that knows the nodes with the least and the greatest id. -/
def leastAndGreatest : RoutingTable :=
  { new NodeData.minValue with
    table := ⟨[⟨NodeData.minValue, NodeData.maxValue, 2,
      #v[some leastNode, some loopbackNode, none, none, none, none, none, none]⟩], NodeData.minValue⟩ }

private theorem leastAndGreatest_valid : leastAndGreatest.Valid := by
  have holds : NodeBucket.Holds (⟨NodeData.minValue, NodeData.maxValue, 2,
      #v[some leastNode, some loopbackNode, none, none, none, none, none, none]⟩ : Bucket Node)
      [leastNode, loopbackNode] := ⟨rfl, List.replicate 6 none, rfl⟩
  have sorted : NodeBucket.Sorted [leastNode, loopbackNode] :=
    List.pairwise_pair.mpr (by decide)
  exact ⟨⟨0, NodeTree.single_valid _ rfl rfl (holds.valid sorted (by decide))⟩, empty_valid⟩

private theorem findNodeQuery_carries (source : NodeData) :
    ∃ m, Message.parseMessage Host.x86
        (encode (Query.FindNode.dictionary (ascii "aa") source NodeData.maxValue)) = .ok (some m) ∧
      m.getTransactionID = .ok (ascii "aa") ∧ m.getID Host.x86 = .ok source.write ∧
      Query.FindNode.getTarget m = .ok NodeData.maxValue.write := by
  obtain ⟨m, parsed, carries, -, asks⟩ := Query.FindNode.parse_dictionary Host.x86
    source NodeData.maxValue (show (ascii "aa").length ≤ grantedSize by decide)
  exact ⟨m, parsed, carries.transactionID, carries.id, asks⟩

/-- Asked for the greatest id, the table lists the node that asks. -/
theorem findNodeQuery_listsSender :
    ∃ m, Message.parseMessage Host.x86
        (encode (Query.FindNode.dictionary (ascii "aa") NodeData.minValue NodeData.maxValue)) =
          .ok (some m) ∧
      leastAndGreatest.Valid ∧
      leastAndGreatest.targetList Host.x86 m = .ok (loopbackNode.packed Host.x86) ∧
      (∃ b endpoint, nodeListOf Host.x86 b = some (leastNode.packed Host.x86) ∧
        leastAndGreatest.handleFindNodeQuery Host.x86 m leastNode =
          .ok (leastAndGreatest.sendMessage b endpoint)) ∧
      ¬ ListsTarget Host.x86 m leastAndGreatest
        (leastAndGreatest.handleFindNodeQuery Host.x86 m leastNode) ∧
      ∃ m', Message.parseMessage Host.x86
          (encode (Query.FindNode.dictionary (ascii "aa") NodeData.maxValue NodeData.maxValue)) =
            .ok (some m') ∧
        ¬ SameLists Host.x86 leastAndGreatest
          (leastAndGreatest.handleFindNodeQuery Host.x86 m leastNode)
          (leastAndGreatest.handleFindNodeQuery Host.x86 m' loopbackNode) := by
  have valid := leastAndGreatest_valid
  have nodes : leastAndGreatest.table.nodes = [leastNode, loopbackNode] := rfl
  have other : NodeData.minValue ≠ NodeData.maxValue := by decide
  have fits : Reply.FindNode.Fits 1 (ascii "aa") := by decide
  obtain ⟨looked, replies⟩ := packedLookup_stored Host.x86 valid (x := leastNode) (by simp [nodes])
    ⟨1, 6881, rfl⟩ (by
      rw [nodes]
      decide)
  obtain ⟨looked', replies'⟩ := packedLookup_stored Host.x86 valid (x := loopbackNode)
    (by simp [nodes]) ⟨0x7F000001, 6881, rfl⟩ (by
      rw [nodes]
      decide)
  have differ : leastNode.packed Host.x86 ≠ loopbackNode.packed Host.x86 :=
    packed_ne Host.x86 ⟨1, 6881, rfl⟩ ⟨0x7F000001, 6881, rfl⟩ other
  obtain ⟨m, parsed, transaction, -, asks⟩ := findNodeQuery_carries NodeData.minValue
  obtain ⟨m', parsed', transaction', -, -⟩ := findNodeQuery_carries NodeData.maxValue
  have asked : leastAndGreatest.targetList Host.x86 m =
      leastAndGreatest.packedLookup Host.x86 NodeData.maxValue := by
    simp only [targetList, asks, NodeData.ofBuffer_write, ok_bind]
  refine ⟨m, parsed, valid, asked.trans looked', ?_, ?_, m', parsed', ?_⟩
  · rcases handleFindNodeQuery_lists Host.x86 transaction leastNode valid with
      ⟨-, b, endpoint, list, listed, run, own⟩ | ⟨silent, -⟩
    · obtain rfl := Except.ok.inj (own.symm.trans looked)
      exact ⟨b, endpoint, listed, run⟩
    · exact absurd (replies leastNode _ rfl rfl fits) silent
  · rw [listsTarget_iff Host.x86 transaction leastNode valid asked]
    intro agree
    have same := looked'.symm.trans ((agree (replies leastNode _ rfl rfl fits)).trans looked)
    exact differ (Except.ok.inj same).symm
  · rw [sameLists_iff Host.x86 transaction transaction' leastNode loopbackNode valid]
    intro agree
    have same := agree (replies leastNode _ rfl rfl fits) (replies' loopbackNode _ rfl rfl fits)
    exact differ (Except.ok.inj (looked.symm.trans (same.trans looked')))

theorem handleFindNodeQuery_listsTarget_iff_leastNode :
    ∃ m, Query.FindNode.getTarget m = .ok NodeData.maxValue.write ∧
      ((∀ rt : RoutingTable, rt.Valid →
          ListsTarget Host.x86 m rt (rt.handleFindNodeQuery Host.x86 m leastNode)) ↔
        (leastNode.endpoint.isSome → Reply.FindNode.Fits 1 (ascii "aa") →
          leastNode.nodeData = NodeData.maxValue)) := by
  obtain ⟨m, -, transaction, -, asks⟩ := findNodeQuery_carries NodeData.minValue
  exact ⟨m, asks, (handleFindNodeQuery_listsTarget_iff Host.x86 transaction asks
    (NodeData.ofBuffer_write Host.x86 NodeData.maxValue) leastNode).1⟩

end RoutingTable
end TorrentSync.Source
