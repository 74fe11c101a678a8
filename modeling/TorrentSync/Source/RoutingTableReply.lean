import TorrentSync.Source.MessageRoundTrip
import TorrentSync.Source.NodeListCodec
import TorrentSync.Source.RoutingTableSpec

/-!
# Replies to initializeTable

What the closure that `initializeTable` registers does with a reply. It offers the nodes of
a `reply::FindNode`, but `Message::parseMessage` makes every reply a plain `Message`.
-/
namespace TorrentSync.Source

open Lib Bencode

namespace RoutingTable

/-- The nodes of `reply::FindNode(message).getNodes()`. -/
def replyNodes (host : Host) (now : Int) (m : Message) : Fallible (List Node) := do
  let reply ← Reply.FindNode.ofMessage m
  Reply.FindNode.getNodes host now reply

/-- Each node has been given to `addNode` once and in order, and its endpoint pushed to the
front of the addresses. -/
structure Offered (now : Int) (nodes : List Node) (rt rt' : RoutingTable) : Prop where
  table : NodeTree.run (nodes.map fun n => .addNode (Node.isBad now) (some n)) rt.table = .ok rt'.table
  initialAddresses : rt'.initialAddresses =
    (nodes.filterMap Node.endpoint).reverse ++ rt.initialAddresses

/-- The loop of the closure offers its nodes. -/
theorem offerNodes_spec (now : Int) (nodes : List Node) {rt : RoutingTable} (h : rt.Valid) :
    ∃ rt', rt.offerNodes now nodes = .ok rt' ∧ rt'.Valid ∧ Offered now nodes rt rt' := by
  induction nodes generalizing rt with
  | nil => exact ⟨rt, rfl, h, rfl, rfl⟩
  | cons n rest ih =>
    obtain ⟨d, tree⟩ := h.table
    obtain ⟨table, d', isAdded, added, valid, -⟩ := tree.addNode_spec (Node.isBad now) n
    have stepped : NodeTree.step (.addNode (Node.isBad now) (some n)) rt.table = .ok table := by
      simp only [NodeTree.step, added, ok_bind]
    cases endpoint : n.endpoint with
    | none =>
      have next : ({ rt with table := table } : RoutingTable).Valid := ⟨⟨d', valid⟩, h.callbacks⟩
      obtain ⟨rt', run, valid', offered⟩ := ih next
      refine ⟨rt', ?_, valid', ?_, ?_⟩
      · simp only [offerNodes, endpoint, added, ok_bind, run]
      · rw [List.map_cons, NodeTree.run, stepped]
        exact offered.table
      · rw [offered.initialAddresses, List.filterMap_cons_none endpoint]
    | some address =>
      have next : ({ rt with
          initialAddresses := address :: rt.initialAddresses, table := table } : RoutingTable).Valid :=
        ⟨⟨d', valid⟩, h.callbacks⟩
      obtain ⟨rt', run, valid', offered⟩ := ih next
      refine ⟨rt', ?_, valid', ?_, ?_⟩
      · simp only [offerNodes, endpoint, added, ok_bind, run]
      · rw [List.map_cons, NodeTree.run, stepped]
        exact offered.table
      · rw [offered.initialAddresses, List.filterMap_cons_some endpoint]
        simp

/-- Given a message of class reply::FindNode, the closure offers its nodes. -/
theorem initializeTableReply_offers (host : Host) (now : Int) {m reply : Message}
    (converted : Reply.FindNode.ofMessage m = .ok reply) {nodes : List Node}
    (listed : replyNodes host now m = .ok nodes) {rt : RoutingTable} (h : rt.Valid) :
    ∃ rt', rt.initializeTableReply host now reply = .ok rt' ∧ rt'.Valid ∧ Offered now nodes rt rt' := by
  have class' : reply.dynamicType = .replyFindNode := by
    unfold Reply.FindNode.ofMessage at converted
    split at converted
    · cases converted
    · split at converted
      · cases converted
      · cases converted
        rfl
  rw [replyNodes, converted, ok_bind] at listed
  obtain ⟨rt', run, valid, offered⟩ := rt.offerNodes_spec now nodes h
  refine ⟨rt', ?_, valid, offered⟩
  simp only [initializeTableReply, class', if_true, listed, ok_bind, run]

/-- The nodes of a reply are offered exactly when it has none. -/
theorem call_offers_iff (host : Host) (now : Int) {buffer : Buffer} {m : Message}
    (parsed : Message.parseMessage host buffer = .ok (some m)) {id buff : Buffer}
    (peer : m.find (Field.nested Field.Reply Field.PeerID) = some id)
    (listed : m.find (Field.nested Field.Reply Field.Nodes) = some buff) (s : NodeData) (known : Bool)
    {callback : Callback} (registered : callback.callback = .initializeTable) (rt : RoutingTable) :
    (∃ nodes rt', replyNodes host now m = .ok nodes ∧ rt.call host now m s known callback = .ok rt' ∧
        Offered now nodes rt rt') ↔
      buff.length < PACKED_NODE_SIZE := by
  obtain ⟨kind, isKind⟩ := Message.parseMessage_kind parsed
  have read : replyNodes host now m =
      Reply.FindNode.readNodes host now (buff.length / PACKED_NODE_SIZE) buff := by
    have stored : (⟨.replyFindNode, m.data⟩ : Message).find (Field.nested Field.Reply Field.Nodes) =
        some buff := listed
    simp [replyNodes, Reply.FindNode.ofMessage, peer, listed, Reply.FindNode.getNodes, stored]
  obtain ⟨nodes, run, length, reached, -⟩ := Reply.FindNode.readNodes_spec host now
    (buff.length / PACKED_NODE_SIZE) buff (Nat.mul_div_le _ _)
  rw [call_initializeTable now isKind s known registered rt, read, run]
  constructor
  · rintro ⟨nodes', rt', same, returned, offered⟩
    cases same
    cases returned
    have addresses : rt.initialAddresses =
        (nodes.filterMap Node.endpoint).reverse ++ rt.initialAddresses := offered.initialAddresses
    have pushed := congrArg List.length addresses
    rw [List.length_append, List.length_reverse] at pushed
    have none : nodes = [] := by
      cases nodes with
      | nil => rfl
      | cons n rest =>
        obtain ⟨address, port, known⟩ := reached n List.mem_cons_self
        rw [List.filterMap_cons_some known, List.length_cons] at pushed
        omega
    rw [none, List.length_nil] at length
    exact (Nat.div_eq_zero_iff_lt (by decide)).mp length.symm
  · intro short
    rw [Nat.div_eq_of_lt short, List.length_eq_zero_iff] at length
    refine ⟨nodes, _, rfl, rfl, ?_, ?_⟩
    · rw [length]
      rfl
    · rw [length]
      rfl

/-- The callback of a node that was asked for its closest nodes. -/
def initializing : Callback := ⟨.initializeTable, none, ascii "aa"⟩

private theorem oneNodeReply_parsed :
    ∃ m, Message.parseMessage Host.x86 (encode (Reply.FindNode.dictionary (ascii "aa")
        NodeData.minValue (packedNodes Host.x86 [loopbackNode]))) = .ok (some m) ∧
      m.find (Field.nested Field.Reply Field.PeerID) = some NodeData.minValue.write ∧
      m.find (Field.nested Field.Reply Field.Nodes) = some (packedNodes Host.x86 [loopbackNode]) ∧
      replyNodes Host.x86 42 m = .ok [loopbackNode.setGood 42] := by
  have v4 : ∀ n ∈ [loopbackNode], n.HasV4 := by
    intro n member
    rw [List.mem_singleton.mp member]
    exact ⟨0x7F000001, 6881, rfl⟩
  have size : (packedNodes Host.x86 [loopbackNode]).length = 26 := packedNodes_length Host.x86 v4
  obtain ⟨m, parsed, carries, listed, nodes⟩ := Reply.FindNode.parse_dictionary Host.x86
    NodeData.minValue (packedNodes Host.x86 [loopbackNode])
    (show (ascii "aa").length ≤ grantedSize by decide) (by rw [size]; decide)
  have typed := Message.require_eq_ok.mp carries.type
  have peer := carries.id
  rw [Message.getID_eq Host.x86 typed, if_pos rfl, Message.require_eq_ok] at peer
  refine ⟨m, parsed, peer, listed, (nodes 42).trans ?_⟩
  rw [size]
  exact Reply.FindNode.readNodes_packed Host.x86 42 [loopbackNode] v4

/-- A reply with one node changes neither the table nor the addresses. -/
theorem oneNodeReply_ignored :
    ∃ m rt', Message.parseMessage Host.x86 (encode (Reply.FindNode.dictionary (ascii "aa")
        NodeData.minValue (packedNodes Host.x86 [loopbackNode]))) = .ok (some m) ∧
      replyNodes Host.x86 42 m = .ok [loopbackNode.setGood 42] ∧
      (new NodeData.minValue).call Host.x86 42 m NodeData.minValue false initializing = .ok rt' ∧
      rt'.table = (new NodeData.minValue).table ∧ rt'.initialAddresses = [] ∧
      ¬ Offered 42 [loopbackNode.setGood 42] (new NodeData.minValue) rt' := by
  obtain ⟨m, parsed, -, -, nodes⟩ := oneNodeReply_parsed
  obtain ⟨kind, isKind⟩ := Message.parseMessage_kind parsed
  refine ⟨m, _, parsed, nodes, call_initializeTable 42 isKind NodeData.minValue false rfl _, rfl, rfl,
    ?_⟩
  intro offered
  have addresses : ([] : List Endpoint) = [⟨.v4 0x7F000001, 6881⟩] := offered.initialAddresses
  cases addresses

theorem call_offers_iff_oneNodeReply :
    ∃ m, (∃ nodes rt', replyNodes Host.x86 42 m = .ok nodes ∧
        (new NodeData.minValue).call Host.x86 42 m NodeData.minValue false initializing = .ok rt' ∧
        Offered 42 nodes (new NodeData.minValue) rt') ↔
      (packedNodes Host.x86 [loopbackNode]).length < PACKED_NODE_SIZE := by
  obtain ⟨m, parsed, peer, listed, -⟩ := oneNodeReply_parsed
  exact ⟨m, call_offers_iff Host.x86 42 parsed peer listed NodeData.minValue false rfl _⟩

end RoutingTable
end TorrentSync.Source
