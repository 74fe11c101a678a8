import TorrentSync.Source.MessageRoundTrip
import TorrentSync.Source.RoutingTableSpec

/-!
# Answers to queries

When a query is answered by one reply to its sender. The handlers answer every query
whose reply `make` can build, and no other.
-/
namespace TorrentSync.Source

open Lib Bencode

/-- A transaction id that a ping reply can carry is short enough for the decoder. -/
theorem Reply.Ping.Fits.short {transactionID : Buffer} (fits : Reply.Ping.Fits transactionID) :
    transactionID.length ≤ grantedSize := by
  have room := fits.2
  rw [string_length] at room
  have large : 2048 ≤ grantedSize := by decide
  omega

theorem Reply.FindNode.Fits.short {count : Nat} {transactionID : Buffer}
    (fits : Reply.FindNode.Fits count transactionID) :
    transactionID.length ≤ grantedSize := by
  have room := fits.2.2
  rw [string_length] at room
  have large : 2048 ≤ grantedSize := by decide
  omega

namespace RoutingTable

open Callbacks

/-- One message is handed to `sendMessage`, addressed to the sender, and it decodes to a
reply with this transaction id and the id of the table. -/
def Answered (host : Host) (t : Buffer) (sender : Endpoint) (rt : RoutingTable)
    (outcome : Fallible RoutingTable) : Prop :=
  ∃ rt' b m, outcome = .ok rt' ∧ rt'.handed = rt.handed ++ [⟨b, sender⟩] ∧
    Message.parseMessage host b = .ok (some m) ∧ m.Carries host Type.Reply t rt.getTableNode

/-- The reply to a query of this class can be made. -/
def ReplyFits (s : NodeData) (t : Buffer) (rt : RoutingTable) : MessageClass → Prop
  | .queryPing => Reply.Ping.Fits t
  | .queryFindNode => Reply.FindNode.Fits (rt.table.closestCount s) t
  | _ => False

/-- The fault of an outcome. -/
def faultOf (outcome : Fallible RoutingTable) : Option Fault :=
  match outcome with
  | .ok _ => none
  | .error fault => some fault

theorem not_answered_error {host : Host} {t : Buffer} {sender : Endpoint} {rt : RoutingTable}
    (fault : Fault) : ¬ Answered host t sender rt (.error fault) := by
  rintro ⟨rt', b, m, returned, -⟩
  cases returned

/-- The handlers answer a node with an endpoint exactly when the reply can be made. -/
theorem handle_answered_iff (host : Host) {m : Message} {kind : Message.Kind} (isKind : m.IsKind kind)
    (query : kind ≠ .reply) {t : Buffer} (transaction : m.getTransactionID = .ok t) {node : Node}
    {sender : Endpoint} (reached : node.endpoint = some sender) {rt : RoutingTable} (h : rt.Valid)
    (v4 : ∀ n ∈ rt.table.nodes, n.HasV4) :
    Answered host t sender rt
        (rt.handle host (if kind = .reply then Type.Reply else Type.Query) m node) ↔
      ReplyFits node.nodeData t rt m.dynamicType := by
  rw [handle_eq host isKind node rt, isKind.dynamicType]
  cases kind with
  | ping =>
    rcases rt.handlePingQuery_spec host transaction node with
      ⟨endpoint, known, fits, run⟩ | ⟨stuck, fault, run, quiet⟩
    · rw [reached] at known
      cases known
      obtain ⟨reply, parsed, carries⟩ := Reply.Ping.parse_dictionary host rt.getTableNode fits.short
      exact iff_of_true ⟨_, _, reply, by rw [run]; rfl, rfl, parsed, carries⟩ fits
    · rw [run, caught_quiet rt quiet]
      refine iff_of_false (not_answered_error fault) ?_
      intro fits
      exact stuck ⟨by rw [reached]; rfl, fits⟩
  | findNode =>
    have reachable : ∀ n ∈ rt.table.closest node.nodeData, n.HasV4 :=
      fun n member => v4 n (rt.table.closest_subset _ n member)
    have packable := (unpackable_eq_none _).mpr reachable
    have count := rt.table.closest_length node.nodeData
    rcases handleFindNodeQuery_spec host transaction node h with
      ⟨endpoint, known, -, fits, run⟩ | ⟨-, ⟨n, first, -⟩, -⟩ | ⟨stuck, fault, run, quiet⟩
    · rw [reached] at known
      cases known
      obtain ⟨reply, parsed, carries, -⟩ := Reply.FindNode.parse_dictionary host rt.getTableNode _
        fits.short (packedNodes_short host reachable (rt.table.closest_length_le node.nodeData))
      rw [count] at fits
      exact iff_of_true ⟨_, _, reply, by rw [run]; rfl, rfl, parsed, carries⟩ fits
    · rw [packable] at first
      cases first
    · rw [run, caught_quiet rt quiet]
      refine iff_of_false (not_answered_error fault) ?_
      intro fits
      refine stuck ⟨by rw [reached]; rfl, ?_⟩
      rw [packable, count]
      exact fits
  | reply => exact absurd rfl query

/-- A query that matches no callback, from an unknown node or from the endpoint of a stored
one, is answered exactly when its reply can be made. -/
theorem recvMessage_answered_iff (host : Host) (now : Int) {rt : RoutingTable} (valid : rt.Valid)
    (v4 : ∀ n ∈ rt.table.nodes, n.HasV4) (buffer : Buffer) (bytes_transferred : Nat)
    (sender : Endpoint) {m : Message} {t id : Buffer} {s : NodeData}
    (parsed : Message.parseMessage host (resize bytes_transferred buffer) = .ok (some m))
    (query : m.getType = .ok Type.Query) (sent : Sent host m t id s)
    (unmatched : rt.callbacks.getCallback host m = .ok (none, rt.callbacks)) {found : Option Node}
    (search : rt.table.getNode s = .ok found)
    (fresh : ∀ node, found = some node → node.endpoint = some sender) :
    Answered host t sender rt
        (rt.recvMessage host now false buffer bytes_transferred sender) ↔
      ReplyFits s t rt m.dynamicType := by
  obtain ⟨kind, isKind⟩ := Message.parseMessage_kind parsed
  have isQuery := isKind.type_query_iff.mp query
  have current : stale sender found = false := by
    cases found with
    | none => rfl
    | some node => simp [stale, fresh node rfl]
  have reached : (participant now s sender found).endpoint = some sender := by
    cases found with
    | none => rfl
    | some node => exact fresh node rfl
  have own : (participant now s sender found).nodeData = s := by
    obtain ⟨found', search', stored⟩ := valid.getNode_spec s
    obtain rfl := Except.ok.inj (search.symm.trans search')
    exact participant_nodeData now sender fun node same => (stored node same).2
  rw [recvMessage_parsed now parsed]
  rcases receive_spec now isKind sent sender valid search with
    ⟨old, -⟩ | ⟨-, same, pre, e, post, rt', split, awaits, -⟩ | ⟨-, -, run⟩
  · rw [current] at old
    cases old
  · rcases getCallback_cases sent valid.callbacks with ⟨-, pre', e', post', -, -, got⟩ | ⟨absent, -⟩
    · rw [unmatched] at got
      cases got
    · exact absurd ⟨same, e, by simp [split], awaits⟩ absent
  · have answered := handle_answered_iff host isKind isQuery sent.transaction reached valid v4
    rwa [own, ← run] at answered

/-- A find_node query with a transaction id of two octets. -/
def findNodeQuery : Buffer :=
  ascii "d1:ad2:id20:abcdefghij01234567896:target20:mnopqrstuvwxyz123456e1:q9:find_node1:t2:aa1:y1:qe"

set_option maxRecDepth 2000 in
private theorem findNodeQuery_parsed :
    ∃ m s, Message.parseMessage Host.x86 (resize 92 findNodeQuery) = .ok (some m) ∧
      m.getType = .ok Type.Query ∧
      Sent Host.x86 m (ascii "aa") (ascii "abcdefghij0123456789") s := by
  obtain ⟨m, parsed, typed, transaction, peer⟩ :
      ∃ m, Message.parseMessage Host.x86 (resize 92 findNodeQuery) = .ok (some m) ∧
        m.getType = .ok Type.Query ∧ m.getTransactionID = .ok (ascii "aa") ∧
        m.getID Host.x86 = .ok (ascii "abcdefghij0123456789") := ⟨_, rfl, rfl, rfl, rfl⟩
  obtain ⟨s, sender, -⟩ := NodeData.ofBuffer_spec Host.x86
    (show (ascii "abcdefghij0123456789").length = 20 by decide)
  exact ⟨m, s, parsed, typed, transaction, peer, sender⟩

private theorem new_noNodes (node : NodeData) : ∀ n ∈ (new node).table.nodes, n.HasV4 := by
  have empty : (new node).table.nodes = [] := NodeTree.clear_nodes _
  simp [empty]

/-- A table without nodes has none to list, and the encoder asserts that the node list is
not empty. -/
theorem recvMessage_unanswered :
    (∃ m s, Message.parseMessage Host.x86 (resize 92 findNodeQuery) = .ok (some m) ∧
      m.getType = .ok Type.Query ∧
      Sent Host.x86 m (ascii "aa") (ascii "abcdefghij0123456789") s ∧
      (new NodeData.minValue).callbacks.getCallback Host.x86 m = .ok (none, []) ∧
      (new NodeData.minValue).table.getNode s = .ok none) ∧
    (∀ n ∈ (new NodeData.minValue).table.nodes, n.HasV4) ∧
    faultOf ((new NodeData.minValue).recvMessage Host.x86 0 false findNodeQuery 92 ⟨.v4 1, 6881⟩) =
      some (.assertion "begin != end") ∧
    ¬ Answered Host.x86 (ascii "aa") ⟨.v4 1, 6881⟩ (new NodeData.minValue)
      ((new NodeData.minValue).recvMessage Host.x86 0 false findNodeQuery 92 ⟨.v4 1, 6881⟩) := by
  have stopped : faultOf
      ((new NodeData.minValue).recvMessage Host.x86 0 false findNodeQuery 92 ⟨.v4 1, 6881⟩) =
        some (.assertion "begin != end") := by
    decide +kernel
  obtain ⟨m, s, parsed, typed, sent⟩ := findNodeQuery_parsed
  have unmatched := getCallback_eq sent empty_valid
  refine ⟨⟨m, s, parsed, typed, sent, unmatched, new_getNode NodeData.minValue s⟩,
    new_noNodes NodeData.minValue, stopped, ?_⟩
  rintro ⟨rt', b, reply, returned, -⟩
  rw [returned] at stopped
  cases stopped

/-- A table that knows a node at the loopback address and waits for an answer under another
transaction id. -/
def loopbackKnown : RoutingTable :=
  { (new NodeData.minValue).registerCallback .initializeTable (ascii "bb") none with
    table := ⟨[⟨NodeData.minValue, NodeData.maxValue, 1,
      #v[some loopbackNode, none, none, none, none, none, none, none]⟩], NodeData.minValue⟩ }

private theorem loopbackKnown_valid : loopbackKnown.Valid := by
  have holds : NodeBucket.Holds (⟨NodeData.minValue, NodeData.maxValue, 1,
      #v[some loopbackNode, none, none, none, none, none, none, none]⟩ : Bucket Node) [loopbackNode] :=
    ⟨rfl, List.replicate 7 none, rfl⟩
  have sorted : NodeBucket.Sorted [loopbackNode] := List.pairwise_singleton _ _
  exact ⟨⟨0, NodeTree.single_valid _ rfl rfl (holds.valid sorted (by decide))⟩,
    empty_valid.registerCallback _ _ _⟩

/-- The known node asks from its own address, and the reply lists it. -/
theorem recvMessage_answered_iff_findNodeQuery :
    loopbackKnown.table.nodes = [loopbackNode] ∧ loopbackKnown.callbacks.length = 1 ∧
      Answered Host.x86 (ascii "aa") ⟨.v4 0x7F000001, 6881⟩ loopbackKnown
        (loopbackKnown.recvMessage Host.x86 0 false
          (encode (Query.FindNode.dictionary (ascii "aa") NodeData.maxValue NodeData.minValue))
          (encode (Query.FindNode.dictionary (ascii "aa") NodeData.maxValue NodeData.minValue)).length
          ⟨.v4 0x7F000001, 6881⟩) := by
  have nodes : loopbackKnown.table.nodes = [loopbackNode] := rfl
  refine ⟨nodes, rfl, ?_⟩
  obtain ⟨m, parsed, carries, named, -⟩ := Query.FindNode.parse_dictionary Host.x86
    NodeData.maxValue NodeData.minValue (show (ascii "aa").length ≤ grantedSize by decide)
  obtain ⟨kind, isKind⟩ := Message.parseMessage_kind parsed
  have findNode : m.dynamicType = .queryFindNode := by
    rw [isKind.dynamicType]
    cases kind with
    | ping => exact absurd ((isKind.name (by decide)).symm.trans named) (by decide)
    | findNode => rfl
    | reply => exact absurd (isKind.type.symm.trans carries.type) (by decide)
  have sent : Sent Host.x86 m (ascii "aa") NodeData.maxValue.write NodeData.maxValue :=
    ⟨carries.transactionID, carries.id, NodeData.ofBuffer_write _ _⟩
  have unmatched : loopbackKnown.callbacks.getCallback Host.x86 m = .ok (none, loopbackKnown.callbacks) := by
    rw [getCallback_eq sent loopbackKnown_valid.callbacks]
    rfl
  have v4 : ∀ n ∈ loopbackKnown.table.nodes, n.HasV4 := by
    intro n member
    rw [nodes, List.mem_singleton] at member
    exact ⟨0x7F000001, 6881, by rw [member]; rfl⟩
  have search : loopbackKnown.table.getNode NodeData.maxValue = .ok (some loopbackNode) := rfl
  have fresh : ∀ node, some loopbackNode = some node → node.endpoint = some ⟨.v4 0x7F000001, 6881⟩ := by
    rintro node ⟨⟩
    rfl
  have single : loopbackKnown.table.closestCount NodeData.maxValue = 1 := rfl
  have fits : ReplyFits NodeData.maxValue (ascii "aa") loopbackKnown m.dynamicType := by
    rw [findNode, ReplyFits, single]
    decide
  exact (recvMessage_answered_iff Host.x86 0 loopbackKnown_valid v4 _ _ _
    (by rw [resize_of_le le_rfl, List.take_length]; exact parsed) carries.type sent unmatched search
    fresh).mpr fits

end RoutingTable
end TorrentSync.Source
