import TorrentSync.Source.RoutingTableSpec

/-!
# Messages from a changed endpoint

RoutingTable_RecvMessage.cpp:56-73. The comment there says that a message is dropped "if the
data is still fresh but with a different IP". The test compares the endpoints only, so a
message that comes from another endpoint than the stored one is dropped however old the
stored node is, and so is every later one.
-/
namespace TorrentSync.Source

open Lib

/-- What `recvMessage` decides to do with a parsed message. -/
inductive Disposition where
  /-- return without looking at the message any further -/
  | dropped
  /-- go on to the callbacks and handlers with this node -/
  | processed (node : Node) (known : Bool)
  deriving DecidableEq, Repr

namespace RoutingTable

/-- The part of `recvMessage` from `getID` to the test of the endpoint. -/
def disposition (host : Host) (now : Int) (message : Message) (sender : Endpoint)
    (rt : RoutingTable) : Fallible Disposition := do
  let id ← message.getID host
  let data ← NodeData.ofBuffer host id
  let found ← rt.table.getNode data
  match found with
  | some node =>
      if node.endpoint.isSome && node.endpoint != some sender then .ok .dropped
      else .ok (.processed node true)
  | none => do
      let node ← Node.ofBuffer host now id (some sender)
      .ok (.processed node false)

/-- The rest of `recvMessage`. -/
def settle (host : Host) (now : Int) (type : Buffer) (message : Message) (rt : RoutingTable) :
    Disposition → Fallible RoutingTable
  | .dropped => .ok rt
  | .processed node known => rt.dispatch host now type message node known

/-- `recvMessage` decides first and then acts on the decision. -/
theorem receive_eq_settle (host : Host) (now : Int) (message : Message) (sender : Endpoint)
    (rt : RoutingTable) :
    rt.receive host now message sender = (do
      let type ← message.getType
      let decision ← rt.disposition host now message sender
      rt.settle host now type message decision) := by
  unfold receive disposition
  simp only [bind_assoc]
  congr 1
  funext type
  congr 1
  funext id
  congr 1
  funext data
  congr 1
  funext found
  cases found with
  | none => simp only [bind_assoc, ok_bind, settle]
  | some node =>
    by_cases moved : (node.endpoint.isSome && node.endpoint != some sender) = true
    · simp only [moved, if_true, ok_bind, settle]
    · simp only [if_neg moved, ok_bind, settle]

/-- What has to happen to a message whose sender is stored with another endpoint: it is
dropped if and only if the stored node is still good, and otherwise it is processed with
a node that is answered at the sender's endpoint. -/
structure FreshnessRule (now : Int) (stored : Node) (sender : Endpoint) (decision : Disposition) :
    Prop where
  fresh : decision = .dropped ↔ stored.isGood now = true
  outdated : stored.isGood now = false →
    ∃ node known, decision = .processed node known ∧ node.endpoint = some sender

/-- A message from another endpoint than the stored one is dropped. -/
theorem disposition_moved {host : Host} (now : Int) {m : Message} {id : Buffer} {s : NodeData}
    (peer : m.getID host = .ok id) (decoded : NodeData.ofBuffer host id = .ok s) {rt : RoutingTable}
    {stored : Node} (search : rt.table.getNode s = .ok (some stored)) {endpoint sender : Endpoint}
    (reached : stored.endpoint = some endpoint) (moved : endpoint ≠ sender) :
    rt.disposition host now m sender = .ok .dropped := by
  have other : (stored.endpoint.isSome && stored.endpoint != some sender) = true := by
    simp [reached, moved]
  simp only [disposition, peer, decoded, search, ok_bind, if_pos other]

/-- The rule for a changed endpoint is kept exactly as long as the stored node is good. -/
theorem recvMessage_freshness_iff (host : Host) (now : Int) (rt : RoutingTable) (buffer : Buffer)
    (bytes_transferred : Nat) {m : Message} {id : Buffer} {s : NodeData}
    (parsed : Message.parseMessage host (resize bytes_transferred buffer) = .ok (some m))
    (peer : m.getID host = .ok id) (decoded : NodeData.ofBuffer host id = .ok s) {stored : Node}
    (search : rt.table.getNode s = .ok (some stored)) {endpoint sender : Endpoint}
    (reached : stored.endpoint = some endpoint) (moved : endpoint ≠ sender) :
    ∃ type decision, m.getType = .ok type ∧ rt.disposition host now m sender = .ok decision ∧
      rt.recvMessage host now false buffer bytes_transferred sender =
        rt.settle host now type m decision ∧
      (FreshnessRule now stored sender decision ↔ stored.isGood now = true) := by
  obtain ⟨kind, isKind⟩ := Message.parseMessage_kind parsed
  have decision := disposition_moved now peer decoded search reached moved
  refine ⟨_, .dropped, isKind.type, decision, ?_, ?_⟩
  · rw [recvMessage_parsed now parsed, receive_eq_settle, isKind.type, ok_bind, decision, ok_bind]
  · constructor
    · intro rule
      exact rule.fresh.mp rfl
    · intro good
      refine ⟨⟨fun _ => good, fun _ => rfl⟩, ?_⟩
      intro outdated
      rw [good] at outdated
      cases outdated

/-- Messages of one sender, each with the time of its receipt. -/
def recvAll (host : Host) (sender : Endpoint) :
    List (Int × Buffer × Nat) → RoutingTable → Fallible RoutingTable
  | [], rt => .ok rt
  | (now, buffer, bytes_transferred) :: later, rt => do
      let rt ← rt.recvMessage host now false buffer bytes_transferred sender
      recvAll host sender later rt

/-- However many messages a node sends from a new endpoint, and whenever, the table keeps the
old one and answers none. -/
theorem recvAll_moved (host : Host) {rt : RoutingTable} {s : NodeData} {stored : Node}
    (search : rt.table.getNode s = .ok (some stored)) {endpoint sender : Endpoint}
    (reached : stored.endpoint = some endpoint) (moved : endpoint ≠ sender)
    (messages : List (Int × Buffer × Nat))
    (accepted : ∀ e ∈ messages, ∃ m id,
      Message.parseMessage host (resize e.2.2 e.2.1) = .ok (some m) ∧ m.getID host = .ok id ∧
        NodeData.ofBuffer host id = .ok s) :
    recvAll host sender messages rt = .ok rt := by
  induction messages with
  | nil => rfl
  | cons e later ih =>
    obtain ⟨m, id, parsed, peer, decoded⟩ := accepted e List.mem_cons_self
    obtain ⟨kind, isKind⟩ := Message.parseMessage_kind parsed
    have decision := disposition_moved e.1 peer decoded search reached moved
    have first : rt.recvMessage host e.1 false e.2.1 e.2.2 sender = .ok rt := by
      rw [recvMessage_parsed e.1 parsed, receive_eq_settle, isKind.type, ok_bind, decision, ok_bind]
      rfl
    rw [recvAll, first, ok_bind]
    exact ih fun e' member => accepted e' (List.mem_cons_of_mem _ member)

/-! ## A node that moved -/

/-- The node of `longIdPing` as stored long ago. -/
def movedNode : Node :=
  ⟨⟨0x6162636465666768, 0x696A303132333435, 0x36373839⟩, 0, 0, some ⟨.v4 1, 6881⟩⟩

/-- A table that holds it. -/
def movedTable : RoutingTable :=
  { new NodeData.minValue with
    table := ⟨[⟨NodeData.minValue, NodeData.maxValue, 1,
      Vector.ofFn fun i => if i.val = 0 then some movedNode else none⟩], NodeData.minValue⟩ }

private theorem movedTable_search :
    NodeData.ofBuffer Host.x86 (ascii "abcdefghij0123456789") = .ok movedNode.nodeData ∧
      movedTable.table.getNode movedNode.nodeData = .ok (some movedNode) := ⟨rfl, rfl⟩

/-- A day after the stored node was good its ping from a new endpoint is dropped. -/
theorem recvMessage_outdated :
    NodeTree.run [.addNode (Node.isBad 0) (some movedNode)] (NodeTree.new NodeData.minValue) =
      .ok movedTable.table ∧
    movedNode.isGood 86400 = false ∧
    movedTable.table.getNode movedNode.nodeData = .ok (some movedNode) ∧
    ∃ m, Message.parseMessage Host.x86 (resize 56 longIdPing) = .ok (some m) ∧
      m.getID Host.x86 = .ok (ascii "abcdefghij0123456789") ∧
      movedTable.disposition Host.x86 86400 m ⟨.v4 2, 6881⟩ = .ok .dropped ∧
      ¬ FreshnessRule 86400 movedNode ⟨.v4 2, 6881⟩ .dropped := by
  obtain ⟨decoded, search⟩ := movedTable_search
  obtain ⟨m, parsed, peer⟩ : ∃ m, Message.parseMessage Host.x86 (resize 56 longIdPing) = .ok (some m) ∧
      m.getID Host.x86 = .ok (ascii "abcdefghij0123456789") := ⟨_, rfl, rfl⟩
  refine ⟨rfl, by decide, search, m, parsed, peer,
    disposition_moved 86400 peer decoded search rfl (by decide), ?_⟩
  intro rule
  exact absurd (rule.fresh.mp rfl) (by decide)

/-- A minute after the stored node was good, dropping the ping is right. -/
theorem recvMessage_freshness_iff_movedNode :
    ∃ type m decision, Message.parseMessage Host.x86 (resize 56 longIdPing) = .ok (some m) ∧
      m.getID Host.x86 = .ok (ascii "abcdefghij0123456789") ∧
      NodeData.ofBuffer Host.x86 (ascii "abcdefghij0123456789") = .ok movedNode.nodeData ∧
      movedTable.table.getNode movedNode.nodeData = .ok (some movedNode) ∧
      m.getType = .ok type ∧ movedTable.disposition Host.x86 60 m ⟨.v4 2, 6881⟩ = .ok decision ∧
      movedTable.recvMessage Host.x86 60 false longIdPing 56 ⟨.v4 2, 6881⟩ =
        movedTable.settle Host.x86 60 type m decision ∧
      FreshnessRule 60 movedNode ⟨.v4 2, 6881⟩ decision := by
  obtain ⟨decoded, search⟩ := movedTable_search
  obtain ⟨m, parsed, peer⟩ : ∃ m, Message.parseMessage Host.x86 (resize 56 longIdPing) = .ok (some m) ∧
      m.getID Host.x86 = .ok (ascii "abcdefghij0123456789") := ⟨_, rfl, rfl⟩
  have different : (⟨.v4 1, 6881⟩ : Endpoint) ≠ ⟨.v4 2, 6881⟩ := by decide
  obtain ⟨type, decision, typed, decided, outcome, rule⟩ :=
    recvMessage_freshness_iff Host.x86 60 movedTable longIdPing 56 parsed peer decoded search rfl different
  exact ⟨type, m, decision, parsed, peer, decoded, search, typed, decided, outcome,
    rule.mpr (by decide)⟩

end RoutingTable
end TorrentSync.Source
