import TorrentSync.Source.MessageEncoding

/-!
# Codec of packed nodes and node lists

`Node::getPackedNode` and `Node::read` are inverse to each other on either byte order, and
`reply::FindNode::getNodes` reads the whole packed nodes at the front of the `nodes` field
and leaves a shorter rest alone.
-/
namespace TorrentSync.Source

namespace Node

/-- Packing the node read from 26 octets gives the octets back. -/
theorem getPackedNode_read (host : Host) (range : Buffer) (n : Node) (length : range.length = 26) :
    ∃ n', n.read host range = .ok n' ∧ n'.HasV4 ∧ n'.packed host = range := by
  obtain ⟨data, address, port, read, packed⟩ := read_spec host range n length
  exact ⟨_, read, ⟨address, port, rfl⟩, packed⟩

/-- Reading a packed node gives its identifier and endpoint. -/
theorem HasV4.read_packed {n : Node} (h : n.HasV4) (host : Host) (n₀ : Node) :
    n₀.read host (n.packed host) =
      .ok { n₀ with nodeData := n.nodeData, endpoint := n.endpoint } := by
  obtain ⟨address, port, endpoint⟩ := h
  have form : n.packed host = n.nodeData.write ++ packedEndpoint host address port := by
    simp only [packed, endpoint]
  obtain ⟨data, address', port', read, same⟩ := read_spec host (n.packed host) n₀ (by
    rw [form]
    simp)
  rw [form] at same
  obtain ⟨written, packed⟩ := List.append_inj same (by simp)
  obtain ⟨rfl, rfl⟩ := packedEndpoint_injective host packed
  rw [read, NodeData.write_injective written, endpoint]

/-- All nodes with IPv4 endpoints can be packed. -/
theorem mapM_getPackedNode (host : Host) {nodes : List Node} (v4 : ∀ n ∈ nodes, n.HasV4) :
    nodes.mapM (fun n => n.getPackedNode host) = .ok (nodes.map (Node.packed host)) := by
  induction nodes with
  | nil => rfl
  | cons n rest ih =>
    have first := (HasV4.getPackedNode host (v4 n List.mem_cons_self)).1
    have later := ih fun m member => v4 m (List.mem_cons_of_mem _ member)
    rw [List.mapM_cons, first, ok_bind, later, ok_bind]
    rfl

end Node

namespace Reply.FindNode

/-- The loop of `getNodes` with its iterator at `it`. -/
def readNodesFrom (host : Host) (now : Int) (buff : Buffer) (it : Nat) : Fallible (List Node) :=
  if it + PACKED_NODE_SIZE ≤ buff.length then do
    let node ← Node.ofRange host now ((buff.drop it).take PACKED_NODE_SIZE)
    let rest ← readNodesFrom host now buff (it + PACKED_NODE_SIZE)
    .ok (node :: rest)
  else .ok []
termination_by buff.length - it
decreasing_by
  simp only [PACKED_NODE_SIZE] at *
  omega

/-- The loop runs once for each whole packed node from its iterator on. -/
theorem readNodesFrom_eq (host : Host) (now : Int) (buff : Buffer) (it : Nat) :
    readNodesFrom host now buff it =
      readNodes host now ((buff.length - it) / PACKED_NODE_SIZE) (buff.drop it) := by
  induction it using readNodesFrom.induct buff with
  | case1 it inside ih =>
    have more : (buff.length - it) / PACKED_NODE_SIZE =
        (buff.length - (it + PACKED_NODE_SIZE)) / PACKED_NODE_SIZE + 1 := by
      simp only [PACKED_NODE_SIZE] at inside ⊢
      omega
    rw [readNodesFrom, if_pos inside, more, readNodes, ih, List.drop_drop]
  | case2 it outside =>
    have ended : (buff.length - it) / PACKED_NODE_SIZE = 0 := by
      simp only [PACKED_NODE_SIZE] at outside ⊢
      omega
    rw [readNodesFrom, if_neg outside, ended, readNodes]

/-- Reading whole packed nodes succeeds; packed again they are the octets read. -/
theorem readNodes_spec (host : Host) (now : Int) (count : Nat) (buff : Buffer)
    (whole : PACKED_NODE_SIZE * count ≤ buff.length) :
    ∃ nodes, readNodes host now count buff = .ok nodes ∧ nodes.length = count ∧
      (∀ n ∈ nodes, n.HasV4) ∧ packedNodes host nodes = buff.take (PACKED_NODE_SIZE * count) := by
  unfold PACKED_NODE_SIZE at whole ⊢
  induction count generalizing buff with
  | zero => exact ⟨[], rfl, rfl, by simp, rfl⟩
  | succ count ih =>
    obtain ⟨n, read, v4, packed⟩ := Node.getPackedNode_read host (buff.take 26)
      ⟨NodeData.minValue, now, 0, none⟩ (by
        rw [List.length_take]
        omega)
    obtain ⟨rest, later, length, reached, octets⟩ := ih (buff.drop 26) (by
      rw [List.length_drop]
      omega)
    have first : Node.ofRange host now (buff.take 26) = .ok n := read
    refine ⟨n :: rest, ?_, by rw [List.length_cons, length], ?_, ?_⟩
    · simp only [readNodes, PACKED_NODE_SIZE, first, later, ok_bind]
    · intro m member
      rcases List.mem_cons.mp member with rfl | member
      · exact v4
      · exact reached m member
    · rw [packedNodes] at octets
      rw [packedNodes, List.flatMap_cons, octets, packed, show 26 * (count + 1) = 26 + 26 * count by ring,
        List.take_add]

end Reply.FindNode

/-- On one host packing and reading are inverse to each other, node by node and for lists. -/
theorem packedNode_codec (host : Host) (now : Int) :
    (∀ (b : Buffer) (n₀ : Node), b.length = 26 →
      ∃ n, n₀.read host b = .ok n ∧ n.getPackedNode host = .ok b) ∧
    (∀ n : Node, n.HasV4 → ∃ b, n.getPackedNode host = .ok b ∧ b.length = 26 ∧
      ∀ n₀ : Node, ∃ n', n₀.read host b = .ok n' ∧ n'.nodeData = n.nodeData ∧
        n'.endpoint = n.endpoint) ∧
    ∀ (m : Message) (buff : Buffer), m.find (Field.nested Field.Reply Field.Nodes) = some buff →
      ∃ nodes packed, Reply.FindNode.getNodes host now m = .ok nodes ∧
        Reply.FindNode.readNodesFrom host now buff 0 = .ok nodes ∧
        nodes.length = buff.length / 26 ∧
        nodes.mapM (fun n => n.getPackedNode host) = .ok packed ∧
        packed.flatten = buff.take (26 * (buff.length / 26)) := by
  refine ⟨?_, ?_, ?_⟩
  · intro b n₀ length
    obtain ⟨n, read, v4, packed⟩ := Node.getPackedNode_read host b n₀ length
    exact ⟨n, read, by rw [(v4.getPackedNode host).1, packed]⟩
  · intro n v4
    obtain ⟨packed, length⟩ := v4.getPackedNode host
    exact ⟨n.packed host, packed, length, fun n₀ => ⟨_, v4.read_packed host n₀, rfl, rfl⟩⟩
  · intro m buff listed
    obtain ⟨nodes, run, length, v4, octets⟩ := Reply.FindNode.readNodes_spec host now
      (buff.length / PACKED_NODE_SIZE) buff (Nat.mul_div_le _ _)
    refine ⟨nodes, nodes.map (Node.packed host), ?_, ?_, length, Node.mapM_getPackedNode host v4, ?_⟩
    · simp only [Reply.FindNode.getNodes, listed, run]
    · rw [Reply.FindNode.readNodesFrom_eq, Nat.sub_zero, List.drop_zero, run]
    · rw [← List.flatMap_def]
      exact octets

/-- Two packed nodes and a rest of three octets, read on a little-endian host. -/
theorem packedNode_codec_x86 :
    (List.replicate 26 (7 : UInt8)).length = 26 ∧
    (∃ n, (⟨NodeData.minValue, 0, 0, none⟩ : Node).read Host.x86 (List.replicate 26 7) = .ok n ∧
      n.getPackedNode Host.x86 = .ok (List.replicate 26 7)) ∧
    Node.HasV4 ⟨NodeData.maxValue, 0, 0, some ⟨.v4 0x7F000001, 6881⟩⟩ ∧
    (∃ b, (⟨NodeData.maxValue, 0, 0, some ⟨.v4 0x7F000001, 6881⟩⟩ : Node).getPackedNode Host.x86 =
      .ok b ∧ b.length = 26) ∧
    ∃ (m : Message) (nodes : List Node) (packed : List Buffer),
      m.find (Field.nested Field.Reply Field.Nodes) = some (List.replicate 55 7) ∧
      Reply.FindNode.getNodes Host.x86 0 m = .ok nodes ∧ nodes.length = 2 ∧
      nodes.mapM (fun n => n.getPackedNode Host.x86) = .ok packed ∧
      packed.flatten = List.replicate 52 7 := by
  have v4 : Node.HasV4 ⟨NodeData.maxValue, 0, 0, some ⟨.v4 0x7F000001, 6881⟩⟩ := ⟨_, _, rfl⟩
  obtain ⟨onOctets, onNodes, onLists⟩ := packedNode_codec Host.x86 0
  obtain ⟨b, packed, length, -⟩ := onNodes _ v4
  have listed : (⟨.replyFindNode, ⟨[(Field.nested Field.Reply Field.Nodes, List.replicate 55 7)],
      by simp⟩⟩ : Message).find (Field.nested Field.Reply Field.Nodes) = some (List.replicate 55 7) := by
    decide
  obtain ⟨nodes, octets, read, -, count, all, flat⟩ := onLists _ _ listed
  refine ⟨by decide, onOctets _ _ (by decide), v4, ⟨b, packed, length⟩, _, nodes, octets, listed, read,
    ?_, all, ?_⟩
  · rw [count]
    decide
  · rw [flat]
    decide

end TorrentSync.Source
