import TorrentSync.Source.MessageMake

/-!
# Round trips of messages

The four dictionaries are canonical, and `Message::parseMessage` reads the encoding of
each back into a message whose accessors give what went in, for transaction ids and
identifiers of any octets.
-/
namespace TorrentSync.Source

open Lib Bencode BEncodeDecoder

/-! ## Canonical form -/

private theorem canonicalEntries_leaf (entries : List (Buffer × Buffer)) :
    canonicalEntries (entries.map leaf) = true := by
  induction entries with
  | nil => rfl
  | cons e rest ih => exact ih

private theorem leaf_keys (entries : List (Buffer × Buffer)) :
    (entries.map leaf).map Prod.fst = entries.map Prod.fst := by
  rw [List.map_map]
  rfl

/-- A message dictionary whose keys ascend is canonical. -/
theorem krpc_canonical {outer : Buffer} {inner fields : List (Buffer × Buffer)}
    (sortedInner : (inner.map Prod.fst).IsChain fun a b => keyLt a b = true)
    (sorted : (outer :: fields.map Prod.fst).IsChain fun a b => keyLt a b = true) :
    canonical (krpc outer inner fields) = true := by
  have below : canonical (.dict (inner.map leaf)) = true := by
    rw [canonical, leaf_keys, canonicalEntries_leaf, decide_eq_true sortedInner]
    rfl
  rw [krpc, canonical, List.map_cons, leaf_keys, canonicalEntries, below, canonicalEntries_leaf,
    decide_eq_true sorted]
  rfl

theorem Query.Ping.dictionary_canonical (transactionID : Buffer) (source : NodeData) :
    canonical (Query.Ping.dictionary transactionID source) = true := by
  apply krpc_canonical
  · show [Field.PeerID].IsChain _
    decide
  · show [Field.Arguments, Field.Query, Field.TransactionID, Field.Type].IsChain _
    decide

theorem Query.FindNode.dictionary_canonical (transactionID : Buffer) (source target : NodeData) :
    canonical (Query.FindNode.dictionary transactionID source target) = true := by
  apply krpc_canonical
  · show [Field.PeerID, Field.Target].IsChain _
    decide
  · show [Field.Arguments, Field.Query, Field.TransactionID, Field.Type].IsChain _
    decide

theorem Reply.Ping.dictionary_canonical (transactionID : Buffer) (source : NodeData) :
    canonical (Reply.Ping.dictionary transactionID source) = true := by
  apply krpc_canonical
  · show [Field.PeerID].IsChain _
    decide
  · show [Field.Reply, Field.TransactionID, Field.Type].IsChain _
    decide

theorem Reply.FindNode.dictionary_canonical (transactionID : Buffer) (source : NodeData)
    (nodeData : Buffer) :
    canonical (Reply.FindNode.dictionary transactionID source nodeData) = true := by
  apply krpc_canonical
  · show [Field.PeerID, Field.Nodes].IsChain _
    decide
  · show [Field.Reply, Field.TransactionID, Field.Type].IsChain _
    decide

/-! ## Parsing -/

/-- The packed list of a reply is short enough for the decoder. -/
theorem packedNodes_short (host : Host) {nodes : List Node} (v4 : ∀ n ∈ nodes, n.HasV4)
    (few : nodes.length ≤ 8) : (packedNodes host nodes).length ≤ grantedSize := by
  have size := packedNodes_length host v4
  have large : 208 ≤ grantedSize := by decide
  omega

/-- What the accessors every message has give. -/
structure Message.Carries (host : Host) (m : Message) (type transactionID : Buffer)
    (source : NodeData) : Prop where
  type : m.getType = .ok type
  transactionID : m.getTransactionID = .ok transactionID
  id : m.getID host = .ok source.write

private theorem write_short (source : NodeData) : source.write.length ≤ grantedSize := by
  rw [NodeData.write_length]
  decide

theorem Query.Ping.parse_dictionary (host : Host) {transactionID : Buffer} (source : NodeData)
    (short : transactionID.length ≤ grantedSize) :
    ∃ m, Message.parseMessage host (encode (Query.Ping.dictionary transactionID source)) =
        .ok (some m) ∧
      m.Carries host Type.Query transactionID source ∧
      Query.getMessageType m = .ok Messages.Ping := by
  have distinct : ((messageFields Field.Arguments [(Field.PeerID, source.write)]
      [(Field.Query, Messages.Ping), (Field.TransactionID, transactionID),
        (Field.Type, Type.Query)]).map Prod.fst).Nodup := by
    show [Field.nested Field.Arguments Field.PeerID, Field.Query, Field.TransactionID,
      Field.Type].Nodup
    decide
  have parsed := parse_krpc host (by decide) (by decide) (by
    simp only [List.cons_append, List.nil_append, List.forall_mem_cons, write_short, short]
    decide) distinct
  have typed : DataMap.find Field.Type ⟨_, distinct⟩ = some Type.Query := rfl
  have named : DataMap.find Field.Query ⟨_, distinct⟩ = some Messages.Ping := rfl
  refine ⟨⟨.queryPing, ⟨_, distinct⟩⟩, parsed.trans ?_, ⟨rfl, rfl, ?_⟩, rfl⟩
  · rw [Message.ofFields_query host typed named, if_pos rfl]
    rfl
  · exact Message.getID_query host typed rfl

theorem Query.FindNode.parse_dictionary (host : Host) {transactionID : Buffer}
    (source target : NodeData) (short : transactionID.length ≤ grantedSize) :
    ∃ m, Message.parseMessage host (encode (Query.FindNode.dictionary transactionID source target)) =
        .ok (some m) ∧
      m.Carries host Type.Query transactionID source ∧
      Query.getMessageType m = .ok Messages.FindNode ∧
      Query.FindNode.getTarget m = .ok target.write := by
  have distinct : ((messageFields Field.Arguments
      [(Field.PeerID, source.write), (Field.Target, target.write)]
      [(Field.Query, Messages.FindNode), (Field.TransactionID, transactionID),
        (Field.Type, Type.Query)]).map Prod.fst).Nodup := by
    show [Field.nested Field.Arguments Field.PeerID, Field.nested Field.Arguments Field.Target,
      Field.Query, Field.TransactionID, Field.Type].Nodup
    decide
  have parsed := parse_krpc host (by decide) (by decide) (by
    simp only [List.cons_append, List.nil_append, List.forall_mem_cons, write_short, short]
    decide) distinct
  have typed : DataMap.find Field.Type ⟨_, distinct⟩ = some Type.Query := rfl
  have named : DataMap.find Field.Query ⟨_, distinct⟩ = some Messages.FindNode := rfl
  have other : Messages.FindNode ≠ Messages.Ping := by decide
  refine ⟨⟨.queryFindNode, ⟨_, distinct⟩⟩, parsed.trans ?_, ⟨rfl, rfl, ?_⟩, rfl, rfl⟩
  · rw [Message.ofFields_query host typed named, if_neg other, if_pos rfl]
    rfl
  · exact Message.getID_query host typed rfl

theorem Reply.Ping.parse_dictionary (host : Host) {transactionID : Buffer} (source : NodeData)
    (short : transactionID.length ≤ grantedSize) :
    ∃ m, Message.parseMessage host (encode (Reply.Ping.dictionary transactionID source)) =
        .ok (some m) ∧
      m.Carries host Type.Reply transactionID source := by
  have distinct : ((messageFields Field.Reply [(Field.PeerID, source.write)]
      [(Field.TransactionID, transactionID), (Field.Type, Type.Reply)]).map Prod.fst).Nodup := by
    show [Field.nested Field.Reply Field.PeerID, Field.TransactionID, Field.Type].Nodup
    decide
  have parsed := parse_krpc host (by decide) (by decide) (by
    simp only [List.cons_append, List.nil_append, List.forall_mem_cons, write_short, short]
    decide) distinct
  have typed : DataMap.find Field.Type ⟨_, distinct⟩ = some Type.Reply := rfl
  exact ⟨⟨.message, ⟨_, distinct⟩⟩, parsed.trans (Message.ofFields_reply host typed), rfl, rfl,
    Message.getID_reply host typed rfl⟩

theorem Reply.FindNode.parse_dictionary (host : Host) {transactionID : Buffer} (source : NodeData)
    (nodeData : Buffer) (short : transactionID.length ≤ grantedSize) (few : nodeData.length ≤ grantedSize) :
    ∃ m, Message.parseMessage host
        (encode (Reply.FindNode.dictionary transactionID source nodeData)) = .ok (some m) ∧
      m.Carries host Type.Reply transactionID source ∧
      m.find (Field.nested Field.Reply Field.Nodes) = some nodeData ∧
      ∀ now, (do let reply ← Reply.FindNode.ofMessage m; Reply.FindNode.getNodes host now reply) =
        Reply.FindNode.readNodes host now (nodeData.length / PACKED_NODE_SIZE) nodeData := by
  have distinct : ((messageFields Field.Reply
      [(Field.PeerID, source.write), (Field.Nodes, nodeData)]
      [(Field.TransactionID, transactionID), (Field.Type, Type.Reply)]).map Prod.fst).Nodup := by
    show [Field.nested Field.Reply Field.PeerID, Field.nested Field.Reply Field.Nodes,
      Field.TransactionID, Field.Type].Nodup
    decide
  have parsed := parse_krpc host (by decide) (by decide) (by
    simp only [List.cons_append, List.nil_append, List.forall_mem_cons, write_short, short, few]
    decide) distinct
  have typed : DataMap.find Field.Type ⟨_, distinct⟩ = some Type.Reply := rfl
  exact ⟨⟨.message, ⟨_, distinct⟩⟩, parsed.trans (Message.ofFields_reply host typed),
    ⟨rfl, rfl, Message.getID_reply host typed rfl⟩, rfl, fun now => rfl⟩

/-! ## The node list -/

/-- Reading a packed list gives the nodes with fresh times. -/
theorem Reply.FindNode.readNodes_packed (host : Host) (now : Int) (nodes : List Node)
    (v4 : ∀ n ∈ nodes, n.HasV4) :
    readNodes host now nodes.length (packedNodes host nodes) = .ok (nodes.map (Node.setGood now)) := by
  induction nodes with
  | nil => rfl
  | cons n rest ih =>
    obtain ⟨address, port, endpoint⟩ := v4 n List.mem_cons_self
    have later := ih fun m member => v4 m (List.mem_cons_of_mem _ member)
    have packed : n.packed host = n.nodeData.write ++ Node.packedEndpoint host address port := by
      simp only [Node.packed, endpoint]
    have size : (n.packed host).length = PACKED_NODE_SIZE :=
      (Node.HasV4.getPackedNode host (v4 n List.mem_cons_self)).2
    have list : packedNodes host (n :: rest) = n.packed host ++ packedNodes host rest := rfl
    have first : (n.packed host ++ packedNodes host rest).take PACKED_NODE_SIZE = n.packed host := by
      rw [← size, List.take_left']
      rfl
    have others : (n.packed host ++ packedNodes host rest).drop PACKED_NODE_SIZE =
        packedNodes host rest := by
      rw [← size, List.drop_left']
      rfl
    rw [list, List.length_cons, readNodes, first, others, later, packed, Node.ofRange_packed]
    simp only [ok_bind, List.map_cons, Node.setGood, endpoint]

/-! ## Round trips -/

/-- The buffer that was made is the canonical encoding of `dictionary`, and parsing it
gives a message of this type, transaction id and sender with `further` properties. -/
def RoundTrips (host : Host) (made : Fallible Buffer) (dictionary : Value) (type transactionID : Buffer)
    (source : NodeData) (further : Message → Prop) : Prop :=
  made = .ok (encode dictionary) ∧ canonical dictionary = true ∧
    ∃ m, Message.parseMessage host (encode dictionary) = .ok (some m) ∧
      m.Carries host type transactionID source ∧
      (do let id ← m.getID host; NodeData.ofBuffer host id) = .ok source ∧ further m

private theorem Message.Carries.source {host : Host} {m : Message} {type transactionID : Buffer}
    {source : NodeData} (h : m.Carries host type transactionID source) :
    (do let id ← m.getID host; NodeData.ofBuffer host id) = .ok source := by
  rw [h.id, ok_bind, NodeData.ofBuffer_write]

/-- The four messages, for a transaction id of 1 to 1024 octets and 1 to 8 nodes. -/
theorem make_roundTrips (host : Host) (now : Int) (transactionID : Buffer) (source target : NodeData)
    (nodes : List Node) (filled : 1 ≤ transactionID.length) (short : transactionID.length ≤ 1024)
    (occupied : 1 ≤ nodes.length) (few : nodes.length ≤ 8) (v4 : ∀ n ∈ nodes, n.HasV4) :
    RoundTrips host (Query.Ping.make host transactionID source)
      (Query.Ping.dictionary transactionID source) Type.Query transactionID source
      (fun m => Query.getMessageType m = .ok Messages.Ping) ∧
    RoundTrips host (Query.FindNode.make host transactionID source target)
      (Query.FindNode.dictionary transactionID source target) Type.Query transactionID source
      (fun m => Query.getMessageType m = .ok Messages.FindNode ∧
        Query.FindNode.getTarget m = .ok target.write ∧
        NodeData.ofBuffer host target.write = .ok target) ∧
    RoundTrips host (Reply.Ping.make host transactionID source)
      (Reply.Ping.dictionary transactionID source) Type.Reply transactionID source (fun _ => True) ∧
    RoundTrips host (Reply.FindNode.make host transactionID source nodes)
      (Reply.FindNode.dictionary transactionID source (packedNodes host nodes)) Type.Reply
      transactionID source
      (fun m => (do let reply ← Reply.FindNode.ofMessage m; Reply.FindNode.getNodes host now reply) =
        .ok (nodes.map (Node.setGood now))) := by
  have nonempty : transactionID ≠ [] := List.length_pos_iff.mp filled
  have fits : transactionID.length ≤ grantedSize := short.trans (by decide)
  have digits := (Decimal.digits_length_le transactionID.length 4 (by decide)).mpr (by omega)
  have text := string_length transactionID
  have size := packedNodes_length host v4
  have whole : (packedNodes host nodes).length / PACKED_NODE_SIZE = nodes.length := by
    rw [size, PACKED_NODE_SIZE]
    omega
  refine ⟨⟨?_, Query.Ping.dictionary_canonical _ _, ?_⟩,
    ⟨?_, Query.FindNode.dictionary_canonical _ _ _, ?_⟩,
    ⟨?_, Reply.Ping.dictionary_canonical _ _, ?_⟩, ⟨?_, Reply.FindNode.dictionary_canonical _ _ _, ?_⟩⟩
  · exact (pingQuery_make_iff host transactionID source _).mpr ⟨nonempty, by omega, rfl⟩
  · obtain ⟨m, parsed, carries, named⟩ := Query.Ping.parse_dictionary host source fits
    exact ⟨m, parsed, carries, carries.source, named⟩
  · exact (findNodeQuery_make_iff host transactionID source target _).mpr ⟨nonempty, by omega, rfl⟩
  · obtain ⟨m, parsed, carries, named, asked⟩ :=
      Query.FindNode.parse_dictionary host source target fits
    exact ⟨m, parsed, carries, carries.source, named, asked, NodeData.ofBuffer_write host target⟩
  · exact (pingReply_make_iff host transactionID source _).mpr ⟨⟨nonempty, by omega⟩, rfl⟩
  · obtain ⟨m, parsed, carries⟩ := Reply.Ping.parse_dictionary host source fits
    exact ⟨m, parsed, carries, carries.source, trivial⟩
  · have listDigits := (Decimal.digits_length_le (26 * nodes.length) 3 (by decide)).mpr (by omega)
    exact (findNodeReply_make_iff host transactionID source nodes v4 few _).mpr
      ⟨⟨by omega, nonempty, by omega⟩, rfl⟩
  · obtain ⟨m, parsed, carries, -, listed⟩ := Reply.FindNode.parse_dictionary host source
      (packedNodes host nodes) fits (packedNodes_short host v4 few)
    refine ⟨m, parsed, carries, carries.source, (listed now).trans ?_⟩
    rw [whole]
    exact Reply.FindNode.readNodes_packed host now nodes v4

/-- A node on the local host. -/
def loopbackNode : Node := ⟨NodeData.maxValue, 0, 0, some ⟨.v4 0x7F000001, 6881⟩⟩

theorem make_roundTrips_loopback :
    RoundTrips Host.x86 (Query.Ping.make Host.x86 (ascii "aa") NodeData.minValue)
      (Query.Ping.dictionary (ascii "aa") NodeData.minValue) Type.Query (ascii "aa") NodeData.minValue
      (fun m => Query.getMessageType m = .ok Messages.Ping) ∧
    RoundTrips Host.x86 (Query.FindNode.make Host.x86 (ascii "aa") NodeData.minValue NodeData.maxValue)
      (Query.FindNode.dictionary (ascii "aa") NodeData.minValue NodeData.maxValue) Type.Query
      (ascii "aa") NodeData.minValue
      (fun m => Query.getMessageType m = .ok Messages.FindNode ∧
        Query.FindNode.getTarget m = .ok NodeData.maxValue.write ∧
        NodeData.ofBuffer Host.x86 NodeData.maxValue.write = .ok NodeData.maxValue) ∧
    RoundTrips Host.x86 (Reply.Ping.make Host.x86 (ascii "aa") NodeData.minValue)
      (Reply.Ping.dictionary (ascii "aa") NodeData.minValue) Type.Reply (ascii "aa") NodeData.minValue
      (fun _ => True) ∧
    RoundTrips Host.x86 (Reply.FindNode.make Host.x86 (ascii "aa") NodeData.minValue [loopbackNode])
      (Reply.FindNode.dictionary (ascii "aa") NodeData.minValue
        (packedNodes Host.x86 [loopbackNode])) Type.Reply (ascii "aa") NodeData.minValue
      (fun m => (do
          let reply ← Reply.FindNode.ofMessage m
          Reply.FindNode.getNodes Host.x86 42 reply) =
        .ok ([loopbackNode].map (Node.setGood 42))) :=
  make_roundTrips Host.x86 42 (ascii "aa") NodeData.minValue NodeData.maxValue [loopbackNode]
    (by decide) (by decide) (by decide) (by decide) (by
      intro n member
      rw [List.mem_singleton.mp member]
      exact ⟨0x7F000001, 6881, rfl⟩)

end TorrentSync.Source
