import TorrentSync.Source.BEncodeDecoderTree
import TorrentSync.Source.BEncodeEncoderRun
import TorrentSync.Source.MessageFields

/-!
# Encoding of messages

All `make` functions write one dictionary that holds an inner dictionary under `a` or
`r` and then its other fields. They are the same sequence of encoder calls, whose
tokens are the bencoded form of that dictionary.
-/
namespace TorrentSync.Source

open Lib Bencode EncoderCall

/-- A string entry of a dictionary. -/
def entryCall (entry : Buffer × Buffer) : EncoderCall :=
  .addDictionaryElement .string entry.1 entry.2

/-- The calls that write a message with the inner dictionary `inner` under `outer`. -/
def messageCalls (outer : Buffer) (inner fields : List (Buffer × Buffer)) : List EncoderCall :=
  [.startDictionary, .addElement outer, .startDictionary] ++ inner.map entryCall ++
    [.endDictionary] ++ fields.map entryCall ++ [.endDictionary]

/-- Strings as dictionary values. -/
def leaf (entry : Buffer × Buffer) : Buffer × Value := (entry.1, .str entry.2)

/-- The dictionary a message stands for. -/
def krpc (outer : Buffer) (inner fields : List (Buffer × Buffer)) : Value :=
  .dict ((outer, .dict (inner.map leaf)) :: fields.map leaf)

/-- Runs the calls on a new encoder and takes its value. -/
def finish (host : Host) (calls : List EncoderCall) : Fallible Buffer := do
  let (enc, _) ← BEncodeEncoder.run host calls BEncodeEncoder.new
  .ok enc.value.1

/-- The calls return their tokens exactly when no element is empty and all of them fit. -/
theorem finish_eq_ok_iff (host : Host) (calls : List EncoderCall) (inOrder : InOrder host [] calls)
    (b : Buffer) :
    finish host calls = .ok b ↔
      (∀ call ∈ calls, call.NoEmptyElement) ∧ AllFit 0 1024 calls ∧ b = tokens calls := by
  by_cases nonempty : ∀ call ∈ calls, call.NoEmptyElement
  · have quiet := BEncodeEncoder.run_quiet host calls BEncodeEncoder.new_encodes nonempty inOrder
    have outcome := BEncodeEncoder.run_spec host calls BEncodeEncoder.new_encodes nonempty quiet
    rw [BEncodeEncoder.new_length, List.length_nil] at outcome
    rcases outcome with ⟨fits, enc, ran, encodes⟩ | ⟨overrun, ran⟩
    · have returned : finish host calls = .ok (tokens calls) := by
        simp only [finish, ran, ok_bind, (BEncodeEncoder.value_spec encodes).1, List.nil_append]
      rw [returned, Except.ok.injEq]
      exact ⟨fun same => ⟨nonempty, fits, same.symm⟩, fun all => all.2.2.symm⟩
    · have failed : finish host calls = .error BEncodeEncoder.outsideResult := by
        simp only [finish, ran, error_bind]
      rw [failed]
      exact iff_of_false (by simp) fun all => overrun all.2.1
  · refine iff_of_false ?_ fun all => nonempty all.1
    intro returned
    obtain ⟨result, ran, -⟩ := bind_eq_ok.mp returned
    exact nonempty (BEncodeEncoder.run_ok_noEmptyElement host calls ran)

theorem finish_noException (host : Host) (calls : List EncoderCall)
    (inOrder : InOrder host [] calls) : NoException (finish host calls) :=
  (BEncodeEncoder.run_noException host calls BEncodeEncoder.new inOrder).bind fun _ _ => Raises.ok _

/-! ## The four messages -/

def pingQueryCalls (transactionID : Buffer) (source : NodeData) : List EncoderCall :=
  messageCalls Field.Arguments [(Field.PeerID, source.write)]
    [(Field.Query, Messages.Ping), (Field.TransactionID, transactionID), (Field.Type, Type.Query)]

def findNodeQueryCalls (transactionID : Buffer) (source target : NodeData) : List EncoderCall :=
  messageCalls Field.Arguments [(Field.PeerID, source.write), (Field.Target, target.write)]
    [(Field.Query, Messages.FindNode), (Field.TransactionID, transactionID), (Field.Type, Type.Query)]

def pingReplyCalls (transactionID : Buffer) (source : NodeData) : List EncoderCall :=
  messageCalls Field.Reply [(Field.PeerID, source.write)]
    [(Field.TransactionID, transactionID), (Field.Type, Type.Reply)]

def findNodeReplyCalls (transactionID : Buffer) (source : NodeData) (nodeData : Buffer) :
    List EncoderCall :=
  messageCalls Field.Reply [(Field.PeerID, source.write), (Field.Nodes, nodeData)]
    [(Field.TransactionID, transactionID), (Field.Type, Type.Reply)]

theorem pingQuery_make (host : Host) (transactionID : Buffer) (source : NodeData) :
    Query.Ping.make host transactionID source = finish host (pingQueryCalls transactionID source) := by
  simp only [Query.Ping.make, finish, pingQueryCalls, messageCalls, entryCall, List.map_cons,
    List.map_nil, List.cons_append, List.nil_append, BEncodeEncoder.run, BEncodeEncoder.step,
    KeyType.promote, bind_assoc, ok_bind]

theorem findNodeQuery_make (host : Host) (transactionID : Buffer) (source target : NodeData) :
    Query.FindNode.make host transactionID source target =
      finish host (findNodeQueryCalls transactionID source target) := by
  simp only [Query.FindNode.make, finish, findNodeQueryCalls, messageCalls, entryCall, List.map_cons,
    List.map_nil, List.cons_append, List.nil_append, BEncodeEncoder.run, BEncodeEncoder.step,
    KeyType.promote, bind_assoc, ok_bind]

theorem pingReply_make (host : Host) (transactionID : Buffer) (source : NodeData) :
    Reply.Ping.make host transactionID source = finish host (pingReplyCalls transactionID source) := by
  simp only [Reply.Ping.make, finish, pingReplyCalls, messageCalls, entryCall, List.map_cons,
    List.map_nil, List.cons_append, List.nil_append, BEncodeEncoder.run, BEncodeEncoder.step,
    KeyType.promote, bind_assoc, ok_bind]

/-! ## The packed node list -/

/-- A node with an IPv4 endpoint. -/
def Node.HasV4 (n : Node) : Prop := ∃ address port, n.endpoint = some ⟨.v4 address, port⟩

instance (n : Node) : Decidable n.HasV4 :=
  match endpoint : n.endpoint with
  | some ⟨.v4 address, port⟩ => .isTrue ⟨address, port, endpoint⟩
  | none => .isFalse fun ⟨_, _, same⟩ => by simp [same] at endpoint
  | some ⟨.v6 _ _, _⟩ => .isFalse fun ⟨_, _, same⟩ => by simp [same] at endpoint

/-- The 26 octets of a node with an IPv4 endpoint. -/
def Node.packed (host : Host) (n : Node) : Buffer :=
  match n.endpoint with
  | some ⟨.v4 address, port⟩ => n.nodeData.write ++ Node.packedEndpoint host address port
  | _ => []

theorem Node.HasV4.getPackedNode {n : Node} (host : Host) (h : n.HasV4) :
    n.getPackedNode host = .ok (n.packed host) ∧ (n.packed host).length = 26 := by
  obtain ⟨address, port, endpoint⟩ := h
  have form : n.packed host = n.nodeData.write ++ Node.packedEndpoint host address port := by
    simp only [packed, endpoint]
  rw [form]
  exact ⟨getPackedNode_v4 host endpoint, by simp⟩

def packedNodes (host : Host) (nodes : List Node) : Buffer := nodes.flatMap (Node.packed host)

theorem packedNodes_length (host : Host) {nodes : List Node} (v4 : ∀ n ∈ nodes, n.HasV4) :
    (packedNodes host nodes).length = 26 * nodes.length := by
  induction nodes with
  | nil => rfl
  | cons n rest ih =>
    have head := (Node.HasV4.getPackedNode host (v4 n List.mem_cons_self)).2
    have tail := ih fun m member => v4 m (List.mem_cons_of_mem _ member)
    rw [packedNodes] at tail ⊢
    rw [List.flatMap_cons, List.length_append, head, tail, List.length_cons]
    omega

namespace Reply.FindNode

/-- Nodes with IPv4 endpoints are packed one after the other. -/
theorem packNodes_spec (host : Host) (nodes : List Node) (v4 : ∀ n ∈ nodes, n.HasV4)
    (nodeData : Buffer) (bufferIndex : Nat)
    (room : bufferIndex + 26 * nodes.length ≤ nodeData.length) :
    ∃ nodeData', packNodes host nodes nodeData bufferIndex =
        .ok (nodeData', bufferIndex + 26 * nodes.length) ∧
      nodeData'.take (bufferIndex + 26 * nodes.length) =
        nodeData.take bufferIndex ++ packedNodes host nodes ∧
      nodeData'.length = nodeData.length := by
  induction nodes generalizing nodeData bufferIndex with
  | nil => exact ⟨nodeData, rfl, by simp [packedNodes], rfl⟩
  | cons n rest ih =>
    obtain ⟨packed, length⟩ := Node.HasV4.getPackedNode host (v4 n List.mem_cons_self)
    rw [List.length_cons] at room
    have before : (nodeData.take bufferIndex).length = bufferIndex := by
      rw [List.length_take]
      omega
    have written : (nodeData.take bufferIndex ++ n.packed host ++
        nodeData.drop (bufferIndex + 26)).length = nodeData.length := by
      simp only [List.length_append, before, length, List.length_drop]
      omega
    obtain ⟨nodeData', run, taken, size⟩ := ih (fun m member => v4 m (List.mem_cons_of_mem _ member))
      (nodeData.take bufferIndex ++ n.packed host ++ nodeData.drop (bufferIndex + 26))
      (bufferIndex + 26) (by rw [written]; omega)
    have index : bufferIndex + 26 + 26 * rest.length = bufferIndex + 26 * (n :: rest).length := by
      rw [List.length_cons]
      omega
    rw [index] at run taken
    refine ⟨nodeData', ?_, ?_, size.trans written⟩
    · have inside : decide (bufferIndex + 26 ≤ nodeData.length) = true := by
        rw [decide_eq_true_eq]
        omega
      simp only [packNodes, packed, length, inside, check_true, PACKED_NODE_SIZE, run, ok_bind]
    · have front : (nodeData.take bufferIndex ++ n.packed host ++
          nodeData.drop (bufferIndex + 26)).take (bufferIndex + 26) =
          nodeData.take bufferIndex ++ n.packed host := by
        rw [List.take_append_of_le_length (by rw [List.length_append, before, length])]
        exact List.take_of_length_le (by rw [List.length_append, before, length])
      rw [taken, front, packedNodes, packedNodes, List.flatMap_cons, List.append_assoc]

/-- The first node without an IPv4 endpoint stops the packing. -/
theorem packNodes_not_v4 (host : Host) (before : List Node) (n : Node) (rest : List Node)
    (v4 : ∀ m ∈ before, m.HasV4) (other : ¬ n.HasV4) (nodeData : Buffer) (bufferIndex : Nat)
    (room : bufferIndex + 26 * before.length ≤ nodeData.length) :
    packNodes host (before ++ n :: rest) nodeData bufferIndex =
      .error (if n.endpoint.isSome then .badCast else .assertion "!!_endpoint") := by
  induction before generalizing nodeData bufferIndex with
  | nil =>
    have failed := Node.getPackedNode_not_v4 host (n := n)
      fun address port endpoint => other ⟨address, port, endpoint⟩
    simp only [List.nil_append, packNodes, failed, error_bind]
  | cons m before ih =>
    obtain ⟨packed, length⟩ := (v4 m List.mem_cons_self).getPackedNode host
    rw [List.length_cons] at room
    have inside : decide (bufferIndex + 26 ≤ nodeData.length) = true := by
      rw [decide_eq_true_eq]
      omega
    have written : (nodeData.take bufferIndex ++ m.packed host ++
        nodeData.drop (bufferIndex + 26)).length = nodeData.length := by
      simp only [List.length_append, List.length_take, length, List.length_drop]
      omega
    have later := ih (fun k member => v4 k (List.mem_cons_of_mem _ member))
      (nodeData.take bufferIndex ++ m.packed host ++ nodeData.drop (bufferIndex + 26))
      (bufferIndex + 26) (by rw [written]; omega)
    simp only [List.cons_append, packNodes, packed, length, inside, check_true, PACKED_NODE_SIZE,
      later, ok_bind]

/-- `make` for at most eight nodes with IPv4 endpoints. -/
theorem make_eq (host : Host) (transactionID : Buffer) (source : NodeData) (nodes : List Node)
    (v4 : ∀ n ∈ nodes, n.HasV4) (few : nodes.length ≤ 8) :
    make host transactionID source nodes =
      finish host (findNodeReplyCalls transactionID source (packedNodes host nodes)) := by
  have size : (List.replicate (PACKED_NODE_SIZE * DHT_FIND_NODE_COUNT) (0 : UInt8)).length = 208 :=
    List.length_replicate
  obtain ⟨nodeData, run, taken, length⟩ := packNodes_spec host nodes v4
    (List.replicate (PACKED_NODE_SIZE * DHT_FIND_NODE_COUNT) 0) 0 (by rw [size]; omega)
  rw [Nat.zero_add] at run taken
  have shrunk : resize (26 * nodes.length) nodeData = packedNodes host nodes := by
    rw [resize_of_le (by rw [length, size]; omega), taken]
    simp
  simp only [make, run, shrunk, ok_bind, finish, findNodeReplyCalls, messageCalls, entryCall,
    List.map_cons, List.map_nil, List.cons_append, List.nil_append, BEncodeEncoder.run,
    BEncodeEncoder.step, KeyType.promote, bind_assoc]

end Reply.FindNode

/-! ## Tokens and fields -/

theorem encodeEntries_leaf (entries : List (Buffer × Buffer)) :
    encodeEntries (entries.map leaf) = tokens (entries.map entryCall) := by
  induction entries with
  | nil => rfl
  | cons e rest ih =>
    simp only [tokens, List.map_cons, List.flatMap_cons] at ih ⊢
    rw [leaf, encodeEntries, ih, entryCall, encode]
    rfl

theorem tokens_messageCalls (outer : Buffer) (inner fields : List (Buffer × Buffer)) :
    tokens (messageCalls outer inner fields) = encode (krpc outer inner fields) := by
  have mark : ascii "d" = [100] ∧ ascii "e" = [101] := ⟨rfl, rfl⟩
  have parts : ∀ xs ys : List EncoderCall, tokens (xs ++ ys) = tokens xs ++ tokens ys :=
    fun _ _ => List.flatMap_append
  simp only [messageCalls, parts, krpc, encode, encodeEntries, encodeEntries_leaf]
  simp [tokens, text, mark]

/-- The fields of a message as the decoder names them. -/
def messageFields (outer : Buffer) (inner fields : List (Buffer × Buffer)) : List (Buffer × Buffer) :=
  inner.map (fun e => (Field.nested outer e.1, e.2)) ++ fields

open BEncodeDecoder

private theorem leavesIn_leaf (pre : Buffer) (entries : List (Buffer × Buffer)) :
    leavesIn pre (entries.map leaf) = entries.map fun e => (pre ++ e.1, e.2) := by
  induction entries with
  | nil => rfl
  | cons e rest ih =>
    simp only [List.map_cons, leaf, leavesIn, leaves, List.cons_append, List.nil_append]
    rw [← ih]

theorem leavesIn_krpc {outer : Buffer} (named : outer ≠ []) (inner fields : List (Buffer × Buffer)) :
    leavesIn [] ((outer, .dict (inner.map leaf)) :: fields.map leaf) =
      messageFields outer inner fields := by
  have nonempty : 0 < outer.length := List.length_pos_iff.mpr named
  have same : fields.map (fun e => (e.1, e.2)) = fields := List.map_id' fields
  simp only [leavesIn, leaves, leavesIn_leaf, List.nil_append, inside, nonempty, if_true,
    messageFields, Field.nested, same]

private theorem readableEntries_leaf (host : Host) {entries : List (Buffer × Buffer)}
    (short : ∀ e ∈ entries, ShortKey e.1 ∧ e.2.length ≤ grantedSize) :
    ReadableEntries host (entries.map leaf) := by
  induction entries with
  | nil => trivial
  | cons e rest ih =>
    obtain ⟨key, value⟩ := short e List.mem_cons_self
    exact ⟨key.readable host, .of_small host value,
      ih fun f member => short f (List.mem_cons_of_mem _ member)⟩

private theorem listFreeEntries_leaf (entries : List (Buffer × Buffer)) :
    ListFreeEntries (entries.map leaf) := by
  induction entries with
  | nil => trivial
  | cons e rest ih => exact ⟨trivial, ih⟩

/-- The decoder reads a message dictionary back into its fields. -/
theorem parse_krpc (host : Host) {outer : Buffer} {inner fields : List (Buffer × Buffer)}
    (named : outer ≠ []) (shortOuter : ShortKey outer)
    (short : ∀ e ∈ inner ++ fields, ShortKey e.1 ∧ e.2.length ≤ grantedSize)
    (distinct : ((messageFields outer inner fields).map Prod.fst).Nodup) :
    Message.parseMessage host (encode (krpc outer inner fields)) =
      Message.ofFields host ⟨messageFields outer inner fields, distinct⟩ := by
  have readableInner :=
    readableEntries_leaf host fun e member => short e (List.mem_append_left _ member)
  have readableFields :=
    readableEntries_leaf host fun e member => short e (List.mem_append_right _ member)
  have listFree : ListFreeEntries ((outer, .dict (inner.map leaf)) :: fields.map leaf) :=
    ⟨listFreeEntries_leaf inner, listFreeEntries_leaf fields⟩
  have parsed := parseMessage_encode host (krpc outer inner fields) []
    ⟨shortOuter.readable host, readableInner, readableFields⟩ (tracks_of_listFree listFree 0)
  have named' : leaves [] (krpc outer inner fields) = messageFields outer inner fields :=
    leavesIn_krpc named inner fields
  rw [List.append_nil, named'] at parsed
  have same : insertAll (messageFields outer inner fields) .empty =
      ⟨messageFields outer inner fields, distinct⟩ := by
    have entries := insertAll_entries (messageFields outer inner fields) .empty
      (by simpa [DataMap.empty] using distinct)
    cases filled : insertAll (messageFields outer inner fields) .empty with
    | mk list unique =>
      rw [filled] at entries
      simp only [DataMap.empty, List.nil_append] at entries
      subst entries
      rfl
  rw [Message.parseMessage, parsed, same]

end TorrentSync.Source
