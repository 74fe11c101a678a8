import TorrentSync.Source.MessageEncoding

/-!
# What the make functions return

Each `make` function returns the bencoding of its dictionary exactly when no element
is empty and the transaction id still fits into the second block of the encoder's
buffer. A longer transaction id makes the encoder write past its buffer.
-/
namespace TorrentSync.Source

open Lib Bencode EncoderCall BEncodeEncoder

/-! ## Sizes -/

private theorem nextBlock_mono {a b : Nat} (le : a ≤ b) : nextBlock a ≤ nextBlock b := by
  unfold nextBlock
  omega

private theorem le_elementSize (used size : Nat) (v : Buffer) : size ≤ elementSize used size v := by
  have grows := lt_nextBlock size
  rw [elementSize, BEncodeEncoder.sizeAfter]
  split <;> omega

private theorem key_length (key : Buffer) (single : key.length = 1) : (string key).length = 3 := by
  rw [string_length, single]
  rfl

@[simp] theorem string_write_length (source : NodeData) : (string source.write).length = 23 := by
  rw [string_length, NodeData.write_length]
  rfl

/-- The last three calls of every message. -/
def lastCalls (transactionID type : Buffer) : List EncoderCall :=
  [entryCall (Field.TransactionID, transactionID), entryCall (Field.Type, type), .endDictionary]

/-- The type entry and the last `e` fit into one more block. -/
private theorem allFit_type {used : Nat} (blocks : Nat) {type : Buffer} (single : type.length = 1)
    (room : used ≤ blocks * 1024) :
    AllFit used (blocks * 1024) [entryCall (Field.Type, type), .endDictionary] := by
  have keyY : (string Field.Type).length = 3 := rfl
  have value := key_length type single
  have later := nextBlock_mono (le_elementSize used (blocks * 1024) Field.Type)
  have block : nextBlock (blocks * 1024) = blocks * 1024 + 1024 := by
    unfold nextBlock
    omega
  simp only [entryCall, AllFit, Fits, and_true]
  refine ⟨?_, ?_⟩
  · rw [ElementFits, keyY, block]
    omega
  · rw [ElementFits, keyY, value]
    omega

/-- After a short beginning a message fits if and only if its transaction id does. -/
theorem allFit_message (pre : List EncoderCall) (transactionID type : Buffer)
    (noValue : ∀ call ∈ pre, call ≠ .value) (small : (tokens pre).length + 3 < 1024)
    (single : type.length = 1) :
    AllFit 0 1024 (pre ++ lastCalls transactionID type) ↔
      (tokens pre).length + 3 + (string transactionID).length ≤ 2048 := by
  obtain ⟨fits, size⟩ := allFit_small pre 0 1024 noValue (by omega)
  rw [allFit_append, size, Nat.zero_add]
  generalize (tokens pre).length = used at small ⊢
  have keyT : (string Field.TransactionID).length = 3 := rfl
  have sizeT : elementSize used 1024 Field.TransactionID = 1024 := by
    rw [elementSize, BEncodeEncoder.sizeAfter, keyT, if_neg (by omega)]
  have fitsT : ElementFits used 1024 Field.TransactionID := by
    rw [ElementFits, keyT, nextBlock]
    omega
  have step : AllFit used 1024 (lastCalls transactionID type) ↔
      ElementFits (used + 3) 1024 transactionID ∧
        AllFit (used + (3 + (string transactionID).length)) (elementSize (used + 3) 1024 transactionID)
          [entryCall (Field.Type, type), .endDictionary] := by
    rw [lastCalls, AllFit, entryCall, Fits, EncoderCall.sizeAfter, text, List.length_append, keyT, sizeT]
    simp only [fitsT, true_and]
  have block : ElementFits (used + 3) 1024 transactionID ↔
      used + 3 + (string transactionID).length ≤ 2048 := Iff.rfl
  rw [step, block]
  constructor
  · exact fun all => all.2.1
  · intro room
    refine ⟨fits, room, ?_⟩
    rw [elementSize, BEncodeEncoder.sizeAfter]
    split
    · exact allFit_type 2 single (by omega)
    · exact allFit_type 1 single (by omega)

/-! ## Key order -/

/-- A 7-bit key that does not sort before the last one keeps the order. -/
private theorem keeps_order (host : Host) (last k v : Buffer)
    (plain : k.all (fun c => c.toNat < 128) = true)
    (sorted : OrderedContainers.lexCompare octetValue octetValue k last = false) :
    (entryCall (k, v)).KeepsOrder host last := by
  have promoted : ∀ c ∈ k, charValue host c = octetValue c := by
    intro c member
    exact charValue_of_lt host (by simpa using List.all_eq_true.mp plain c member)
  simp only [entryCall, KeepsOrder, KeyType.promote]
  rw [OrderedContainers.lexCompare_congr promoted, sorted, Bool.and_false]

open TorrentSync.Source.Field in
theorem pingQuery_inOrder (host : Host) (transactionID : Buffer) (source : NodeData) :
    InOrder host [] (pingQueryCalls transactionID source) :=
  ⟨trivial, trivial, trivial, keeps_order host [] PeerID _ (by decide) (by decide), trivial,
    keeps_order host [] Query _ (by decide) (by decide),
    keeps_order host Query TransactionID _ (by decide) (by decide),
    keeps_order host TransactionID Field.Type _ (by decide) (by decide), trivial, trivial⟩

open TorrentSync.Source.Field in
theorem findNodeQuery_inOrder (host : Host) (transactionID : Buffer) (source target : NodeData) :
    InOrder host [] (findNodeQueryCalls transactionID source target) :=
  ⟨trivial, trivial, trivial, keeps_order host [] PeerID _ (by decide) (by decide),
    keeps_order host PeerID Target _ (by decide) (by decide), trivial,
    keeps_order host [] Query _ (by decide) (by decide),
    keeps_order host Query TransactionID _ (by decide) (by decide),
    keeps_order host TransactionID Field.Type _ (by decide) (by decide), trivial, trivial⟩

open TorrentSync.Source.Field in
theorem pingReply_inOrder (host : Host) (transactionID : Buffer) (source : NodeData) :
    InOrder host [] (pingReplyCalls transactionID source) :=
  ⟨trivial, trivial, trivial, keeps_order host [] PeerID _ (by decide) (by decide), trivial,
    keeps_order host [] TransactionID _ (by decide) (by decide),
    keeps_order host TransactionID Field.Type _ (by decide) (by decide), trivial, trivial⟩

open TorrentSync.Source.Field in
theorem findNodeReply_inOrder (host : Host) (transactionID : Buffer) (source : NodeData)
    (nodeData : Buffer) : InOrder host [] (findNodeReplyCalls transactionID source nodeData) :=
  ⟨trivial, trivial, trivial, keeps_order host [] PeerID _ (by decide) (by decide),
    keeps_order host PeerID Nodes _ (by decide) (by decide), trivial,
    keeps_order host [] TransactionID _ (by decide) (by decide),
    keeps_order host TransactionID Field.Type _ (by decide) (by decide), trivial, trivial⟩

/-! ## What the make functions return -/

private theorem write_ne_nil (source : NodeData) : source.write ≠ [] := by
  rw [← List.length_pos_iff, NodeData.write_length]
  decide

private theorem message_noEmpty {pre : List EncoderCall} {transactionID type : Buffer}
    (nonempty : ∀ call ∈ pre, call.NoEmptyElement) (typed : type ≠ []) :
    (∀ call ∈ pre ++ lastCalls transactionID type, call.NoEmptyElement) ↔ transactionID ≠ [] := by
  constructor
  · intro all
    exact (all (entryCall (Field.TransactionID, transactionID)) (by simp [lastCalls])).2
  · intro filled call member
    rcases List.mem_append.mp member with first | last
    · exact nonempty call first
    · have keyT : Field.TransactionID ≠ [] := by decide
      have keyY : Field.Type ≠ [] := by decide
      simp only [lastCalls, List.mem_cons, List.not_mem_nil, or_false] at last
      rcases last with rfl | rfl | rfl
      · exact ⟨keyT, filled⟩
      · exact ⟨keyY, typed⟩
      · trivial

/-- The calls before the last three. -/
private def firstCalls (outer : Buffer) (inner fields : List (Buffer × Buffer)) : List EncoderCall :=
  [.startDictionary, .addElement outer, .startDictionary] ++ inner.map entryCall ++
    [.endDictionary] ++ fields.map entryCall

/-- A message whose beginning is short and has no empty element is returned exactly when
its transaction id is not empty and fits. -/
private theorem message_eq_ok_iff (host : Host) (calls : List EncoderCall)
    {outer transactionID type : Buffer} {inner : List (Buffer × Buffer)}
    (fields : List (Buffer × Buffer))
    (shape : calls = messageCalls outer inner
      (fields ++ [(Field.TransactionID, transactionID), (Field.Type, type)]))
    (inOrder : InOrder host [] calls)
    (nonempty : ∀ call ∈ firstCalls outer inner fields, call.NoEmptyElement)
    (noValue : ∀ call ∈ firstCalls outer inner fields, call ≠ .value)
    (single : type.length = 1) (used : Nat)
    (size : (tokens (firstCalls outer inner fields)).length = used) (small : used + 3 < 1024)
    (b : Buffer) :
    finish host calls = .ok b ↔ transactionID ≠ [] ∧
      used + 3 + (string transactionID).length ≤ 2048 ∧
      b = encode (krpc outer inner
        (fields ++ [(Field.TransactionID, transactionID), (Field.Type, type)])) := by
  have typed : type ≠ [] := by
    rintro rfl
    cases single
  have split : calls = firstCalls outer inner fields ++ lastCalls transactionID type := by
    rw [shape]
    simp [messageCalls, firstCalls, lastCalls]
  rw [finish_eq_ok_iff host calls inOrder, split, message_noEmpty nonempty typed,
    allFit_message _ _ _ noValue (by omega) single, size, ← split, shape, tokens_messageCalls]

/-! ## The four dictionaries -/

/-- The dictionary of a ping query. -/
def Query.Ping.dictionary (transactionID : Buffer) (source : NodeData) : Value :=
  krpc Field.Arguments [(Field.PeerID, source.write)]
    [(Field.Query, Messages.Ping), (Field.TransactionID, transactionID), (Field.Type, Type.Query)]

/-- The dictionary of a find_node query. -/
def Query.FindNode.dictionary (transactionID : Buffer) (source target : NodeData) : Value :=
  krpc Field.Arguments [(Field.PeerID, source.write), (Field.Target, target.write)]
    [(Field.Query, Messages.FindNode), (Field.TransactionID, transactionID), (Field.Type, Type.Query)]

/-- The dictionary of a ping reply. -/
def Reply.Ping.dictionary (transactionID : Buffer) (source : NodeData) : Value :=
  krpc Field.Reply [(Field.PeerID, source.write)]
    [(Field.TransactionID, transactionID), (Field.Type, Type.Reply)]

/-- The dictionary of a find_node reply. -/
def Reply.FindNode.dictionary (transactionID : Buffer) (source : NodeData) (nodeData : Buffer) :
    Value :=
  krpc Field.Reply [(Field.PeerID, source.write), (Field.Nodes, nodeData)]
    [(Field.TransactionID, transactionID), (Field.Type, Type.Reply)]

theorem pingQuery_make_iff (host : Host) (transactionID : Buffer) (source : NodeData) (b : Buffer) :
    Query.Ping.make host transactionID source = .ok b ↔ transactionID ≠ [] ∧
      45 + (string transactionID).length ≤ 2048 ∧
      b = encode (Query.Ping.dictionary transactionID source) := by
  have keys : Field.Arguments ≠ [] ∧ Field.PeerID ≠ [] ∧ Field.Query ≠ [] ∧ Messages.Ping ≠ [] := by
    decide
  rw [pingQuery_make]
  refine message_eq_ok_iff host _ [(Field.Query, Messages.Ping)] rfl
    (pingQuery_inOrder host transactionID source) ?_ ?_ rfl 42 ?_ (by decide) b
  · simp [firstCalls, entryCall, NoEmptyElement, write_ne_nil, keys]
  · simp [firstCalls, entryCall]
  · simp [firstCalls, tokens, entryCall, text]
    decide

theorem findNodeQuery_make_iff (host : Host) (transactionID : Buffer) (source target : NodeData)
    (b : Buffer) :
    Query.FindNode.make host transactionID source target = .ok b ↔ transactionID ≠ [] ∧
      81 + (string transactionID).length ≤ 2048 ∧
      b = encode (Query.FindNode.dictionary transactionID source target) := by
  have keys : Field.Arguments ≠ [] ∧ Field.PeerID ≠ [] ∧ Field.Target ≠ [] ∧ Field.Query ≠ [] ∧
      Messages.FindNode ≠ [] := by
    decide
  rw [findNodeQuery_make]
  refine message_eq_ok_iff host _ [(Field.Query, Messages.FindNode)] rfl
    (findNodeQuery_inOrder host transactionID source target) ?_ ?_ rfl 78 ?_ (by decide) b
  · simp [firstCalls, entryCall, NoEmptyElement, write_ne_nil, keys]
  · simp [firstCalls, entryCall]
  · simp [firstCalls, tokens, entryCall, text]
    decide

/-- A ping reply to this transaction id can be made. -/
def Reply.Ping.Fits (transactionID : Buffer) : Prop :=
  transactionID ≠ [] ∧ 36 + (string transactionID).length ≤ 2048

instance (transactionID : Buffer) : Decidable (Reply.Ping.Fits transactionID) :=
  inferInstanceAs (Decidable (_ ∧ _))

theorem pingReply_make_iff (host : Host) (transactionID : Buffer) (source : NodeData) (b : Buffer) :
    Reply.Ping.make host transactionID source = .ok b ↔ Reply.Ping.Fits transactionID ∧
      b = encode (Reply.Ping.dictionary transactionID source) := by
  have keys : Field.Reply ≠ [] ∧ Field.PeerID ≠ [] := by decide
  rw [pingReply_make, Reply.Ping.Fits, and_assoc]
  refine message_eq_ok_iff host _ [] rfl (pingReply_inOrder host transactionID source) ?_ ?_ rfl 33 ?_
    (by decide) b
  · simp [firstCalls, entryCall, NoEmptyElement, write_ne_nil, keys]
  · simp [firstCalls, entryCall]
  · simp [firstCalls, tokens, entryCall, text]
    decide

theorem pingReply_make_noException (host : Host) (transactionID : Buffer) (source : NodeData) :
    NoException (Reply.Ping.make host transactionID source) := by
  rw [pingReply_make]
  exact finish_noException host _ (pingReply_inOrder host transactionID source)

/-- A find_node reply with `count` nodes to this transaction id can be made. -/
def Reply.FindNode.Fits (count : Nat) (transactionID : Buffer) : Prop :=
  count ≠ 0 ∧ transactionID ≠ [] ∧
    44 + (Decimal.digits (26 * count)).length + 26 * count + (string transactionID).length ≤ 2048

instance (count : Nat) (transactionID : Buffer) : Decidable (Reply.FindNode.Fits count transactionID) :=
  inferInstanceAs (Decidable (_ ∧ _))

/-- An empty node list fails the encoder's assertion. -/
private theorem findNodeReply_finish_iff (host : Host) (transactionID : Buffer) (source : NodeData)
    (nodeData : Buffer) (short : nodeData.length ≤ 208) (b : Buffer) :
    finish host (findNodeReplyCalls transactionID source nodeData) = .ok b ↔ nodeData ≠ [] ∧
      transactionID ≠ [] ∧
      43 + (string nodeData).length + (string transactionID).length ≤ 2048 ∧
      b = encode (Reply.FindNode.dictionary transactionID source nodeData) := by
  have keys : Field.Reply ≠ [] ∧ Field.PeerID ≠ [] ∧ Field.Nodes ≠ [] := by decide
  by_cases empty : nodeData = []
  · refine iff_of_false ?_ fun all => all.1 empty
    rw [finish_eq_ok_iff host _ (findNodeReply_inOrder host transactionID source nodeData)]
    intro all
    have entry : entryCall (Field.Nodes, nodeData) ∈
        findNodeReplyCalls transactionID source nodeData := by
      simp [findNodeReplyCalls, messageCalls]
    exact (all.1 _ entry).2 empty
  · have digits := (Decimal.digits_length_le nodeData.length 3 (by decide)).mpr (by omega)
    have written := string_length nodeData
    have outcome := message_eq_ok_iff host
      (findNodeReplyCalls transactionID source nodeData) [] rfl
      (findNodeReply_inOrder host transactionID source nodeData) ?_ ?_ rfl
      (40 + (string nodeData).length) ?_ (by omega) b
    · have sum : 40 + (string nodeData).length + 3 = 43 + (string nodeData).length := by omega
      rw [outcome, sum]
      exact ⟨fun all => ⟨empty, all⟩, fun all => all.2⟩
    · simp [firstCalls, entryCall, NoEmptyElement, write_ne_nil, keys, empty]
    · simp [firstCalls, entryCall]
    · have names : (string Field.Reply).length = 3 ∧ (string Field.PeerID).length = 4 ∧
          (string Field.Nodes).length = 7 ∧ (ascii "d").length = 1 ∧ (ascii "e").length = 1 := by
        decide
      simp only [firstCalls, tokens, entryCall, text, List.map_cons, List.map_nil, List.append_nil,
        List.cons_append, List.nil_append, List.flatMap_cons, List.flatMap_nil, List.length_append,
        string_write_length, names]
      omega

theorem findNodeReply_make_iff (host : Host) (transactionID : Buffer) (source : NodeData)
    (nodes : List Node) (v4 : ∀ n ∈ nodes, n.HasV4) (few : nodes.length ≤ 8) (b : Buffer) :
    Reply.FindNode.make host transactionID source nodes = .ok b ↔
      Reply.FindNode.Fits nodes.length transactionID ∧
        b = encode (Reply.FindNode.dictionary transactionID source (packedNodes host nodes)) := by
  have size := packedNodes_length host v4
  have written := string_length (packedNodes host nodes)
  have empty : packedNodes host nodes ≠ [] ↔ nodes.length ≠ 0 := by
    rw [← List.length_pos_iff, size]
    omega
  rw [Reply.FindNode.make_eq host transactionID source nodes v4 few,
    findNodeReply_finish_iff host transactionID source _ (by omega), empty, written, size,
    Reply.FindNode.Fits, and_assoc, and_assoc]
  have sum : 43 + ((Decimal.digits (26 * nodes.length)).length + 1 + 26 * nodes.length) =
      44 + (Decimal.digits (26 * nodes.length)).length + 26 * nodes.length := by
    omega
  rw [sum]

/-- If a node has no IPv4 endpoint, the first such node decides the fault. -/
theorem findNodeReply_make_not_v4 (host : Host) (transactionID : Buffer) (source : NodeData)
    {nodes : List Node} (few : nodes.length ≤ 8) {n : Node}
    (first : nodes.find? (fun n => decide (¬ n.HasV4)) = some n) :
    Reply.FindNode.make host transactionID source nodes =
      .error (if n.endpoint.isSome then .badCast else .assertion "!!_endpoint") := by
  obtain ⟨other, before, rest, split, v4⟩ := List.find?_eq_some_iff_append.mp first
  have size : (List.replicate (PACKED_NODE_SIZE * DHT_FIND_NODE_COUNT) (0 : UInt8)).length = 208 :=
    List.length_replicate
  have length := congrArg List.length split
  rw [List.length_append, List.length_cons] at length
  have stopped := Reply.FindNode.packNodes_not_v4 host before n rest (by simpa using v4)
    (of_decide_eq_true other) (List.replicate (PACKED_NODE_SIZE * DHT_FIND_NODE_COUNT) 0) 0
    (by rw [size]; omega)
  simp only [Reply.FindNode.make, split, stopped, error_bind]

theorem findNodeReply_make_noException (host : Host) (transactionID : Buffer) (source : NodeData)
    (nodes : List Node) (v4 : ∀ n ∈ nodes, n.HasV4) (few : nodes.length ≤ 8) :
    NoException (Reply.FindNode.make host transactionID source nodes) := by
  rw [Reply.FindNode.make_eq host transactionID source nodes v4 few]
  exact finish_noException host _ (findNodeReply_inOrder host transactionID source _)

end TorrentSync.Source
