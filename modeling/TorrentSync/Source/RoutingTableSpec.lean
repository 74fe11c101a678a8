import TorrentSync.Source.MessageMake
import TorrentSync.Source.NodeTreeRun
import TorrentSync.Source.RoutingTable

/-!
# What recvMessage does

The invariant of a routing table and one specification for each part of
`recvMessage`: the lookup of the sender, the callback, and the two query handlers.
From them follows exactly when `recvMessage` returns and when an exception leaves it.
-/
namespace TorrentSync.Source

open Lib Bencode

namespace RoutingTable

/-- The invariants of the node table and of the callback table. -/
structure Valid (rt : RoutingTable) : Prop where
  table : ∃ d, rt.table.Valid d
  callbacks : rt.callbacks.Valid

theorem new_valid (node : NodeData) : (new node).Valid :=
  ⟨⟨0, NodeTree.new_valid node⟩, Callbacks.empty_valid⟩

theorem Valid.getNode_spec {rt : RoutingTable} (h : rt.Valid) (s : NodeData) :
    ∃ found, rt.table.getNode s = .ok found ∧
      ∀ node, found = some node → node ∈ rt.table.nodes ∧ node.nodeData = s := by
  obtain ⟨d, tree⟩ := h.table
  obtain ⟨found, search, hit, -⟩ := tree.getNode_spec s
  exact ⟨found, search, fun node same => hit node same⟩

/-- A new table knows no node. -/
theorem new_getNode (node s : NodeData) : (new node).table.getNode s = .ok none := by
  obtain ⟨found, search, own⟩ := (new_valid node).getNode_spec s
  have empty : (new node).table.nodes = [] := NodeTree.clear_nodes _
  cases found with
  | none => exact search
  | some n =>
    have member := (own n rfl).1
    rw [empty] at member
    cases member

theorem Valid.getClosestNodes_spec {rt : RoutingTable} (h : rt.Valid) (s : NodeData) :
    rt.table.getClosestNodes s = .ok (rt.table.closest s) := by
  obtain ⟨d, tree⟩ := h.table
  exact tree.getClosestNodes_spec s

/-! ## The sender -/

/-- The stored node has another endpoint than the sender. -/
def stale (sender : Endpoint) : Option Node → Bool
  | some node => node.endpoint.isSome && node.endpoint != some sender
  | none => false

/-- The stored node of the sender, or a new one. -/
def participant (now : Int) (s : NodeData) (sender : Endpoint) (found : Option Node) : Node :=
  found.getD ⟨s, now, 0, some sender⟩

open Callbacks in
/-- Up to the callbacks, `recvMessage` only looks up the sender. -/
theorem receive_eq {host : Host} (now : Int) {m : Message} {type t id : Buffer} {s : NodeData}
    (typed : m.getType = .ok type) (sent : Sent host m t id s) (sender : Endpoint)
    {rt : RoutingTable} {found : Option Node} (search : rt.table.getNode s = .ok found) :
    rt.receive host now m sender =
      if stale sender found then .ok rt
      else rt.dispatch host now type m (participant now s sender found) found.isSome := by
  simp only [receive, typed, sent.peer, sent.sender, search, ok_bind]
  cases found with
  | none => simp only [Node.ofBuffer, sent.sender, ok_bind]; rfl
  | some node => rfl

/-- An id that has not 20 octets makes the conversion to NodeData throw. -/
theorem receive_wrong_length {host : Host} (now : Int) {m : Message} {type id : Buffer}
    (typed : m.getType = .ok type) (peer : m.getID host = .ok id) (length : id.length ≠ 20)
    (sender : Endpoint) (rt : RoutingTable) :
    rt.receive host now m sender =
      .error (.invalidArgument "NodeData expects 20 byte as address") := by
  simp only [receive, typed, peer, NodeData.ofBuffer_wrong_length host length, ok_bind, error_bind]

/-! ## Callbacks -/

/-- What calling a callback leaves alone. -/
structure Called (callback : Callback) (rt rt' : RoutingTable) : Prop where
  valid : rt'.Valid
  callbacks : rt'.callbacks = rt.callbacks
  called : rt'.called = rt.called ++ [callback]
  handed : rt'.handed = rt.handed
  sending : rt'.sending = rt.sending
  initialAddresses : rt'.initialAddresses = rt.initialAddresses

/-- The closure of `initializeTable` does nothing with a message that was parsed. -/
theorem call_initializeTable {host : Host} (now : Int) {m : Message} {kind : Message.Kind}
    (isKind : m.IsKind kind) (s : NodeData) (known : Bool) {callback : Callback}
    (registered : callback.callback = .initializeTable) (rt : RoutingTable) :
    rt.call host now m s known callback = .ok { rt with called := rt.called ++ [callback] } := by
  simp only [call, registered, initializeTableReply, if_neg isKind.not_replyFindNode]

/-- No closure throws on a message that was parsed. -/
theorem call_spec (host : Host) (now : Int) {m : Message} {kind : Message.Kind}
    (isKind : m.IsKind kind) (s : NodeData) (known : Bool) (callback : Callback) {rt : RoutingTable}
    (h : rt.Valid) :
    ∃ rt', rt.call host now m s known callback = .ok rt' ∧ Called callback rt rt' := by
  cases registered : callback.callback with
  | initializeTable =>
    exact ⟨_, call_initializeTable now isKind s known registered rt, ⟨h.table, h.callbacks⟩, rfl, rfl,
      rfl, rfl, rfl⟩
  | doPing =>
    simp only [call, registered]
    cases known with
    | false => exact ⟨_, rfl, ⟨h.table, h.callbacks⟩, rfl, rfl, rfl, rfl, rfl⟩
    | true =>
      obtain ⟨d, tree⟩ := h.table
      obtain ⟨t', updated, valid, -⟩ := tree.update_spec (Node.setGood now) (fun _ => rfl) s
      simp only [doPingReply, if_true, updated, ok_bind]
      exact ⟨_, rfl, ⟨⟨d, valid⟩, h.callbacks⟩, rfl, rfl, rfl, rfl, rfl⟩

/-! ## Handlers -/

theorem handlePingQuery_spec (host : Host) {m : Message} {t : Buffer}
    (transaction : m.getTransactionID = .ok t) (node : Node) (rt : RoutingTable) :
    (∃ endpoint, node.endpoint = some endpoint ∧ Reply.Ping.Fits t ∧
      rt.handlePingQuery host m node = .ok
        (rt.sendMessage (encode (Reply.Ping.dictionary t rt.getTableNode)) endpoint)) ∨
    (¬ (node.endpoint.isSome ∧ Reply.Ping.Fits t) ∧
      ∃ fault, rt.handlePingQuery host m node = .error fault ∧ fault.isException = false) := by
  unfold handlePingQuery endpointOf
  cases node.endpoint with
  | none => exact .inr ⟨by simp, _, rfl, rfl⟩
  | some endpoint =>
    simp only [Option.isSome_some, check_true, transaction, ok_bind, true_and]
    cases made : Reply.Ping.make host t rt.getTableNode with
    | ok b =>
      obtain ⟨fits, rfl⟩ := (pingReply_make_iff host t rt.getTableNode b).mp made
      exact .inl ⟨endpoint, rfl, fits, rfl⟩
    | error fault =>
      refine .inr ⟨?_, fault, rfl, pingReply_make_noException host t rt.getTableNode fault made⟩
      intro fits
      rw [(pingReply_make_iff host t rt.getTableNode _).mpr ⟨fits, rfl⟩] at made
      cases made

/-- The first node of a list that cannot be packed. -/
def unpackable (nodes : List Node) : Option Node := nodes.find? fun n => decide (¬ n.HasV4)

theorem unpackable_eq_none (nodes : List Node) : unpackable nodes = none ↔ ∀ n ∈ nodes, n.HasV4 := by
  simp [unpackable]

theorem handleFindNodeQuery_spec (host : Host) {m : Message} {t : Buffer}
    (transaction : m.getTransactionID = .ok t) (node : Node) {rt : RoutingTable} (h : rt.Valid) :
    (∃ endpoint, node.endpoint = some endpoint ∧
      unpackable (rt.table.closest node.nodeData) = none ∧
      Reply.FindNode.Fits (rt.table.closest node.nodeData).length t ∧
      rt.handleFindNodeQuery host m node = .ok
        (rt.sendMessage (encode (Reply.FindNode.dictionary t rt.getTableNode
          (packedNodes host (rt.table.closest node.nodeData)))) endpoint)) ∨
    (node.endpoint.isSome ∧ (∃ n, unpackable (rt.table.closest node.nodeData) = some n ∧
      n.endpoint.isSome) ∧ rt.handleFindNodeQuery host m node = .error .badCast) ∨
    (¬ (node.endpoint.isSome ∧ match unpackable (rt.table.closest node.nodeData) with
        | some n => n.endpoint.isSome
        | none => Reply.FindNode.Fits (rt.table.closest node.nodeData).length t) ∧
      ∃ fault, rt.handleFindNodeQuery host m node = .error fault ∧ fault.isException = false) := by
  have few := rt.table.closest_length_le node.nodeData
  unfold handleFindNodeQuery endpointOf
  simp only [h.getClosestNodes_spec, transaction, ok_bind]
  generalize rt.table.closest node.nodeData = nodes at *
  cases node.endpoint with
  | none => exact .inr (.inr ⟨by simp, _, rfl, rfl⟩)
  | some endpoint =>
    simp only [Option.isSome_some, check_true, ok_bind, true_and]
    cases first : unpackable nodes with
    | some n =>
      right
      rw [findNodeReply_make_not_v4 host t rt.getTableNode few first]
      cases reached : n.endpoint.isSome with
      | true => exact .inl ⟨⟨n, rfl, reached⟩, rfl⟩
      | false => exact .inr ⟨by simp [reached], _, rfl, rfl⟩
    | none =>
      have v4 := (unpackable_eq_none nodes).mp first
      have outcome := findNodeReply_make_iff host t rt.getTableNode nodes v4 few
      by_cases fits : Reply.FindNode.Fits nodes.length t
      · refine .inl ⟨endpoint, rfl, rfl, fits, ?_⟩
        rw [(outcome _).mpr ⟨fits, rfl⟩, ok_bind]
      · refine .inr (.inr ⟨fits, ?_⟩)
        cases made : Reply.FindNode.make host t rt.getTableNode nodes with
        | ok b => exact absurd ((outcome b).mp made).1 fits
        | error fault =>
          exact ⟨fault, rfl,
            findNodeReply_make_noException host t rt.getTableNode nodes v4 few fault made⟩

/-- The query, if the message is one, can be handled to its end. -/
def Answerable (nodes : List Node) (node : Node) (t : Buffer) : MessageClass → Prop
  | .queryPing => node.endpoint.isSome ∧ Reply.Ping.Fits t
  | .queryFindNode => node.endpoint.isSome ∧
      match unpackable nodes with
      | some n => n.endpoint.isSome  -- the std::bad_cast of an IPv6 address is caught
      | none => Reply.FindNode.Fits nodes.length t
  | _ => True

/-- The `catch` clauses around the handlers. -/
def caught (rt : RoutingTable) (outcome : Fallible RoutingTable) : Fallible RoutingTable :=
  match outcome with
  | .error .badCast => .ok rt
  | .error (.malformed _) => .ok rt
  | outcome => outcome

theorem caught_quiet (rt : RoutingTable) {fault : Fault} (quiet : fault.isException = false) :
    caught rt (.error fault) = .error fault := by
  cases fault <;> first | rfl | cases quiet

/-- The handler is chosen by the kind of the message. -/
theorem handle_eq (host : Host) {m : Message} {kind : Message.Kind} (isKind : m.IsKind kind)
    (node : Node) (rt : RoutingTable) :
    rt.handle host (if kind = .reply then Type.Reply else Type.Query) m node =
      match kind with
      | .ping => caught rt (rt.handlePingQuery host m node)
      | .findNode => caught rt (rt.handleFindNodeQuery host m node)
      | .reply => .ok rt := by
  have otherType : Type.Reply ≠ Type.Query := by decide
  have otherName : Messages.FindNode ≠ Messages.Ping := by decide
  have class' := isKind.dynamicType
  cases kind with
  | ping =>
    have name := isKind.name (by decide)
    simp only [reduceCtorEq, if_false, if_true] at name class' ⊢
    simp only [handle, Message.bufferEq_query, decide_true, if_true, class', name, ok_bind, handleQuery,
      Message.bufferEq_ping, castTo, true_or]
    rfl
  | findNode =>
    have name := isKind.name (by decide)
    simp only [reduceCtorEq, if_false] at name class' ⊢
    simp only [handle, Message.bufferEq_query, decide_true, if_true, class', name, ok_bind, handleQuery,
      Message.bufferEq_ping, Message.bufferEq_findNode, castTo, or_true, otherName, decide_false,
      Bool.false_eq_true, if_false]
    rfl
  | reply =>
    simp only [if_true, handle, Message.bufferEq_query, otherType, decide_false, Bool.false_eq_true,
      if_false]

/-- The handlers change nothing but what `sendMessage` changes. -/
theorem handle_ok {host : Host} {m : Message} {kind : Message.Kind} (isKind : m.IsKind kind)
    {node : Node} {rt rt' : RoutingTable}
    (returned : rt.handle host (if kind = .reply then Type.Reply else Type.Query) m node = .ok rt') :
    rt' = rt ∨ ∃ b endpoint, rt' = rt.sendMessage b endpoint := by
  have send : ∀ outcome : Fallible RoutingTable,
      (∀ rt', outcome = .ok rt' → ∃ b endpoint, rt' = rt.sendMessage b endpoint) →
      caught rt outcome = .ok rt' → rt' = rt ∨ ∃ b endpoint, rt' = rt.sendMessage b endpoint := by
    intro outcome sends returned
    cases outcome with
    | ok rt'' =>
      cases returned
      exact .inr (sends rt' rfl)
    | error fault =>
      cases fault <;> cases returned <;> exact .inl rfl
  rw [handle_eq host isKind node rt] at returned
  cases kind with
  | ping =>
    refine send _ ?_ returned
    intro rt'' handled
    obtain ⟨endpoint, -, handled⟩ := bind_eq_ok.mp handled
    obtain ⟨t, -, handled⟩ := bind_eq_ok.mp handled
    obtain ⟨b, -, handled⟩ := bind_eq_ok.mp handled
    cases handled
    exact ⟨b, endpoint, rfl⟩
  | findNode =>
    refine send _ ?_ returned
    intro rt'' handled
    obtain ⟨endpoint, -, handled⟩ := bind_eq_ok.mp handled
    obtain ⟨nodes, -, handled⟩ := bind_eq_ok.mp handled
    obtain ⟨t, -, handled⟩ := bind_eq_ok.mp handled
    obtain ⟨b, -, handled⟩ := bind_eq_ok.mp handled
    cases handled
    exact ⟨b, endpoint, rfl⟩
  | reply =>
    cases returned
    exact .inl rfl

/-- Without a callback no exception leaves `recvMessage`, which returns exactly when the
query is answerable. -/
theorem handle_spec (host : Host) {m : Message} {kind : Message.Kind} (isKind : m.IsKind kind)
    {t : Buffer} (transaction : m.getTransactionID = .ok t) (node : Node) {rt : RoutingTable}
    (h : rt.Valid) :
    (Answerable (rt.table.closest node.nodeData) node t m.dynamicType ∧
      ∃ rt', rt.handle host (if kind = .reply then Type.Reply else Type.Query) m node = .ok rt') ∨
    (¬ Answerable (rt.table.closest node.nodeData) node t m.dynamicType ∧
      ∃ fault, rt.handle host (if kind = .reply then Type.Reply else Type.Query) m node =
        .error fault ∧ fault.isException = false) := by
  rw [handle_eq host isKind node rt, isKind.dynamicType]
  cases kind with
  | ping =>
    rcases rt.handlePingQuery_spec host transaction node with
      ⟨endpoint, known, fits, run⟩ | ⟨stuck, fault, run, quiet⟩
    · exact .inl ⟨⟨by rw [known]; rfl, fits⟩, _, by rw [run]; rfl⟩
    · exact .inr ⟨stuck, fault, by rw [run, caught_quiet rt quiet], quiet⟩
  | findNode =>
    rcases handleFindNodeQuery_spec host transaction node h with
      ⟨endpoint, known, packable, fits, run⟩ | ⟨known, ⟨n, first, reached⟩, run⟩ |
      ⟨stuck, fault, run, quiet⟩
    · refine .inl ⟨⟨by rw [known]; rfl, ?_⟩, _, by rw [run]; rfl⟩
      rw [packable]
      exact fits
    · refine .inl ⟨⟨known, ?_⟩, rt, by rw [run]; rfl⟩
      rw [first]
      exact reached
    · exact .inr ⟨stuck, fault, by rw [run, caught_quiet rt quiet], quiet⟩
  | reply => exact .inl ⟨trivial, rt, rfl⟩

/-! ## recvMessage -/

open Callbacks

/-- The state before the callback or the handler of a message runs. -/
theorem dispatch_spec {host : Host} (now : Int) {m : Message} {kind : Message.Kind}
    (isKind : m.IsKind kind) {t id : Buffer} {s : NodeData} (sent : Sent host m t id s) (node : Node)
    (known : Bool) {rt : RoutingTable} (h : rt.Valid) :
    (t = id ∧ ∃ pre e post rt', rt.callbacks = pre ++ e :: post ∧ Awaits t s e.2 ∧
      rt.dispatch host now (if kind = .reply then Type.Reply else Type.Query) m node known = .ok rt' ∧
      Called e.2 { rt with callbacks := pre ++ post } rt') ∨
    (¬ (t = id ∧ ∃ e ∈ rt.callbacks, Awaits t s e.2) ∧
      rt.dispatch host now (if kind = .reply then Type.Reply else Type.Query) m node known =
        rt.handle host (if kind = .reply then Type.Reply else Type.Query) m node) := by
  rcases getCallback_cases sent h.callbacks with ⟨same, pre, e, post, split, awaits, got⟩ | ⟨absent, got⟩
  · left
    have fewer : (pre ++ post).Sublist rt.callbacks := by
      rw [split]
      exact List.Sublist.append_left (List.sublist_cons_self e post) pre
    have valid : ({ rt with callbacks := pre ++ post } : RoutingTable).Valid :=
      ⟨h.table, h.callbacks.sublist fewer⟩
    obtain ⟨rt', run, effect⟩ := call_spec host now isKind node.nodeData known e.2 valid
    exact ⟨same, pre, e, post, rt', split, awaits, by simp only [dispatch, got, ok_bind, run], effect⟩
  · exact .inr ⟨absent, by simp only [dispatch, got, ok_bind]⟩

theorem recvMessage_parsed {host : Host} (now : Int) {buffer : Buffer} {bytes_transferred : Nat}
    {m : Message} (parsed : Message.parseMessage host (resize bytes_transferred buffer) = .ok (some m))
    (sender : Endpoint) (rt : RoutingTable) :
    rt.recvMessage host now false buffer bytes_transferred sender = rt.receive host now m sender := by
  simp only [recvMessage, parsed, Bool.false_eq_true, if_false]

/-- The sender of every message is dropped as stale, answered by a callback, or handled. -/
theorem receive_spec {host : Host} (now : Int) {m : Message} {kind : Message.Kind}
    (isKind : m.IsKind kind) {t id : Buffer} {s : NodeData} (sent : Sent host m t id s)
    (sender : Endpoint) {rt : RoutingTable} (h : rt.Valid) {found : Option Node}
    (search : rt.table.getNode s = .ok found) :
    (stale sender found = true ∧ rt.receive host now m sender = .ok rt) ∨
    (stale sender found = false ∧ t = id ∧ ∃ pre e post rt', rt.callbacks = pre ++ e :: post ∧
      Awaits t s e.2 ∧ rt.receive host now m sender = .ok rt' ∧
      Called e.2 { rt with callbacks := pre ++ post } rt') ∨
    (stale sender found = false ∧ ¬ (t = id ∧ ∃ e ∈ rt.callbacks, Awaits t s e.2) ∧
      rt.receive host now m sender = rt.handle host
        (if kind = .reply then Type.Reply else Type.Query) m (participant now s sender found)) := by
  rw [receive_eq now isKind.type sent sender search]
  cases stale sender found with
  | true => exact .inl ⟨rfl, rfl⟩
  | false =>
    rw [if_neg Bool.false_ne_true]
    rcases dispatch_spec now isKind sent (participant now s sender found) found.isSome h with
      ⟨same, pre, e, post, rt', split, awaits, run, effect⟩ | ⟨absent, run⟩
    · exact .inr (.inl ⟨rfl, same, pre, e, post, rt', split, awaits, run, effect⟩)
    · exact .inr (.inr ⟨rfl, absent, run⟩)

theorem participant_nodeData (now : Int) {s : NodeData} (sender : Endpoint) {found : Option Node}
    (own : ∀ node, found = some node → node.nodeData = s) :
    (participant now s sender found).nodeData = s := by
  cases found with
  | none => rfl
  | some node => exact own node rfl

/-- The id is one of 20 octets, and the message is dropped as stale, awaited by a callback
under that id, or answerable. -/
def Returns (host : Host) (now : Int) (sender : Endpoint) (m : Message) (t id : Buffer)
    (rt : RoutingTable) : Prop :=
  ∃ s found, NodeData.ofBuffer host id = .ok s ∧ rt.table.getNode s = .ok found ∧
    (stale sender found = true ∨ (t = id ∧ ∃ e ∈ rt.callbacks, Awaits t s e.2) ∨
      Answerable (rt.table.closest s) (participant now s sender found) t m.dynamicType)

theorem returns_iff {host : Host} (now : Int) (sender : Endpoint) {m : Message} {t id : Buffer}
    {s : NodeData} (decoded : NodeData.ofBuffer host id = .ok s) {rt : RoutingTable}
    {found : Option Node} (search : rt.table.getNode s = .ok found) :
    Returns host now sender m t id rt ↔
      (stale sender found = true ∨ (t = id ∧ ∃ e ∈ rt.callbacks, Awaits t s e.2) ∨
        Answerable (rt.table.closest s) (participant now s sender found) t m.dynamicType) := by
  constructor
  · rintro ⟨s', found', decoded', search', outcome⟩
    rw [decoded] at decoded'
    cases decoded'
    rw [search] at search'
    cases search'
    exact outcome
  · exact fun outcome => ⟨s, found, decoded, search, outcome⟩

/-- Exceptions leave `recvMessage` exactly when the id has not 20 octets; it returns
exactly when the id has 20 octets and the message runs into no assertion and no overrun. -/
theorem recvMessage_returns_iff (host : Host) (now : Int) {rt : RoutingTable} (valid : rt.Valid)
    (buffer : Buffer) (bytes_transferred : Nat) (sender : Endpoint) {m : Message} {t id : Buffer}
    (parsed : Message.parseMessage host (resize bytes_transferred buffer) = .ok (some m))
    (transaction : m.getTransactionID = .ok t) (peer : m.getID host = .ok id) :
    (NoException (rt.recvMessage host now false buffer bytes_transferred sender) ↔ id.length = 20) ∧
    ((∃ rt', rt.recvMessage host now false buffer bytes_transferred sender = .ok rt' ∧
        (id.length ≠ 20 → rt' = rt)) ↔
      Returns host now sender m t id rt) := by
  obtain ⟨kind, isKind⟩ := Message.parseMessage_kind parsed
  rw [recvMessage_parsed now parsed]
  by_cases length : id.length = 20
  · obtain ⟨s, decoded, -⟩ := NodeData.ofBuffer_spec host length
    have sent : Sent host m t id s := ⟨transaction, peer, decoded⟩
    obtain ⟨found, search, own⟩ := valid.getNode_spec s
    have node := participant_nodeData now sender fun n same => (own n same).2
    rw [returns_iff now sender decoded search]
    rcases receive_spec now isKind sent sender valid search with
      ⟨old, run⟩ | ⟨-, same, pre, e, post, rt', split, awaits, run, -⟩ | ⟨fresh, absent, run⟩
    · rw [run]
      exact ⟨iff_of_true (Raises.ok rt) length,
        iff_of_true ⟨rt, rfl, fun wrong => absurd length wrong⟩ (.inl old)⟩
    · rw [run]
      exact ⟨iff_of_true (Raises.ok rt') length, iff_of_true
        ⟨rt', rfl, fun wrong => absurd length wrong⟩ (.inr (.inl ⟨same, e, by simp [split], awaits⟩))⟩
    · have outcome := handle_spec host isKind transaction (participant now s sender found) valid
      rw [node, ← run] at outcome
      rcases outcome with ⟨answerable, rt', ran⟩ | ⟨stuck, fault, ran, quiet⟩
      · rw [ran]
        exact ⟨iff_of_true (Raises.ok rt') length, iff_of_true
          ⟨rt', rfl, fun wrong => absurd length wrong⟩ (.inr (.inr answerable))⟩
      · rw [ran]
        refine ⟨iff_of_true (Raises.error quiet) length, iff_of_false ?_ ?_⟩
        · rintro ⟨rt', returned, -⟩
          cases returned
        · rintro (old | present | answerable)
          · rw [fresh] at old
            cases old
          · exact absent present
          · exact stuck answerable
  · have thrown := receive_wrong_length now isKind.type peer length sender rt
    rw [thrown]
    refine ⟨iff_of_false ?_ length, iff_of_false ?_ ?_⟩
    · intro quiet
      have impossible := quiet _ rfl
      cases impossible
    · rintro ⟨rt', returned, -⟩
      cases returned
    · rintro ⟨s, found, converted, -⟩
      rw [NodeData.ofBuffer_wrong_length host length] at converted
      cases converted

/-- A ping query from an id of two octets. -/
def shortIdPing : Buffer := ascii "d1:ad2:id2:xxe1:q4:ping1:t2:aa1:y1:qe"

theorem recvMessage_shortId :
    (∃ m, Message.parseMessage Host.x86 (resize 37 shortIdPing) = .ok (some m) ∧
      m.getType = .ok Type.Query ∧ m.getTransactionID = .ok (ascii "aa") ∧
      m.getID Host.x86 = .ok (ascii "xx")) ∧
    (new NodeData.minValue).recvMessage Host.x86 0 false shortIdPing 37 ⟨.v4 1, 6881⟩ =
      .error (.invalidArgument "NodeData expects 20 byte as address") := by
  obtain ⟨m, parsed, typed, transaction, peer⟩ :
      ∃ m, Message.parseMessage Host.x86 (resize 37 shortIdPing) = .ok (some m) ∧
        m.getType = .ok Type.Query ∧ m.getTransactionID = .ok (ascii "aa") ∧
        m.getID Host.x86 = .ok (ascii "xx") := ⟨_, rfl, rfl, rfl, rfl⟩
  refine ⟨⟨m, parsed, typed, transaction, peer⟩, ?_⟩
  rw [recvMessage_parsed 0 parsed]
  exact receive_wrong_length 0 typed peer (by decide) _ _

/-- A ping query from an id of 20 octets. -/
def longIdPing : Buffer := ascii "d1:ad2:id20:abcdefghij0123456789e1:q4:ping1:t2:aa1:y1:qe"

theorem recvMessage_returns_iff_longId :
    ∃ m, Message.parseMessage Host.x86 (resize 56 longIdPing) = .ok (some m) ∧
      (NoException ((new NodeData.minValue).recvMessage Host.x86 0 false longIdPing 56 ⟨.v4 1, 6881⟩) ↔
        (ascii "abcdefghij0123456789").length = 20) ∧
      ((∃ rt', (new NodeData.minValue).recvMessage Host.x86 0 false longIdPing 56 ⟨.v4 1, 6881⟩ =
          .ok rt' ∧ ((ascii "abcdefghij0123456789").length ≠ 20 → rt' = new NodeData.minValue)) ↔
        Returns Host.x86 0 ⟨.v4 1, 6881⟩ m (ascii "aa") (ascii "abcdefghij0123456789")
          (new NodeData.minValue)) :=
  ⟨_, rfl, recvMessage_returns_iff Host.x86 0 (new_valid NodeData.minValue) longIdPing 56 ⟨.v4 1, 6881⟩
    rfl rfl rfl⟩

end RoutingTable
end TorrentSync.Source
