import TorrentSync.Source.NodeTreeAging
import TorrentSync.Source.RoutingTableRun

/-!
# What datagrams cannot change

`recvMessage` over runs, from a table with any nodes in it. No datagram adds or removes a node,
changes an id or an endpoint, or reaches the list of initial addresses: a node's unanswered
queries and the time it was last good are all that changes. Each datagram is answered by one
message at most, which goes back to where the datagram came from.
-/
namespace TorrentSync.Source.RoutingTable

open Lib

/-- The ids and endpoints of the stored nodes, bucket after bucket. -/
def known (rt : RoutingTable) : List (NodeData × Option Endpoint) :=
  rt.table.nodes.map fun n => (n.nodeData, n.endpoint)

/-- The sender of a datagram that arrives. -/
def senderOf : RoutingTableEvent → Option Endpoint
  | .recvMessage _ false _ _ sender => some sender
  | _ => none

/-- Between the two states messages went to some of the senders, in order, at most one to each. -/
structure Framed (senders : List Endpoint) (rt rt' : RoutingTable) : Prop where
  valid : rt'.Valid
  known : rt'.known = rt.known
  node : rt'.getTableNode = rt.getTableNode
  initialAddresses : rt'.initialAddresses = rt.initialAddresses
  replies : ∃ replies, rt'.handed = rt.handed ++ replies ∧ (replies.map Datagram.addr).Sublist senders

theorem Framed.refl (senders : List Endpoint) {rt : RoutingTable} (h : rt.Valid) : Framed senders rt rt :=
  ⟨h, rfl, rfl, rfl, [], (List.append_nil _).symm, List.nil_sublist _⟩

theorem Framed.trans {first later : List Endpoint} {rt rt₁ rt' : RoutingTable} (h : Framed first rt rt₁)
    (h' : Framed later rt₁ rt') : Framed (first ++ later) rt rt' := by
  obtain ⟨replies, handed, addressed⟩ := h.replies
  obtain ⟨replies', handed', addressed'⟩ := h'.replies
  refine ⟨h'.valid, h'.known.trans h.known, h'.node.trans h.node,
    h'.initialAddresses.trans h.initialAddresses, replies ++ replies', ?_, ?_⟩
  · rw [handed', handed, List.append_assoc]
  · rw [List.map_append]
    exact addressed.append addressed'

section Received

variable {rt rt' : RoutingTable} {sender : Endpoint}

/-- Calling a callback. -/
theorem call_framed {host : Host} {now : Int} {m : Message} {kind : Message.Kind} (isKind : m.IsKind kind)
    {s : NodeData} {stored : Bool} {callback : Callback} (h : rt.Valid)
    (returned : rt.call host now m s stored callback = .ok rt') : Framed [sender] rt rt' := by
  obtain ⟨rt₁, run, effect⟩ := call_spec host now isKind s stored callback h
  rw [returned] at run
  cases run
  have table : rt'.known = rt.known ∧ rt'.getTableNode = rt.getTableNode := by
    cases registered : callback.callback with
    | initializeTable =>
      rw [call_initializeTable now isKind s stored registered rt] at returned
      cases returned
      exact ⟨rfl, rfl⟩
    | doPing =>
      cases stored with
      | false =>
        simp only [call, registered, doPingReply, Bool.false_eq_true, if_false] at returned
        cases returned
        exact ⟨rfl, rfl⟩
      | true =>
        obtain ⟨d, tree⟩ := h.table
        obtain ⟨pre, b, post, b', parts, updated, -, -, -, contents⟩ :=
          tree.update_parts (Node.setGood now) (fun _ => rfl) s
        simp only [call, registered, doPingReply, if_true, updated, ok_bind] at returned
        cases returned
        refine ⟨?_, rfl⟩
        simp only [known, NodeTree.nodes, parts, List.flatMap_append, List.flatMap_cons, List.map_append,
          contents]
        rw [updateFirst_map (fun n : Node => (n.nodeData, n.endpoint)) (Node.setGood now) fun _ => rfl]
  exact ⟨effect.valid, table.1, table.2, effect.initialAddresses, [],
    by rw [effect.handed, List.append_nil], List.nil_sublist _⟩

/-- A message without a callback is answered to the endpoint of its node, or not at all. -/
theorem handle_framed {host : Host} {m : Message} {kind : Message.Kind} (isKind : m.IsKind kind)
    {node : Node} (reached : ∀ endpoint, node.endpoint = some endpoint → endpoint = sender) (h : rt.Valid)
    (returned : rt.handle host (if kind = .reply then Type.Reply else Type.Query) m node = .ok rt') :
    Framed [sender] rt rt' := by
  have sends : ∀ buffer endpoint, endpointOf node = .ok endpoint →
      Framed [sender] rt (rt.sendMessage buffer endpoint) := by
    intro buffer endpoint known
    have same : endpoint = sender := by
      refine reached endpoint ?_
      unfold endpointOf at known
      cases stored : node.endpoint with
      | none => simp [stored] at known
      | some e => simpa [stored] using known
    exact ⟨⟨h.table, h.callbacks⟩, rfl, rfl, rfl, [⟨buffer, endpoint⟩], rfl, by simp [same]⟩
  have settles : ∀ outcome, (∀ rt₁, outcome = .ok rt₁ → Framed [sender] rt rt₁) →
      caught rt outcome = .ok rt' → Framed [sender] rt rt' := by
    intro outcome handled done
    unfold caught at done
    split at done
    · cases done
      exact .refl _ h
    · cases done
      exact .refl _ h
    · exact handled rt' done
  rw [handle_eq host isKind node rt] at returned
  cases kind with
  | ping =>
    refine settles _ (fun rt₁ handled => ?_) returned
    obtain ⟨endpoint, known, handled⟩ := bind_eq_ok.mp handled
    obtain ⟨t, -, handled⟩ := bind_eq_ok.mp handled
    obtain ⟨buffer, -, handled⟩ := bind_eq_ok.mp handled
    cases handled
    exact sends buffer endpoint known
  | findNode =>
    refine settles _ (fun rt₁ handled => ?_) returned
    obtain ⟨endpoint, known, handled⟩ := bind_eq_ok.mp handled
    obtain ⟨nodes, -, handled⟩ := bind_eq_ok.mp handled
    obtain ⟨t, -, handled⟩ := bind_eq_ok.mp handled
    obtain ⟨buffer, -, handled⟩ := bind_eq_ok.mp handled
    cases handled
    exact sends buffer endpoint known
  | reply =>
    cases returned
    exact .refl _ h

theorem dispatch_framed {host : Host} {now : Int} {m : Message} {kind : Message.Kind}
    (isKind : m.IsKind kind) {node : Node} {stored : Bool}
    (reached : ∀ endpoint, node.endpoint = some endpoint → endpoint = sender) (h : rt.Valid)
    (returned : rt.dispatch host now (if kind = .reply then Type.Reply else Type.Query) m node stored =
      .ok rt') : Framed [sender] rt rt' := by
  obtain ⟨⟨callback, callbacks⟩, got, returned⟩ := bind_eq_ok.mp returned
  rcases Callbacks.getCallback_ok got with ⟨rfl, rfl⟩ | ⟨pre, e, post, split, rfl, rfl⟩
  · exact handle_framed isKind reached h returned
  · have fewer : (pre ++ post).Sublist rt.callbacks := by
      rw [split]
      exact List.Sublist.append_left (List.sublist_cons_self e post) pre
    have valid : ({ rt with callbacks := pre ++ post } : RoutingTable).Valid :=
      ⟨h.table, h.callbacks.sublist fewer⟩
    exact { call_framed isKind valid returned with }

theorem receive_framed {host : Host} {now : Int} {m : Message} {kind : Message.Kind}
    (isKind : m.IsKind kind) (h : rt.Valid) (returned : rt.receive host now m sender = .ok rt') :
    Framed [sender] rt rt' := by
  obtain ⟨type, typed, returned⟩ := bind_eq_ok.mp returned
  rw [isKind.type] at typed
  cases typed
  obtain ⟨id, -, returned⟩ := bind_eq_ok.mp returned
  obtain ⟨s, -, returned⟩ := bind_eq_ok.mp returned
  obtain ⟨found, -, returned⟩ := bind_eq_ok.mp returned
  cases found with
  | none =>
    obtain ⟨node, made, returned⟩ := bind_eq_ok.mp returned
    refine dispatch_framed isKind (fun endpoint known => ?_) h returned
    obtain ⟨data, -, made⟩ := bind_eq_ok.mp made
    cases made
    exact (Option.some.inj known).symm
  | some node =>
    simp only at returned
    split at returned
    · cases returned
      exact .refl _ h
    · rename_i fresh
      refine dispatch_framed isKind (fun endpoint known => ?_) h returned
      simpa [known] using fresh

end Received

theorem step_framed {host : Host} {event : RoutingTableEvent} {rt rt' : RoutingTable} (h : rt.Valid)
    (stepped : rt.step host event = .ok rt') : Framed (senderOf event).toList rt rt' := by
  cases event with
  | registerCallback func transactionID source =>
    cases stepped
    exact ⟨⟨h.table, h.callbacks.registerCallback func transactionID source⟩, rfl, rfl, rfl, [],
      (List.append_nil _).symm, List.nil_sublist _⟩
  | recvMessage now error buffer bytes_transferred sender =>
    cases error with
    | true =>
      cases stepped
      exact .refl _ h
    | false =>
      cases parsed : Message.parseMessage host (resize bytes_transferred buffer) with
      | error fault =>
        simp only [step, recvMessage, parsed, Bool.false_eq_true, if_false] at stepped
        cases fault <;> cases stepped
        exact .refl _ h
      | ok message =>
        cases message with
        | none => simp [step, recvMessage, parsed] at stepped
        | some m =>
          obtain ⟨kind, isKind⟩ := Message.parseMessage_kind parsed
          rw [step, recvMessage_parsed now parsed] at stepped
          exact receive_framed isKind h stepped
  | sent completed =>
    cases stepped
    exact ⟨⟨h.table, h.callbacks⟩, rfl, rfl, rfl, [], (List.append_nil _).symm, List.nil_sublist _⟩

/-- In every run from every valid table the nodes, their endpoints and the initial addresses
stay, and messages go to senders of datagrams only, at most one for each datagram. -/
theorem run_framed (host : Host) (events : List RoutingTableEvent) {rt rt' : RoutingTable} (h : rt.Valid)
    (reached : run host events rt = .ok rt') : Framed (events.filterMap senderOf) rt rt' := by
  induction events generalizing rt with
  | nil =>
    cases reached
    exact .refl _ h
  | cons event events ih =>
    obtain ⟨rt₁, stepped, reached⟩ := bind_eq_ok.mp reached
    have first := step_framed h stepped
    have whole := first.trans (ih first.valid reached)
    cases sender : senderOf event with
    | none => rwa [List.filterMap_cons_none sender, ← List.nil_append (events.filterMap senderOf), ←
        Option.toList_none, ← sender]
    | some endpoint =>
      rw [List.filterMap_cons_some sender]
      rwa [sender] at whole

/-- A ping to a table that awaits a reply. -/
theorem run_framed_ping :
    ∃ rt', run Host.x86 [.registerCallback .doPing (ascii "aa") none,
          .recvMessage 0 false longIdPing 56 ⟨.v4 1, 6881⟩, .sent 0] (new NodeData.minValue) = .ok rt' ∧
      Framed [⟨.v4 1, 6881⟩] (new NodeData.minValue) rt' := by
  have returns : (run Host.x86 [.registerCallback .doPing (ascii "aa") none,
      .recvMessage 0 false longIdPing 56 ⟨.v4 1, 6881⟩, .sent 0] (new NodeData.minValue)).toOption.isSome =
        true := by
    decide +kernel
  cases reached : run Host.x86 [.registerCallback .doPing (ascii "aa") none,
      .recvMessage 0 false longIdPing 56 ⟨.v4 1, 6881⟩, .sent 0] (new NodeData.minValue) with
  | error fault =>
    rw [reached] at returns
    cases returns
  | ok rt' => exact ⟨rt', rfl, run_framed Host.x86 _ (new_valid NodeData.minValue) reached⟩

end TorrentSync.Source.RoutingTable
