import TorrentSync.Source.App

/-!
# The program as its peers see it

In every run the table stays as it was made and no callback is called: callbacks are stored
under the two octets of their transaction ids and looked up by the 20 octets of a sender's id,
and nothing else adds a node. What is left is a responder without a table, which contacts the
initial addresses, answers pings and ends at some datagrams.
-/
namespace TorrentSync.Source

open Lib Bencode OrderedContainers InitializingTable

/-! ## The responder -/

/-- What becomes of a datagram. -/
inductive Reaction where
  | ignored
  | answered (reply : Buffer)
  | fatal
  deriving DecidableEq, Repr

/-- A ping is answered, or ends the program if its transaction id is empty or too long for the
reply; a find_node query ends it, for there are no nodes to list. -/
def reactionToQuery (node : NodeData) (transactionID : Buffer) : MessageClass → Reaction
  | .queryPing =>
      if Reply.Ping.Fits transactionID then .answered (encode (Reply.Ping.dictionary transactionID node))
      else .fatal
  | .queryFindNode => .fatal
  | _ => .ignored

/-- A message without a peer id of 20 octets, an error message and what the decoder cannot cope
with end the program. -/
def reaction (host : Host) (node : NodeData) (octets : Buffer) : Reaction :=
  match Message.parseMessage host octets with
  | .error (.malformed _) => .ignored
  | .error _ => .fatal
  | .ok none => .fatal
  | .ok (some m) =>
      match m.getID host with
      | .error _ => .fatal
      | .ok id =>
          if id.length ≠ NodeData.addressDataLength then .fatal
          else
            match m.getTransactionID with
            | .error _ => .ignored
            | .ok transactionID => reactionToQuery node transactionID m.dynamicType

/-- Only a ping is answered, with its transaction id. -/
theorem reaction_answered {host : Host} {node : NodeData} {octets reply : Buffer}
    (answered : reaction host node octets = .answered reply) :
    ∃ m id transactionID, Message.parseMessage host octets = .ok (some m) ∧ m.dynamicType = .queryPing ∧
      m.getID host = .ok id ∧ id.length = NodeData.addressDataLength ∧
      m.getTransactionID = .ok transactionID ∧ Reply.Ping.Fits transactionID ∧
      reply = encode (Reply.Ping.dictionary transactionID node) := by
  unfold reaction at answered
  split at answered
  · cases answered
  · cases answered
  · cases answered
  · rename_i m parsed
    split at answered
    · cases answered
    · rename_i id peer
      split at answered
      · cases answered
      · rename_i length
        split at answered
        · cases answered
        · rename_i transactionID carried
          unfold reactionToQuery at answered
          split at answered
          · rename_i ping
            split at answered
            · rename_i fits
              exact ⟨m, id, transactionID, parsed, ping, peer, not_not.mp length, carried, fits,
                (Reaction.answered.inj answered).symm⟩
            · cases answered
          · cases answered
          · cases answered

/-- What can be told about a program from outside: the addresses it is going to contact, its
transaction counter, the messages it has handed to `sendMessage`, and its signals. -/
structure Responder where
  addresses : List Endpoint
  transactionId : BitVec 16
  handed : List Datagram
  stopSignal : Bool
  stopped : Bool

namespace Responder

def start (transactionId : BitVec 16) : Responder := ⟨[], transactionId, [], true, false⟩

/-- One find_node query for the own id to each endpoint. -/
def contact (node : NodeData) (endpoints : List Endpoint) (r : Responder) : Responder :=
  { r with
    transactionId := r.transactionId + BitVec.ofNat 16 endpoints.length
    handed := r.handed ++ List.zipWith (fun t endpoint => ⟨query node t, endpoint⟩)
      (transactions r.transactionId endpoints.length) endpoints }

/-- A datagram that ends the program leaves no next state. -/
def react (sender : Endpoint) (r : Responder) : Reaction → Option Responder
  | .ignored => some r
  | .answered reply => some { r with handed := r.handed ++ [⟨reply, sender⟩] }
  | .fatal => none

def handle (host : Host) (node : NodeData) (event : AppEvent) (r : Responder) : Option Responder :=
  match event with
  | .timer true _ => some r
  | .timer false resolve =>
      let addresses := if r.addresses.isEmpty then BOOTSTRAP_ADDRESSES.flatMap resolve else r.addresses
      some ({ r with addresses := addresses.drop INITIALIZE_PING_BATCH_SIZE }.contact node
        (addresses.take INITIALIZE_PING_BATCH_SIZE))
  | .received _ true _ _ => some r
  | .received _ false octets sender => r.react sender (reaction host node (octets.take MESSAGE_BUFFER_SIZE))
  | .sent _ => some r
  | .signal error =>
      some (if r.stopSignal then { r with stopSignal := false, stopped := r.stopped || !error } else r)
  | .doPing destination =>
      destination.endpoint.map fun endpoint =>
        { r with
          transactionId := r.transactionId + 1
          handed := r.handed ++
            [⟨encode (Query.Ping.dictionary (transactionOctets r.transactionId) node), endpoint⟩] }

def step (host : Host) (node : NodeData) (event : AppEvent) (r : Responder) : Option Responder :=
  if r.stopped then some r else r.handle host node event

def run (host : Host) (node : NodeData) : List AppEvent → Responder → Option Responder
  | [], r => some r
  | event :: events, r => (r.step host node event).bind (run host node events)

end Responder

/-! ## Datagrams -/

/-- A message whose sender's id is the key of no callback finds none. -/
theorem Callbacks.getCallback_absent {host : Host} {m : Message} {id : Buffer}
    (peer : m.getID host = .ok id) {callbacks : Callbacks} (h : callbacks.Valid)
    (absent : ∀ e ∈ callbacks, e.1 ≠ id) :
    callbacks.getCallback host m = .ok (none, callbacks) := by
  obtain ⟨pre, mid, post, split, bounds, equal, -, -⟩ :=
    equalRange_split less_strictTotal id callbacks h.sorted
  have empty : mid = [] := by
    apply List.eq_nil_iff_forall_not_mem.mpr
    intro e member
    exact absent e (by simp [split, member]) (equal e member)
  have width : pre.length + mid.length - pre.length = 0 := by simp [empty]
  simp only [getCallback, peer, ok_bind, bounds, width, firstVerified]

namespace RoutingTable

/-- A table that was made and never changed, with callbacks under two octets each. -/
structure Untouched (node : NodeData) (rt : RoutingTable) : Prop where
  table : rt.table = NodeTree.new node
  callbacks : rt.callbacks.Valid
  keys : ∀ e ∈ rt.callbacks, e.1.length = 2

theorem Untouched.valid {node : NodeData} {rt : RoutingTable} (h : Untouched node rt) : rt.Valid := by
  refine ⟨⟨0, ?_⟩, h.callbacks⟩
  rw [h.table]
  exact NodeTree.new_valid node

theorem Untouched.closest {node : NodeData} {rt : RoutingTable} (h : Untouched node rt) (s : NodeData) :
    rt.table.closest s = [] := by
  apply List.eq_nil_iff_forall_not_mem.mpr
  intro n member
  have stored := NodeTree.closest_subset s rt.table n member
  rw [h.table, NodeTree.new, NodeTree.clear_nodes] at stored
  cases stored

/-- The outcome a reaction stands for. -/
def Shows (rt : RoutingTable) (sender : Endpoint) (outcome : Fallible RoutingTable) : Reaction → Prop
  | .ignored => outcome = .ok rt
  | .answered reply => outcome = .ok (rt.sendMessage reply sender)
  | .fatal => ∃ fault, outcome = .error fault

/-- A message from an unknown node goes to the handlers. -/
theorem Untouched.receive_eq {node : NodeData} {rt : RoutingTable} (h : Untouched node rt) {host : Host}
    (now : Int) {m : Message} {type id : Buffer} {s : NodeData} (typed : m.getType = .ok type)
    (peer : m.getID host = .ok id) (decoded : NodeData.ofBuffer host id = .ok s)
    (long : id.length ≠ 2) (sender : Endpoint) :
    rt.receive host now m sender = rt.handle host type m ⟨s, now, 0, some sender⟩ := by
  have search : rt.table.getNode s = .ok none := by
    rw [h.table]
    exact new_getNode node s
  have unmatched := Callbacks.getCallback_absent peer h.callbacks fun e member same =>
    long (same ▸ h.keys e member)
  simp only [receive, typed, peer, decoded, search, Node.ofBuffer, ok_bind, dispatch, unmatched]

/-- What the handlers do with a message from a node at an endpoint. -/
theorem Untouched.handle_shows {node : NodeData} {rt : RoutingTable} (h : Untouched node rt)
    (host : Host) {m : Message} {kind : Message.Kind} (isKind : m.IsKind kind) (s : NodeData)
    (now : Int) (sender : Endpoint) :
    rt.Shows sender
      (rt.handle host (if kind = .reply then Type.Reply else Type.Query) m ⟨s, now, 0, some sender⟩)
      (match m.getTransactionID with
        | .error _ => .ignored
        | .ok transactionID => reactionToQuery node transactionID m.dynamicType) := by
  have own : rt.getTableNode = node := by rw [getTableNode, h.table]; rfl
  rw [handle_eq host isKind, isKind.dynamicType]
  cases transaction : m.getTransactionID with
  | error fault =>
    obtain ⟨what, rfl⟩ : ∃ what, fault = .malformed what := by
      unfold Message.getTransactionID Message.require at transaction
      split at transaction <;> cases transaction
      exact ⟨_, rfl⟩
    cases kind with
    | ping => simp only [handlePingQuery, endpointOf, transaction, Option.isSome_some, check_true,
        ok_bind, error_bind, caught, Shows]
    | findNode => simp only [handleFindNodeQuery, endpointOf, transaction, h.valid.getClosestNodes_spec,
        Option.isSome_some, check_true, ok_bind, error_bind, caught, Shows]
    | reply => rfl
  | ok t =>
    cases kind with
    | ping =>
      simp only [reactionToQuery]
      rcases rt.handlePingQuery_spec host transaction ⟨s, now, 0, some sender⟩ with
        ⟨endpoint, known, fits, run⟩ | ⟨stuck, fault, run, quiet⟩
      · cases known
        rw [if_pos fits, run, own]
        rfl
      · rw [if_neg fun fits => stuck ⟨rfl, fits⟩, run, caught_quiet rt quiet]
        exact ⟨fault, rfl⟩
    | findNode =>
      have none := h.closest s
      rcases handleFindNodeQuery_spec host transaction ⟨s, now, 0, some sender⟩ h.valid with
        ⟨-, -, -, fits, -⟩ | ⟨-, ⟨n, first, -⟩, -⟩ | ⟨-, fault, run, quiet⟩
      · exact absurd (congrArg List.length none) fits.1
      · rw [none] at first
        cases first
      · rw [run, caught_quiet rt quiet]
        exact ⟨fault, rfl⟩
    | reply => rfl

/-- What `recvMessage` does with any datagram. -/
theorem Untouched.recvMessage_shows {node : NodeData} {rt : RoutingTable} (h : Untouched node rt)
    (host : Host) (now : Int) (buffer : Buffer) (bytes_transferred : Nat) (sender : Endpoint) :
    rt.Shows sender (rt.recvMessage host now false buffer bytes_transferred sender)
      (reaction host node (resize bytes_transferred buffer)) := by
  unfold reaction
  cases parsed : Message.parseMessage host (resize bytes_transferred buffer) with
  | error fault =>
    simp only [recvMessage, parsed, Bool.false_eq_true, if_false]
    cases fault <;> first | rfl | exact ⟨_, rfl⟩
  | ok message =>
    cases message with
    | none =>
      simp only [recvMessage, parsed, Bool.false_eq_true, if_false]
      exact ⟨_, rfl⟩
    | some m =>
      obtain ⟨kind, isKind⟩ := Message.parseMessage_kind parsed
      rw [recvMessage_parsed now parsed]
      cases peer : m.getID host with
      | error fault =>
        simp only [peer, receive, isKind.type, ok_bind, error_bind]
        exact ⟨fault, rfl⟩
      | ok id =>
        simp only [peer]
        by_cases length : id.length = NodeData.addressDataLength
        · obtain ⟨s, decoded, -⟩ := NodeData.ofBuffer_spec host length
          have long : id.length ≠ 2 := by
            rw [length]
            decide
          rw [h.receive_eq now isKind.type peer decoded long sender, if_neg (not_not.mpr length)]
          exact h.handle_shows host isKind s now sender
        · rw [if_pos length]
          exact ⟨_, receive_wrong_length now isKind.type peer length sender rt⟩

end RoutingTable
end TorrentSync.Source
