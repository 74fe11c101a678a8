import TorrentSync.Source.AppRun

/-!
# Several programs

Programs that send each other datagrams. Every message given to `sendMessage` may arrive at its
address any number of times, at any time and after any others, or never, those that a full send
queue drops included. It arrives from the endpoint of the program that sent it.
-/
namespace TorrentSync.Source

open Lib Bencode InitializingTable

/-! ## Messages -/

/-- The messages that programs send each other. -/
inductive Sent where
  | findNode
  | ping
  | pingReply
  deriving DecidableEq, Repr

/-- A message of a node, with a transaction id of two octets. -/
def Sent.buffer (node : NodeData) (value : BitVec 16) : Sent → Buffer
  | .findNode => query node (transactionOctets value)
  | .ping => encode (Query.Ping.dictionary (transactionOctets value) node)
  | .pingReply => encode (Reply.Ping.dictionary (transactionOctets value) node)

/-- The class and the type of a message. -/
def Sent.kind : Sent → Message.Kind
  | .findNode => .findNode
  | .ping => .ping
  | .pingReply => .reply

theorem transactionOctets_fits (value : BitVec 16) : Reply.Ping.Fits (transactionOctets value) := by
  refine ⟨by simp [transactionOctets], ?_⟩
  rw [string_length, transactionOctets_length]
  decide

/-- Every program reads a message as what it was sent as. -/
theorem Sent.parse_buffer (host : Host) (node : NodeData) (value : BitVec 16) (sent : Sent) :
    ∃ m, Message.parseMessage host (sent.buffer node value) = .ok (some m) ∧ m.IsKind sent.kind ∧
      m.getTransactionID = .ok (transactionOctets value) ∧ m.getID host = .ok node.write := by
  have short : (transactionOctets value).length ≤ grantedSize := by
    rw [transactionOctets_length]
    decide
  cases sent with
  | findNode =>
    obtain ⟨m, parsed, carries, named, -⟩ := Query.FindNode.parse_dictionary host node node short
    obtain ⟨kind, isKind⟩ := Message.parseMessage_kind parsed
    have asked := isKind.type_query_iff.mp carries.type
    have same := named.symm.trans (isKind.name asked)
    have other : ¬ Messages.FindNode = Messages.Ping := by decide
    cases kind with
    | ping => simp [other] at same
    | findNode => exact ⟨m, parsed, isKind, carries.transactionID, carries.id⟩
    | reply => exact absurd rfl asked
  | ping =>
    obtain ⟨m, parsed, carries, named⟩ := Query.Ping.parse_dictionary host node short
    obtain ⟨kind, isKind⟩ := Message.parseMessage_kind parsed
    have asked := isKind.type_query_iff.mp carries.type
    have same := named.symm.trans (isKind.name asked)
    have other : ¬ Messages.Ping = Messages.FindNode := by decide
    cases kind with
    | ping => exact ⟨m, parsed, isKind, carries.transactionID, carries.id⟩
    | findNode => simp [other] at same
    | reply => exact absurd rfl asked
  | pingReply =>
    obtain ⟨m, parsed, carries⟩ := Reply.Ping.parse_dictionary host node short
    obtain ⟨kind, isKind⟩ := Message.parseMessage_kind parsed
    cases isKind.type_reply_iff.mp carries.type
    exact ⟨m, parsed, isKind, carries.transactionID, carries.id⟩

/-- What a program takes a message for. -/
def Sent.ofBuffer (host : Host) (buffer : Buffer) : Option Sent :=
  match Message.parseMessage host buffer with
  | .ok (some m) =>
      match m.dynamicType with
      | .queryFindNode => some .findNode
      | .queryPing => some .ping
      | .message => some .pingReply
      | _ => none
  | _ => none

theorem Sent.ofBuffer_buffer (host : Host) (node : NodeData) (value : BitVec 16) (sent : Sent) :
    ofBuffer host (sent.buffer node value) = some sent := by
  obtain ⟨m, parsed, isKind, -⟩ := sent.parse_buffer host node value
  simp only [ofBuffer, parsed, isKind.dynamicType]
  cases sent <;> rfl

theorem Sent.buffer_short (node : NodeData) (value : BitVec 16) (sent : Sent) :
    (sent.buffer node value).length ≤ MESSAGE_BUFFER_SIZE := by
  have octets : (transactionOctets value).length = 2 := transactionOctets_length value
  have id : node.write.length = 20 := NodeData.write_length node
  have two : (Decimal.digits 2).length = 1 := by decide
  have twenty : (Decimal.digits 20).length = 2 := by decide
  cases sent <;>
    simp [Sent.buffer, query, Query.FindNode.dictionary, Query.Ping.dictionary, Reply.Ping.dictionary,
      krpc, leaf, encode, encodeEntries, string_length, octets, id, two, twenty]
  all_goals decide

/-- What becomes of a message between programs. -/
theorem Sent.reaction_buffer (host : Host) (node peer : NodeData) (value : BitVec 16) (sent : Sent) :
    reaction host node ((sent.buffer peer value).take MESSAGE_BUFFER_SIZE) =
      match sent with
      | .findNode => .fatal
      | .ping => .answered (Sent.pingReply.buffer node value)
      | .pingReply => .ignored := by
  obtain ⟨m, parsed, isKind, transaction, peerId⟩ := sent.parse_buffer host peer value
  have long : ¬ peer.write.length ≠ NodeData.addressDataLength := by
    rw [not_not, NodeData.write_length]
    rfl
  have fits := transactionOctets_fits value
  rw [List.take_of_length_le (sent.buffer_short peer value)]
  simp only [reaction, parsed, peerId, if_neg long, transaction, isKind.dynamicType]
  cases sent <;> simp only [Sent.kind, reactionToQuery, if_pos fits, Sent.buffer]

/-! ## The network -/

/-- What is chosen for a program when it starts. -/
structure Peer where
  host : Host
  node : NodeData
  counter : BitVec 16
  endpoint : Endpoint

/-- A message and the program that sent it. -/
structure Packet (ι : Type) where
  source : ι
  datagram : Datagram
  deriving DecidableEq, Repr

/-- Whether a program takes a message for this. -/
def Packet.reads {ι : Type} (host : Host) (sent : Sent) (p : Packet ι) : Bool :=
  Sent.ofBuffer host p.datagram.buffer = some sent

/-- The programs that have not ended by a fault, and every message ever given to `sendMessage`. -/
structure Network (ι : Type) where
  programs : ι → Option App
  packets : List (Packet ι)

/-- Whether an event brings no datagram. -/
def AppEvent.isLocal : AppEvent → Bool
  | .received _ error _ _ => error
  | _ => true

inductive NetworkEvent (ι : Type) where
  | handles (i : ι) (event : AppEvent)
  | deliver (packet : Nat) (i : ι) (now : Int)

/-- The packet an event delivers. -/
def NetworkEvent.packet {ι : Type} : NetworkEvent ι → Option Nat
  | .handles _ _ => none
  | .deliver packet _ _ => some packet

namespace Network

variable {ι : Type} [DecidableEq ι]

def start (peers : ι → Peer) : Network ι :=
  ⟨fun i => (App.start (peers i).node (peers i).counter).toOption, []⟩

/-- An event at one program. -/
def handle (peers : ι → Peer) (i : ι) (event : AppEvent) (net : Network ι) : Network ι :=
  match net.programs i with
  | none => net
  | some app =>
      match app.step (peers i).host event with
      | .error _ => { net with programs := Function.update net.programs i none }
      | .ok app' =>
          { programs := Function.update net.programs i (some app')
            packets := net.packets ++ (app'.handed.drop app.handed.length).map fun d => ⟨i, d⟩ }

/-- A packet arrives only at its address. -/
def step (peers : ι → Peer) (event : NetworkEvent ι) (net : Network ι) : Network ι :=
  match event with
  | .handles i event => if event.isLocal then net.handle peers i event else net
  | .deliver packet i now =>
      match net.packets[packet]? with
      | none => net
      | some p =>
          if p.datagram.addr = (peers i).endpoint then
            net.handle peers i (.received now false p.datagram.buffer (peers p.source).endpoint)
          else net

def run (peers : ι → Peer) (events : List (NetworkEvent ι)) (net : Network ι) : Network ι :=
  events.foldl (fun net event => net.step peers event) net

end Network
end TorrentSync.Source
