import TorrentSync.Source.BEncodeDecoder
import TorrentSync.Source.BEncodeEncoder
import TorrentSync.Source.Node

/-!
# Messages

dht/message: `Message::parseMessage` and the accessors, the query and reply classes
and their `make` functions. A message is its data map and its dynamic type; a null
`shared_ptr<Message>` is `none`.
-/
namespace TorrentSync.Source

open Lib

def Type.Query : Buffer := ascii "q"
def Type.Reply : Buffer := ascii "r"
def Type.Error : Buffer := ascii "e"

def Field.PeerID : Buffer := ascii "id"
def Field.TransactionID : Buffer := ascii "t"
def Field.Type : Buffer := ascii "y"
def Field.Reply : Buffer := ascii "r"
def Field.Query : Buffer := ascii "q"
def Field.Arguments : Buffer := ascii "a"
def Field.Target : Buffer := ascii "target"
def Field.Nodes : Buffer := ascii "nodes"

/-- `outer + "/" + inner`. -/
def Field.nested (outer inner : Buffer) : Buffer := outer ++ ascii "/" ++ inner

def Messages.Ping : Buffer := ascii "ping"
def Messages.FindNode : Buffer := ascii "find_node"

/-- The classes a message object can belong to. -/
inductive MessageClass where
  | message | queryPing | queryFindNode | replyPing | replyFindNode
  deriving DecidableEq, Repr

structure Message where
  dynamicType : MessageClass
  data : DataMap

namespace Message

def find (key : Buffer) (m : Message) : Option Buffer := m.data.find key

/-- A field that has to be present. -/
def require (key : Buffer) (what : String) (m : Message) : Fallible Buffer :=
  match m.find key with
  | some value => .ok value
  | none => .error (.malformed what)

def getType (m : Message) : Fallible Buffer := m.require Field.Type "Couldn't find message type"

def getTransactionID (m : Message) : Fallible Buffer :=
  m.require Field.TransactionID "Couldn't find token"

def getID (host : Host) (m : Message) : Fallible Buffer := do
  let type ← m.getType
  let path := Field.nested (if bufferEq host type Type.Reply then Field.Reply else Field.Arguments)
    Field.PeerID
  m.require path "Couldn't find peer id"

end Message

/-! ## Queries and replies -/

namespace Query

/-- `Query::getMessageType`, found under the name `Type::Query`. -/
def getMessageType (m : Message) : Fallible Buffer := m.require Type.Query "Couldn't find message type"

namespace Ping

/-- The constructor from a data map. -/
def ofDataMap (dataMap : DataMap) : Fallible Message :=
  if (dataMap.find (Field.nested Field.Arguments Field.PeerID)).isNone then
    .error (.malformed "Missing Peer ID in Ping Reply")
  else .ok ⟨.queryPing, dataMap⟩

def make (host : Host) (transactionID : Buffer) (source : NodeData) : Fallible Buffer := do
  let enc ← BEncodeEncoder.new.startDictionary
  let enc ← enc.addElement Field.Arguments
  let enc ← enc.startDictionary
  let enc ← enc.addDictionaryElement (charValue host) Field.PeerID source.write
  let enc ← enc.endDictionary
  let enc ← enc.addDictionaryElement (charValue host) Field.Query Messages.Ping
  let enc ← enc.addDictionaryElement (charValue host) Field.TransactionID transactionID
  let enc ← enc.addDictionaryElement (charValue host) Field.Type Type.Query
  let enc ← enc.endDictionary
  .ok enc.value.1

end Ping

namespace FindNode

def ofDataMap (dataMap : DataMap) : Fallible Message :=
  if (dataMap.find (Field.nested Field.Arguments Field.Target)).isNone then
    .error (.malformed "Couldn't find Target")
  else .ok ⟨.queryFindNode, dataMap⟩

def make (host : Host) (transactionID : Buffer) (source target : NodeData) : Fallible Buffer := do
  let enc ← BEncodeEncoder.new.startDictionary
  let enc ← enc.addElement Field.Arguments
  let enc ← enc.startDictionary
  let enc ← enc.addDictionaryElement (charValue host) Field.PeerID source.write
  let enc ← enc.addDictionaryElement (charValue host) Field.Target target.write
  let enc ← enc.endDictionary
  let enc ← enc.addDictionaryElement (charValue host) Field.Query Messages.FindNode
  let enc ← enc.addDictionaryElement (charValue host) Field.TransactionID transactionID
  let enc ← enc.addDictionaryElement (charValue host) Field.Type Type.Query
  let enc ← enc.endDictionary
  .ok enc.value.1

def getTarget (m : Message) : Fallible Buffer :=
  match m.find (Field.nested Field.Arguments Field.Target) with
  | some token => .ok token
  | none => .error (.assertion "!!token")

end FindNode
end Query

namespace Reply

namespace Ping

/-- The constructors from a message; `check` runs on the copied data map. -/
def ofMessage (m : Message) : Fallible Message :=
  if (m.find (Field.nested Field.Reply Field.PeerID)).isNone then
    .error (.malformed "Missing Peer ID in Ping Reply")
  else .ok ⟨.replyPing, m.data⟩

def make (host : Host) (transactionID : Buffer) (source : NodeData) : Fallible Buffer := do
  let enc ← BEncodeEncoder.new.startDictionary
  let enc ← enc.addElement Field.Reply
  let enc ← enc.startDictionary
  let enc ← enc.addDictionaryElement (charValue host) Field.PeerID source.write
  let enc ← enc.endDictionary
  let enc ← enc.addDictionaryElement (charValue host) Field.TransactionID transactionID
  let enc ← enc.addDictionaryElement (charValue host) Field.Type Type.Reply
  let enc ← enc.endDictionary
  .ok enc.value.1

end Ping

namespace FindNode

def ofMessage (m : Message) : Fallible Message :=
  if (m.find (Field.nested Field.Reply Field.PeerID)).isNone then
    .error (.malformed "Missing nodes in find_node reply")
  else if (m.find (Field.nested Field.Reply Field.Nodes)).isNone then
    .error (.malformed "Missing nodes in find_node reply")
  else .ok ⟨.replyFindNode, m.data⟩

/-- The loop of `make` over the yielded nodes. -/
def packNodes (host : Host) : List Node → Buffer → Nat → Fallible (Buffer × Nat)
  | [], nodeData, bufferIndex => .ok (nodeData, bufferIndex)
  | it :: rest, nodeData, bufferIndex => do
      let data ← it.getPackedNode host
      check (bufferIndex + data.length ≤ nodeData.length)
        "bufferIndex + data.size() <= nodeData.size()"
      packNodes host rest
        (nodeData.take bufferIndex ++ data ++ nodeData.drop (bufferIndex + data.length))
        (bufferIndex + PACKED_NODE_SIZE)

/-- `make` for the list of nodes that `yield` returns one after the other. -/
def make (host : Host) (transactionID : Buffer) (source : NodeData) (nodes : List Node) :
    Fallible Buffer := do
  let (nodeData, bufferIndex) ←
    packNodes host nodes (List.replicate (PACKED_NODE_SIZE * DHT_FIND_NODE_COUNT) 0) 0
  let nodeData := resize bufferIndex nodeData
  let enc ← BEncodeEncoder.new.startDictionary
  let enc ← enc.addElement Field.Reply
  let enc ← enc.startDictionary
  let enc ← enc.addDictionaryElement (charValue host) Field.PeerID source.write
  let enc ← enc.addDictionaryElement (charValue host) Field.Nodes nodeData
  let enc ← enc.endDictionary
  let enc ← enc.addDictionaryElement (charValue host) Field.TransactionID transactionID
  let enc ← enc.addDictionaryElement (charValue host) Field.Type Type.Reply
  let enc ← enc.endDictionary
  .ok enc.value.1

/-- The loop of `getNodes`, which runs once for each whole packed node. -/
def readNodes (host : Host) (now : Int) : Nat → Buffer → Fallible (List Node)
  | 0, _ => .ok []
  | count + 1, buff => do
      let node ← Node.ofRange host now (buff.take PACKED_NODE_SIZE)
      let rest ← readNodes host now count (buff.drop PACKED_NODE_SIZE)
      .ok (node :: rest)

def getNodes (host : Host) (now : Int) (m : Message) : Fallible (List Node) :=
  match m.find (Field.nested Field.Reply Field.Nodes) with
  | some buff => readNodes host now (buff.length / PACKED_NODE_SIZE) buff
  | none => .error (.assertion "!!token")

end FindNode
end Reply

/-! ## Parsing -/

namespace Message

/-- What `parseMessage` does with the decoded fields. -/
def ofFields (host : Host) (data : DataMap) : Fallible (Option Message) :=
  match data.find Field.Type with
  | none => .error (.malformed "Couldn't find message type")
  | some type =>
      if bufferEq host type Type.Query then
        match data.find Field.Query with
        | none => .error (.malformed "Couldn't find message name")
        | some msgType =>
            if bufferEq host msgType Messages.Ping then do
              let message ← Query.Ping.ofDataMap data
              .ok (some message)
            else if bufferEq host msgType Messages.FindNode then do
              let message ← Query.FindNode.ofDataMap data
              .ok (some message)
            else .error (.malformed "Unknown message name")
      else if bufferEq host type Type.Reply then .ok (some ⟨.message, data⟩)
      else do
        check (bufferEq host type Type.Error) "*type == Type::Error"
        .ok none

def parseMessage (host : Host) (buffer : Buffer) : Fallible (Option Message) :=
  match BEncodeDecoder.parseMessage host (Istream.ofBuffer buffer) with
  | .ok (data, _) => ofFields host data
  | .error (.bencode what) => .error (.malformed ("Couldn't parse message: " ++ what))
  | .error fault => .error fault

end Message
end TorrentSync.Source
