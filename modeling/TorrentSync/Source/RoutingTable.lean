import TorrentSync.Source.Callback
import TorrentSync.Source.NodeTreeLookup

/-!
# RoutingTable

dht/RoutingTable.cpp, RoutingTable_RecvMessage.cpp, RoutingTable_MessageHandlers.cpp and
the reply closure of RoutingTable_InitializeTable.cpp. The clock and the datagrams are
arguments. Every node object is stored in the table at most once, so that a write
through a `NodeSPtr` changes one stored node. Logging is left out. A fault that leaves
`recvMessage` ends the program, so no state goes with it.
-/
namespace TorrentSync.Source

open Lib

/-! ## State -/

def MAX_SEND_QUEUE : Nat := 100

/-- A buffer and the address it is sent to. -/
structure Datagram where
  buffer : Buffer
  addr : Endpoint
  deriving DecidableEq, Repr

/-- The table with the arguments of all its `sendMessage` calls and the callbacks it
called, oldest first. `sending` are the sends the socket has not completed; their number
is `send_queue_counter`. -/
structure RoutingTable where
  table : NodeTree Node
  callbacks : Callbacks
  initialAddresses : List Endpoint
  sending : List Datagram
  handed : List Datagram
  called : List Callback

namespace RoutingTable

def new (node : NodeData) : RoutingTable := ⟨NodeTree.new node, [], [], [], [], []⟩

/-- `_table.getTableNode()`. -/
def getTableNode (rt : RoutingTable) : NodeData := rt.table.node

def registerCallback (func : CallbackFunction) (transactionID : Buffer) (source : Option NodeData)
    (rt : RoutingTable) : RoutingTable :=
  { rt with callbacks := rt.callbacks.registerCallback func transactionID source }

/-- A full send queue drops the message. -/
def sendMessage (buff : Buffer) (addr : Endpoint) (rt : RoutingTable) : RoutingTable :=
  { rt with
    handed := rt.handed ++ [⟨buff, addr⟩]
    sending := if rt.sending.length < MAX_SEND_QUEUE then rt.sending ++ [⟨buff, addr⟩] else rt.sending }

/-! ## Message handlers -/

/-- `*(node.getEndpoint())` after its assertion. -/
def endpointOf (node : Node) : Fallible Endpoint := do
  check node.endpoint.isSome "!!(node.getEndpoint())"
  match node.endpoint with
  | some endpoint => .ok endpoint
  | none => .error (.undefined "*(node.getEndpoint())")

def handlePingQuery (host : Host) (ping : Message) (node : Node) (rt : RoutingTable) :
    Fallible RoutingTable := do
  let endpoint ← endpointOf node
  let transactionID ← ping.getTransactionID
  let reply ← Reply.Ping.make host transactionID rt.getTableNode
  .ok (rt.sendMessage reply endpoint)

def handleFindNodeQuery (host : Host) (message : Message) (node : Node) (rt : RoutingTable) :
    Fallible RoutingTable := do
  let endpoint ← endpointOf node
  let nodes ← rt.table.getClosestNodes node.nodeData
  let transactionID ← message.getTransactionID
  let reply ← Reply.FindNode.make host transactionID rt.getTableNode nodes
  .ok (rt.sendMessage reply endpoint)

/-! ## Callbacks -/

/-- The loop of the closure over the received nodes. -/
def offerNodes (now : Int) : List Node → RoutingTable → Fallible RoutingTable
  | [], rt => .ok rt
  | t :: rest, rt => do
      let rt := match t.endpoint with
        | some endpoint => { rt with initialAddresses := endpoint :: rt.initialAddresses }
        | none => rt
      let (table, _) ← rt.table.addNode (Node.isBad now) (some t)
      offerNodes now rest { rt with table := table }

/-- The closure `initializeTable` registers, called with a message. It catches the
`std::bad_cast` of its own `dynamic_cast`. -/
def initializeTableReply (host : Host) (now : Int) (message : Message) (rt : RoutingTable) :
    Fallible RoutingTable :=
  if message.dynamicType = .replyFindNode then do
    let nodes ← Reply.FindNode.getNodes host now message
    rt.offerNodes now nodes
  else .ok rt

/-- The closure `doPing` registers. A node that is not in the table is not kept. -/
def doPingReply (now : Int) (data : NodeData) (known : Bool) (rt : RoutingTable) :
    Fallible RoutingTable :=
  if known then do
    let table ← rt.table.update (Node.setGood now) data
    .ok { rt with table := table }
  else .ok rt

def call (host : Host) (now : Int) (message : Message) (data : NodeData) (known : Bool)
    (callback : Callback) (rt : RoutingTable) : Fallible RoutingTable :=
  let rt := { rt with called := rt.called ++ [callback] }
  match callback.callback with
  | .initializeTable => rt.initializeTableReply host now message
  | .doPing => rt.doPingReply now data known

/-! ## recvMessage -/

/-- `std::dynamic_pointer_cast` to the handler's argument type; dereferencing the null
pointer of a failed cast is undefined. -/
def castTo (dynamicType : MessageClass) (message : Message) : Fallible Message :=
  if message.dynamicType = dynamicType then .ok message
  else .error (.undefined "*std::dynamic_pointer_cast(message)")

/-- The `try` block around the query handlers. -/
def handleQuery (host : Host) (msg_type : Buffer) (message : Message) (node : Node)
    (rt : RoutingTable) : Fallible RoutingTable :=
  if bufferEq host msg_type Messages.Ping then do
    let ping ← castTo .queryPing message
    rt.handlePingQuery host ping node
  else if bufferEq host msg_type Messages.FindNode then do
    let find_node ← castTo .queryFindNode message
    rt.handleFindNodeQuery host find_node node
  else .ok rt

/-- The part of `recvMessage` for a message without a callback. -/
def handle (host : Host) (type : Buffer) (message : Message) (node : Node) (rt : RoutingTable) :
    Fallible RoutingTable :=
  if bufferEq host type Type.Query then
    if message.dynamicType = .queryPing ∨ message.dynamicType = .queryFindNode then do
      let msg_type ← Query.getMessageType message
      match rt.handleQuery host msg_type message node with
      | .error .badCast => .ok rt
      | .error (.malformed _) => .ok rt
      | outcome => outcome
    else .error (.undefined "query->getMessageType()")
  else .ok rt

/-- The part of `recvMessage` that starts at `getCallback`. -/
def dispatch (host : Host) (now : Int) (type : Buffer) (message : Message) (node : Node)
    (known : Bool) (rt : RoutingTable) : Fallible RoutingTable := do
  let (callback, callbacks) ← rt.callbacks.getCallback host message
  let rt := { rt with callbacks := callbacks }
  match callback with
  | some callback => rt.call host now message node.nodeData known callback
  | none => rt.handle host type message node

/-- The part of `recvMessage` after the message has been parsed. -/
def receive (host : Host) (now : Int) (message : Message) (sender : Endpoint) (rt : RoutingTable) :
    Fallible RoutingTable := do
  let type ← message.getType
  let id ← message.getID host
  let data ← NodeData.ofBuffer host id
  let found ← rt.table.getNode data
  match found with
  | some node =>
      if node.endpoint.isSome && node.endpoint != some sender then .ok rt
      else rt.dispatch host now type message node true
  | none => do
      let node ← Node.ofBuffer host now id (some sender)
      rt.dispatch host now type message node false

def recvMessage (host : Host) (now : Int) (error : Bool) (buffer : Buffer) (bytes_transferred : Nat)
    (sender : Endpoint) (rt : RoutingTable) : Fallible RoutingTable :=
  let buffer := resize bytes_transferred buffer
  if error then .ok rt
  else
    match Message.parseMessage host buffer with
    | .error (.malformed _) => .ok rt
    | .error fault => .error fault
    | .ok none => .error (.undefined "*message")
    | .ok (some message) => rt.receive host now message sender

end RoutingTable
end TorrentSync.Source
