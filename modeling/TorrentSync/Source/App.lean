import TorrentSync.Source.InitializeTableRun

/-!
# The running program

App.cpp and the parts of dht/RoutingTable.cpp it sets going: `initializeNetwork`, which opens
the sockets and starts the first receive and the first timer, and `scheduleNextReceive`; with
them `doPing` of dht/RoutingTable_MessageHandlers.cpp. One thread runs the completion handlers
of the `io_service` one at a time. A fault in a handler leaves `run` and ends the program.
-/
namespace TorrentSync.Source

open Lib Bencode

/-- The routing table of an application with the operations its `io_service` has pending:
`receives` counts the calls of `async_receive_from` not completed, `stopSignal` says whether the
handler of the signals still waits, and `stopped` whether it has called `stop`. -/
structure App extends InitializingTable where
  isOpen : Bool
  receives : Nat
  stopSignal : Bool
  stopped : Bool

namespace InitializingTable

/-- A callback for the reply is registered before the ping is sent. -/
def doPing (host : Host) (destination : Node) (st : InitializingTable) :
    Fallible InitializingTable := do
  check destination.endpoint.isSome "!!(destination.getEndpoint())"
  let (transaction, st) := st.newTransaction
  let ping ← Query.Ping.make host transaction st.getTableNode
  let rt := st.registerCallback .doPing transaction (some destination.nodeData)
  match destination.endpoint with
  | some endpoint => .ok { st with toRoutingTable := rt.sendMessage ping endpoint }
  | none => .error (.undefined "*(destination.getEndpoint())")

end InitializingTable

namespace App

/-- The members before the body of the constructor. -/
def new (node : NodeData) (transactionId : BitVec 16) : App :=
  ⟨⟨RoutingTable.new node, transactionId, 0, 0⟩, false, 0, false, false⟩

def setupSignalHandlers (app : App) : App := { app with stopSignal := true }

def scheduleNextReceive (app : App) : App := { app with receives := app.receives + 1 }

def initializeTable (app : App) : App :=
  { app with toInitializingTable := app.toInitializingTable.initializeTable }

/-- Refuses to open the sockets twice, by a std::runtime_error. -/
def initializeNetwork (app : App) : Fallible App :=
  if app.isOpen then .error (.bencode "The Routing table network has already been initialized")
  else .ok { app with isOpen := true }.scheduleNextReceive.initializeTable

/-- The constructor of `App`. The random id of the node and the random first transaction id are
arguments. -/
def start (node : NodeData) (transactionId : BitVec 16) : Fallible App :=
  (new node transactionId).setupSignalHandlers.initializeNetwork

/-- The handler of a receive. The `Finally` object is a temporary, so that it schedules the next
receive before the message is looked at. The octets of the datagram are at the front of a buffer
of zeros, those that do not fit are lost. -/
def handleReceive (host : Host) (now : Int) (error : Bool) (octets : Buffer) (sender : Endpoint)
    (app : App) : Fallible App := do
  let app := app.scheduleNextReceive
  let received := octets.take MESSAGE_BUFFER_SIZE
  let rt ← app.recvMessage host now error (resize MESSAGE_BUFFER_SIZE received) received.length sender
  .ok { app with toRoutingTable := rt }

/-- The handler of SIGINT and SIGTERM. It is not set up again. -/
def handleSignal (error : Bool) (app : App) : App :=
  { app with stopSignal := false, stopped := app.stopped || !error }

end App

/-- The completion handlers, and calls of `doPing`. -/
inductive AppEvent where
  | timer (error : Bool) (resolve : Resolver)
  | received (now : Int) (error : Bool) (octets : Buffer) (sender : Endpoint)
  | sent (completed : Nat)
  | signal (error : Bool)
  | doPing (destination : Node)

namespace App

/-- A handler runs if its operation is pending. -/
def handle (host : Host) (event : AppEvent) (app : App) : Fallible App :=
  match event with
  | .timer error resolve => do
      let st ← app.toInitializingTable.step host (.timer error resolve)
      .ok { app with toInitializingTable := st }
  | .received now error octets sender =>
      if app.receives = 0 then .ok app
      else { app with receives := app.receives - 1 }.handleReceive host now error octets sender
  | .sent completed => .ok { app with sending := app.sending.eraseIdx completed }
  | .signal error => .ok (if app.stopSignal then app.handleSignal error else app)
  | .doPing destination => do
      let st ← app.toInitializingTable.doPing host destination
      .ok { app with toInitializingTable := st }

/-- No handler runs after `stop`. -/
def step (host : Host) (event : AppEvent) (app : App) : Fallible App :=
  if app.stopped then .ok app else app.handle host event

def run (host : Host) : List AppEvent → App → Fallible App
  | [], app => .ok app
  | event :: events, app => do
      let app ← app.step host event
      run host events app

end App
end TorrentSync.Source
