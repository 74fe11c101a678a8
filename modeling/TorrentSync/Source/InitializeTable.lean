import TorrentSync.Source.RoutingTableReply
import TorrentSync.Source.RoutingTableRun

/-!
# initializeTable

dht/RoutingTable_InitializeTable.cpp and `newTransaction` of dht/RoutingTable.cpp: the timer
that contacts the initial addresses a batch at a time, the closure it registers for each
reply, and the bootstrap from known servers. What a server name resolves to is an argument.
-/
namespace TorrentSync.Source

open Lib Bencode

/-- Domain and port of the known bootstrap servers. -/
def BOOTSTRAP_ADDRESSES : List (String × String) :=
  [("router.bittorrent.com", "8991"), ("router.utorrent.com", "6881"), ("dht.transmissionbt.com", "6881")]

def DHT_CLOSE_ENOUGH : Nat := 10

def INITIALIZE_PING_BATCH_SIZE : Nat := 5

/-- The endpoints `resolver.resolve` yields for a domain and a port, none on an error. -/
abbrev Resolver := String × String → List Endpoint

/-- The routing table with the data of its initialization; `timers` are the pending waits of
`initializeTable`. -/
structure InitializingTable extends RoutingTable where
  transactionId : BitVec 16
  closeNodesCount : Nat
  timers : Nat

/-- A transaction id: the low and the high octet of a counter value. -/
def transactionOctets (value : BitVec 16) : Buffer :=
  [UInt8.ofBitVec (value.setWidth 8), UInt8.ofBitVec ((value >>> 8).setWidth 8)]

namespace InitializingTable

/-- A new table with the initial addresses of previous runs and one call of `initializeTable`. -/
def start (node : NodeData) (initialAddresses : List Endpoint) (transactionId : BitVec 16)
    (closeNodesCount : Nat) : InitializingTable :=
  ⟨{ RoutingTable.new node with initialAddresses := initialAddresses }, transactionId, closeNodesCount, 1⟩

def newTransaction (st : InitializingTable) : Buffer × InitializingTable :=
  (transactionOctets st.transactionId, { st with transactionId := st.transactionId + 1 })

/-- Starts a timer. -/
def initializeTable (st : InitializingTable) : InitializingTable :=
  { st with timers := st.timers + 1 }

def bootstrap (resolve : Resolver) (st : InitializingTable) : InitializingTable :=
  if !st.initialAddresses.isEmpty then st
  else { st with initialAddresses := st.initialAddresses ++ BOOTSTRAP_ADDRESSES.flatMap resolve }

/-- The body of the loop, for an endpoint taken from the list. -/
def contact (host : Host) (endpoint : Endpoint) (st : InitializingTable) :
    Fallible InitializingTable := do
  let (transaction, st) := st.newTransaction
  let msg ← Query.FindNode.make host transaction st.getTableNode st.getTableNode
  let rt := st.registerCallback .initializeTable transaction none
  .ok { st with toRoutingTable := rt.sendMessage msg endpoint }

/-- The loop over at most so many endpoints. -/
def contactBatch (host : Host) : Nat → InitializingTable → Fallible InitializingTable
  | 0, st => .ok st
  | count + 1, st =>
      match st.initialAddresses with
      | [] => .ok st
      | endpoint :: rest => do
          let st ← contact host endpoint { st with initialAddresses := rest }
          contactBatch host count st

/-- The handler of the timer. -/
def tick (host : Host) (error : Bool) (resolve : Resolver) (st : InitializingTable) :
    Fallible InitializingTable :=
  if error then .ok st.initializeTable
  else do
    let st := if st.initialAddresses.isEmpty then st.bootstrap resolve else st
    let st ← contactBatch host INITIALIZE_PING_BATCH_SIZE st
    if st.closeNodesCount < DHT_CLOSE_ENOUGH then .ok st.initializeTable
    else .ok { st with initialAddresses := [] }

/-- What a callback is called with. A message of class `reply::FindNode` has been built from
another message, by a constructor that checks its fields. -/
structure Delivery where
  now : Int
  message : Message
  data : NodeData
  known : Bool
  built : message.dynamicType = .replyFindNode → ∃ m, Reply.FindNode.ofMessage m = .ok message

/-- A registered callback leaves the table and is called. -/
def deliver (host : Host) (index : Nat) (delivery : Delivery) (st : InitializingTable) :
    Fallible InitializingTable :=
  match st.callbacks[index]? with
  | none => .ok st
  | some e => do
      let rt := { st.toRoutingTable with callbacks := st.callbacks.eraseIdx index }
      let rt ← rt.call host delivery.now delivery.message delivery.data delivery.known e.2
      .ok { st with toRoutingTable := rt }

/-! ## Transaction ids -/

@[simp] theorem transactionOctets_length (value : BitVec 16) : (transactionOctets value).length = 2 := rfl

theorem transactionOctets_injective : Function.Injective transactionOctets := by
  intro a b same
  simp only [transactionOctets, List.cons.injEq, and_true] at same
  obtain ⟨low, high⟩ := same
  have lowBits : a.setWidth 8 = b.setWidth 8 := congrArg UInt8.toBitVec low
  have highBits : (a >>> 8).setWidth 8 = (b >>> 8).setWidth 8 := congrArg UInt8.toBitVec high
  bv_omega

/-- The ids of a number of transactions from a counter value on. -/
def transactions (counter : BitVec 16) (count : Nat) : List Buffer :=
  (List.range count).map fun i => transactionOctets (counter + BitVec.ofNat 16 i)

theorem transactions_cons (counter : BitVec 16) (count : Nat) :
    transactions counter (count + 1) =
      transactionOctets counter :: transactions (counter + 1) count := by
  have shifted : ∀ i : Nat, transactionOctets (counter + BitVec.ofNat 16 (i + 1)) =
      transactionOctets (counter + 1 + BitVec.ofNat 16 i) := by
    intro i
    congr 1
    bv_omega
  rw [transactions, List.range_succ_eq_map, List.map_cons, List.map_map, BitVec.add_zero]
  exact congrArg _ (List.map_congr_left fun i _ => shifted i)

theorem transactions_one (counter : BitVec 16) : transactions counter 1 = [transactionOctets counter] := by
  rw [transactions_cons]
  rfl

theorem transactions_add (counter : BitVec 16) (first later : Nat) :
    transactions counter (first + later) =
      transactions counter first ++ transactions (counter + BitVec.ofNat 16 first) later := by
  have shifted : ∀ i : Nat, counter + BitVec.ofNat 16 (first + i) =
      counter + BitVec.ofNat 16 first + BitVec.ofNat 16 i := by
    intro i
    bv_omega
  simp [transactions, List.range_add, Function.comp_def, shifted]

/-- 65536 ids in a row are distinct. -/
theorem transactions_nodup (counter : BitVec 16) {count : Nat} (few : count ≤ 65536) :
    (transactions counter count).Nodup := by
  refine List.Nodup.map_on ?_ List.nodup_range
  intro i inside j inside' same
  have values := transactionOctets_injective same
  rw [List.mem_range] at inside inside'
  bv_omega

end InitializingTable
end TorrentSync.Source
