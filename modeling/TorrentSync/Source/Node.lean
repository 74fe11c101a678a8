import TorrentSync.Source.NodeBucket
import TorrentSync.Source.NodeDataCodec

/-!
# Node

dht/Node.cpp: an identifier with an endpoint and the time it was last good. The
clock is an argument. `ntohl` and `htonl` are applied where the source applies them,
to an address read as a big-endian number.
-/
namespace TorrentSync.Source

open Lib

/-- `boost::asio::ip::address`; an IPv4 address by its `to_ulong` value. -/
inductive IpAddress where
  | v4 (address : BitVec 32)
  | v6 (octets : Buffer) (scopeId : Nat)
  deriving DecidableEq, Repr

/-- `boost::asio::ip::udp::endpoint`. -/
structure Endpoint where
  address : IpAddress
  port : BitVec 16
  deriving DecidableEq, Repr

/-- `address::to_v4`. -/
def IpAddress.toV4 : IpAddress → Fallible (BitVec 32)
  | .v4 address => .ok address
  | .v6 _ _ => .error .badCast

def PACKED_NODE_SIZE : Nat := 26

def PEERDATALENGTH : Nat := 6

structure Node where
  nodeData : NodeData
  lastTimeGood : Int
  lastUnansweredQueries : Nat
  endpoint : Option Endpoint
  deriving DecidableEq, Repr

instance : IsNode Node := ⟨Node.nodeData⟩

namespace Node

def goodInterval : Int := 15 * 60

def allowedUnansweredQueries : Nat := 10

def setGood (now : Int) (n : Node) : Node := { n with lastTimeGood := now, lastUnansweredQueries := 0 }

def isGood (now : Int) (n : Node) : Bool := n.lastTimeGood > now - goodInterval

def isBad (now : Int) (n : Node) : Bool :=
  !n.isGood now && n.lastUnansweredQueries > allowedUnansweredQueries

/-- The constructor from an identifier's octets and an endpoint. -/
def ofBuffer (host : Host) (now : Int) (data : Buffer) (endpoint : Option Endpoint) :
    Fallible Node := do
  let nodeData ← NodeData.ofBuffer host data
  .ok ⟨nodeData, now, 0, endpoint⟩

/-- The loop `address <<= 8; address += *begin++` over an uninitialised word. -/
def readAddress (host : Host) (octets : Buffer) : BitVec 32 :=
  octets.foldl (fun (address : BitVec 32) (b : UInt8) => address <<< 8 + b.toBitVec.setWidth 32)
    host.uninitAddress

def readPort (octets : Buffer) : BitVec 16 :=
  octets.foldl (fun (port : BitVec 16) (b : UInt8) => port <<< 8 + b.toBitVec.setWidth 16) 0

/-- `read` on the range `[begin, end)`. A range that ends right after the identifier
passes the length check and is read past its end. -/
def read (host : Host) (range : Buffer) (n : Node) : Fallible Node := do
  let nodeData ← NodeData.read range
  let range := range.drop NodeData.addressDataLength
  if range.length > 0 && range.length < PEERDATALENGTH then
    .error (.invalidArgument "Not enough data to parse Peer contact information")
  else if range.length < PEERDATALENGTH then .error (.undefined "*begin at or past end")
  else
    let new_address := ntohl host (readAddress host (range.take 4))
    let port := readPort ((range.drop 4).take 2)
    .ok { n with nodeData := nodeData, endpoint := some ⟨.v4 new_address, ntohs host port⟩ }

/-- The constructor from a range of octets; its identifier is not set before `read`. -/
def ofRange (host : Host) (now : Int) (range : Buffer) : Fallible Node :=
  read host range ⟨NodeData.minValue, now, 0, none⟩

def getPackedNode (host : Host) (n : Node) : Fallible Buffer := do
  check n.endpoint.isSome "!!_endpoint"
  match n.endpoint with
  | none => .error (.undefined "*_endpoint")
  | some endpoint => do
    let address ← endpoint.address.toV4
    let networkOrderAddress := htonl host address
    let portNetworkOrder := htons host endpoint.port
    .ok (n.nodeData.write ++
      [BigEndian.lowByte (networkOrderAddress >>> 24), BigEndian.lowByte (networkOrderAddress >>> 16),
       BigEndian.lowByte (networkOrderAddress >>> 8), BigEndian.lowByte networkOrderAddress,
       BigEndian.lowByte (portNetworkOrder >>> 8), BigEndian.lowByte portNetworkOrder])

/-! ## The packed form -/

theorem lowByte_shift {w : Nat} (p : BitVec w) (k : Nat) :
    BigEndian.lowByte (p >>> k) = UInt8.ofNat (p.toNat / 2 ^ k) := by
  apply UInt8.toNat_inj.mp
  rw [BigEndian.lowByte_toNat, BitVec.toNat_ushiftRight, Nat.shiftRight_eq_div_pow]
  simp

private theorem lowByte_eq {w : Nat} (p : BitVec w) : BigEndian.lowByte p = UInt8.ofNat p.toNat := by
  simpa using lowByte_shift p 0

/-- The octets `getPackedNode` appends to the identifier. -/
def packedEndpoint (host : Host) (address : BitVec 32) (port : BitVec 16) : Buffer :=
  BigEndian.bytes 4 (htonl host address).toNat ++ BigEndian.bytes 2 (htons host port).toNat

@[simp] theorem packedEndpoint_length (host : Host) (address : BitVec 32) (port : BitVec 16) :
    (packedEndpoint host address port).length = 6 := by
  simp [packedEndpoint]

theorem getPackedNode_v4 (host : Host) {n : Node} {address : BitVec 32} {port : BitVec 16}
    (v4 : n.endpoint = some ⟨.v4 address, port⟩) :
    n.getPackedNode host = .ok (n.nodeData.write ++ packedEndpoint host address port) := by
  simp only [getPackedNode, v4, Option.isSome_some, check_true, IpAddress.toV4, ok_bind,
    lowByte_shift, packedEndpoint]
  simp [BigEndian.bytes, lowByte_eq]

/-- A node without an IPv4 endpoint has no packed form: without an endpoint an assertion
fails, and the conversion of an IPv6 address throws. -/
theorem getPackedNode_not_v4 (host : Host) {n : Node}
    (other : ∀ address port, n.endpoint ≠ some ⟨.v4 address, port⟩) :
    n.getPackedNode host =
      .error (if n.endpoint.isSome then .badCast else .assertion "!!_endpoint") := by
  unfold getPackedNode
  cases endpoint : n.endpoint with
  | none => rfl
  | some e =>
    obtain ⟨address, port⟩ := e
    cases address with
    | v4 address => exact absurd endpoint (other address port)
    | v6 octets scopeId => rfl

private theorem foldl_shift_add_toNat {w : Nat} (wide : 8 ≤ w) (acc : BitVec w) (octets : Buffer) :
    (octets.foldl (fun (a : BitVec w) (b : UInt8) => a <<< 8 + b.toBitVec.setWidth w) acc).toNat =
      BigEndian.valueFrom acc.toNat octets % 2 ^ w := by
  induction octets generalizing acc with
  | nil => exact (Nat.mod_eq_of_lt acc.isLt).symm
  | cons b octets ih =>
    have octet : b.toNat % 2 ^ w = b.toNat :=
      Nat.mod_eq_of_lt (lt_of_lt_of_le b.toNat_lt (Nat.pow_le_pow_right (by decide) wide))
    have next : (acc <<< 8 + b.toBitVec.setWidth w).toNat = (acc.toNat * 256 + b.toNat) % 2 ^ w := by
      rw [BitVec.toNat_add, BitVec.toNat_shiftLeft, BitVec.toNat_setWidth, UInt8.toNat_toBitVec,
        octet, Nat.shiftLeft_eq, Nat.mod_add_mod]
    rw [List.foldl_cons, ih, next, BigEndian.valueFrom_cons, BigEndian.valueFrom_eq,
      BigEndian.valueFrom_eq (acc.toNat * 256 + b.toNat), Nat.add_mod, Nat.mod_mul_mod, ← Nat.add_mod]

/-- Four octets replace all of the uninitialised word. -/
theorem readAddress_toNat (host : Host) (octets : Buffer) (length : octets.length = 4) :
    (readAddress host octets).toNat = BigEndian.value octets := by
  have small := BigEndian.value_lt octets
  rw [length] at small
  rw [readAddress, foldl_shift_add_toNat (by decide), BigEndian.valueFrom_eq, length]
  omega

theorem readPort_toNat (octets : Buffer) (length : octets.length = 2) :
    (readPort octets).toNat = BigEndian.value octets := by
  have small := BigEndian.value_lt octets
  rw [length] at small
  rw [readPort, foldl_shift_add_toNat (by decide), BigEndian.valueFrom_eq, length]
  simp only [BitVec.ofNat_eq_ofNat, BitVec.toNat_ofNat]
  omega

/-- The identifier, address and port that 26 octets stand for, whatever the node held before. -/
theorem read_spec (host : Host) (range : Buffer) (n : Node) (length : range.length = 26) :
    ∃ data address port,
      read host range n = .ok { n with nodeData := data, endpoint := some ⟨.v4 address, port⟩ } ∧
      data.write ++ packedEndpoint host address port = range := by
  have split : range = range.take 20 ++ ((range.drop 20).take 4 ++ ((range.drop 20).drop 4).take 2) := by
    have last : ((range.drop 20).drop 4).take 2 = (range.drop 20).drop 4 :=
      List.take_of_length_le (by simp [length])
    rw [last, List.take_append_drop, List.take_append_drop]
  obtain ⟨data, read, written⟩ := NodeData.read_append (b := range.take 20) (by simp [length])
    (range.drop 20)
  rw [List.take_append_drop] at read
  have address := readAddress_toNat host ((range.drop 20).take 4) (by simp [length])
  have port := readPort_toNat (((range.drop 20).drop 4).take 2) (by simp [length])
  have rest : (range.drop 20).length = 6 := by simp [length]
  refine ⟨data, ntohl host (readAddress host ((range.drop 20).take 4)),
    ntohs host (readPort (((range.drop 20).drop 4).take 2)), ?_, ?_⟩
  · simp only [Node.read, read, ok_bind, NodeData.addressDataLength, PEERDATALENGTH, rest]
    rfl
  · rw [packedEndpoint, htonl_ntohl, htons_ntohs, address, port,
      BigEndian.bytes_value_of_length 4 _ (by simp [length]),
      BigEndian.bytes_value_of_length 2 _ (by simp [length]), written]
    exact split.symm

theorem ofRange_spec (host : Host) (now : Int) (range : Buffer) (length : range.length = 26) :
    ∃ data address port, ofRange host now range = .ok ⟨data, now, 0, some ⟨.v4 address, port⟩⟩ ∧
      data.write ++ packedEndpoint host address port = range :=
  read_spec host range ⟨NodeData.minValue, now, 0, none⟩ length

theorem packedEndpoint_injective (host : Host) {a a' : BitVec 32} {p p' : BitVec 16}
    (same : packedEndpoint host a p = packedEndpoint host a' p') : a = a' ∧ p = p' := by
  obtain ⟨addresses, ports⟩ := List.append_inj same (by simp)
  have address := congrArg BigEndian.value addresses
  have port := congrArg BigEndian.value ports
  rw [BigEndian.value_bytes, BigEndian.value_bytes] at address port
  have left := (htonl host a).isLt
  have right := (htonl host a').isLt
  have left' := (htons host p).isLt
  have right' := (htons host p').isLt
  have sameAddress : htonl host a = htonl host a' := BitVec.eq_of_toNat_eq (by omega)
  have samePort : htons host p = htons host p' := BitVec.eq_of_toNat_eq (by omega)
  constructor
  · rw [← ntohl_htonl host a, sameAddress, ntohl_htonl]
  · rw [← ntohs_htons host p, samePort, ntohs_htons]

/-- Reading back a packed node gives its identifier and endpoint. -/
theorem ofRange_packed (host : Host) (now : Int) (data : NodeData) (address : BitVec 32)
    (port : BitVec 16) :
    ofRange host now (data.write ++ packedEndpoint host address port) =
      .ok ⟨data, now, 0, some ⟨.v4 address, port⟩⟩ := by
  obtain ⟨data', address', port', run, same⟩ :=
    ofRange_spec host now (data.write ++ packedEndpoint host address port) (by simp)
  obtain ⟨written, packed⟩ := List.append_inj same (by simp)
  obtain ⟨rfl, rfl⟩ := packedEndpoint_injective host packed
  rw [run, NodeData.write_injective written]

end Node
end TorrentSync.Source
