import TorrentSync.Source.Node

/-!
# The byte order of compact node info

`getPackedNode` applies `htonl` and `htons` and then takes the octets of the result
from the most significant one down; `read` does the same in the other direction. Each
of the two steps alone is a conversion to network order, so on a little-endian host
they cancel. What a host writes is the endpoint in its own octet order.
-/
namespace TorrentSync.Source.Node

open Lib

/-- The IPv4 address `a.b.c.d`, as `to_ulong` returns it. -/
def dotted (a b c d : UInt8) : BitVec 32 := BitVec.ofNat 32 (BigEndian.value [a, b, c, d])

/-- The contact octets of an endpoint in network byte order: `a`, `b`, `c`, `d`, `p/256`, `p mod 256`. -/
def contactInfo (a b c d : UInt8) (port : BitVec 16) : Buffer :=
  [a, b, c, d, UInt8.ofNat (port.toNat / 256), UInt8.ofNat (port.toNat % 256)]

/-- The address and the port read the same from either end. -/
def Palindromic (a b c d : UInt8) (port : BitVec 16) : Prop :=
  a = d ∧ b = c ∧ port.toNat / 256 = port.toNat % 256

/-- What one host packed is read by another as the same identifier and endpoint. -/
def Exchanged (packer reader : Host) (n : Node) (address : BitVec 32) (port : BitVec 16) : Prop :=
  ∃ octets, n.getPackedNode packer = .ok octets ∧ ∀ m : Node, m.read reader octets =
    .ok { m with nodeData := n.nodeData, endpoint := some ⟨.v4 address, port⟩ }

/-- Between the host that packs a node and the host that reads it: the packed form is
in network order, octets in network order are read as the endpoint, and the reader
gets the endpoint back from what the other one packed. -/
structure NetworkOrder (packer reader : Host) (n : Node) (a b c d : UInt8) (port : BitVec 16) :
    Prop where
  packed : n.getPackedNode packer = .ok (n.nodeData.write ++ contactInfo a b c d port)
  readBack : ∀ m : Node, m.read reader (n.nodeData.write ++ contactInfo a b c d port) =
    .ok { m with nodeData := n.nodeData, endpoint := some ⟨.v4 (dotted a b c d), port⟩ }
  exchanged : Exchanged packer reader n (dotted a b c d) port

/-- Octets as a host's own order of a number's octets has them. -/
def inHostOrder (host : Host) (octets : Buffer) : Buffer :=
  match host.endian with
  | .little => octets.reverse
  | .big => octets

theorem bytes_htonl (host : Host) (x : BitVec 32) :
    BigEndian.bytes 4 (htonl host x).toNat = inHostOrder host (BigEndian.bytes 4 x.toNat) := by
  unfold htonl inHostOrder
  cases host.endian with
  | little =>
    simp only [swap32]
    rw [value_toNat 32 _ (by simp), BigEndian.bytes_value_of_length 4 _ (by simp)]
  | big => rfl

theorem bytes_htons (host : Host) (x : BitVec 16) :
    BigEndian.bytes 2 (htons host x).toNat = inHostOrder host (BigEndian.bytes 2 x.toNat) := by
  unfold htons inHostOrder
  cases host.endian with
  | little =>
    simp only [swap16]
    rw [value_toNat 16 _ (by simp), BigEndian.bytes_value_of_length 2 _ (by simp)]
  | big => rfl

theorem bytes_dotted (a b c d : UInt8) : BigEndian.bytes 4 (dotted a b c d).toNat = [a, b, c, d] := by
  rw [dotted, value_toNat 32 _ (by simp)]
  exact BigEndian.bytes_value_of_length 4 _ rfl

/-- What a host appends to the identifier of a node at `a.b.c.d`. -/
theorem packedEndpoint_dotted (host : Host) (a b c d : UInt8) (port : BitVec 16) :
    packedEndpoint host (dotted a b c d) port = inHostOrder host [a, b, c, d] ++
      inHostOrder host [UInt8.ofNat (port.toNat / 256), UInt8.ofNat (port.toNat % 256)] := by
  have low : UInt8.ofNat (port.toNat % 256) = UInt8.ofNat port.toNat := by
    apply UInt8.toNat_inj.mp
    simp
  have octets : BigEndian.bytes 2 port.toNat =
      [UInt8.ofNat (port.toNat / 256), UInt8.ofNat (port.toNat % 256)] := by
    rw [low]
    simp [BigEndian.bytes]
  rw [packedEndpoint, bytes_htonl, bytes_htons, bytes_dotted, octets]

/-- `read` sets the identifier and the endpoint and nothing else. -/
theorem read_eq_ofRange (host : Host) (now : Int) (range : Buffer) (m : Node) :
    m.read host range = (ofRange host now range).map fun n =>
      { m with nodeData := n.nodeData, endpoint := n.endpoint } := by
  unfold ofRange Node.read
  cases NodeData.read range with
  | error fault => rfl
  | ok data =>
    simp only [ok_bind]
    split
    · rfl
    · split <;> rfl

/-- Six octets after an identifier are read as an endpoint exactly if the host packs
that endpoint to them. -/
theorem read_contact_iff (host : Host) (m : Node) (data : NodeData) (octets : Buffer)
    (length : octets.length = 6) (address : BitVec 32) (port : BitVec 16) :
    m.read host (data.write ++ octets) =
        .ok { m with nodeData := data, endpoint := some ⟨.v4 address, port⟩ } ↔
      packedEndpoint host address port = octets := by
  rw [read_eq_ofRange host 0]
  constructor
  · intro run
    obtain ⟨data', address', port', parsed, same⟩ :=
      ofRange_spec host 0 (data.write ++ octets) (by simp [length])
    rw [parsed] at run
    simp only [Except.map, Except.ok.injEq, Node.mk.injEq, Option.some.injEq, Endpoint.mk.injEq,
      IpAddress.v4.injEq] at run
    obtain ⟨-, -, -, rfl, rfl⟩ := run
    exact (List.append_inj same (by simp)).2
  · rintro rfl
    rw [ofRange_packed]
    rfl

private theorem halves_eq_iff (port : BitVec 16) :
    UInt8.ofNat (port.toNat / 256) = UInt8.ofNat (port.toNat % 256) ↔
      port.toNat / 256 = port.toNat % 256 := by
  have small := port.isLt
  rw [← UInt8.toNat_inj]
  simp only [UInt8.toNat_ofNat']
  omega

/-- Two hosts put the octets of an endpoint in the same order exactly if they have the
same byte order or the endpoint is palindromic. -/
theorem packedEndpoint_eq_iff (host other : Host) (a b c d : UInt8) (port : BitVec 16) :
    packedEndpoint host (dotted a b c d) port = packedEndpoint other (dotted a b c d) port ↔
      host.endian = other.endian ∨ Palindromic a b c d port := by
  have reversed : ([d, c, b, a] ++ [UInt8.ofNat (port.toNat % 256), UInt8.ofNat (port.toNat / 256)] =
      [a, b, c, d] ++ [UInt8.ofNat (port.toNat / 256), UInt8.ofNat (port.toNat % 256)]) ↔
      Palindromic a b c d port := by
    rw [Palindromic, ← halves_eq_iff port]
    simp only [List.cons_append, List.nil_append, List.cons.injEq, and_true]
    constructor
    · rintro ⟨rfl, rfl, -, -, -, same⟩
      exact ⟨rfl, rfl, same⟩
    · rintro ⟨rfl, rfl, same⟩
      exact ⟨rfl, rfl, rfl, rfl, same.symm, same⟩
  rw [packedEndpoint_dotted, packedEndpoint_dotted]
  unfold inHostOrder
  cases host.endian <;> cases other.endian
  · simp
  · simpa using reversed
  · rw [eq_comm]
    simpa using reversed
  · simp

/-- The octets are in network order exactly on a big-endian host, or for a palindromic endpoint. -/
theorem packedEndpoint_network_iff (host : Host) (a b c d : UInt8) (port : BitVec 16) :
    packedEndpoint host (dotted a b c d) port = contactInfo a b c d port ↔
      host.endian = .big ∨ Palindromic a b c d port := by
  have network : contactInfo a b c d port =
      packedEndpoint { host with endian := .big } (dotted a b c d) port := by
    rw [packedEndpoint_dotted]
    rfl
  rw [network, packedEndpoint_eq_iff]

section Results

variable (packer reader : Host) (n : Node) (a b c d : UInt8) (port : BitVec 16)
  (endpoint : n.endpoint = some ⟨.v4 (dotted a b c d), port⟩)

include endpoint

theorem exchanged_iff :
    Exchanged packer reader n (dotted a b c d) port ↔
      packer.endian = reader.endian ∨ Palindromic a b c d port := by
  rw [← packedEndpoint_eq_iff, Exchanged, getPackedNode_v4 packer endpoint]
  constructor
  · rintro ⟨octets, packed, read⟩
    cases packed
    exact ((read_contact_iff reader n _ _ (by simp) _ _).mp (read n)).symm
  · intro same
    exact ⟨_, rfl, fun m => (read_contact_iff reader m _ _ (by simp) _ _).mpr same.symm⟩

/-- Compact node info is in network order between two hosts exactly if both are
big-endian or the endpoint is palindromic; what one packed is read back by the other
exactly if they have the same byte order or the endpoint is palindromic. -/
theorem networkOrder_iff :
    (NetworkOrder packer reader n a b c d port ↔
      packer.endian = .big ∧ reader.endian = .big ∨ Palindromic a b c d port) ∧
    (Exchanged packer reader n (dotted a b c d) port ↔
      packer.endian = reader.endian ∨ Palindromic a b c d port) := by
  refine ⟨?_, exchanged_iff packer reader n a b c d port endpoint⟩
  have packedIff : n.getPackedNode packer = .ok (n.nodeData.write ++ contactInfo a b c d port) ↔
      packer.endian = .big ∨ Palindromic a b c d port := by
    rw [← packedEndpoint_network_iff, getPackedNode_v4 packer endpoint, Except.ok.injEq,
      List.append_cancel_left_eq]
  have readIff : ∀ m : Node, m.read reader (n.nodeData.write ++ contactInfo a b c d port) =
      .ok { m with nodeData := n.nodeData, endpoint := some ⟨.v4 (dotted a b c d), port⟩ } ↔
      reader.endian = .big ∨ Palindromic a b c d port := by
    intro m
    rw [← packedEndpoint_network_iff]
    exact read_contact_iff reader m _ _ rfl _ _
  constructor
  · intro order
    have left := packedIff.mp order.packed
    have right := (readIff n).mp (order.readBack n)
    tauto
  · intro condition
    refine ⟨packedIff.mpr ?_, fun m => (readIff m).mpr ?_,
      (exchanged_iff packer reader n a b c d port endpoint).mpr ?_⟩
    · tauto
    · tauto
    · rcases condition with ⟨left, right⟩ | palindromic
      · exact .inl (left.trans right.symm)
      · exact .inr palindromic

end Results

/-- A node at 1.2.3.4, port 6881, with the id 0. -/
def nodeAt1234 : Node := ⟨NodeData.minValue, 0, 0, some ⟨.v4 (dotted 1 2 3 4), 6881⟩⟩

theorem networkOrder_bigEndian :
    NetworkOrder { Host.x86 with endian := .big } { Host.x86 with endian := .big } nodeAt1234
      1 2 3 4 6881 :=
  (networkOrder_iff _ _ nodeAt1234 1 2 3 4 6881 rfl).1.mpr (.inl ⟨rfl, rfl⟩)

/-- Port 6881 is 26·256 + 225. On a little-endian host both fields are reversed, octets in
network order are read as 4.3.2.1, and a big-endian host reads the packed node so too. -/
theorem packed1234_reversed :
    nodeAt1234.getPackedNode Host.x86 =
      .ok (NodeData.minValue.write ++ [4, 3, 2, 1, 225, 26]) ∧
    nodeAt1234.read Host.x86 (NodeData.minValue.write ++ contactInfo 1 2 3 4 6881) =
      .ok { nodeAt1234 with endpoint := some ⟨.v4 (dotted 4 3 2 1), 57626⟩ } ∧
    ¬ NetworkOrder Host.x86 Host.x86 nodeAt1234 1 2 3 4 6881 ∧
    ¬ Exchanged Host.x86 { Host.x86 with endian := .big } nodeAt1234 (dotted 1 2 3 4) 6881 := by
  have packed : nodeAt1234.getPackedNode Host.x86 =
      .ok (NodeData.minValue.write ++ [4, 3, 2, 1, 225, 26]) := by decide
  have misread : nodeAt1234.read { Host.x86 with endian := .big }
      (NodeData.minValue.write ++ [4, 3, 2, 1, 225, 26]) ≠ .ok nodeAt1234 := by decide
  refine ⟨packed, by decide, ?_, ?_⟩
  · intro order
    exact absurd (packed.symm.trans order.packed) (by decide)
  · rintro ⟨octets, same, read⟩
    rw [packed] at same
    cases same
    exact misread (read nodeAt1234)

end TorrentSync.Source.Node
