import TorrentSync.Source.Host

/-!
# NodeData

dht/NodeData.h and dht/NodeData.cpp: a 160-bit identifier kept in words of 64, 64
and 32 bits, its comparison operators, its codecs and `splitInHalf`. `number` is
the unsigned big-endian reading that the operators are compared with.
-/
namespace TorrentSync.Source

open Lib

structure NodeData where
  /-- bits 0 to 63 -/
  p1 : BitVec 64
  /-- bits 64 to 127 -/
  p2 : BitVec 64
  /-- bits 128 to 159 -/
  p3 : BitVec 32
  deriving DecidableEq, Repr

namespace NodeData

def addressDataLength : Nat := 20

def eq (a b : NodeData) : Bool := a.p1 == b.p1 && a.p2 == b.p2 && a.p3 == b.p3

def ne (a b : NodeData) : Bool := a.p1 != b.p1 || a.p2 != b.p2 || a.p3 != b.p3

def lt (a b : NodeData) : Bool :=
  a.p1 < b.p1 ||
  (a.p1 == b.p1 && a.p2 < b.p2) ||
  (a.p1 == b.p1 && a.p2 == b.p2 && a.p3 < b.p3)

def le (a b : NodeData) : Bool :=
  a.p1 < b.p1 ||
  (a.p1 == b.p1 && a.p2 < b.p2) ||
  (a.p1 == b.p1 && a.p2 == b.p2 && a.p3 < b.p3) ||
  (a.p1 == b.p1 && a.p2 == b.p2 && a.p3 == b.p3)

def gt (a b : NodeData) : Bool :=
  a.p1 > b.p1 ||
  (a.p1 == b.p1 && a.p2 > b.p2) ||
  (a.p1 == b.p1 && a.p2 == b.p2 && a.p3 > b.p3)

def ge (a b : NodeData) : Bool :=
  a.p1 > b.p1 ||
  (a.p1 == b.p1 && a.p2 > b.p2) ||
  (a.p1 == b.p1 && a.p2 == b.p2 && a.p3 > b.p3) ||
  (a.p1 == b.p1 && a.p2 == b.p2 && a.p3 == b.p3)

/-- `operator^`: the XOR distance, itself a block of 160 bits. -/
def distance (a b : NodeData) : NodeData := ⟨a.p1 ^^^ b.p1, a.p2 ^^^ b.p2, a.p3 ^^^ b.p3⟩

/-- One word through `std::hex` with `width(width)` and `fill('0')`. -/
def hexField (width n : Nat) : List Char :=
  List.replicate (width - (Nat.toDigits 16 n).length) '0' ++ Nat.toDigits 16 n

def string (a : NodeData) : String :=
  String.ofList (hexField 16 a.p1.toNat ++ hexField 16 a.p2.toNat ++ hexField 8 a.p3.toNat)

/-- The constructor from a buffer loads five 32-bit words in host order. -/
def ofBuffer (host : Host) (buff : Buffer) : Fallible NodeData :=
  if buff.length ≠ addressDataLength then
    .error (.invalidArgument "NodeData expects 20 byte as address")
  else
    let data (i : Nat) : BitVec 32 := load32 host ((buff.drop (4 * i)).take 4)
    .ok {
      p1 := (htonl host (data 0)).setWidth 64 <<< 32 ||| (htonl host (data 1)).setWidth 64
      p2 := (htonl host (data 2)).setWidth 64 <<< 32 ||| (htonl host (data 3)).setWidth 64
      p3 := htonl host (data 4) }

def minValue : NodeData := ⟨0, 0, 0⟩

def maxValue : NodeData :=
  ⟨0xFFFFFFFFFFFFFFFF, 0xFFFFFFFFFFFFFFFF, 0xFFFFFFFF⟩

/-- `splitInHalf`, word by word as in the source: the termination test looks at
`p3` twice and at `p1` not at all. -/
def splitInHalf (low high : NodeData) : Option (NodeData × NodeData) :=
  let mask : NodeData :=
    ⟨~~~(low.p1 ^^^ high.p1), ~~~(low.p2 ^^^ high.p2), ~~~(low.p3 ^^^ high.p3)⟩
  if ~~~mask.p3 == 0 && ~~~mask.p2 == 0 && ~~~mask.p3 == 0 then none
  else
    let p2_first_bit := mask.p2.getLsbD 0
    let p1_first_bit := mask.p1.getLsbD 0
    let new_bit : NodeData :=
      ⟨(mask.p1 >>> 1 ||| 0x8000000000000000) ^^^ mask.p1,
       (mask.p2 >>> p1_first_bit.toNat |||
          0x8000000000000000 * BitVec.ofNat 64 p1_first_bit.toNat) ^^^ mask.p2,
       (mask.p3 >>> p2_first_bit.toNat |||
          0x80000000 * BitVec.ofNat 32 p2_first_bit.toNat) ^^^ mask.p3⟩
    let half_low : NodeData :=
      ⟨low.p1 ||| ~~~(mask.p1 ||| new_bit.p1),
       low.p2 ||| ~~~(mask.p2 ||| new_bit.p2),
       low.p3 ||| ~~~(mask.p3 ||| new_bit.p3)⟩
    let half_high : NodeData :=
      ⟨high.p1 &&& (mask.p1 ||| new_bit.p1),
       high.p2 &&& (mask.p2 ||| new_bit.p2),
       high.p3 &&& (mask.p3 ||| new_bit.p3)⟩
    some (half_low, half_high)

/-- The loop `p <<= 8; p |= *(begin++)` over a run of octets. -/
def shiftIn {w : Nat} (octets : Buffer) : BitVec w :=
  octets.foldl (fun (p : BitVec w) (b : UInt8) => p <<< 8 ||| b.toBitVec.setWidth w) 0

/-- `NodeData::read` on the range `[begin, end)`. -/
def read (range : Buffer) : Fallible NodeData :=
  if range.length < addressDataLength then
    .error (.invalidArgument "Wrong amount of data to parse")
  else
    .ok ⟨shiftIn (range.take 8), shiftIn ((range.drop 8).take 8), shiftIn ((range.drop 16).take 4)⟩

def write (a : NodeData) : Buffer :=
  [BigEndian.lowByte (a.p1 >>> 56 &&& 0xFF),
   BigEndian.lowByte (a.p1 >>> 48 &&& 0xFF),
   BigEndian.lowByte (a.p1 >>> 40 &&& 0xFF),
   BigEndian.lowByte (a.p1 >>> 32 &&& 0xFF),
   BigEndian.lowByte (a.p1 >>> 24 &&& 0xFF),
   BigEndian.lowByte (a.p1 >>> 16 &&& 0xFF),
   BigEndian.lowByte (a.p1 >>> 8 &&& 0xFF),
   BigEndian.lowByte (a.p1 >>> 0 &&& 0xFF),
   BigEndian.lowByte (a.p2 >>> 56 &&& 0xFF),
   BigEndian.lowByte (a.p2 >>> 48 &&& 0xFF),
   BigEndian.lowByte (a.p2 >>> 40 &&& 0xFF),
   BigEndian.lowByte (a.p2 >>> 32 &&& 0xFF),
   BigEndian.lowByte (a.p2 >>> 24 &&& 0xFF),
   BigEndian.lowByte (a.p2 >>> 16 &&& 0xFF),
   BigEndian.lowByte (a.p2 >>> 8 &&& 0xFF),
   BigEndian.lowByte (a.p2 >>> 0 &&& 0xFF),
   BigEndian.lowByte (a.p3 >>> 24 &&& 0xFF),
   BigEndian.lowByte (a.p3 >>> 16 &&& 0xFF),
   BigEndian.lowByte (a.p3 >>> 8 &&& 0xFF),
   BigEndian.lowByte (a.p3 >>> 0 &&& 0xFF)]

/-- The identifier as an unsigned number of 160 bits. -/
def number (a : NodeData) : Nat := a.p1.toNat * 2 ^ 96 + a.p2.toNat * 2 ^ 32 + a.p3.toNat

/-- Bit `i` of the identifier, counted from the most significant one. -/
def bit (a : NodeData) (i : Nat) : Bool := a.number.testBit (159 - i)

end NodeData
end TorrentSync.Source
