import TorrentSync.Lib.Decimal
import TorrentSync.Lib.OrderedContainers
import TorrentSync.Source.Host

/-!
# BEncodeEncoder

dht/message/BEncodeEncoder.h and BEncodeEncoder.cpp: a bencode writer over a buffer
that grows one block of 1024 octets at a time. Writing outside the buffer, which
the source does through iterators without any check, is a fault. The unused and
uncompilable template `addList` is left out.
-/
namespace TorrentSync.Source

open Lib Decimal OrderedContainers

structure BEncodeEncoder where
  usedBytes : Nat
  result : Buffer
  lastKey : Buffer

namespace BEncodeEncoder

def new : BEncodeEncoder := ⟨0, List.replicate 1024 0, []⟩

def checkAndExpand (add : Nat) (enc : BEncodeEncoder) : BEncodeEncoder :=
  if enc.usedBytes + add > enc.result.length then
    { enc with result := resize ((enc.result.length / 1024 + 1) * 1024) enc.result }
  else enc

/-- The fault of a write at or past `result.end()`. -/
def outsideResult : Fault := .undefined "result.begin()+used_bytes"

/-- Copies octets to `result.begin()+used_bytes` and advances `used_bytes`. -/
def copyIn (octets : Buffer) (enc : BEncodeEncoder) : Fallible BEncodeEncoder :=
  if enc.usedBytes + octets.length ≤ enc.result.length then
    .ok { enc with
      result := enc.result.take enc.usedBytes ++ octets ++
        enc.result.drop (enc.usedBytes + octets.length)
      usedBytes := enc.usedBytes + octets.length }
  else .error outsideResult

def addElement (v : Buffer) (enc : BEncodeEncoder) : Fallible BEncodeEncoder := do
  check (!v.isEmpty) "begin != end"
  let length_string := digits v.length
  let enc := enc.checkAndExpand (length_string.length + 1 + 1 + v.length)
  let enc ← enc.copyIn length_string
  let enc ← enc.copyIn (ascii ":")
  enc.copyIn v

/-- The exception of a key that sorts before the previous one. -/
def orderViolation : Fault :=
  .logicError "Violating lexicographic order constraint in dictionary"

/-- The template `addDictionaryElement`; `promote` is the promotion of the key's
element type, which differs between the string and the buffer overloads. -/
def addDictionaryElement (promote : UInt8 → Int) (k v : Buffer) (enc : BEncodeEncoder) :
    Fallible BEncodeEncoder :=
  if !enc.lastKey.isEmpty && lexCompare promote octetValue k enc.lastKey then .error orderViolation
  else do
    let enc ← enc.addElement k
    let enc ← enc.addElement v
    .ok { enc with lastKey := k }

def startList (enc : BEncodeEncoder) : Fallible BEncodeEncoder :=
  (enc.checkAndExpand 1).copyIn (ascii "l")

def endList (enc : BEncodeEncoder) : Fallible BEncodeEncoder :=
  (enc.checkAndExpand 1).copyIn (ascii "e")

def startDictionary (enc : BEncodeEncoder) : Fallible BEncodeEncoder :=
  (enc.checkAndExpand 1).copyIn (ascii "d")

def endDictionary (enc : BEncodeEncoder) : Fallible BEncodeEncoder :=
  ({ enc with lastKey := [] }.checkAndExpand 1).copyIn (ascii "e")

/-- `value` shrinks the mutable buffer and returns a copy of it. -/
def value (enc : BEncodeEncoder) : Buffer × BEncodeEncoder :=
  let result := resize enc.usedBytes enc.result
  (result, { enc with result := result })

end BEncodeEncoder

/-- The argument types of the `addDictionaryElement` overloads. -/
inductive KeyType where
  | string | buffer

def KeyType.promote (host : Host) : KeyType → UInt8 → Int
  | .string => charValue host
  | .buffer => octetValue

/-- The public member calls of an encoder. -/
inductive EncoderCall where
  | addElement (v : Buffer)
  | addDictionaryElement (keyType : KeyType) (k v : Buffer)
  | startList
  | endList
  | startDictionary
  | endDictionary
  | value

namespace BEncodeEncoder

/-- One call, with what it returns to the caller. -/
def step (host : Host) (enc : BEncodeEncoder) : EncoderCall → Fallible (BEncodeEncoder × List Buffer)
  | .addElement v => do
      let enc ← enc.addElement v
      .ok (enc, [])
  | .addDictionaryElement keyType k v => do
      let enc ← enc.addDictionaryElement (keyType.promote host) k v
      .ok (enc, [])
  | .startList => do
      let enc ← enc.startList
      .ok (enc, [])
  | .endList => do
      let enc ← enc.endList
      .ok (enc, [])
  | .startDictionary => do
      let enc ← enc.startDictionary
      .ok (enc, [])
  | .endDictionary => do
      let enc ← enc.endDictionary
      .ok (enc, [])
  | .value => .ok (enc.value.2, [enc.value.1])

/-- A sequence of calls, with all buffers `value` returned on the way. -/
def run (host : Host) : List EncoderCall → BEncodeEncoder → Fallible (BEncodeEncoder × List Buffer)
  | [], enc => .ok (enc, [])
  | call :: calls, enc => do
      let (enc, out) ← step host enc call
      let (enc, later) ← run host calls enc
      .ok (enc, out ++ later)

end BEncodeEncoder
end TorrentSync.Source
