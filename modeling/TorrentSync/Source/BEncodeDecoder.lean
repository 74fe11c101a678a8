import TorrentSync.Source.Istream

/-!
# BEncodeDecoder

dht/message/BEncodeDecoder.cpp: the loop over a stream that flattens nested
dictionaries and lists into one map from '/'-joined paths to octets. The stack is
kept in vector order, its back being the innermost structure. Two arrays have a size
that the input chooses freely, and may find no room: the one that `readValue` reserves
in the free store, and the one that `readElement` declares on the call stack. Every
other allocation is in proportion to octets that are held already, and is taken to
find room.
`isdigit` is taken to answer for every `char`, as the usual C libraries do.
-/
namespace TorrentSync.Source

open Lib Decimal

/-- `std::unordered_map<std::string, Buffer>` by its entries in insertion order. -/
structure DataMap where
  entries : List (Buffer × Buffer)
  distinct : (entries.map Prod.fst).Nodup

namespace DataMap

def empty : DataMap := ⟨[], List.nodup_nil⟩

/-- `insert` leaves a key that is already present alone. -/
def insert (key value : Buffer) (d : DataMap) : DataMap :=
  if absent : key ∈ d.entries.map Prod.fst then d
  else ⟨d.entries ++ [(key, value)], by
    simpa [List.nodup_append, d.distinct] using fun a b member same => absent (by
      subst same
      exact List.mem_map_of_mem (f := Prod.fst) member)⟩

def find (key : Buffer) (d : DataMap) : Option Buffer := d.entries.lookup key

end DataMap

inductive Structure where
  | DICTIONARY | LIST
  deriving DecidableEq

namespace BEncodeDecoder

def errorReading : Fault := .bencode "Error in stream while reading an element"

def expectingSeparator (found : UInt8) : Fault :=
  .bencode ("Malformed message - expecting separator : but found " ++
    String.ofList [Char.ofNat found.toNat])

/-- `readElement`: a length as `int`, a colon, and the octets up to the first NUL of an
array of `length + 1` characters that a short read leaves partly unwritten. -/
def readElement (host : Host) (stream : Istream) : Fallible (Buffer × Istream) :=
  let (length, stream) := stream.extractInt
  let (buff, stream) := stream.get
  match stream.good, length, buff with
  | true, some length, some buff =>
      if buff ≠ 58 then .error (expectingSeparator buff)
      else if length = 2 ^ 31 - 1 then .error (.undefined "signed overflow of length+1")
      else if length < 0 then .error (.undefined "array of non-positive size")
      else if !host.stackHolds (length.toNat + 1) then .error .stackOverflow
      else
        let (stored, stream) := stream.read length.toNat
        let string := stored ++ (List.range' stored.length (length.toNat - stored.length)).map host.uninitChar
        .ok (string.takeWhile (· ≠ 0), stream)
  -- `good()` implies that both extractions succeeded
  | _, _, _ => .error errorReading

/-- `max_size()` of a vector of octets. -/
def maxSize : Nat := 2 ^ 63 - 1

/-- The loop `buffer.push_back(stream.get())`, which appends the octet 255 for each
`get` past the end of the stream. -/
def pushBack (length : Nat) (stream : Istream) : Buffer × Istream :=
  if length ≤ stream.rest.length then
    (stream.rest.take length, { stream with rest := stream.rest.drop length })
  else
    (stream.rest ++ List.replicate (length - stream.rest.length) 255, ⟨[], true, true⟩)

/-- `readValue`: a length as `size_t`, a colon and that many octets, for which `reserve`
first finds room. -/
def readValue (host : Host) (stream : Istream) : Fallible (Buffer × Istream) :=
  let (length, stream) := stream.extractSize
  let (separator, stream) := stream.get
  match stream.good, length, separator with
  | true, some length, some separator =>
      if separator ≠ 58 then .error (expectingSeparator separator)
      else if maxSize < length then .error .lengthError
      else if !host.grants length then .error .badAlloc
      else .ok (pushBack length stream)
  | _, _, _ => .error errorReading

/-- The local variables of `parseMessage`, the stream and the members it writes. -/
structure State where
  stream : Istream
  parseEnded : Bool
  listCounter : Nat
  structureStack : List (Buffer × Structure)
  lastToken : Buffer
  data : DataMap

def start (stream : Istream) : State := ⟨stream, false, 0, [], [], .empty⟩

/-- The path of the innermost structure, as the loops over the stack build it. -/
def pathOf (structureStack : List (Buffer × Structure)) : Buffer :=
  structureStack.foldl (fun buffer path =>
    let buffer := buffer ++ path.1
    if buffer.length > 0 then buffer ++ ascii "/" else buffer) []

/-- The list counter after a structure ends: 0, unless it was a list whose name
`boost::lexical_cast<int>` converts; a failed conversion is caught. -/
def counterAfter (name : Buffer) (kind : Structure) : Fallible Nat :=
  if kind = .LIST && name.all isDigit then
    if name.isEmpty || 2 ^ 31 ≤ ofDigits name then .ok 0
    else if ofDigits name = 2 ^ 31 - 1 then
      .error (.undefined "signed overflow of the list counter")
    else .ok (ofDigits name + 1)
  else .ok 0

/-- `case 'e'`. -/
def closeStructure (s : State) : Fallible State :=
  match s.structureStack.getLast? with
  | none => .error (.bencode "Malformed message - end not in a structure")
  | some (name, kind) => do
      let listCounter ← counterAfter name kind
      let structureStack := s.structureStack.dropLast
      .ok { s with
        listCounter := listCounter
        structureStack := structureStack
        parseEnded := structureStack.isEmpty }

/-- The default case: a key and, unless a structure follows, its value; or a list item. -/
def readEntry (host : Host) (s : State) : Fallible State :=
  match s.structureStack.getLast? with
  | none => .error (.bencode "Malformed message - no structure found")
  | some (_, .DICTIONARY) => do
      let (key, stream) ← readElement host s.stream
      let (next, stream) := stream.peek
      if next = some 108 || next = some 100 then .ok { s with stream := stream, lastToken := key }
      else do
        let (value, stream) ← readValue host stream
        .ok { s with
          stream := stream
          data := s.data.insert (pathOf s.structureStack ++ key) value }
  | some (_, .LIST) => do
      let (value, stream) ← readValue host s.stream
      .ok { s with
        stream := stream
        listCounter := s.listCounter + 1
        data := s.data.insert (pathOf s.structureStack ++ digits s.listCounter) value }

/-- One iteration of the loop. -/
def step (host : Host) (s : State) : Fallible State :=
  if !s.stream.good then .error (.bencode "Error in stream while reading a char")
  else
    let (next, stream) := s.stream.peek
    let s := { s with stream := stream }
    if next = some 100 then
      .ok { s with
        stream := s.stream.ignore
        structureStack := s.structureStack ++ [(s.lastToken, .DICTIONARY)] }
    else if next = some 108 then
      let lastToken := if s.listCounter > 0 then digits s.listCounter else s.lastToken
      .ok { s with
        stream := s.stream.ignore
        lastToken := lastToken
        listCounter := 0
        structureStack := s.structureStack ++ [(lastToken, .LIST)] }
    else if next = some 101 then closeStructure { s with stream := s.stream.ignore }
    else readEntry host s

/-- The loop. Every iteration that does not throw extracts an octet, so `loop_done`
shows that one unit of fuel more than there are octets is enough. -/
def loop (host : Host) : Nat → State → Fallible State
  | 0, s => .ok s
  | fuel + 1, s =>
      if !s.stream.eofbit && !s.parseEnded then do
        let s ← step host s
        loop host fuel s
      else .ok s

def parseMessage (host : Host) (stream : Istream) : Fallible (DataMap × Istream) := do
  let s ← loop host (stream.rest.length + 1) (start stream)
  if !s.parseEnded then .error (.bencode "Message could not be parsed correctly")
  else .ok (s.data, s.stream)

/-- A decoder object by its members. -/
structure Decoder where
  data : DataMap
  structureStack : List (Buffer × Structure)

/-- The constructor. -/
def Decoder.fresh : Decoder := ⟨.empty, []⟩

def Decoder.getData (decoder : Decoder) : DataMap := decoder.data

/-- `parseMessage` on an object, whose members it clears first. -/
def Decoder.parseMessage (host : Host) (decoder : Decoder) (stream : Istream) :
    Fallible (Decoder × Istream) := do
  let decoder := { decoder with data := .empty, structureStack := [] }
  let s ← loop host (stream.rest.length + 1)
    ⟨stream, false, 0, decoder.structureStack, [], decoder.data⟩
  if !s.parseEnded then .error (.bencode "Message could not be parsed correctly")
  else .ok ({ decoder with data := s.data, structureStack := [] }, s.stream)

end BEncodeDecoder
end TorrentSync.Source
