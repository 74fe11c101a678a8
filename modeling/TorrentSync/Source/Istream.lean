import TorrentSync.Lib.Decimal
import TorrentSync.Source.Host

/-!
# Input streams

The part of `std::istream` the decoder uses, over octets already in memory (a
`boost::iostreams` array source or a string stream). A stream is its unread octets
and its state bits. Every input function first builds a sentry, which sets failbit
on a stream that is not good.
-/
namespace TorrentSync.Source

open Lib Decimal

structure Istream where
  rest : Buffer
  eofbit : Bool
  failbit : Bool
  deriving DecidableEq

namespace Istream

def ofBuffer (octets : Buffer) : Istream := ⟨octets, false, false⟩

def good (s : Istream) : Bool := !s.eofbit && !s.failbit

def peek (s : Istream) : Option UInt8 × Istream :=
  if s.good then
    match s.rest with
    | [] => (none, { s with eofbit := true })
    | c :: _ => (some c, s)
  else (none, { s with failbit := true })

def get (s : Istream) : Option UInt8 × Istream :=
  if s.good then
    match s.rest with
    | [] => (none, { s with eofbit := true, failbit := true })
    | c :: rest => (some c, { s with rest := rest })
  else (none, { s with failbit := true })

def ignore (s : Istream) : Istream :=
  if s.good then
    match s.rest with
    | [] => { s with eofbit := true }
    | _ :: rest => { s with rest := rest }
  else { s with failbit := true }

/-- `read(buffer, n)`: the octets stored into the buffer, fewer than `n` at the end. -/
def read (n : Nat) (s : Istream) : Buffer × Istream :=
  if s.good then
    if n ≤ s.rest.length then (s.rest.take n, { s with rest := s.rest.drop n })
    else (s.rest, ⟨[], true, true⟩)
  else ([], { s with failbit := true })

/-- `isspace` in the classic locale. -/
def isSpace (c : UInt8) : Bool := c.toNat == 32 || (9 ≤ c.toNat && c.toNat ≤ 13)

/-- What `num_get` extracts: an optional sign and as many digits as follow. -/
structure Scan where
  minus : Bool
  number : Buffer
  rest : Buffer

def scanNumber (octets : Buffer) : Scan :=
  let minus := octets.head? == some 45
  let unsigned := if minus || octets.head? == some 43 then octets.tail else octets
  ⟨minus, unsigned.takeWhile isDigit, unsigned.dropWhile isDigit⟩

/-- `operator>>` for an integer type whose values `accept` recognises, given the sign
and the magnitude. Without a value failbit is set and the variable must not be read. -/
def extract (accept : Bool → Nat → Option Int) (s : Istream) : Option Int × Istream :=
  if s.good then
    match s.rest.dropWhile isSpace with
    | [] => (none, ⟨[], true, true⟩)
    | octets =>
        let scan := scanNumber octets
        let value := if scan.number.isEmpty then none else accept scan.minus (ofDigits scan.number)
        (value, ⟨scan.rest, scan.rest.isEmpty, value.isNone⟩)
  else (none, { s with failbit := true })

/-- `int`: a value outside the type sets failbit. -/
def acceptInt (minus : Bool) (magnitude : Nat) : Option Int :=
  let v : Int := if minus then -Int.ofNat magnitude else Int.ofNat magnitude
  if -2 ^ 31 ≤ v ∧ v < 2 ^ 31 then some v else none

/-- `size_t`: a magnitude outside the type sets failbit, a minus sign wraps. -/
def acceptSize (minus : Bool) (magnitude : Nat) : Option Int :=
  if magnitude < 2 ^ 64 then
    some (if minus then Int.ofNat ((2 ^ 64 - magnitude) % 2 ^ 64) else Int.ofNat magnitude)
  else none

def extractInt (s : Istream) : Option Int × Istream := s.extract acceptInt

def extractSize (s : Istream) : Option Nat × Istream :=
  let (value, s) := s.extract acceptSize
  (value.map Int.toNat, s)

/-! ## Reading from a good stream -/

@[simp] theorem good_mk (rest : Buffer) : (⟨rest, false, false⟩ : Istream).good = true := rfl

end Istream
end TorrentSync.Source
