import TorrentSync.Lib.Hexadecimal
import TorrentSync.Source.Istream

/-!
# Buffers and strings

utils/Buffer.cpp: `makeBuffer`, `toString`, the comparison of a buffer with a string,
and `parseIDFromHex`. A string is the octets its characters are stored in; what a
character is worth in an expression depends on the sign of `char`.
-/
namespace TorrentSync.Source

open Lib

/-- The octet an integer is converted to, as a `uint8_t` or as a `char`. -/
def toOctet (v : Int) : UInt8 := UInt8.ofNat (v % 256).toNat

def makeBuffer (host : Host) (str : Buffer) : Buffer := str.map fun c => toOctet (charValue host c)

/-- Above 127 the conversion to a signed `char` is taken modulo 256, as compilers define it. -/
def toString (buff : Buffer) : Buffer := buff.map fun b => toOctet (octetValue b)

/-- `operator!=` of a buffer and a string. -/
def bufferNe (host : Host) (buff str : Buffer) : Bool := !bufferEq host buff str

/-- `int v; ss >> v` with `std::hex` on at most two characters. Two characters have no
room for a digit after `0x`, and a failed conversion stores 0. A stream that holds
blanks only leaves `v` unwritten. -/
def extractHex (chars : Buffer) : Option Int :=
  let octets := chars.dropWhile Istream.isSpace
  if octets.isEmpty then none
  else
    let minus := octets.head? == some 45
    let unsigned := if minus || octets.head? == some 43 then octets.tail else octets
    let magnitude := Int.ofNat (Hexadecimal.ofDigits (unsigned.takeWhile Hexadecimal.isDigit))
    some (if minus then -magnitude else magnitude)

/-- The body of the loop of `parseIDFromHex` on `str.substr(i,2)`. -/
def parsePair (chars : Buffer) : Fallible UInt8 :=
  match extractHex chars with
  | some v => .ok (toOctet v)
  | none => .error (.undefined "uninitialised int")

/-- The loop of `parseIDFromHex`, two characters at a time. -/
def parsePairs : Buffer → Fallible Buffer
  | [] => .ok []
  | [c] => do
      let v ← parsePair [c]
      .ok [v]
  | c :: d :: str => do
      let v ← parsePair [c, d]
      let buff ← parsePairs str
      .ok (v :: buff)

def parseIDFromHex (str : Buffer) : Fallible Buffer := do
  check (str.length % 2 = 0) "str.size() % 2 == 0"
  parsePairs str

/-! ## Conversions -/

theorem toOctet_natCast (n : Nat) : toOctet n = UInt8.ofNat n := by
  unfold toOctet
  apply UInt8.toNat_inj.mp
  simp only [UInt8.toNat_ofNat']
  omega

theorem toOctet_octetValue (b : UInt8) : toOctet (octetValue b) = b :=
  (toOctet_natCast b.toNat).trans UInt8.ofNat_toNat

/-- The sign of `char` is lost in the conversion to `uint8_t`. -/
theorem toOctet_charValue (host : Host) (c : UInt8) : toOctet (charValue host c) = c := by
  rw [charValue]
  split
  · next negative =>
    have wrapped : toOctet (Int.ofNat c.toNat - 256) = toOctet (octetValue c) := by
      unfold toOctet octetValue
      rw [Int.sub_emod_right]
    rw [wrapped, toOctet_octetValue]
  · exact toOctet_octetValue c

@[simp] theorem makeBuffer_eq (host : Host) (str : Buffer) : makeBuffer host str = str := by
  simp [makeBuffer, toOctet_charValue]

@[simp] theorem toString_eq (buff : Buffer) : toString buff = buff := by
  simp [toString, toOctet_octetValue]

/-! ## Comparison of a buffer with a string -/

/-- Comparison of a buffer with a string is equality of their octets. -/
structure ComparesOctets (host : Host) (buff str : Buffer) : Prop where
  makeBuffer_iff : bufferEq host buff str = true ↔ buff = makeBuffer host str
  toString_iff : bufferEq host buff str = true ↔ toString buff = str
  ne_iff : bufferNe host buff str = true ↔ ¬ bufferEq host buff str = true

/-- The comparison is wrong exactly where `char` is signed and the buffer has the octets
of a string with a negative character. -/
theorem comparesOctets_iff (host : Host) (buff str : Buffer) :
    ComparesOctets host buff str ↔
      host.charIsSigned = false ∨ (∀ c ∈ str, c.toNat < 128) ∨ buff ≠ str := by
  have eq := bufferEq_iff host buff str
  constructor
  · intro compares
    have same := compares.makeBuffer_iff
    rw [makeBuffer_eq, eq] at same
    by_cases signed : host.charIsSigned = true
    · by_cases equal : buff = str
      · exact .inr (.inl ((same.mpr equal).2 signed))
      · exact .inr (.inr equal)
    · exact .inl (Bool.not_eq_true _ ▸ signed)
  · intro condition
    have same : bufferEq host buff str = true ↔ buff = str := by
      rw [eq]
      constructor
      · exact And.left
      · intro equal
        refine ⟨equal, fun signed => ?_⟩
        rcases condition with unsigned | plain | differ
        · exact absurd signed (by simp [unsigned])
        · exact plain
        · exact absurd equal differ
    refine ⟨?_, ?_, ?_⟩
    · rw [makeBuffer_eq, same]
    · rw [toString_eq, same]
    · simp [bufferNe]

/-- The octet 200 is the character -56. -/
theorem comparesOctets_negative : ¬ ComparesOctets Host.x86 [200] (toString [200]) := by
  intro compares
  exact absurd (compares.toString_iff.mpr rfl) (by decide)

end TorrentSync.Source
