import Mathlib.Tactic.Cases
import TorrentSync.Lib.BigEndian

/-!
# Host platform, byte buffers and outcomes

What the translated code takes from its platform: the byte order behind `htonl`
and `htons`, the sign of plain `char`, the values of variables it reads before
writing them, and how much room the free store and the call stack have. `Fault`
lists the ways a call can end other than by returning: C++ exceptions with their
texts, failed assertions (the build type is Debug, so `assert` is active),
accesses outside an object, and arrays the call stack has no room for.
-/
namespace TorrentSync.Source

open Lib

/-- utils/Buffer.h: `typedef std::vector<uint8_t> Buffer`; strings are octets too. -/
abbrev Buffer := List UInt8

def DHT_K : Nat := 8

def DHT_FIND_NODE_COUNT : Nat := 8

def MESSAGE_BUFFER_SIZE : Nat := 4096

inductive Endian where
  | little | big
  deriving DecidableEq, Repr

/-- Every host has room for as many octets as one datagram can have. -/
def grantedSize : Nat := MESSAGE_BUFFER_SIZE

/-- The platform facts the code depends on. `uninitAddress` and `uninitChar` are the
contents of local variables that the code reads before it has written them; `grants`
says how large an array of octets the free store has room for, and `stackHolds` how
large a local one the call stack has room for when the decoder runs. -/
structure Host where
  endian : Endian
  charIsSigned : Bool
  uninitAddress : BitVec 32
  uninitChar : Nat → UInt8
  grants : Nat → Bool
  stackHolds : Nat → Bool
  grantsSmall : ∀ n ≤ grantedSize, grants n = true
  stackHoldsSmall : ∀ n ≤ grantedSize + 1, stackHolds n = true

/-- A little-endian host with a signed plain `char`, as on x86-64, with the usual call
stack of 8 MiB, all but 64 KiB of it free. -/
def Host.x86 : Host where
  endian := .little
  charIsSigned := true
  uninitAddress := 0
  uninitChar := fun _ => 0
  grants := fun n => n < 2 ^ 31
  stackHolds := fun n => n ≤ 2 ^ 23 - 2 ^ 16
  grantsSmall := by
    intro n small
    have : n ≤ 4096 := small
    simp only [decide_eq_true_eq]
    omega
  stackHoldsSmall := by
    intro n small
    have : n ≤ 4097 := small
    simp only [decide_eq_true_eq]
    omega

inductive Fault where
  /-- std::invalid_argument -/
  | invalidArgument (what : String)
  /-- std::logic_error -/
  | logicError (what : String)
  /-- std::length_error from `std::vector::reserve` -/
  | lengthError
  /-- std::bad_alloc -/
  | badAlloc
  /-- std::bad_cast -/
  | badCast
  /-- `BEncodeException`, a typedef of std::runtime_error -/
  | bencode (what : String)
  /-- `MalformedMessageException` -/
  | malformed (what : String)
  /-- a failed `assert` -/
  | assertion (expr : String)
  /-- undefined behaviour: an access outside an object, or through a null pointer -/
  | undefined (what : String)
  /-- a local array that the call stack has no room for -/
  | stackOverflow
  deriving DecidableEq, Repr

/-- The faults that are C++ exceptions, as opposed to an abort, undefined behaviour or a stack
overflow. -/
def Fault.isException : Fault → Bool
  | .assertion _ | .undefined _ | .stackOverflow => false
  | _ => true

abbrev Fallible := Except Fault

/-- `assert(condition)`. -/
def check (condition : Bool) (expr : String) : Fallible Unit :=
  if condition then .ok () else .error (.assertion expr)

@[simp] theorem ok_bind {α β : Type} (a : α) (f : α → Fallible β) :
    ((Except.ok a : Fallible α) >>= f) = f a := rfl

@[simp] theorem error_bind {α β : Type} (e : Fault) (f : α → Fallible β) :
    ((Except.error e : Fallible α) >>= f) = .error e := rfl

theorem bind_eq_ok {α β : Type} {x : Fallible α} {f : α → Fallible β} {b : β} :
    (x >>= f) = .ok b ↔ ∃ a, x = .ok a ∧ f a = .ok b := by
  cases x <;> simp

@[simp] theorem check_true (expr : String) : check true expr = .ok () := rfl

@[simp] theorem check_false (expr : String) : check false expr = .error (.assertion expr) := rfl

/-- Every way to fail is one of `allowed`. -/
def Raises {α : Type} (allowed : Fault → Prop) (x : Fallible α) : Prop :=
  ∀ fault, x = .error fault → allowed fault

/-- No exception is thrown, though an assertion may fail or an access go wrong. -/
abbrev NoException {α : Type} (x : Fallible α) : Prop := Raises (fun fault => fault.isException = false) x

section Raises

variable {α β : Type} {allowed : Fault → Prop}

theorem Raises.ok (a : α) : Raises allowed (.ok a) := by
  intro fault failed
  cases failed

theorem Raises.error {fault : Fault} (h : allowed fault) : Raises allowed (.error fault : Fallible α) := by
  intro fault' failed
  cases failed
  exact h

theorem Raises.bind {x : Fallible α} {f : α → Fallible β} (first : Raises allowed x)
    (later : ∀ a, x = .ok a → Raises allowed (f a)) : Raises allowed (x >>= f) := by
  cases x with
  | ok a => exact later a rfl
  | error fault => exact Raises.error (first fault rfl)

theorem NoException.check (condition : Bool) (expr : String) :
    NoException (Source.check condition expr) := by
  cases condition with
  | true => exact Raises.ok ()
  | false => exact Raises.error rfl

end Raises

/-- The octets of a string constant of the source. -/
def ascii (s : String) : Buffer := s.toList.map fun c => UInt8.ofNat c.toNat

/-- `std::vector::resize`. -/
def resize (size : Nat) (b : Buffer) : Buffer := b.take size ++ List.replicate (size - b.length) 0

@[simp] theorem resize_length (size : Nat) (b : Buffer) : (resize size b).length = size := by
  simp only [resize, List.length_append, List.length_take, List.length_replicate]
  omega

theorem resize_of_le {size : Nat} {b : Buffer} (shrinks : size ≤ b.length) :
    resize size b = b.take size := by
  rw [resize, Nat.sub_eq_zero_of_le shrinks, List.replicate_zero, List.append_nil]

/-- What plain `char` promotes to. -/
def charValue (host : Host) (c : UInt8) : Int :=
  if host.charIsSigned && 128 ≤ c.toNat then Int.ofNat c.toNat - 256 else Int.ofNat c.toNat

/-- What `uint8_t` promotes to. -/
def octetValue (b : UInt8) : Int := Int.ofNat b.toNat

theorem charValue_of_lt (host : Host) {c : UInt8} (small : c.toNat < 128) :
    charValue host c = octetValue c := by
  have notHigh : ¬ 128 ≤ c.toNat := by omega
  simp [charValue, octetValue, notHigh]

/-- utils/Buffer.cpp: `operator==` of a buffer and a string compares promoted elements. -/
def bufferEq (host : Host) (buff str : Buffer) : Bool :=
  if buff.length ≠ str.length then false
  else (buff.zip str).all fun p => octetValue p.1 == charValue host p.2

/-- An octet and a character compare equal exactly if they are the same octet and the
character is not negative. -/
theorem octetValue_eq_charValue (host : Host) (b c : UInt8) :
    octetValue b = charValue host c ↔ b = c ∧ (host.charIsSigned = true → c.toNat < 128) := by
  have octet := b.toNat_lt
  have octet' := c.toNat_lt
  rw [← UInt8.toNat_inj]
  unfold octetValue charValue
  cases host.charIsSigned with
  | false => simp
  | true =>
    simp only [Bool.true_and, decide_eq_true_eq, forall_const]
    split
    · next negative =>
      simp only [Int.ofNat_eq_natCast]
      omega
    · next plain =>
      simp only [Int.ofNat_eq_natCast]
      omega

/-- The comparison holds exactly for equal octets none of which is a negative character. -/
theorem bufferEq_iff (host : Host) (buff str : Buffer) :
    bufferEq host buff str = true ↔
      buff = str ∧ (host.charIsSigned = true → ∀ c ∈ str, c.toNat < 128) := by
  unfold bufferEq
  split
  · next differ =>
    constructor
    · intro impossible
      cases impossible
    · rintro ⟨rfl, -⟩
      exact absurd rfl differ
  · next length =>
    induction buff generalizing str with
    | nil =>
      have empty : str = [] := List.eq_nil_of_length_eq_zero (not_not.mp length).symm
      simp [empty]
    | cons b buff ih =>
      cases str with
      | nil => simp at length
      | cons c str =>
        have rest := ih str (by simpa using length)
        rw [List.zip_cons_cons, List.all_cons, Bool.and_eq_true, rest, beq_iff_eq,
          octetValue_eq_charValue, List.cons.injEq]
        simp only [List.forall_mem_cons]
        tauto

/-- Against a string of 7-bit characters the comparison is equality. -/
theorem bufferEq_ascii (host : Host) (buff str : Buffer)
    (plain : ∀ c ∈ str, c.toNat < 128) : bufferEq host buff str = true ↔ buff = str := by
  rw [bufferEq_iff]
  exact and_iff_left fun _ => plain

/-- Octet reversal of a 32-bit word. -/
def swap32 (x : BitVec 32) : BitVec 32 :=
  BitVec.ofNat 32 (BigEndian.value (BigEndian.bytes 4 x.toNat).reverse)

/-- Octet reversal of a 16-bit word. -/
def swap16 (x : BitVec 16) : BitVec 16 :=
  BitVec.ofNat 16 (BigEndian.value (BigEndian.bytes 2 x.toNat).reverse)

def htonl (host : Host) (x : BitVec 32) : BitVec 32 :=
  match host.endian with
  | .little => swap32 x
  | .big => x

def ntohl (host : Host) (x : BitVec 32) : BitVec 32 := htonl host x

def htons (host : Host) (x : BitVec 16) : BitVec 16 :=
  match host.endian with
  | .little => swap16 x
  | .big => x

def ntohs (host : Host) (x : BitVec 16) : BitVec 16 := htons host x

/-- The 32-bit word stored in four octets, read in host byte order. -/
def load32 (host : Host) (octets : Buffer) : BitVec 32 :=
  match host.endian with
  | .little => BitVec.ofNat 32 (BigEndian.value octets.reverse)
  | .big => BitVec.ofNat 32 (BigEndian.value octets)

theorem value_toNat (w : Nat) (octets : Buffer) (length : 2 ^ w = 256 ^ octets.length) :
    (BitVec.ofNat w (BigEndian.value octets)).toNat = BigEndian.value octets := by
  rw [BitVec.toNat_ofNat, length]
  exact Nat.mod_eq_of_lt (BigEndian.value_lt octets)

theorem swap32_swap32 (x : BitVec 32) : swap32 (swap32 x) = x := by
  apply BitVec.eq_of_toNat_eq
  have inner := value_toNat 32 (BigEndian.bytes 4 x.toNat).reverse (by simp)
  unfold swap32
  rw [inner, BigEndian.bytes_value_of_length 4 _ (by simp), List.reverse_reverse,
    value_toNat 32 _ (by simp), BigEndian.value_bytes]
  exact Nat.mod_eq_of_lt x.isLt

theorem swap16_swap16 (x : BitVec 16) : swap16 (swap16 x) = x := by
  apply BitVec.eq_of_toNat_eq
  have inner := value_toNat 16 (BigEndian.bytes 2 x.toNat).reverse (by simp)
  unfold swap16
  rw [inner, BigEndian.bytes_value_of_length 2 _ (by simp), List.reverse_reverse,
    value_toNat 16 _ (by simp), BigEndian.value_bytes]
  exact Nat.mod_eq_of_lt x.isLt

@[simp] theorem ntohl_htonl (host : Host) (x : BitVec 32) : ntohl host (htonl host x) = x := by
  unfold ntohl htonl
  cases host.endian
  · exact swap32_swap32 x
  · rfl

@[simp] theorem htonl_ntohl (host : Host) (x : BitVec 32) : htonl host (ntohl host x) = x :=
  ntohl_htonl host x

@[simp] theorem ntohs_htons (host : Host) (x : BitVec 16) : ntohs host (htons host x) = x := by
  unfold ntohs htons
  cases host.endian
  · exact swap16_swap16 x
  · rfl

@[simp] theorem htons_ntohs (host : Host) (x : BitVec 16) : htons host (ntohs host x) = x :=
  ntohs_htons host x

/-- On either byte order `htonl` of a loaded word is the big-endian number. -/
theorem htonl_load32 (host : Host) (octets : Buffer) (length : octets.length = 4) :
    (htonl host (load32 host octets)).toNat = BigEndian.value octets := by
  unfold htonl load32
  cases host.endian
  · unfold swap32
    rw [value_toNat 32 octets.reverse (by simp [length]),
      BigEndian.bytes_value_of_length 4 _ (by simp [length]), List.reverse_reverse,
      value_toNat 32 octets (by simp [length])]
  · exact value_toNat 32 octets (by simp [length])

end TorrentSync.Source
