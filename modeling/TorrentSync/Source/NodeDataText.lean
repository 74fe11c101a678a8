import TorrentSync.Source.Buffer
import TorrentSync.Source.NodeDataCodec

/-!
# NodeData as hexadecimal text

`string` writes each octet of `write` as two digits, and `parseIDFromHex` reads two
digits as an octet, so the text is a fourth codec that agrees with the constructor,
`read` and `write`.
-/
namespace TorrentSync.Source

open Lib

/-! ## Parsing -/

/-- A hexadecimal digit is neither a blank nor a sign. -/
theorem hexDigit_plain {c : UInt8} (digit : Hexadecimal.isDigit c = true) :
    Istream.isSpace c = false ∧ c ≠ 45 ∧ c ≠ 43 := by
  have checked : ∀ n < 256, Hexadecimal.isDigit (UInt8.ofNat n) = true →
      Istream.isSpace (UInt8.ofNat n) = false ∧ UInt8.ofNat n ≠ 45 ∧ UInt8.ofNat n ≠ 43 := by
    decide +kernel
  have own := checked c.toNat c.toNat_lt
  rw [UInt8.ofNat_toNat] at own
  exact own digit

theorem parsePair_digits {c d : UInt8} (first : Hexadecimal.isDigit c = true)
    (second : Hexadecimal.isDigit d = true) :
    parsePair [c, d] = .ok (UInt8.ofNat (Hexadecimal.ofDigits [c, d])) := by
  obtain ⟨notBlank, notMinus, notPlus⟩ := hexDigit_plain first
  have extracted : extractHex [c, d] = some (Int.ofNat (Hexadecimal.ofDigits [c, d])) := by
    simp [extractHex, notBlank, notMinus, notPlus, first, second]
  simp only [parsePair, extracted]
  rw [Int.ofNat_eq_natCast, toOctet_natCast]

/-- An even number of digits gives the octets that are those digits in lower case. -/
theorem parsePairs_digits (str : Buffer) (even : str.length % 2 = 0)
    (digits : ∀ c ∈ str, Hexadecimal.isDigit c = true) :
    ∃ buff, parsePairs str = .ok buff ∧
      buff.flatMap Hexadecimal.pair = str.map Hexadecimal.lower := by
  induction str using parsePairs.induct with
  | case1 => exact ⟨[], rfl, rfl⟩
  | case2 c => simp at even
  | case3 c d str ih =>
    have first : Hexadecimal.isDigit c = true := digits c (by simp)
    have second : Hexadecimal.isDigit d = true := digits d (by simp)
    have shorter : str.length % 2 = 0 := by
      simp only [List.length_cons] at even
      omega
    obtain ⟨buff, run, text⟩ := ih shorter fun e member => digits e (by simp [member])
    refine ⟨UInt8.ofNat (Hexadecimal.ofDigits [c, d]) :: buff, ?_, ?_⟩
    · simp only [parsePairs, parsePair_digits first second, run, ok_bind]
    · rw [List.flatMap_cons, Hexadecimal.pair_ofDigits first second, text]
      rfl

/-- The digits of octets are read back as the octets. -/
theorem parsePairs_pairs (buff : Buffer) :
    parsePairs (buff.flatMap Hexadecimal.pair) = .ok buff := by
  induction buff with
  | nil => rfl
  | cons b buff ih =>
    have digits := Hexadecimal.isDigit_pair b
    have pair : parsePair (Hexadecimal.pair b) = .ok b := by
      have parsed := parsePair_digits (digits _ (List.mem_cons_self))
        (digits _ (List.mem_cons_of_mem _ List.mem_cons_self))
      have value := Hexadecimal.ofDigits_pair b
      unfold Hexadecimal.pair at value ⊢
      rw [parsed, value, UInt8.ofNat_toNat]
    unfold Hexadecimal.pair at pair
    rw [List.flatMap_cons]
    simp only [Hexadecimal.pair, List.cons_append, List.nil_append, parsePairs, pair, ok_bind]
    rw [ih, ok_bind]

theorem pairs_length (buff : Buffer) : (buff.flatMap Hexadecimal.pair).length = 2 * buff.length := by
  induction buff with
  | nil => rfl
  | cons b buff ih =>
    rw [List.flatMap_cons, List.length_append, ih]
    simp only [Hexadecimal.pair, List.length_cons, List.length_nil]
    omega

theorem parseIDFromHex_pairs (buff : Buffer) :
    parseIDFromHex (buff.flatMap Hexadecimal.pair) = .ok buff := by
  have even : (buff.flatMap Hexadecimal.pair).length % 2 = 0 := by
    rw [pairs_length]
    omega
  simp only [parseIDFromHex, even, decide_true, check_true, ok_bind, parsePairs_pairs]

namespace NodeData

/-! ## Writing -/

theorem ascii_hexField {width n : Nat} (positive : 0 < width) (fits : n < 16 ^ width) :
    (hexField width n).map (fun c => UInt8.ofNat c.toNat) = Hexadecimal.field width n := by
  rw [← Hexadecimal.field_toDigits positive fits, hexField, List.map_append, List.map_replicate]
  rfl

/-- `string` is the octets of `write` in two digits each. -/
theorem ascii_string (a : NodeData) : ascii a.string = a.write.flatMap Hexadecimal.pair := by
  have word₁ := Hexadecimal.field_bytes 8 a.p1.toNat
  have word₂ := Hexadecimal.field_bytes 8 a.p2.toNat
  have word₃ := Hexadecimal.field_bytes 4 a.p3.toNat
  rw [write_eq, List.flatMap_append, List.flatMap_append, ← word₁, ← word₂, ← word₃, ascii, string,
    String.toList_ofList, List.map_append, List.map_append,
    ascii_hexField (by decide) a.p1.isLt, ascii_hexField (by decide) a.p2.isLt,
    ascii_hexField (by decide) a.p3.isLt]

/-! ## The codecs together -/

/-- The buffer constructor, `read`, `write`, `string` and `parseIDFromHex` agree on either
byte order, the first two refuse any other length, and a text of 40 digits is
written back in lower case. -/
theorem codecs_agree (host : Host) :
    (∀ b : Buffer, b.length = 20 → ∃ a, ofBuffer host b = .ok a ∧ read b = .ok a ∧ a.write = b ∧
      parseIDFromHex (ascii a.string) = .ok b) ∧
    (∀ b : Buffer, b.length ≠ 20 → ∃ what, ofBuffer host b = .error (.invalidArgument what)) ∧
    (∀ range : Buffer, range.length < 20 → ∃ what, read range = .error (.invalidArgument what)) ∧
    (∀ s : Buffer, s.length = 40 → (∀ c ∈ s, Hexadecimal.isDigit c = true) →
      ∃ b a, parseIDFromHex s = .ok b ∧ ofBuffer host b = .ok a ∧
        ascii a.string = s.map Hexadecimal.lower) := by
  refine ⟨?_, fun b length => ⟨_, ofBuffer_wrong_length host length⟩,
    fun range short => ⟨_, read_short short⟩, ?_⟩
  · intro b length
    obtain ⟨a, built, written⟩ := ofBuffer_spec host length
    have reread := read_write a []
    rw [List.append_nil, written] at reread
    refine ⟨a, built, reread, written, ?_⟩
    rw [ascii_string, written, parseIDFromHex_pairs]
  · intro s length digits
    obtain ⟨b, parsed, text⟩ := parsePairs_digits s (by omega) digits
    have size : b.length = 20 := by
      have sizes := congrArg List.length text
      rw [pairs_length, List.length_map] at sizes
      omega
    obtain ⟨a, built, written⟩ := ofBuffer_spec host size
    refine ⟨b, a, ?_, built, ?_⟩
    · have even : s.length % 2 = 0 := by omega
      simp only [parseIDFromHex, even, decide_true, check_true, ok_bind, parsed]
    · rw [ascii_string, written, text]

theorem codecs_agree_x86 :
    (∃ a, ofBuffer Host.x86 (List.replicate 20 0xA7) = .ok a ∧
      read (List.replicate 20 0xA7) = .ok a ∧ a.write = List.replicate 20 0xA7 ∧
      parseIDFromHex (ascii a.string) = .ok (List.replicate 20 0xA7)) ∧
    (∃ what, ofBuffer Host.x86 [0xA7] = .error (.invalidArgument what)) ∧
    (∃ what, read [0xA7] = .error (.invalidArgument what)) ∧
    (∃ b a, parseIDFromHex (ascii "00112233445566778899aAbBcCdDeEfF01234567") = .ok b ∧
      ofBuffer Host.x86 b = .ok a ∧
      ascii a.string = (ascii "00112233445566778899aAbBcCdDeEfF01234567").map Hexadecimal.lower) :=
  ⟨(codecs_agree Host.x86).1 _ (by simp), (codecs_agree Host.x86).2.1 [0xA7] (by decide),
    (codecs_agree Host.x86).2.2.1 [0xA7] (by decide),
    (codecs_agree Host.x86).2.2.2 _ (by decide +kernel) (by decide +kernel)⟩

end NodeData
end TorrentSync.Source
