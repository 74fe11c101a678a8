import TorrentSync.Lib.BigEndian
import Mathlib.Tactic.IntervalCases

/-!
# Hexadecimal numbers in octets

Hexadecimal digits as ASCII octets, read in either case and written in lower case.
`field width n` has a fixed number of digits; it is the form that padding with zeros
gives, and for twice as many digits as octets it is the big-endian octet string with
each octet in two digits.
-/
namespace TorrentSync.Lib.Hexadecimal

def isDigit (c : UInt8) : Bool :=
  (48 ≤ c.toNat && c.toNat ≤ 57) || (65 ≤ c.toNat && c.toNat ≤ 70) ||
  (97 ≤ c.toNat && c.toNat ≤ 102)

/-- What a digit stands for. -/
def digitValue (c : UInt8) : Nat :=
  if c.toNat ≤ 57 then c.toNat - 48 else if c.toNat ≤ 70 then c.toNat - 55 else c.toNat - 87

/-- The number a run of digits stands for. -/
def ofDigits (octets : List UInt8) : Nat := octets.foldl (fun n c => 16 * n + digitValue c) 0

/-- The digit for a number below 16. -/
def digit (v : Nat) : UInt8 := UInt8.ofNat (Nat.digitChar v).toNat

/-- `tolower` in the classic locale. -/
def lower (c : UInt8) : UInt8 :=
  if 65 ≤ c.toNat && c.toNat ≤ 90 then UInt8.ofNat (c.toNat + 32) else c

/-- The two digits of an octet. -/
def pair (b : UInt8) : List UInt8 := [digit (b.toNat / 16), digit (b.toNat % 16)]

/-- The `width` low-order digits of a number, most significant first. -/
def field : Nat → Nat → List UInt8
  | 0, _ => []
  | width + 1, n => digit (n / 16 ^ width % 16) :: field width n

theorem isDigit_digit {v : Nat} (small : v < 16) : isDigit (digit v) = true := by
  interval_cases v <;> rfl

theorem digitValue_digit {v : Nat} (small : v < 16) : digitValue (digit v) = v := by
  interval_cases v <;> rfl

theorem digitValue_lt {c : UInt8} (digit : isDigit c = true) : digitValue c < 16 := by
  simp only [isDigit, Bool.or_eq_true, Bool.and_eq_true, decide_eq_true_eq] at digit
  unfold digitValue
  split
  · omega
  · split <;> omega

/-- Writing a digit that was read puts it in lower case. -/
theorem digit_digitValue {c : UInt8} (isDigit : isDigit c = true) : digit (digitValue c) = lower c := by
  have checked : ∀ n < 256, Hexadecimal.isDigit (UInt8.ofNat n) = true →
      digit (digitValue (UInt8.ofNat n)) = lower (UInt8.ofNat n) := by decide +kernel
  have own := checked c.toNat c.toNat_lt
  rw [UInt8.ofNat_toNat] at own
  exact own isDigit

theorem ofDigits_two (c d : UInt8) : ofDigits [c, d] = 16 * digitValue c + digitValue d := by
  simp [ofDigits]

theorem ofDigits_pair (b : UInt8) : ofDigits (pair b) = b.toNat := by
  have octet : b.toNat < 256 := b.toNat_lt
  rw [pair, ofDigits_two, digitValue_digit (by omega), digitValue_digit (Nat.mod_lt _ (by decide))]
  exact Nat.div_add_mod b.toNat 16

theorem isDigit_pair (b : UInt8) : ∀ c ∈ pair b, isDigit c = true := by
  have octet : b.toNat < 256 := b.toNat_lt
  intro c member
  simp only [pair, List.mem_cons, List.not_mem_nil, or_false] at member
  rcases member with rfl | rfl
  · exact isDigit_digit (by omega)
  · exact isDigit_digit (Nat.mod_lt _ (by decide))

/-- The two digits of the octet that two digits stand for are those digits in lower case. -/
theorem pair_ofDigits {c d : UInt8} (first : isDigit c = true) (second : isDigit d = true) :
    pair (UInt8.ofNat (ofDigits [c, d])) = [lower c, lower d] := by
  have high := digitValue_lt first
  have low := digitValue_lt second
  have octet : (UInt8.ofNat (16 * digitValue c + digitValue d)).toNat =
      16 * digitValue c + digitValue d := by
    rw [UInt8.toNat_ofNat']
    exact Nat.mod_eq_of_lt (by omega)
  rw [ofDigits_two, pair, octet, ← digit_digitValue first, ← digit_digitValue second]
  congr 2
  · omega
  · congr 1
    omega

/-! ## Fields of fixed width -/

/-- Two digits an octet. -/
theorem field_bytes (width n : Nat) :
    field (2 * width) n = (BigEndian.bytes width n).flatMap pair := by
  induction width with
  | zero => rfl
  | succ width ih =>
    have octet : (UInt8.ofNat (n / 256 ^ width)).toNat = n / 256 ^ width % 256 := by simp
    have power : 256 ^ width = 16 ^ (2 * width) := by
      rw [Nat.pow_mul]
    rw [Nat.mul_add_one, field, field, ih, BigEndian.bytes, List.flatMap_cons, pair, octet, power,
      Nat.pow_succ, ← Nat.div_div_eq_div_mul]
    simp only [List.cons_append, List.nil_append, List.cons.injEq, and_true]
    constructor
    · congr 1
      omega
    · congr 1
      omega

/-- The last digit comes off the end. -/
theorem field_succ (width n : Nat) : field (width + 1) n = field width (n / 16) ++ [digit (n % 16)] := by
  induction width with
  | zero => simp [field]
  | succ width ih =>
    rw [field, ih, field, Nat.div_div_eq_div_mul, ← Nat.pow_succ', List.cons_append]

theorem field_zero (width : Nat) : field width 0 = List.replicate width 48 := by
  induction width with
  | zero => rfl
  | succ width ih =>
    rw [field, ih, Nat.zero_div, List.replicate_succ]
    rfl

/-- A number in hexadecimal, padded with zeros on the left. -/
theorem field_toDigits {width n : Nat} (positive : 0 < width) (fits : n < 16 ^ width) :
    List.replicate (width - (Nat.toDigits 16 n).length) 48 ++
      (Nat.toDigits 16 n).map (fun c => UInt8.ofNat c.toNat) = field width n := by
  induction width generalizing n with
  | zero => cases positive
  | succ width ih =>
    rw [Nat.toDigits_eq_if (by decide), field_succ]
    split
    · next small =>
      rw [Nat.div_eq_of_lt small, field_zero, Nat.mod_eq_of_lt small]
      rfl
    · next large =>
      have shorter : n / 16 < 16 ^ width := by
        rw [Nat.pow_succ] at fits
        omega
      have wide : 0 < width := by
        rcases Nat.eq_zero_or_pos width with rfl | wide
        · simp at fits
          omega
        · exact wide
      rw [← ih wide shorter, List.length_append, List.length_singleton, Nat.add_sub_add_right,
        List.map_append, ← List.append_assoc]
      rfl

end TorrentSync.Lib.Hexadecimal
