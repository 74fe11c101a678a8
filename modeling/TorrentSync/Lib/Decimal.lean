import Mathlib.Data.List.Induction
import Mathlib.Data.List.TakeWhile
import Mathlib.Tactic.IntervalCases

/-!
# Decimal numbers in octets

`digits n` is the decimal form of `n` as ASCII octets, and `ofDigits` reads such a
form back. A decimal form followed by anything that is not a digit is delimited by
`takeWhile isDigit`.
-/
namespace TorrentSync.Lib.Decimal

/-- The decimal form of a number, most significant digit first. -/
def digits (n : Nat) : List UInt8 := (Nat.toDigits 10 n).map fun c => UInt8.ofNat c.toNat

def isDigit (b : UInt8) : Bool := 48 ≤ b.toNat && b.toNat ≤ 57

/-- The number a run of digits stands for. -/
def ofDigits (octets : List UInt8) : Nat := octets.foldl (fun n b => 10 * n + (b.toNat - 48)) 0

private theorem digit_octet (d : Nat) (small : d < 10) :
    UInt8.ofNat (Nat.digitChar d).toNat = UInt8.ofNat (48 + d) := by
  interval_cases d <;> rfl

/-- The last digit comes off the end. -/
theorem digits_eq (n : Nat) :
    digits n = (if n < 10 then [] else digits (n / 10)) ++ [UInt8.ofNat (48 + n % 10)] := by
  simp only [digits]
  rw [Nat.toDigits_eq_if (by decide)]
  split
  · next small => simp [digit_octet n small, Nat.mod_eq_of_lt small]
  · simp [digit_octet (n % 10) (Nat.mod_lt n (by decide))]

private theorem digit_toNat (n : Nat) : (UInt8.ofNat (48 + n % 10)).toNat = 48 + n % 10 := by
  have small : 48 + n % 10 < 256 := by omega
  simpa using small

theorem digits_isDigit (n : Nat) : ∀ b ∈ digits n, isDigit b = true := by
  induction n using Nat.strongRecOn with
  | ind n ih =>
    intro b member
    rw [digits_eq, List.mem_append, List.mem_singleton] at member
    rcases member with earlier | rfl
    · split at earlier
      · cases earlier
      · exact ih (n / 10) (by omega) b earlier
    · simp only [isDigit, digit_toNat, Bool.and_eq_true, decide_eq_true_eq]
      omega

@[simp] theorem ofDigits_digits (n : Nat) : ofDigits (digits n) = n := by
  induction n using Nat.strongRecOn with
  | ind n ih =>
    rw [digits_eq]
    split
    · next small =>
      simp only [ofDigits, List.nil_append, List.foldl_cons, List.foldl_nil, digit_toNat]
      omega
    · next large =>
      have earlier := ih (n / 10) (by omega)
      rw [ofDigits] at earlier
      simp only [ofDigits, List.foldl_append, earlier, List.foldl_cons, List.foldl_nil, digit_toNat]
      omega

theorem digits_ne_nil (n : Nat) : digits n ≠ [] := by
  simp [digits, Nat.toDigits_ne_nil]

/-- Zeros in front included, there are as many digits as the number needs. -/
theorem ofDigits_lt {octets : List UInt8} (all : ∀ b ∈ octets, isDigit b = true) :
    ofDigits octets < 10 ^ octets.length := by
  induction octets using List.reverseRecOn with
  | nil => exact Nat.one_pos
  | append_singleton octets b ih =>
    have before := ih fun c member => all c (List.mem_append_left _ member)
    have last : isDigit b = true := all b (by simp)
    simp only [isDigit, Bool.and_eq_true, decide_eq_true_eq] at last
    have next : ofDigits (octets ++ [b]) = 10 * ofDigits octets + (b.toNat - 48) := by
      simp [ofDigits]
    rw [next, List.length_append, List.length_singleton, Nat.pow_succ]
    omega

/-- A number below `10 ^ k` has at most `k` digits. -/
theorem digits_length_le (n k : Nat) (positive : 0 < k) :
    (digits n).length ≤ k ↔ n < 10 ^ k := by
  rw [digits, List.length_map]
  exact Nat.length_toDigits_le_iff (by decide) positive

end TorrentSync.Lib.Decimal
