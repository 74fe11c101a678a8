import Mathlib.Tactic.IntervalCases
import TorrentSync.Lib.PrefixRange
import TorrentSync.Source.NodeData

/-!
# NodeData as a 160-bit number

The word-by-word operators of NodeData.h agree with the order of `number`, and the bits
of its words are the bits of `number`. Most later modules use these facts only, never
the words themselves.
-/
namespace TorrentSync.Source.NodeData

open Lib

theorem number_lt (a : NodeData) : a.number < 2 ^ 160 := by
  have h1 := a.p1.isLt
  have h2 := a.p2.isLt
  have h3 := a.p3.isLt
  unfold number
  omega

theorem number_injective {a b : NodeData} (same : a.number = b.number) : a = b := by
  have a2 := a.p2.isLt
  have a3 := a.p3.isLt
  have b2 := b.p2.isLt
  have b3 := b.p3.isLt
  obtain ⟨p1, p2, p3⟩ := a
  obtain ⟨q1, q2, q3⟩ := b
  simp only [number] at same a2 a3 b2 b3
  congr 1 <;> apply BitVec.eq_of_toNat_eq <;> omega

/-- The identifier whose 160 bits are the number. -/
def ofNumber (n : Nat) : NodeData :=
  ⟨BitVec.ofNat 64 (n / 2 ^ 96), BitVec.ofNat 64 (n / 2 ^ 32), BitVec.ofNat 32 n⟩

theorem number_ofNumber {n : Nat} (fits : n < 2 ^ 160) : (ofNumber n).number = n := by
  simp only [ofNumber, number, BitVec.toNat_ofNat]
  omega

/-! ## Comparison operators -/

@[simp] theorem eq_iff (a b : NodeData) : a.eq b = true ↔ a = b := by
  obtain ⟨p1, p2, p3⟩ := a
  obtain ⟨q1, q2, q3⟩ := b
  simp [eq, and_assoc]

theorem eq_iff_number (a b : NodeData) : a.eq b = true ↔ a.number = b.number := by
  rw [eq_iff]
  exact ⟨congrArg number, number_injective⟩

theorem ne_iff (a b : NodeData) : a.ne b = true ↔ a ≠ b := by
  rw [Ne, ← eq_iff]
  simp only [ne, eq, Bool.or_eq_true, bne_iff_ne, Bool.and_eq_true, beq_iff_eq]
  tauto

@[simp] theorem lt_iff (a b : NodeData) : a.lt b = true ↔ a.number < b.number := by
  have a2 := a.p2.isLt
  have a3 := a.p3.isLt
  have b2 := b.p2.isLt
  have b3 := b.p3.isLt
  simp only [lt, number, Bool.or_eq_true, Bool.and_eq_true, decide_eq_true_eq, beq_iff_eq,
    BitVec.lt_def, ← BitVec.toNat_inj]
  omega

/-- The other three orders are put together from `operator<` and `operator==`. -/
theorem le_eq_lt_or_eq (a b : NodeData) : a.le b = (a.lt b || a.eq b) := rfl

theorem gt_eq_lt (a b : NodeData) : a.gt b = b.lt a := by
  unfold gt lt
  rw [BEq.comm (a := a.p1), BEq.comm (a := a.p2)]

theorem ge_eq_gt_or_eq (a b : NodeData) : a.ge b = (a.gt b || a.eq b) := rfl

@[simp] theorem le_iff (a b : NodeData) : a.le b = true ↔ a.number ≤ b.number := by
  rw [le_eq_lt_or_eq, Bool.or_eq_true, lt_iff, eq_iff_number, Nat.le_iff_lt_or_eq]

@[simp] theorem gt_iff (a b : NodeData) : a.gt b = true ↔ b.number < a.number := by
  rw [gt_eq_lt, lt_iff]

@[simp] theorem ge_iff (a b : NodeData) : a.ge b = true ↔ b.number ≤ a.number := by
  rw [ge_eq_gt_or_eq, Bool.or_eq_true, gt_iff, eq_iff_number, eq_comm, Nat.le_iff_lt_or_eq]

/-! ## Bits -/

/-- Bit `j` of the number, least significant first, read off the three words. -/
theorem number_testBit (a : NodeData) (j : Nat) :
    a.number.testBit j =
      if j < 32 then a.p3.getLsbD j
      else if j < 96 then a.p2.getLsbD (j - 32)
      else a.p1.getLsbD (j - 96) := by
  have h2 := a.p2.isLt
  have h3 := a.p3.isLt
  have tail : a.p2.toNat * 2 ^ 32 + a.p3.toNat < 2 ^ 96 := by omega
  have regroup : a.number = 2 ^ 96 * a.p1.toNat + (2 ^ 32 * a.p2.toNat + a.p3.toNat) := by
    unfold number
    ring
  rw [regroup, Nat.testBit_two_pow_mul_add _ (by omega), Nat.testBit_two_pow_mul_add _ h3]
  simp only [BitVec.getLsbD]
  by_cases low : j < 32
  · rw [if_pos (by omega), if_pos low, if_pos low]
  · by_cases mid : j < 96
    · rw [if_pos mid, if_neg low, if_neg low, if_pos mid]
    · rw [if_neg mid, if_neg low, if_neg mid]

theorem p1_getLsbD (a : NodeData) (i : Nat) : a.p1.getLsbD i = a.number.testBit (i + 96) := by
  rw [number_testBit, if_neg (by omega), if_neg (by omega), Nat.add_sub_cancel]

theorem p2_getLsbD (a : NodeData) (i : Nat) (inside : i < 64) :
    a.p2.getLsbD i = a.number.testBit (i + 32) := by
  rw [number_testBit, if_neg (by omega), if_pos (by omega), Nat.add_sub_cancel]

theorem p3_getLsbD (a : NodeData) (i : Nat) (inside : i < 32) :
    a.p3.getLsbD i = a.number.testBit i := by
  rw [number_testBit, if_pos inside]

/-- `operator^` is the XOR of the numbers. -/
theorem distance_number (a b : NodeData) : (a.distance b).number = a.number ^^^ b.number := by
  apply Nat.eq_of_testBit_eq
  intro j
  rw [Nat.testBit_xor]
  simp only [number_testBit, distance, BitVec.getLsbD_xor]
  split
  · rfl
  · split <;> rfl

/-- Two identifiers with the same 160 bits are the same. -/
theorem number_eq_of_testBit {a : NodeData} {n : Nat} (fits : n < 2 ^ 160)
    (same : ∀ j < 160, a.number.testBit j = n.testBit j) : a.number = n := by
  apply Nat.eq_of_testBit_eq
  intro j
  by_cases inside : j < 160
  · exact same j inside
  · have wide : 2 ^ 160 ≤ 2 ^ j := Nat.pow_le_pow_right (by decide) (by omega)
    rw [Nat.testBit_eq_false_of_lt (lt_of_lt_of_le a.number_lt wide),
      Nat.testBit_eq_false_of_lt (lt_of_lt_of_le fits wide)]

end TorrentSync.Source.NodeData
