import Mathlib.Data.List.TakeWhile
import TorrentSync.Lib.PrefixRange

/-!
# Distance by XOR

The XOR of two numbers as their distance. Numbers of the aligned block of `2 ^ k` numbers
around `x` are nearer to `x` than any number outside it, whatever the numeric order says.
For numbers of fixed width these blocks are the prefix ranges, so that a longer shared
prefix is a smaller distance.
-/
namespace TorrentSync.Lib.XorDistance

theorem xor_lt_block_iff (k x a : Nat) : a ^^^ x < 2 ^ k ↔ a / 2 ^ k = x / 2 ^ k := by
  rw [← Nat.div_eq_zero_iff_lt (Nat.two_pow_pos k), Nat.xor_div_two_pow, Nat.xor_eq_zero_iff]

theorem xor_lt_of_block {k x a b : Nat} (inside : a / 2 ^ k = x / 2 ^ k)
    (outside : b / 2 ^ k ≠ x / 2 ^ k) : a ^^^ x < b ^^^ x :=
  lt_of_lt_of_le ((xor_lt_block_iff k x a).mpr inside)
    (Nat.le_of_not_lt fun near => outside ((xor_lt_block_iff k x b).mp near))

/-- No two numbers are at the same distance from `x`. -/
theorem xor_injective (x : Nat) {a b : Nat} (same : a ^^^ x = b ^^^ x) : a = b :=
  Nat.xor_left_injective same

/-- How many bits `a` and `x` have in common before the first that differs. -/
def sharedPrefix (w a x : Nat) : Nat :=
  ((List.range w).takeWhile fun i => PrefixRange.bit w a i == PrefixRange.bit w x i).length

theorem le_sharedPrefix_iff {w a x n : Nat} (inside : n ≤ w) :
    n ≤ sharedPrefix w a x ↔ ∀ i < n, PrefixRange.bit w a i = PrefixRange.bit w x i := by
  unfold sharedPrefix
  constructor
  · intro long i below
    have found := List.mem_takeWhile_imp (List.getElem_mem (below.trans_le long))
    rw [beq_iff_eq, (List.takeWhile_prefix _).getElem, List.getElem_range] at found
    exact found
  · intro agree
    have split : List.range w = List.range n ++ (List.range (w - n)).map (n + ·) := by
      rw [← List.range_add, Nat.add_sub_cancel' inside]
    rw [split, List.takeWhile_append_of_pos, List.length_append, List.length_range]
    · exact Nat.le_add_right _ _
    · intro i member
      exact beq_iff_eq.mpr (agree i (List.mem_range.mp member))

/-- A number that shares a longer prefix with `x` is nearer to it. -/
theorem xor_lt_of_sharedPrefix {w x a b : Nat} (fits : x < 2 ^ w) (fitsA : a < 2 ^ w)
    (fitsB : b < 2 ^ w) (longer : sharedPrefix w b x < sharedPrefix w a x) :
    a ^^^ x < b ^^^ x := by
  have inside : sharedPrefix w a x ≤ w := by
    unfold sharedPrefix
    exact (List.takeWhile_prefix _).length_le.trans_eq List.length_range
  have block : ∀ c < 2 ^ w, c / 2 ^ (w - sharedPrefix w a x) = x / 2 ^ (w - sharedPrefix w a x) ↔
      sharedPrefix w a x ≤ sharedPrefix w c x := by
    intro c fitsC
    rw [← PrefixRange.mem_own_iff_div, PrefixRange.mem_own_iff w x _ c fits fitsC,
      le_sharedPrefix_iff inside]
  apply xor_lt_of_block ((block a fitsA).mpr le_rfl)
  rw [Ne, block b fitsB]
  exact Nat.not_le.mpr longer

end TorrentSync.Lib.XorDistance
