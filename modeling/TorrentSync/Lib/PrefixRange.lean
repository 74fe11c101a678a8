import Mathlib.Data.Nat.Bitwise
import Mathlib.Tactic.Ring
import TorrentSync.Lib.Tiling

/-!
# Aligned prefix ranges of fixed-width numbers

`own w t n` is the interval of the `w`-bit numbers that share their first `n`
bits with `t`. Its two halves are the range of `t` one bit deeper and the range
of the numbers that leave `t` at exactly that bit. `spine w t d` lists, in
numeric order, what remains after halving the range of `t` exactly `d` times.
-/
namespace TorrentSync.Lib.PrefixRange

open Tiling

/-- The `w`-bit numbers sharing their first `n` bits with `t`, as a closed interval. -/
def own (w t n : Nat) : Nat × Nat :=
  (t / 2 ^ (w - n) * 2 ^ (w - n), t / 2 ^ (w - n) * 2 ^ (w - n) + (2 ^ (w - n) - 1))

/-- `t` with bit `n` flipped, bits being counted from the most significant one. -/
def flip (w t n : Nat) : Nat := t ^^^ 2 ^ (w - 1 - n)

/-- The numbers sharing the first `n` bits with `t` and differing from it in the next. -/
def sibling (w t n : Nat) : Nat × Nat := own w (flip w t n) (n + 1)

/-- Bit `n` of a `w`-bit number, counted from the most significant one. -/
def bit (w x n : Nat) : Bool := x.testBit (w - 1 - n)

/-- The siblings numerically below `t` among the first `d` bits, in numeric order. -/
def leftOf (w t : Nat) : Nat → List (Nat × Nat)
  | 0 => []
  | d + 1 => if bit w t d then leftOf w t d ++ [sibling w t d] else leftOf w t d

/-- The siblings numerically above `t` among the first `d` bits, in numeric order. -/
def rightOf (w t : Nat) : Nat → List (Nat × Nat)
  | 0 => []
  | d + 1 => if bit w t d then rightOf w t d else sibling w t d :: rightOf w t d

/-- All ranges left by halving the range of `t` exactly `d` times. -/
def spine (w t d : Nat) : List (Nat × Nat) := leftOf w t d ++ own w t d :: rightOf w t d

theorem mem_own_iff_div (w t n x : Nat) :
    (own w t n).1 ≤ x ∧ x ≤ (own w t n).2 ↔ x / 2 ^ (w - n) = t / 2 ^ (w - n) := by
  have positive : 0 < 2 ^ (w - n) := Nat.two_pow_pos _
  rw [Nat.div_eq_iff positive]
  simp only [own]
  omega

/-- A prefix range is the prefix range of every number in it. -/
theorem own_eq_of_mem {w t n x : Nat} (member : (own w t n).1 ≤ x ∧ x ≤ (own w t n).2) :
    own w x n = own w t n := by
  rw [own, (mem_own_iff_div w t n x).mp member]
  rfl

/-- Membership in a prefix range is agreement on the first bits. -/
theorem mem_own_iff (w t n x : Nat) (fits : t < 2 ^ w) (fitsX : x < 2 ^ w) :
    (own w t n).1 ≤ x ∧ x ≤ (own w t n).2 ↔ ∀ i < n, bit w x i = bit w t i := by
  rw [mem_own_iff_div]
  constructor
  · intro same i below
    by_cases inside : i < w
    · have shifted := congrArg (fun q => Nat.testBit q (w - 1 - i - (w - n))) same
      simp only [Nat.testBit_div_two_pow] at shifted
      simp only [bit]
      rwa [show w - 1 - i - (w - n) + (w - n) = w - 1 - i by omega] at shifted
    · have head : bit w x i = bit w x (w - 1) ∧ bit w t i = bit w t (w - 1) := by
        simp only [bit, show w - 1 - i = 0 by omega, show w - 1 - (w - 1) = 0 by omega, and_self]
      have whole : w - n = 0 := by omega
      simp only [whole, pow_zero, Nat.div_one] at same
      rw [same]
  · intro agree
    apply Nat.eq_of_testBit_eq
    intro j
    simp only [Nat.testBit_div_two_pow]
    by_cases inside : j + (w - n) < w
    · have same := agree (w - 1 - (j + (w - n))) (by omega)
      simpa only [bit, show w - 1 - (w - 1 - (j + (w - n))) = j + (w - n) by omega] using same
    · have wide : 2 ^ w ≤ 2 ^ (j + (w - n)) := Nat.pow_le_pow_right (by decide) (by omega)
      rw [Nat.testBit_eq_false_of_lt (lt_of_lt_of_le fitsX wide),
        Nat.testBit_eq_false_of_lt (lt_of_lt_of_le fits wide)]

theorem flip_lt (w t n : Nat) (fits : t < 2 ^ w) (inside : n < w) : flip w t n < 2 ^ w :=
  Nat.xor_lt_two_pow fits (Nat.pow_lt_pow_right (by decide) (by omega))

theorem bit_flip_self (w t n : Nat) : bit w (flip w t n) n = !bit w t n := by
  simp [bit, flip, Nat.testBit_xor, Nat.testBit_two_pow_self]

theorem bit_flip_of_ne (w t n i : Nat) (inside : n < w) (insideI : i < w) (ne : i ≠ n) :
    bit w (flip w t n) i = bit w t i := by
  simp only [bit, flip, Nat.testBit_xor, Nat.testBit_two_pow]
  have apart : w - 1 - n ≠ w - 1 - i := by omega
  simp [apart]

/-- A sibling holds the numbers that leave `t` at exactly one given bit. -/
theorem mem_sibling_iff (w t n x : Nat) (fits : t < 2 ^ w) (fitsX : x < 2 ^ w) (inside : n < w) :
    (sibling w t n).1 ≤ x ∧ x ≤ (sibling w t n).2 ↔
      (∀ i < n, bit w x i = bit w t i) ∧ bit w x n ≠ bit w t n := by
  rw [sibling, mem_own_iff _ _ _ _ (flip_lt w t n fits inside) fitsX]
  constructor
  · intro agree
    refine ⟨fun i below => ?_, ?_⟩
    · rw [agree i (by omega), bit_flip_of_ne w t n i inside (by omega) (by omega)]
    · rw [agree n (by omega), bit_flip_self]
      simp
  · rintro ⟨agree, differ⟩ i below
    by_cases last : i = n
    · subst last
      rw [bit_flip_self]
      revert differ
      cases bit w x i <;> cases bit w t i <;> simp
    · rw [agree i (by omega), bit_flip_of_ne w t n i inside (by omega) last]

/-! ## Bit strings -/

/-- The number a string of bits spells, most significant bit first. -/
def bitString : List Bool → Nat
  | [] => 0
  | b :: bits => b.toNat * 2 ^ bits.length + bitString bits

theorem bitString_append (first second : List Bool) :
    bitString (first ++ second) = bitString first * 2 ^ second.length + bitString second := by
  induction first with
  | nil => simp [bitString]
  | cons b first ih =>
    simp only [List.cons_append, bitString, ih, List.length_append]
    ring

theorem bitString_lt (bits : List Bool) : bitString bits < 2 ^ bits.length := by
  induction bits with
  | nil => simp [bitString]
  | cons b bits ih =>
    have top : b.toNat * 2 ^ bits.length ≤ 2 ^ bits.length := by
      cases b <;> simp
    simp only [bitString, List.length_cons, pow_succ]
    omega

@[simp] theorem bitString_zeros (k : Nat) : bitString (List.replicate k false) = 0 := by
  induction k with
  | zero => rfl
  | succ k ih => simp [List.replicate_succ, bitString, ih]

@[simp] theorem bitString_ones (k : Nat) : bitString (List.replicate k true) = 2 ^ k - 1 := by
  induction k with
  | zero => rfl
  | succ k ih =>
    have positive : 0 < 2 ^ k := Nat.two_pow_pos k
    simp only [List.replicate_succ, bitString, ih, Bool.toNat_true, List.length_replicate, pow_succ]
    omega

/-! ## The two halves of a prefix range -/

/-- One more bit of the prefix halves the range. -/
theorem depth_succ (w n : Nat) (inside : n < w) :
    2 ^ (w - n) = 2 * 2 ^ (w - 1 - n) ∧ w - (n + 1) = w - 1 - n := by
  refine ⟨?_, by omega⟩
  rw [← pow_succ']
  congr 1
  omega

private theorem xor_one_eq (q : Nat) : q ^^^ 1 = if q % 2 = 1 then q - 1 else q + 1 := by
  have half : (q ^^^ 1) / 2 = q / 2 := by simp [Nat.xor_div_two]
  have parity : (q ^^^ 1) % 2 = (q + 1) % 2 := Nat.xor_mod_two_eq
  split <;> omega

private theorem flip_div (w t n : Nat) :
    flip w t n / 2 ^ (w - 1 - n) = t / 2 ^ (w - 1 - n) ^^^ 1 := by
  rw [flip, Nat.xor_div_two_pow, Nat.div_self (Nat.two_pow_pos _)]

/-- The lower and the upper half of the range of `t` at depth `n`. -/
def halves (w t n : Nat) : (Nat × Nat) × (Nat × Nat) :=
  (((own w t n).1, (own w t n).1 + (2 ^ (w - 1 - n) - 1)),
    ((own w t n).1 + 2 ^ (w - 1 - n), (own w t n).2))

theorem halves_congr {w t u n : Nat} (same : own w u n = own w t n) : halves w u n = halves w t n := by
  unfold halves
  rw [same]

/-- Of the two halves one continues towards `t` and the other is its sibling. -/
theorem halves_eq (w t n : Nat) (inside : n < w) :
    halves w t n =
      if bit w t n then (sibling w t n, own w t (n + 1)) else (own w t (n + 1), sibling w t n) := by
  obtain ⟨double, index⟩ := depth_succ w n inside
  have positive : 0 < 2 ^ (w - 1 - n) := Nat.two_pow_pos _
  have outer : t / (2 * 2 ^ (w - 1 - n)) = t / 2 ^ (w - 1 - n) / 2 := by
    rw [Nat.mul_comm, ← Nat.div_div_eq_div_mul]
  have parity : bit w t n = decide (t / 2 ^ (w - 1 - n) % 2 = 1) := by
    rw [bit, Nat.testBit_eq_decide_div_mod_eq]
  simp only [halves, sibling, own, double, index, outer, flip_div, xor_one_eq, parity,
    decide_eq_true_eq]
  generalize t / 2 ^ (w - 1 - n) = q
  generalize 2 ^ (w - 1 - n) = m at positive
  by_cases odd : q % 2 = 1
  · obtain ⟨k, rfl⟩ : ∃ k, q = 2 * k + 1 := ⟨q / 2, by omega⟩
    have half : (2 * k + 1) / 2 = k := by omega
    have grouped : k * (2 * m) = 2 * k * m := by ring
    have next : (2 * k + 1) * m = 2 * k * m + m := by ring
    simp only [if_pos odd, half, Nat.add_sub_cancel, grouped, next, Prod.mk.injEq, true_and]
    omega
  · obtain ⟨k, rfl⟩ : ∃ k, q = 2 * k := ⟨q / 2, by omega⟩
    have half : 2 * k / 2 = k := by omega
    have grouped : k * (2 * m) = 2 * k * m := by ring
    have next : (2 * k + 1) * m = 2 * k * m + m := by ring
    simp only [if_neg odd, half, grouped, next, Prod.mk.injEq, true_and]
    omega

theorem halves_cuts (w t n : Nat) (inside : n < w) :
    Cuts (own w t n) (halves w t n).1 (halves w t n).2 := by
  obtain ⟨double, -⟩ := depth_succ w n inside
  have positive : 0 < 2 ^ (w - 1 - n) := Nat.two_pow_pos _
  constructor <;> simp only [halves, own, double] <;> omega

/-- Halving the innermost range goes one level deeper along the spine. -/
theorem spine_succ (w t d : Nat) (inside : d < w) :
    spine w t (d + 1) =
      leftOf w t d ++ (halves w t d).1 :: (halves w t d).2 :: rightOf w t d := by
  rw [halves_eq w t d inside, spine, leftOf, rightOf]
  cases bit w t d <;> simp

theorem spine_tiles (w t d : Nat) (depth : d ≤ w) (fits : t < 2 ^ w) :
    Tiles id 0 (spine w t d) (2 ^ w) := by
  induction d with
  | zero =>
    have whole : t / 2 ^ w = 0 := Nat.div_eq_of_lt fits
    have positive : 0 < 2 ^ w := Nat.two_pow_pos _
    simp only [spine, leftOf, rightOf, own, Tiles, Nat.sub_zero, whole, List.nil_append, id]
    omega
  | succ d ih =>
    rw [spine_succ w t d (by omega)]
    exact tiles_cut (ih (by omega)) (halves_cuts w t d (by omega))

/-- The ranges left after `d` halvings are the `d` siblings and the range of `t`. -/
theorem spine_perm (w t d : Nat) :
    (spine w t d).Perm ((List.range d).map (sibling w t) ++ [own w t d]) := by
  have sides : (leftOf w t d ++ rightOf w t d).Perm ((List.range d).map (sibling w t)) := by
    induction d with
    | zero => exact List.Perm.refl _
    | succ d ih =>
      rw [List.range_succ, List.map_append, leftOf, rightOf]
      split
      · refine List.Perm.trans ?_ (ih.append_right _)
        simp only [List.map_cons, List.map_nil, List.append_assoc]
        exact List.Perm.append_left _ List.perm_append_comm
      · apply List.Perm.trans List.perm_middle
        exact (ih.cons _).trans (List.perm_append_singleton _ _).symm
  apply List.Perm.trans List.perm_middle
  exact (sides.cons _).trans (List.perm_append_singleton _ _).symm

/-- Every range of a spine is a prefix range. -/
theorem mem_spine (w t d : Nat) (depth : d ≤ w) {range : Nat × Nat} (member : range ∈ spine w t d) :
    ∃ u n, n ≤ w ∧ range = own w u n := by
  rcases List.mem_append.mp ((spine_perm w t d).mem_iff.mp member) with siblings | last
  · obtain ⟨i, inside, same⟩ := List.mem_map.mp siblings
    have below := List.mem_range.mp inside
    exact ⟨flip w t i, i + 1, by omega, same.symm⟩
  · exact ⟨t, d, depth, List.mem_singleton.mp last⟩

@[simp] theorem spine_length (w t d : Nat) : (spine w t d).length = d + 1 := by
  rw [(spine_perm w t d).length_eq]
  simp

end TorrentSync.Lib.PrefixRange
