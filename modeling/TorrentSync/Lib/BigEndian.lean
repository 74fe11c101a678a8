import Mathlib.Data.Nat.Bitwise
import Mathlib.Data.List.Basic
import Mathlib.Data.Nat.ModEq
import Mathlib.Tactic.Positivity
import Mathlib.Tactic.Ring

/-!
# Big-endian byte strings

The number a byte string denotes, most significant octet first, and the fixed
width byte string of a number. Both directions are total; the round trips say
exactly which information the width loses. The last section connects the two to
the shift-and-or accumulation that machine code uses on fixed-width words.
-/
namespace TorrentSync.Lib.BigEndian

/-- The number denoted by a byte string, continuing from an accumulator. -/
def valueFrom (acc : Nat) (bytes : List UInt8) : Nat :=
  bytes.foldl (fun a b => a * 256 + b.toNat) acc

/-- The number denoted by a byte string, most significant octet first. -/
def value (bytes : List UInt8) : Nat := valueFrom 0 bytes

/-- The `width` low-order octets of a number, most significant first. -/
def bytes : Nat → Nat → List UInt8
  | 0, _ => []
  | width + 1, n => UInt8.ofNat (n / 256 ^ width) :: bytes width n

@[simp] theorem valueFrom_nil (acc : Nat) : valueFrom acc [] = acc := rfl

@[simp] theorem valueFrom_cons (acc : Nat) (b : UInt8) (bs : List UInt8) :
    valueFrom acc (b :: bs) = valueFrom (acc * 256 + b.toNat) bs := rfl

@[simp] theorem bytes_length (width n : Nat) : (bytes width n).length = width := by
  induction width with
  | zero => rfl
  | succ width ih => simp [bytes, ih]

/-- An accumulator only contributes its shifted value. -/
theorem valueFrom_eq (acc : Nat) (bs : List UInt8) :
    valueFrom acc bs = acc * 256 ^ bs.length + value bs := by
  induction bs generalizing acc with
  | nil => simp [value]
  | cons b bs ih =>
    have tail : value (b :: bs) = b.toNat * 256 ^ bs.length + value bs := by
      rw [value, valueFrom_cons, ih, Nat.zero_mul, Nat.zero_add]
    rw [valueFrom_cons, ih, tail, List.length_cons, pow_succ]
    ring

theorem value_cons (b : UInt8) (bs : List UInt8) :
    value (b :: bs) = b.toNat * 256 ^ bs.length + value bs := by
  rw [value, valueFrom_cons, valueFrom_eq]
  simp

theorem value_append (xs ys : List UInt8) :
    value (xs ++ ys) = value xs * 256 ^ ys.length + value ys := by
  unfold value valueFrom
  rw [List.foldl_append]
  exact valueFrom_eq _ ys

theorem value_lt (bs : List UInt8) : value bs < 256 ^ bs.length := by
  induction bs with
  | nil => simp [value]
  | cons b bs ih =>
    rw [value_cons, List.length_cons, pow_succ]
    have octet : b.toNat < 256 := b.toNat_lt
    have bound : b.toNat * 256 ^ bs.length + 256 ^ bs.length ≤ 256 * 256 ^ bs.length := by
      rw [← Nat.succ_mul]
      exact Nat.mul_le_mul_right _ octet
    omega

/-- Writing keeps exactly the octets that fit in the width. -/
theorem value_bytes (width n : Nat) : value (bytes width n) = n % 256 ^ width := by
  induction width with
  | zero => simp [bytes, value, Nat.mod_one]
  | succ width ih =>
    rw [bytes, value_cons, ih, bytes_length, pow_succ, Nat.mod_mul]
    have octet : (UInt8.ofNat (n / 256 ^ width)).toNat = n / 256 ^ width % 256 := by simp
    rw [octet]
    ring

/-- Only the low-order octets of the number matter. -/
theorem bytes_add_mul (width n k : Nat) : bytes width (k * 256 ^ width + n) = bytes width n := by
  induction width generalizing k with
  | zero => rfl
  | succ width ih =>
    have regroup : k * 256 ^ (width + 1) + n = k * 256 * 256 ^ width + n := by ring
    rw [bytes, bytes, regroup, ih]
    congr 1
    apply UInt8.toNat_inj.mp
    simp only [UInt8.toNat_ofNat']
    rw [Nat.add_comm, Nat.add_mul_div_right _ _ (by positivity)]
    exact Nat.add_mul_mod_self_right _ _ _

/-- Reading loses nothing: every byte string is written back as it was. -/
theorem bytes_value (bs : List UInt8) : bytes bs.length (value bs) = bs := by
  induction bs with
  | nil => rfl
  | cons b bs ih =>
    have small := value_lt bs
    rw [value_cons, List.length_cons, bytes, bytes_add_mul, ih]
    congr 1
    apply UInt8.toNat_inj.mp
    rw [UInt8.toNat_ofNat', Nat.add_comm, Nat.add_mul_div_right _ _ (by positivity),
      Nat.div_eq_of_lt small, Nat.zero_add]
    exact Nat.mod_eq_of_lt b.toNat_lt

theorem bytes_value_of_length (width : Nat) (bs : List UInt8) (h : bs.length = width) :
    bytes width (value bs) = bs := by
  rw [← h]
  exact bytes_value bs

/-- A byte string is determined by its length and its number. -/
theorem value_injective (xs ys : List UInt8) (length : xs.length = ys.length)
    (same : value xs = value ys) : xs = ys := by
  rw [← bytes_value xs, ← bytes_value ys, length, same]

/-- Octet strings of one length are in lexicographic order as their numbers are. -/
theorem lt_iff_value_lt {xs ys : List UInt8} (length : xs.length = ys.length) :
    xs < ys ↔ value xs < value ys := by
  induction xs generalizing ys with
  | nil =>
    have empty : ys = [] := List.eq_nil_of_length_eq_zero length.symm
    simp [empty]
  | cons x xs ih =>
    cases ys with
    | nil => simp at length
    | cons y ys =>
      have same : xs.length = ys.length := by simpa using length
      have left := value_lt xs
      have right := value_lt ys
      rw [List.cons_lt_cons_iff, ih same, value_cons, value_cons, UInt8.lt_iff_toNat_lt,
        ← UInt8.toNat_inj, same]
      rw [same] at left
      generalize 256 ^ ys.length = weight at left right ⊢
      -- the first octet outweighs what follows
      have heavier : ∀ m n : Nat, m < n → m * weight + weight ≤ n * weight := fun m n less =>
        (Nat.succ_mul m weight).symm.trans_le (Nat.mul_le_mul_right weight less)
      rcases Nat.lt_trichotomy x.toNat y.toNat with less | equal | more
      · have step := heavier _ _ less
        omega
      · rw [equal]
        omega
      · have step := heavier _ _ more
        omega

/-! ## Shift-and-or accumulation on machine words -/

/-- The low octet of a word, as a narrowing conversion keeps it. -/
def lowByte {w : Nat} (x : BitVec w) : UInt8 := UInt8.ofBitVec (x.setWidth 8)

theorem lowByte_toNat {w : Nat} (x : BitVec w) : (lowByte x).toNat = x.toNat % 256 := by
  simp [lowByte]

/-- Shifting left by an octet and or-ing the next octet in appends it. -/
theorem shift_or_toNat {w : Nat} (acc : BitVec w) (b : UInt8) (wide : 8 ≤ w) :
    (acc <<< 8 ||| b.toBitVec.setWidth w).toNat = (acc.toNat * 256 + b.toNat) % 2 ^ w := by
  have octet : b.toNat < 2 ^ 8 := b.toNat_lt
  have fits : b.toNat % 2 ^ w = b.toNat :=
    Nat.mod_eq_of_lt (lt_of_lt_of_le octet (Nat.pow_le_pow_right (by decide) wide))
  have split : 2 ^ w = 2 ^ 8 * 2 ^ (w - 8) := by rw [← pow_add]; congr 1; omega
  have shifted : acc.toNat * 256 % 2 ^ w = 2 ^ 8 * (acc.toNat % 2 ^ (w - 8)) := by
    rw [split, Nat.mul_comm acc.toNat]
    exact Nat.mul_mod_mul_left (2 ^ 8) acc.toNat (2 ^ (w - 8))
  have joined : 2 ^ 8 * (acc.toNat % 2 ^ (w - 8)) ||| b.toNat =
      2 ^ 8 * (acc.toNat % 2 ^ (w - 8)) + b.toNat := (Nat.two_pow_add_eq_or_of_lt octet _).symm
  have room : 2 ^ 8 * (acc.toNat % 2 ^ (w - 8)) + b.toNat < 2 ^ w := by
    have high := Nat.mod_lt acc.toNat (Nat.two_pow_pos (w - 8))
    rw [split]
    omega
  have total : (acc.toNat * 256 + b.toNat) % 2 ^ w =
      2 ^ 8 * (acc.toNat % 2 ^ (w - 8)) + b.toNat := by
    rw [Nat.add_mod, shifted, fits, Nat.mod_eq_of_lt room]
  rw [total, ← joined]
  simp only [BitVec.toNat_or, BitVec.toNat_shiftLeft, BitVec.toNat_setWidth,
    UInt8.toNat_toBitVec, fits, Nat.shiftLeft_eq]
  exact congrArg (· ||| b.toNat) shifted

/-- Folding octets into a word computes the big-endian number modulo the word. -/
theorem foldl_shift_or_toNat {w : Nat} (wide : 8 ≤ w) (acc : BitVec w) (bs : List UInt8) :
    (bs.foldl (fun (a : BitVec w) (b : UInt8) => a <<< 8 ||| b.toBitVec.setWidth w) acc).toNat =
      valueFrom acc.toNat bs % 2 ^ w := by
  induction bs generalizing acc with
  | nil => exact (Nat.mod_eq_of_lt acc.isLt).symm
  | cons b bs ih =>
    rw [List.foldl_cons, ih, shift_or_toNat acc b wide, valueFrom_cons, valueFrom_eq,
      valueFrom_eq (acc.toNat * 256 + b.toNat)]
    exact Nat.ModEq.add_right _ (Nat.ModEq.mul_right _ (Nat.mod_modEq _ _))

end TorrentSync.Lib.BigEndian
