import TorrentSync.Lib.XorDistance
import TorrentSync.Source.NodeDataCodec

/-!
# The order of identifiers

The comparison operators of NodeData.h on identifiers and on the distances that
`operator^` returns. Bucket order, lookup and the selection of the closest nodes
all rest on them: they are the order of one 160-bit number, which is also the
lexicographic order of the written octets.
-/
namespace TorrentSync.Source.NodeData

open Lib

/-- The comparison operators on `a` and `b` answer as those of two numbers. -/
structure ComparedAs (a b : NodeData) (m n : Nat) : Prop where
  eq_iff : a.eq b = true ↔ m = n
  ne_iff : a.ne b = true ↔ m ≠ n
  lt_iff : a.lt b = true ↔ m < n
  le_iff : a.le b = true ↔ m ≤ n
  gt_iff : a.gt b = true ↔ m > n
  ge_iff : a.ge b = true ↔ m ≥ n

theorem comparedAs_number (a b : NodeData) : ComparedAs a b a.number b.number := by
  refine ⟨eq_iff_number a b, ?_, lt_iff a b, le_iff a b, gt_iff a b, ge_iff a b⟩
  rw [ne_iff, Ne, Ne, ← eq_iff_number, eq_iff]

/-- `operator<` is the lexicographic order of the written octets. -/
theorem lt_iff_write_lt (a b : NodeData) : a.lt b = true ↔ a.write < b.write := by
  rw [lt_iff, BigEndian.lt_iff_value_lt (by simp), value_write, value_write]

/-- The length of the longest prefix two identifiers share, in bits. -/
def commonPrefix (a t : NodeData) : Nat :=
  ((List.range 160).takeWhile fun i => a.bit i == t.bit i).length

/-- An identifier that shares a longer prefix with the target is strictly nearer. -/
theorem distance_lt_of_commonPrefix {a b t : NodeData} (longer : b.commonPrefix t < a.commonPrefix t) :
    (a.distance t).lt (b.distance t) = true := by
  rw [lt_iff, distance_number, distance_number]
  exact XorDistance.xor_lt_of_sharedPrefix t.number_lt a.number_lt b.number_lt longer

/-- No two identifiers are at the same distance from a target. -/
theorem distance_injective {a b t : NodeData} (same : (a.distance t).eq (b.distance t) = true) :
    a = b := by
  have equal := (eq_iff_number _ _).mp same
  rw [distance_number, distance_number] at equal
  exact number_injective (XorDistance.xor_injective t.number equal)

/-- The order of identifiers, of their written octets and of their numbers is one and
the same, and distances to a target are in the order of the XOR of the numbers. -/
theorem order_agrees (a b t : NodeData) :
    (a.lt b = true ↔ a.write < b.write) ∧
    BigEndian.value a.write = a.number ∧
    ComparedAs a b a.number b.number ∧
    ComparedAs (a.distance t) (b.distance t) (a.number ^^^ t.number) (b.number ^^^ t.number) ∧
    ((a.distance t).eq (b.distance t) = true → a.eq b = true) ∧
    (b.commonPrefix t < a.commonPrefix t → (a.distance t).lt (b.distance t) = true) := by
  refine ⟨lt_iff_write_lt a b, value_write a, comparedAs_number a b, ?_, ?_, distance_lt_of_commonPrefix⟩
  · have compared := comparedAs_number (a.distance t) (b.distance t)
    rwa [distance_number, distance_number] at compared
  · intro same
    rw [eq_iff]
    exact distance_injective same

/-- 5 shares two bits more with 4 than 1 does. -/
theorem order_agrees_four :
    ((ofNumber 5).eq (ofNumber 5) = true) ∧
    (((ofNumber 5).distance (ofNumber 4)).lt ((ofNumber 1).distance (ofNumber 4)) = true) :=
  ⟨(order_agrees (ofNumber 5) (ofNumber 5) (ofNumber 4)).2.2.2.2.1 (by decide +kernel),
    (order_agrees (ofNumber 5) (ofNumber 1) (ofNumber 4)).2.2.2.2.2 (by decide +kernel)⟩

end TorrentSync.Source.NodeData
