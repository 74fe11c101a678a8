import Mathlib.Data.List.ReduceOption
import TorrentSync.Lib.ArrayAlgorithms
import TorrentSync.Source.NodeDataNumber

/-!
# NodeBucket

dht/NodeBucket.h: a fixed array of node pointers with a count, kept sorted by id.
The element type is generic: a `shared_ptr<Node>` is an `Option α` whose `none` is
the null pointer, and `IsNode` is the inheritance of Node from NodeData. Node
freshness is read through `isBad`, which each call takes as an argument.
-/
namespace TorrentSync.Source

open Lib.ArrayAlgorithms

/-- The element type derives from NodeData. -/
class IsNode (α : Type) where
  nodeData : α → NodeData

export IsNode (nodeData)

instance : IsNode NodeData := ⟨id⟩

/-- `operator*` of a `shared_ptr`. -/
def deref {α : Type} (p : Option α) : Fallible α :=
  match p with
  | some a => .ok a
  | none => .error (.undefined "null pointer")

@[simp] theorem deref_some {α : Type} (a : α) : deref (some a) = .ok a := rfl

structure NodeBucket (MaxSizeT : Nat) (α : Type) where
  low : NodeData
  high : NodeData
  addressCount : Nat
  elements : Vector (Option α) MaxSizeT

namespace NodeBucket

variable {N : Nat} {α : Type}

def new (low high : NodeData) : NodeBucket N α := ⟨low, high, 0, Vector.replicate N none⟩

def size (b : NodeBucket N α) : Nat := b.addressCount

def maxSize (_ : NodeBucket N α) : Nat := N

/-- The fault of an index outside `_elements`. -/
def outOfArray : Fault := .undefined "NodeList index"

def inBounds (b : NodeBucket N α) (addr : NodeData) : Bool := b.low.le addr && addr.le b.high

/-- The loop of `clear` over the live slots. -/
def clearFrom (elements : Vector (Option α) N) : Nat → Nat → Fallible (Vector (Option α) N)
  | 0, _ => .ok elements
  | count + 1, i => do
      let t ← cell outOfArray elements i
      check t.isSome "t.get()"
      let elements ← put outOfArray elements i none
      clearFrom elements count (i + 1)

def clear (b : NodeBucket N α) : Fallible (NodeBucket N α) := do
  let elements ← clearFrom b.elements b.addressCount 0
  .ok { b with elements := elements, addressCount := 0 }

/-- The predicate `removeBad` passes to `std::remove_if`. -/
def badSlot (isBad : α → Bool) (addr : Option α) : Fallible Bool := do
  check addr.isSome "addr.get()"
  let node ← deref addr
  .ok (isBad node)

def removeBad (isBad : α → Bool) (b : NodeBucket N α) : Fallible (NodeBucket N α) := do
  let (elements, it) ← removeIf outOfArray (badSlot isBad) none b.elements b.addressCount
  .ok { b with elements := elements, addressCount := it }

section Ordered

variable [IsNode α]

/-- `std::less<NodeSPtr>` with its first argument bound to `addr`. -/
def slotAfter (addr : NodeData) (x : Option α) : Fallible Bool := do
  let node ← deref x
  .ok (addr.lt (nodeData node))

/-- The insertion half of `add`: the first greater element and everything after it
move up one slot. -/
def insertSlot (addr : α) (b : NodeBucket N α) : Fallible (NodeBucket N α) := do
  let it ← findIf outOfArray (slotAfter (nodeData addr)) b.elements b.addressCount 0
  let elements ←
    copyBackward outOfArray b.elements (b.addressCount - it) b.addressCount (b.addressCount + 1)
  let elements ← put outOfArray elements it (some addr)
  .ok { b with elements := elements, addressCount := b.addressCount + 1 }

def add (isBad : α → Bool) (addr : Option α) (b : NodeBucket N α) :
    Fallible (NodeBucket N α × Bool) := do
  check addr.isSome "addr.get()"
  let node ← deref addr
  if (nodeData node).gt b.high || (nodeData node).lt b.low then
    .error (.invalidArgument ("The address can't stay in this Bucket: " ++
      (nodeData node).string ++ " " ++ b.low.string ++ "-" ++ b.high.string))
  else do
    let b ← if b.size = b.maxSize then b.removeBad isBad else .ok b
    if b.size < b.maxSize then do
      let b ← b.insertSlot node
      .ok (b, true)
    else .ok (b, false)

/-- The loop of `remove` from index `it`. -/
def removeFrom (addr : NodeData) (b : NodeBucket N α) : Nat → Nat → Fallible (NodeBucket N α × Bool)
  | 0, _ => .ok (b, false)
  | count + 1, it => do
      let v ← cell outOfArray b.elements it
      check v.isSome "v.get()"
      let node ← deref v
      if addr.eq (nodeData node) then
        if it + 1 = b.addressCount then do
          let elements ← put outOfArray b.elements it none
          .ok ({ b with elements := elements, addressCount := b.addressCount - 1 }, true)
        else do
          let elements ← copyForward outOfArray b.elements (b.addressCount - (it + 1)) (it + 1) it
          let elements ← put outOfArray elements (b.addressCount - 1) none
          .ok ({ b with elements := elements, addressCount := b.addressCount - 1 }, true)
      else removeFrom addr b count (it + 1)

def remove (addr : NodeData) (b : NodeBucket N α) : Fallible (NodeBucket N α × Bool) :=
  removeFrom addr b b.addressCount 0

/-- The predicate of `find`. -/
def slotHasId (addr : NodeData) (bucket_addr : Option α) : Fallible Bool := do
  check bucket_addr.isSome "bucket_addr.get()"
  let node ← deref bucket_addr
  .ok ((nodeData node).eq addr)

def find (addr : NodeData) (b : NodeBucket N α) : Fallible (Option α) := do
  let it ← findIf outOfArray (slotHasId addr) b.elements b.addressCount 0
  if it ≠ b.addressCount then cell outOfArray b.elements it else .ok none

end Ordered

/-! ## Representation -/

/-- The nodes of the live slots `[cbegin, cend)`. -/
def contents (b : NodeBucket N α) : List α := (b.elements.toList.take b.addressCount).reduceOption

/-- The bucket stores exactly `xs`, in order, in its first slots. -/
structure Holds (b : NodeBucket N α) (xs : List α) : Prop where
  count : b.addressCount = xs.length
  live : ∃ rest, b.elements.toList = xs.map some ++ rest

/-- The bucket stores exactly `xs` in its first slots, and `tail` is in the others. -/
structure Stores (b : NodeBucket N α) (xs : List α) (tail : List (Option α)) : Prop where
  count : b.addressCount = xs.length
  slots : b.elements.toList = xs.map some ++ tail

theorem Stores.holds {b : NodeBucket N α} {xs : List α} {tail : List (Option α)}
    (h : b.Stores xs tail) : b.Holds xs := ⟨h.count, tail, h.slots⟩

theorem Holds.stores {b : NodeBucket N α} {xs : List α} (h : b.Holds xs) :
    ∃ tail, b.Stores xs tail := by
  obtain ⟨count, tail, slots⟩ := h
  exact ⟨tail, count, slots⟩

/-- The slots are the nodes and the tail together. -/
theorem Stores.length {b : NodeBucket N α} {xs : List α} {tail : List (Option α)}
    (h : b.Stores xs tail) : xs.length + tail.length = N := by
  have sizes := congrArg List.length h.slots
  simpa only [Vector.length_toList, List.length_append, List.length_map, eq_comm] using sizes

theorem new_stores (low high : NodeData) :
    (new low high : NodeBucket N α).Stores [] (List.replicate N none) := ⟨rfl, by simp [new]⟩

theorem new_holds (low high : NodeData) : (new low high : NodeBucket N α).Holds [] :=
  ⟨rfl, _, rfl⟩

theorem Holds.contents_eq {b : NodeBucket N α} {xs : List α} (h : b.Holds xs) :
    b.contents = xs := by
  obtain ⟨count, rest, live⟩ := h
  rw [contents, live, count, List.take_append_of_le_length (by simp),
    List.take_of_length_le (by simp)]
  simp [List.reduceOption]

theorem Holds.length_le {b : NodeBucket N α} {xs : List α} (h : b.Holds xs) : xs.length ≤ N := by
  obtain ⟨count, rest, live⟩ := h
  have sizes := congrArg List.length live
  simp only [Vector.length_toList, List.length_append, List.length_map] at sizes
  omega

/-! ## Sorted insertion -/

variable [IsNode α]

/-- Where `add` puts a node: before the first one with a greater id. -/
def insertSorted (a : α) (xs : List α) : List α :=
  xs.takeWhile (fun x => !(nodeData a).lt (nodeData x)) ++
    a :: xs.dropWhile (fun x => !(nodeData a).lt (nodeData x))

theorem insertSorted_perm (a : α) (xs : List α) : (insertSorted a xs).Perm (a :: xs) := by
  apply List.Perm.trans List.perm_middle
  rw [List.takeWhile_append_dropWhile]

@[simp] theorem insertSorted_length (a : α) (xs : List α) :
    (insertSorted a xs).length = xs.length + 1 := (insertSorted_perm a xs).length_eq

@[simp] theorem mem_insertSorted (a x : α) (xs : List α) :
    x ∈ insertSorted a xs ↔ x = a ∨ x ∈ xs := by
  rw [(insertSorted_perm a xs).mem_iff, List.mem_cons]

/-- Ids never decrease along the list. -/
def Sorted (xs : List α) : Prop := xs.Pairwise fun x y => (nodeData x).number ≤ (nodeData y).number

theorem insertSorted_sorted (a : α) (xs : List α) (sorted : Sorted xs) :
    Sorted (insertSorted a xs) := by
  have split := List.takeWhile_append_dropWhile
    (p := fun x => !(nodeData a).lt (nodeData x)) (l := xs)
  have parts := sorted
  rw [Sorted, ← split, List.pairwise_append] at parts
  obtain ⟨left, right, across⟩ := parts
  have low : ∀ x ∈ xs.takeWhile (fun x => !(nodeData a).lt (nodeData x)),
      (nodeData x).number ≤ (nodeData a).number := by
    intro x member
    have stay := List.mem_takeWhile_imp (p := fun x => !(nodeData a).lt (nodeData x)) member
    simpa [← Bool.not_eq_true] using stay
  have high : ∀ x ∈ xs.dropWhile (fun x => !(nodeData a).lt (nodeData x)),
      (nodeData a).number ≤ (nodeData x).number := by
    intro x member
    cases tail : xs.dropWhile (fun x => !(nodeData a).lt (nodeData x)) with
    | nil => rw [tail] at member; cases member
    | cons first rest =>
      have head : (nodeData a).number < (nodeData first).number := by
        have stop := List.head_dropWhile_not (fun x => !(nodeData a).lt (nodeData x)) (l := xs)
          (by rw [tail]; simp)
        simpa [tail] using stop
      rw [tail] at member right
      rcases List.mem_cons.mp member with rfl | later
      · exact head.le
      · exact head.le.trans ((List.pairwise_cons.mp right).1 x later)
  rw [Sorted, insertSorted, List.pairwise_append, List.pairwise_cons]
  refine ⟨left, ⟨high, right⟩, ?_⟩
  intro x memberX y memberY
  rcases List.mem_cons.mp memberY with rfl | later
  · exact low x memberX
  · exact across x memberX y later

end NodeBucket
end TorrentSync.Source
