import TorrentSync.Source.NodeBucket

/-!
# Specification of the NodeBucket operations

Each operation on a bucket that holds a list is described by the list it holds
afterwards. Since every access in the model is checked, these lemmas also show
that no index leaves the array and no assertion fails. Callers use them and never
unfold an operation.
-/
namespace TorrentSync.Source.NodeBucket

open Lib.ArrayAlgorithms

variable {N : Nat} {α : Type}

theorem inBounds_iff (b : NodeBucket N α) (x : NodeData) :
    b.inBounds x = true ↔ b.low.number ≤ x.number ∧ x.number ≤ b.high.number := by
  simp [inBounds]

/-- What `removeBad` leaves in the slots behind the nodes it keeps. -/
def leftBehind (isBad : α → Bool) (xs : List α) : List (Option α) :=
  (xs.drop (xs.filter fun x => !isBad x).length).map fun x => if isBad x then some x else none

/-- Without a bad node `removeBad` frees no slot. -/
theorem leftBehind_clean {isBad : α → Bool} {xs : List α} (clean : ∀ x ∈ xs, isBad x = false) :
    leftBehind isBad xs = [] := by
  have same : xs.filter (fun x => !isBad x) = xs :=
    List.filter_eq_self.mpr fun x member => by simp [clean x member]
  rw [leftBehind, same, List.drop_length, List.map_nil]

/-- A bad node frees a slot. -/
theorem leftBehind_cons {isBad : α → Bool} {xs : List α} (unclean : ∃ x ∈ xs, isBad x = true) :
    ∃ hole rest, leftBehind isBad xs = hole :: rest := by
  obtain ⟨x, member, bad⟩ := unclean
  have fewer : (xs.filter fun x => !isBad x).length < xs.length :=
    List.length_filter_lt_length_iff_exists.mpr ⟨x, member, by simpa using bad⟩
  apply List.exists_cons_of_length_pos
  rw [leftBehind, List.length_map, List.length_drop]
  omega

/-- `removeBad` keeps exactly the nodes that are not bad, in order, and of the slots it
frees it empties those it moves a node from. -/
theorem removeBad_slots (isBad : α → Bool) {b : NodeBucket N α} {xs : List α}
    {tail : List (Option α)} (h : b.Stores xs tail) :
    ∃ b', b.removeBad isBad = .ok b' ∧
      b'.Stores (xs.filter fun x => !isBad x) (leftBehind isBad xs ++ tail) ∧
      b'.low = b.low ∧ b'.high = b.high := by
  obtain ⟨count, slots⟩ := h
  obtain ⟨w, run, shape⟩ := removeIf_spec outOfArray
    (badSlot isBad) (p := fun t => t.any isBad) none (xs.map some) tail slots (by
      intro t member
      obtain ⟨x, _, rfl⟩ := List.mem_map.mp member
      simp [badSlot])
  have kept : (xs.map some).filter (fun t => !t.any isBad) =
      (xs.filter fun x => !isBad x).map some := by
    rw [List.filter_map]
    simp [Function.comp_def]
  have left : ((xs.map some).map (vacated (fun t => t.any isBad) none)).drop
      (xs.filter fun x => !isBad x).length = leftBehind isBad xs := by
    rw [leftBehind, List.map_map, List.map_drop]
    rfl
  rw [kept, List.length_map, List.length_map, ← count] at run
  refine ⟨{ b with elements := w, addressCount := (xs.filter fun x => !isBad x).length }, ?_,
    ⟨rfl, ?_⟩, rfl, rfl⟩
  · simp only [removeBad, run, ok_bind]
  · rw [shape, kept, List.length_map, left, List.append_assoc]

/-- `removeBad` keeps exactly the nodes that are not bad, in order. -/
theorem removeBad_spec (isBad : α → Bool) {b : NodeBucket N α} {xs : List α} (h : b.Holds xs) :
    ∃ b', b.removeBad isBad = .ok b' ∧ b'.Holds (xs.filter fun x => !isBad x) ∧
      b'.low = b.low ∧ b'.high = b.high := by
  obtain ⟨tail, stores⟩ := h.stores
  obtain ⟨b', run, kept, bounds⟩ := removeBad_slots isBad stores
  exact ⟨b', run, kept.holds, bounds⟩

theorem outside_iff (b : NodeBucket N α) (x : NodeData) :
    (x.gt b.high || x.lt b.low) = true ↔ b.inBounds x = false := by
  rw [← Bool.not_eq_true, inBounds_iff]
  simp only [Bool.or_eq_true, NodeData.gt_iff, NodeData.lt_iff]
  omega

section Ordered

variable [IsNode α]

/-- Inserting into a bucket with a free slot stores the node at its place by id and uses
up the first free slot. -/
theorem insertSlot_slots (a : α) {b : NodeBucket N α} {xs : List α} {hole : Option α}
    {tail : List (Option α)} (h : b.Stores xs (hole :: tail)) :
    ∃ b', b.insertSlot a = .ok b' ∧ b'.Stores (insertSorted a xs) tail ∧
      b'.low = b.low ∧ b'.high = b.high := by
  obtain ⟨count, slots⟩ := h
  have search := findIf_spec outOfArray (v := b.elements)
    (slotAfter (nodeData a)) (p := fun x => x.any fun x => (nodeData a).lt (nodeData x))
    [] (xs.map some) (hole :: tail) (by simpa using slots) (by
      intro t member
      obtain ⟨x, _, rfl⟩ := List.mem_map.mp member
      simp [slotAfter])
  generalize beforeEq : xs.takeWhile (fun x => !(nodeData a).lt (nodeData x)) = before at *
  generalize afterEq : xs.dropWhile (fun x => !(nodeData a).lt (nodeData x)) = after at *
  have split : before ++ after = xs := by
    rw [← beforeEq, ← afterEq]
    exact List.takeWhile_append_dropWhile
  have position : (xs.map some).takeWhile (fun x => !x.any fun x => (nodeData a).lt (nodeData x)) =
      before.map some := by
    rw [List.takeWhile_map, ← beforeEq]
    simp [Function.comp_def]
  rw [position] at search
  simp only [List.length_map, List.length_nil, Nat.zero_add] at search
  have lengths := congrArg List.length split
  rw [List.length_append] at lengths
  obtain ⟨w, y, copied, shape⟩ := copyBackward_spec outOfArray (v := b.elements)
    (before.map some) (after.map some) tail hole (by rw [slots, ← split]; simp)
  simp only [List.length_map, lengths] at copied
  have hole : w.toList = before.map some ++ y :: (after.map some ++ tail) := by simpa using shape
  obtain ⟨u, written, final⟩ := put_at outOfArray (some a) hole
  rw [List.length_map] at written
  refine ⟨{ b with elements := u, addressCount := b.addressCount + 1 }, ?_, ⟨?_, ?_⟩, rfl, rfl⟩
  · simp only [insertSlot, count, search, show xs.length - before.length = after.length by omega,
      copied, written, ok_bind]
  · simp [count]
  · simp only [insertSorted, beforeEq, afterEq]
    rw [final]
    simp

/-- `add` of a node outside the bounds throws; the bucket is not touched. -/
theorem add_outside (isBad : α → Bool) (a : α) (b : NodeBucket N α)
    (outside : b.inBounds (nodeData a) = false) :
    b.add isBad (some a) = .error (.invalidArgument ("The address can't stay in this Bucket: " ++
      (nodeData a).string ++ " " ++ b.low.string ++ "-" ++ b.high.string)) := by
  simp only [add, Option.isSome_some, check_true, deref_some, ok_bind]
  rw [if_pos ((outside_iff b _).mpr outside)]

/-- `add` into a bucket with a free slot inserts the node and nothing else. -/
theorem add_room_slots (isBad : α → Bool) (a : α) {b : NodeBucket N α} {xs : List α}
    {hole : Option α} {tail : List (Option α)} (h : b.Stores xs (hole :: tail))
    (inside : b.inBounds (nodeData a) = true) :
    ∃ b', b.add isBad (some a) = .ok (b', true) ∧ b'.Stores (insertSorted a xs) tail ∧
      b'.low = b.low ∧ b'.high = b.high := by
  obtain ⟨b', inserted, stores, bounds⟩ := insertSlot_slots a h
  refine ⟨b', ?_, stores, bounds⟩
  have within : ¬ ((nodeData a).gt b.high || (nodeData a).lt b.low) = true := by
    rw [outside_iff, inside]
    simp
  have free : b.addressCount < N := by
    have sizes := h.length
    rw [List.length_cons] at sizes
    rw [h.count]
    omega
  simp only [add, Option.isSome_some, check_true, deref_some, ok_bind]
  rw [if_neg within]
  simp only [size, maxSize, if_neg (Nat.ne_of_lt free), if_pos free, inserted, ok_bind]

theorem add_room (isBad : α → Bool) (a : α) {b : NodeBucket N α} {xs : List α} (h : b.Holds xs)
    (inside : b.inBounds (nodeData a) = true) (room : xs.length < N) :
    ∃ b', b.add isBad (some a) = .ok (b', true) ∧ b'.Holds (insertSorted a xs) ∧
      b'.low = b.low ∧ b'.high = b.high := by
  obtain ⟨tail, stores⟩ := h.stores
  cases tail with
  | nil =>
    have full := stores.length
    rw [List.length_nil] at full
    omega
  | cons hole tail =>
    obtain ⟨b', run, stores', bounds⟩ := add_room_slots isBad a stores inside
    exact ⟨b', run, stores'.holds, bounds⟩

/-- `add` into a full bucket first drops the bad nodes, and inserts only if that
made room. -/
theorem add_full_slots (isBad : α → Bool) (a : α) {b : NodeBucket N α} {xs : List α}
    (h : b.Stores xs []) (inside : b.inBounds (nodeData a) = true) :
    (∃ b', b.add isBad (some a) = .ok (b', true) ∧ (∃ x ∈ xs, isBad x = true) ∧
      b'.Stores (insertSorted a (xs.filter fun x => !isBad x)) (leftBehind isBad xs).tail ∧
      b'.low = b.low ∧ b'.high = b.high) ∨
    (∃ b', b.add isBad (some a) = .ok (b', false) ∧ (∀ x ∈ xs, isBad x = false) ∧
      b'.Stores xs [] ∧ b'.low = b.low ∧ b'.high = b.high) := by
  obtain ⟨c, dropped, stores, low, high⟩ := removeBad_slots isBad h
  rw [List.append_nil] at stores
  have within : ¬ ((nodeData a).gt b.high || (nodeData a).lt b.low) = true := by
    rw [outside_iff, inside]
    simp
  have counted : b.addressCount = N := h.count.trans h.length
  have remaining := stores.count
  have sizes := stores.length
  have reduce : b.add isBad (some a) =
      if c.addressCount < N then (do let b ← c.insertSlot a; .ok (b, true)) else .ok (c, false) := by
    simp only [add, Option.isSome_some, check_true, deref_some, ok_bind]
    rw [if_neg within]
    simp only [size, maxSize, if_pos counted, dropped, ok_bind]
    rfl
  by_cases clean : ∀ x ∈ xs, isBad x = false
  · right
    have same : xs.filter (fun x => !isBad x) = xs :=
      List.filter_eq_self.mpr fun x member => by simp [clean x member]
    rw [leftBehind_clean clean, List.length_nil] at sizes
    rw [leftBehind_clean clean, same] at stores
    refine ⟨c, ?_, clean, stores, low, high⟩
    rw [reduce, if_neg (by omega)]
  · left
    push Not at clean
    obtain ⟨x, member, bad⟩ := clean
    have unclean : ∃ x ∈ xs, isBad x = true := ⟨x, member, by simpa using bad⟩
    obtain ⟨hole, rest, left⟩ := leftBehind_cons unclean
    rw [left, List.length_cons] at sizes
    rw [left] at stores
    obtain ⟨b', inserted, stores', low', high'⟩ := insertSlot_slots a stores
    refine ⟨b', ?_, unclean, by rw [left]; exact stores', low'.trans low, high'.trans high⟩
    rw [reduce, if_pos (by omega)]
    simp [inserted]

theorem add_full (isBad : α → Bool) (a : α) {b : NodeBucket N α} {xs : List α} (h : b.Holds xs)
    (inside : b.inBounds (nodeData a) = true) (full : xs.length = N) :
    (∃ b', b.add isBad (some a) = .ok (b', true) ∧ (∃ x ∈ xs, isBad x = true) ∧
      b'.Holds (insertSorted a (xs.filter fun x => !isBad x)) ∧
      b'.low = b.low ∧ b'.high = b.high) ∨
    (∃ b', b.add isBad (some a) = .ok (b', false) ∧ (∀ x ∈ xs, isBad x = false) ∧
      b'.Holds xs ∧ b'.low = b.low ∧ b'.high = b.high) := by
  obtain ⟨tail, stores⟩ := h.stores
  have none : tail = [] := List.eq_nil_of_length_eq_zero (by have sizes := stores.length; omega)
  subst none
  rcases add_full_slots isBad a stores inside with ⟨b', run, bad, stores', bounds⟩ |
    ⟨b', run, clean, stores', bounds⟩
  · exact .inl ⟨b', run, bad, stores'.holds, bounds⟩
  · exact .inr ⟨b', run, clean, stores'.holds, bounds⟩

/-- The loop of `remove` at a node with the id: the nodes after it move down one slot, and
the slot that frees is emptied. -/
theorem removeFrom_hit {addr : NodeData} {b : NodeBucket N α} (seen xs : List α) {x : α}
    {tail : List (Option α)} (h : b.Stores (seen ++ x :: xs) tail) (hit : addr = nodeData x)
    (count : Nat) :
    ∃ b', b.removeFrom addr (count + 1) seen.length = .ok (b', true) ∧
      b'.Stores (seen ++ xs) (none :: tail) ∧ b'.low = b.low ∧ b'.high = b.high := by
  obtain ⟨live, slots⟩ := h
  have here : b.elements.toList = seen.map some ++ some x :: (xs.map some ++ tail) := by
    simpa using slots
  have read := cell_at outOfArray here
  have hitB : addr.eq (nodeData x) = true := (NodeData.eq_iff _ _).mpr hit
  rw [List.length_map] at read
  simp only [List.length_append, List.length_cons] at live
  simp only [removeFrom, read, Option.isSome_some, check_true, deref_some, ok_bind, hitB, if_true]
  by_cases last : seen.length + 1 = b.addressCount
  · have empty : xs = [] := List.eq_nil_of_length_eq_zero (by omega)
    obtain ⟨w, written, shape⟩ := put_at outOfArray none here
    rw [List.length_map] at written
    refine ⟨{ b with elements := w, addressCount := b.addressCount - 1 }, ?_, ⟨?_, ?_⟩, rfl, rfl⟩
    · rw [if_pos last]
      simp only [written, ok_bind]
    · simp only [empty, List.append_nil]
      omega
    · rw [shape, empty]
      simp
  · obtain ⟨w, y, copied, shape⟩ := copyForward_spec outOfArray (v := b.elements)
      (seen.map some) (xs.map some) tail (some x) (by simpa using here)
    have moved : w.toList = (seen ++ xs).map some ++ y :: tail := by simpa using shape
    obtain ⟨u, written, final⟩ := put_at outOfArray none moved
    simp only [List.length_map, List.length_append] at copied written
    refine ⟨{ b with elements := u, addressCount := b.addressCount - 1 }, ?_, ⟨?_, final⟩, rfl, rfl⟩
    · rw [if_neg last]
      simp only [show b.addressCount - (seen.length + 1) = xs.length by omega,
        show b.addressCount - 1 = seen.length + xs.length by omega, copied, written, ok_bind]
    · simp only [List.length_append]
      omega

/-- The loop of `remove` at a node with another id. -/
theorem removeFrom_miss {addr : NodeData} {b : NodeBucket N α} (seen xs : List α) {x : α}
    {tail : List (Option α)} (h : b.Stores (seen ++ x :: xs) tail) (miss : addr ≠ nodeData x)
    (count : Nat) :
    b.removeFrom addr (count + 1) seen.length = b.removeFrom addr count (seen.length + 1) := by
  have here : b.elements.toList = seen.map some ++ some x :: (xs.map some ++ tail) := by
    simpa using h.slots
  have read := cell_at outOfArray here
  have missB : addr.eq (nodeData x) = false := by
    rw [← Bool.not_eq_true, NodeData.eq_iff]
    exact miss
  rw [List.length_map] at read
  simp only [removeFrom, read, Option.isSome_some, check_true, deref_some, ok_bind, missB,
    Bool.false_eq_true, if_false]

/-- `remove` deletes the first node with the id, answers whether there was one, and
empties the slot it frees. -/
theorem removeFrom_spec (addr : NodeData) {b : NodeBucket N α} (seen xs : List α)
    {tail : List (Option α)} (h : b.Stores (seen ++ xs) tail) :
    ∃ b', b.removeFrom addr xs.length seen.length =
        .ok (b', xs.any fun x => addr.eq (nodeData x)) ∧
      b'.Stores (seen ++ xs.eraseP fun x => addr.eq (nodeData x))
        (if xs.any fun x => addr.eq (nodeData x) then none :: tail else tail) ∧
      b'.low = b.low ∧ b'.high = b.high := by
  induction xs generalizing seen with
  | nil => exact ⟨b, rfl, by simpa using h, rfl, rfl⟩
  | cons x xs ih =>
    by_cases hit : addr = nodeData x
    · have hitB : addr.eq (nodeData x) = true := (NodeData.eq_iff _ _).mpr hit
      simp only [List.any_cons, hitB, Bool.true_or, List.eraseP_cons_of_pos, if_true]
      exact removeFrom_hit seen xs h hit xs.length
    · have missB : ¬ addr.eq (nodeData x) = true := mt (NodeData.eq_iff _ _).mp hit
      rw [List.length_cons, removeFrom_miss seen xs h hit, List.any_cons,
        List.eraseP_cons_of_neg (p := fun x => addr.eq (nodeData x)) missB,
        Bool.eq_false_of_not_eq_true missB, Bool.false_or]
      have next := ih (seen ++ [x]) (by simpa using h)
      simpa using next

theorem remove_slots (addr : NodeData) {b : NodeBucket N α} {xs : List α}
    {tail : List (Option α)} (h : b.Stores xs tail) :
    ∃ b', b.remove addr = .ok (b', xs.any fun x => addr.eq (nodeData x)) ∧
      b'.Stores (xs.eraseP fun x => addr.eq (nodeData x))
        (if xs.any fun x => addr.eq (nodeData x) then none :: tail else tail) ∧
      b'.low = b.low ∧ b'.high = b.high := by
  have run := removeFrom_spec addr [] xs h
  rw [List.length_nil, ← h.count] at run
  exact run

theorem remove_spec (addr : NodeData) {b : NodeBucket N α} {xs : List α} (h : b.Holds xs) :
    ∃ b', b.remove addr = .ok (b', xs.any fun x => addr.eq (nodeData x)) ∧
      b'.Holds (xs.eraseP fun x => addr.eq (nodeData x)) ∧ b'.low = b.low ∧ b'.high = b.high := by
  obtain ⟨tail, stores⟩ := h.stores
  obtain ⟨b', run, stores', bounds⟩ := remove_slots addr stores
  exact ⟨b', run, stores'.holds, bounds⟩

omit [IsNode α] in
private theorem find?_eq_head_dropWhile (p : α → Bool) (xs : List α) :
    xs.find? p = (xs.dropWhile fun x => !p x).head? := by
  induction xs with
  | nil => rfl
  | cons x xs ih => cases hit : p x <;> simp [hit, ih]

/-- The search for an id stops after the nodes in front of the first one that has it. -/
theorem findIf_id_spec (addr : NodeData) {b : NodeBucket N α} {xs : List α} (h : b.Holds xs) :
    findIf outOfArray (slotHasId addr) b.elements b.addressCount 0 =
      .ok (xs.takeWhile fun x => !(nodeData x).eq addr).length := by
  obtain ⟨count, rest, live⟩ := h
  have search := findIf_spec outOfArray (v := b.elements)
    (slotHasId addr) (p := fun x => x.any fun x => (nodeData x).eq addr)
    [] (xs.map some) rest (by simpa using live) (by
      intro t member
      obtain ⟨x, _, rfl⟩ := List.mem_map.mp member
      simp [slotHasId])
  have position : (xs.map some).takeWhile (fun x => !x.any fun x => (nodeData x).eq addr) =
      (xs.takeWhile fun x => !(nodeData x).eq addr).map some := by
    rw [List.takeWhile_map]
    simp [Function.comp_def]
  rw [position] at search
  simp only [List.length_map, List.length_nil, Nat.zero_add] at search
  rw [count, search]

/-- `find` returns the first stored node with the id. -/
theorem find_spec (addr : NodeData) {b : NodeBucket N α} {xs : List α} (h : b.Holds xs) :
    b.find addr = .ok (xs.find? fun x => (nodeData x).eq addr) := by
  rw [find?_eq_head_dropWhile]
  have search := findIf_id_spec addr h
  obtain ⟨count, rest, live⟩ := h
  simp only [find, search, ok_bind]
  rw [count]
  have split := List.takeWhile_append_dropWhile (p := fun x => !(nodeData x).eq addr) (l := xs)
  have lengths := congrArg List.length split
  rw [List.length_append] at lengths
  cases tail : xs.dropWhile fun x => !(nodeData x).eq addr with
  | nil =>
    rw [tail, List.length_nil, Nat.add_zero] at lengths
    simp [lengths]
  | cons x after =>
    rw [tail] at lengths split
    simp only [List.length_cons] at lengths
    rw [if_pos (by omega)]
    have here : b.elements.toList =
        (xs.takeWhile fun x => !(nodeData x).eq addr).map some ++ some x :: (after.map some ++ rest) := by
      rw [live]
      nth_rewrite 1 [← split]
      simp
    have read := cell_at outOfArray here
    rw [List.length_map] at read
    exact read

end Ordered
end TorrentSync.Source.NodeBucket
