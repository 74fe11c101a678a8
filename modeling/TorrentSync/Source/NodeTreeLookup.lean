import TorrentSync.Source.NodeTreeSpec

/-!
# Lookups in a NodeTree

What `getClosestNodes` returns on a tree with the invariant of NodeTreeInvariant, and
what writing to the node that `getNode` returned leaves in the tree.
-/
namespace TorrentSync.Source

open Lib ArrayAlgorithms OrderedContainers

variable {α : Type} [IsNode α]

/-! ## Writing to a stored node -/

/-- Writes to the node that `find` returns. -/
def NodeBucket.update {N : Nat} (f : α → α) (addr : NodeData) (b : NodeBucket N α) :
    Fallible (NodeBucket N α) := do
  let it ← findIf outOfArray (slotHasId addr) b.elements b.addressCount 0
  if it ≠ b.addressCount then do
    let slot ← cell outOfArray b.elements it
    let node ← deref slot
    let elements ← put outOfArray b.elements it (some (f node))
    .ok { b with elements := elements }
  else .ok b

/-- Writes to the node that `getNode` returns. -/
def NodeTree.update (f : α → α) (data : NodeData) (t : NodeTree α) : Fallible (NodeTree α) := do
  let bucket_it ← t.findBucket data
  let bucket ← t.bucketAt bucket_it
  let bucket ← bucket.update f data
  .ok (t.store ⟨bucket, some bucket_it⟩)

/-- The first element with the id is replaced by its image. -/
def updateFirst (f : α → α) (addr : NodeData) (xs : List α) : List α :=
  xs.takeWhile (fun x => !(nodeData x).eq addr) ++
    match xs.dropWhile (fun x => !(nodeData x).eq addr) with
    | [] => []
    | x :: rest => f x :: rest

theorem updateFirst_ids (f : α → α) (keeps : ∀ x, nodeData (f x) = nodeData x) (addr : NodeData)
    (xs : List α) : (updateFirst f addr xs).map nodeData = xs.map nodeData := by
  nth_rewrite 2 [← List.takeWhile_append_dropWhile (p := fun x => !(nodeData x).eq addr) (l := xs)]
  rw [updateFirst, List.map_append, List.map_append]
  cases xs.dropWhile (fun x => !(nodeData x).eq addr) with
  | nil => rfl
  | cons x rest => rw [List.map_cons, List.map_cons, keeps]

theorem NodeBucket.update_spec {N : Nat} (f : α → α) (addr : NodeData) {b : NodeBucket N α}
    {xs : List α} (h : b.Holds xs) :
    ∃ b', b.update f addr = .ok b' ∧ b'.Holds (updateFirst f addr xs) ∧ b'.low = b.low ∧
      b'.high = b.high := by
  have search := findIf_id_spec addr h
  have holds := h
  have count := h.count
  obtain ⟨_, rest, live⟩ := h
  have split := List.takeWhile_append_dropWhile (p := fun x => !(nodeData x).eq addr) (l := xs)
  have lengths := congrArg List.length split
  rw [List.length_append] at lengths
  simp only [update, search, ok_bind, updateFirst]
  cases tail : xs.dropWhile (fun x => !(nodeData x).eq addr) with
  | nil =>
    rw [tail, List.length_nil, Nat.add_zero] at lengths
    rw [tail, List.append_nil] at split
    rw [if_neg (by omega)]
    refine ⟨b, rfl, ?_, rfl, rfl⟩
    rwa [List.append_nil, split]
  | cons x after =>
    rw [tail] at lengths split
    rw [List.length_cons] at lengths
    rw [if_pos (by omega)]
    have here : b.elements.toList =
        (xs.takeWhile fun x => !(nodeData x).eq addr).map some ++ some x :: (after.map some ++ rest) := by
      rw [live]
      nth_rewrite 1 [← split]
      simp
    have read := cell_at outOfArray here
    obtain ⟨w, written, shape⟩ := put_at outOfArray (some (f x)) here
    rw [List.length_map] at read written
    refine ⟨{ b with elements := w }, ?_, ⟨?_, rest, ?_⟩, rfl, rfl⟩
    · simp only [read, written, deref_some, ok_bind]
    · show b.addressCount = _
      rw [List.length_append, List.length_cons]
      omega
    · rw [shape]
      simp

namespace NodeTree

/-- Writing to a found node keeps the invariant and all ids. -/
theorem Valid.update_spec (f : α → α) (keeps : ∀ x, nodeData (f x) = nodeData x) (data : NodeData)
    {t : NodeTree α} {d : Nat} (h : t.Valid d) :
    ∃ t', t.update f data = .ok t' ∧ t'.Valid d ∧ t'.node = t.node := by
  obtain ⟨pre, b, post, parts, found, bucket, -, -, -⟩ := locate h.tiles data
  have valid := h.buckets b (by simp [parts])
  obtain ⟨b', run, holds, low, high⟩ := b.update_spec f data valid.holds
  have ids := updateFirst_ids f keeps data b.contents
  have byIds : ∀ xs : List α, NodeBucket.Sorted xs ↔
      (xs.map nodeData).Pairwise fun x y => x.number ≤ y.number := by
    intro xs
    rw [NodeBucket.Sorted, List.pairwise_map]
  have sorted : NodeBucket.Sorted (updateFirst f data b.contents) := by
    rw [byIds, ids, ← byIds]
    exact valid.sorted
  have within : ∀ x ∈ updateFirst f data b.contents, b'.inBounds (nodeData x) = true := by
    intro x member
    have id := List.mem_map_of_mem (f := nodeData) member
    rw [ids] at id
    obtain ⟨y, stored, same⟩ := List.mem_map.mp id
    rw [NodeBucket.inBounds_congr low high, ← same]
    exact valid.within y stored
  refine ⟨_, ?_, h.replace parts low high (holds.valid sorted within), rfl⟩
  simp only [update, found, bucket, run, ok_bind, store_at b' parts]

/-! ## The closest nodes -/

/-- The buckets `getClosestNodes` looks at: the one covering the id, the one before it
and one or two after it. -/
def window (data : NodeData) (t : NodeTree α) : List (Bucket α) :=
  (t.buckets.drop (lowerBound sortByBounds t.buckets (NodeBucket.new data data) - 1)).take 3

/-- Nodes in the order of `knownNodes`. -/
def nearest (data : NodeData) (xs : List α) : List α :=
  xs.foldl (fun known node => (insertUnique (notFarther data) node known).1) []

/-- What `getClosestNodes` returns: a stored node with the id itself, or else up to eight
nodes of the window. -/
def closest (data : NodeData) (t : NodeTree α) : List α :=
  match t.nodes.find? fun a => (nodeData a).eq data with
  | some perfect_match => [perfect_match]
  | none => (nearest data ((t.window data).flatMap NodeBucket.contents)).take DHT_FIND_NODE_COUNT

/-- The set refuses no node, not even one at the distance of another. -/
theorem nearest_perm (data : NodeData) (xs : List α) : (nearest data xs).Perm xs := by
  have total : ∀ a b : α, notFarther data a b = false → notFarther data b a = true := by
    intro a b farther
    simp only [notFarther, ← Bool.not_eq_true, NodeData.le_iff] at farther ⊢
    omega
  have inserts : ∀ xs known : List α,
      (xs.foldl (fun known node => (insertUnique (notFarther data) node known).1) known).Perm
        (xs ++ known) := by
    intro xs
    induction xs with
    | nil => exact fun known => List.Perm.refl _
    | cons x xs ih =>
      intro known
      apply (ih _).trans
      exact ((insertUnique_perm total x known).append_left xs).trans List.perm_middle
  have all := inserts xs []
  rwa [List.append_nil] at all

private theorem mapM_nodesOf {buckets : List (Bucket α)} (valid : ∀ b ∈ buckets, b.Valid) :
    buckets.mapM nodesOf = .ok (buckets.map NodeBucket.contents) := by
  induction buckets with
  | nil => rfl
  | cons b rest ih =>
    have head := nodesOf_spec (valid b List.mem_cons_self).holds
    have tail := ih fun c member => valid c (List.mem_cons_of_mem _ member)
    rw [List.mapM_cons, head, tail]
    rfl

/-- The nodes with a given id are all in the bucket covering it. -/
private theorem Valid.find_nodes {t : NodeTree α} {d : Nat} (h : t.Valid d) {pre post : List (Bucket α)}
    {b : Bucket α} {data : NodeData} (parts : t.buckets = pre ++ b :: post)
    (before : ∀ y ∈ pre, y.inBounds data = false) (after : ∀ y ∈ post, y.inBounds data = false) :
    t.nodes.find? (fun a => (nodeData a).eq data) =
      b.contents.find? fun a => (nodeData a).eq data := by
  have misses : ∀ buckets : List (Bucket α), (∀ c ∈ buckets, c ∈ t.buckets ∧ c.inBounds data = false) →
      (buckets.flatMap NodeBucket.contents).find? (fun a => (nodeData a).eq data) = none := by
    intro buckets outside
    rw [List.find?_eq_none]
    intro x member hit
    obtain ⟨c, place, stored⟩ := List.mem_flatMap.mp member
    have inside := (h.buckets c (outside c place).1).within x stored
    rw [(NodeData.eq_iff _ _).mp hit, (outside c place).2] at inside
    cases inside
  have left := misses pre fun c member => ⟨by simp [parts, member], before c member⟩
  have right := misses post fun c member => ⟨by simp [parts, member], after c member⟩
  rw [nodes, parts, List.flatMap_append, List.flatMap_cons, List.find?_append, List.find?_append,
    left, right, Option.none_or, Option.or_none]

/-- On a valid tree `getClosestNodes` returns. -/
theorem Valid.getClosestNodes_spec (data : NodeData) {t : NodeTree α} {d : Nat} (h : t.Valid d) :
    t.getClosestNodes data = .ok (t.closest data) := by
  obtain ⟨pre, b, post, parts, found, bucket, -, before, after⟩ := locate h.tiles data
  have position : lowerBound sortByBounds t.buckets (NodeBucket.new data data) = pre.length := by
    simp only [findBucket] at found
    obtain ⟨-, -, same⟩ := bind_eq_ok.mp found
    exact Except.ok.inj same
  have walked := nodesOf_spec (h.buckets b (by simp [parts])).holds
  have search : t.nodes.find? (fun a => (nodeData a).eq data) =
      b.contents.find? fun a => (nodeData a).eq data := h.find_nodes parts before after
  have start : (if pre.length ≠ 0 then pre.length - 1 else pre.length) = pre.length - 1 := by
    split <;> omega
  have valid : ∀ c ∈ (t.buckets.drop (pre.length - 1)).take 3, c.Valid :=
    fun c member => h.buckets c (List.mem_of_mem_drop (List.mem_of_mem_take member))
  simp only [getClosestNodes, found, bucket, walked, ok_bind, closest, search, window, position,
    start, knownNodes, mapM_nodesOf valid, List.flatMap]
  cases b.contents.find? fun a => (nodeData a).eq data <;> rfl

theorem closest_length_le (data : NodeData) (t : NodeTree α) : (t.closest data).length ≤ 8 := by
  unfold closest
  split
  · show 1 ≤ 8
    decide
  · rw [List.length_take]
    exact Nat.min_le_left _ _

theorem closest_subset (data : NodeData) (t : NodeTree α) : ∀ x ∈ t.closest data, x ∈ t.nodes := by
  intro x member
  unfold closest at member
  split at member
  · next hit =>
    rw [List.mem_singleton.mp member]
    exact List.mem_of_find?_eq_some hit
  · obtain ⟨b, place, stored⟩ :=
      List.mem_flatMap.mp ((nearest_perm data _).mem_iff.mp (List.mem_of_mem_take member))
    exact List.mem_flatMap.mpr ⟨b, List.mem_of_mem_drop (List.mem_of_mem_take place), stored⟩

/-- How many nodes `getClosestNodes` returns. -/
def closestCount (data : NodeData) (t : NodeTree α) : Nat :=
  if t.nodes.any fun a => (nodeData a).eq data then 1
  else min DHT_FIND_NODE_COUNT ((t.window data).flatMap NodeBucket.contents).length

theorem closest_length (data : NodeData) (t : NodeTree α) :
    (t.closest data).length = t.closestCount data := by
  unfold closest closestCount
  cases search : t.nodes.find? fun a => (nodeData a).eq data with
  | some x =>
    rw [if_pos (List.any_eq_true.mpr ⟨x, List.mem_of_find?_eq_some search,
      List.find?_some search⟩)]
    rfl
  | none =>
    have absent : ¬ (t.nodes.any fun a => (nodeData a).eq data) = true := by
      rw [List.any_eq_true]
      rintro ⟨x, member, hit⟩
      exact List.find?_eq_none.mp search x member hit
    rw [if_neg absent, List.length_take, (nearest_perm data _).length_eq]

/-- The lookup of a stored id finds its node. -/
theorem closest_of_mem {t : NodeTree α} {x : α} (stored : x ∈ t.nodes)
    (unique : ∀ y ∈ t.nodes, nodeData y = nodeData x → y = x) : t.closest (nodeData x) = [x] := by
  unfold closest
  cases search : t.nodes.find? fun a => (nodeData a).eq (nodeData x) with
  | some y =>
    have own := List.find?_some search
    rw [NodeData.eq_iff] at own
    rw [unique y (List.mem_of_find?_eq_some search) own]
  | none =>
    have miss := List.find?_eq_none.mp search x stored
    rw [NodeData.eq_iff] at miss
    exact absurd rfl miss

/-! ## Trees with given nodes -/

private theorem exists_bucket (xs : List α) (few : xs.length ≤ DHT_K) :
    ∃ (b : Bucket α) (ys : List α), b.Holds ys ∧ ys.Perm xs ∧ NodeBucket.Sorted ys ∧
      b.low = NodeData.minValue ∧ b.high = NodeData.maxValue := by
  induction xs with
  | nil => exact ⟨_, [], NodeBucket.new_holds _ _, List.Perm.refl _, List.Pairwise.nil, rfl, rfl⟩
  | cons x xs ih =>
    rw [List.length_cons] at few
    obtain ⟨b, ys, holds, perm, sorted, low, high⟩ := ih (by omega)
    have inside : b.inBounds (nodeData x) = true := by
      have below := (nodeData x).number_lt
      rw [NodeBucket.inBounds_iff, low, high, minValue_number, maxValue_number]
      omega
    obtain ⟨b', -, holds', low', high'⟩ := NodeBucket.add_room (fun _ => false) x holds inside
      (by rw [perm.length_eq]; omega)
    exact ⟨b', _, holds', (NodeBucket.insertSorted_perm x ys).trans (perm.cons x),
      NodeBucket.insertSorted_sorted x ys sorted, low'.trans low, high'.trans high⟩

/-- Up to eight nodes fit into a tree around any id. -/
theorem exists_of_nodes (T : NodeData) (xs : List α) (few : xs.length ≤ DHT_K) :
    ∃ t : NodeTree α, t.Valid 0 ∧ t.node = T ∧ t.nodes.Perm xs := by
  obtain ⟨b, ys, holds, perm, sorted, low, high⟩ := exists_bucket xs few
  have valid : b.Valid := holds.valid sorted fun x _ => by
    have below := (nodeData x).number_lt
    rw [NodeBucket.inBounds_iff, low, high, minValue_number, maxValue_number]
    omega
  refine ⟨_, single_valid T low high valid, rfl, ?_⟩
  have contents := holds.contents_eq
  simpa [nodes, contents] using perm

end NodeTree
end TorrentSync.Source
