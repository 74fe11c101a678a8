import TorrentSync.Source.NodeTree
import TorrentSync.Source.SplitInHalf

/-!
# The NodeTree invariant

The bounds of the buckets are a spine: what is left of the whole id range after
halving the range of the table's own id `d` times. Every bucket stores its nodes
sorted and within its bounds. From this follow the lookup of a bucket and the effect of
writing through a bucket pointer.
-/
namespace TorrentSync.Source

open Lib Tiling PrefixRange OrderedContainers

variable {α : Type}

/-- The closed interval of ids a bucket covers. -/
def NodeBucket.bounds {N : Nat} (b : NodeBucket N α) : Nat × Nat := (b.low.number, b.high.number)

theorem NodeBucket.inBounds_congr {N : Nat} {b c : NodeBucket N α} (low : c.low = b.low)
    (high : c.high = b.high) (x : NodeData) : c.inBounds x = b.inBounds x := by
  simp only [inBounds, low, high]

theorem NodeBucket.inBounds_iff_bounds {N : Nat} (b : NodeBucket N α) (x : NodeData) :
    b.inBounds x = true ↔ b.bounds.1 ≤ x.number ∧ x.number ≤ b.bounds.2 := b.inBounds_iff x

section Buckets

variable [IsNode α] {N : Nat}

/-- A bucket stores its contents in its first slots, sorted and within its bounds. -/
structure NodeBucket.Valid (b : NodeBucket N α) : Prop where
  holds : b.Holds b.contents
  sorted : NodeBucket.Sorted b.contents
  within : ∀ x ∈ b.contents, b.inBounds (nodeData x) = true

theorem NodeBucket.Holds.valid {b : NodeBucket N α} {xs : List α} (h : b.Holds xs)
    (sorted : Sorted xs) (within : ∀ x ∈ xs, b.inBounds (nodeData x) = true) : b.Valid := by
  have same := h.contents_eq
  exact ⟨by rwa [same], by rwa [same], by rwa [same]⟩

theorem NodeBucket.new_valid (low high : NodeData) :
    (NodeBucket.new low high : NodeBucket N α).Valid :=
  (new_holds low high).valid List.Pairwise.nil (by simp)

end Buckets

namespace NodeTree

/-- The whole stored list, bucket after bucket. -/
def nodes (t : NodeTree α) : List α := t.buckets.flatMap NodeBucket.contents

section Lookup

/-- The bucket of an id and the buckets around it, when the buckets tile the id range. -/
theorem locate {t : NodeTree α} (tiles : Tiles NodeBucket.bounds 0 t.buckets (2 ^ 160))
    (x : NodeData) :
    ∃ pre b post, t.buckets = pre ++ b :: post ∧ t.findBucket x = .ok pre.length ∧
      t.bucketAt pre.length = .ok b ∧ b.inBounds x = true ∧
      (∀ y ∈ pre, y.inBounds x = false) ∧ (∀ y ∈ post, y.inBounds x = false) := by
  obtain ⟨pre, b, post, split, low, high, before, after⟩ :=
    tiles_cover tiles (Nat.zero_le _) x.number_lt
  have order : ∀ y : Bucket α, sortByBounds y (NodeBucket.new x x) = true ↔ y.high.number < x.number := by
    intro y
    simp [sortByBounds, NodeBucket.new]
  have position : lowerBound sortByBounds t.buckets (NodeBucket.new x x) = pre.length := by
    rw [split]
    apply lowerBound_eq
    · exact fun y member => (order y).mpr (before y member)
    · rw [← Bool.not_eq_true, order]
      exact Nat.not_lt.mpr high
  refine ⟨pre, b, post, split, ?_, ?_, b.inBounds_iff_bounds x |>.mpr ⟨low, high⟩, ?_, ?_⟩
  · have inside : pre.length < t.buckets.length := by rw [split]; simp
    simp [findBucket, position, inside]
  · simp [bucketAt, split]
  · intro y member
    rw [← Bool.not_eq_true, y.inBounds_iff_bounds]
    have := before y member
    omega
  · intro y member
    rw [← Bool.not_eq_true, y.inBounds_iff_bounds]
    have := after y member
    omega

/-- `findBucket` leads to any bucket of the set that covers the id. -/
theorem finds_covering {t : NodeTree α} (tiles : Tiles NodeBucket.bounds 0 t.buckets (2 ^ 160))
    {b : Bucket α} {x : NodeData} (member : b ∈ t.buckets) (covers : b.inBounds x = true) :
    ∃ i, t.findBucket x = .ok i ∧ t.bucketAt i = .ok b := by
  obtain ⟨pre, c, post, parts, found, bucket, -, before, after⟩ := locate tiles x
  rw [parts] at member
  rcases List.mem_append.mp member with left | right
  · rw [before b left] at covers
    cases covers
  · rcases List.mem_cons.mp right with rfl | right
    · exact ⟨pre.length, found, bucket⟩
    · rw [after b right] at covers
      cases covers

/-- The buckets in front of one that covers an id do not cover it. -/
theorem before_covering {t : NodeTree α} (tiles : Tiles NodeBucket.bounds 0 t.buckets (2 ^ 160))
    {pre post : List (Bucket α)} {b : Bucket α} (parts : t.buckets = pre ++ b :: post)
    {x : NodeData} (covers : b.inBounds x = true) : ∀ y ∈ pre, y.inBounds x = false := by
  intro y member
  rw [parts] at tiles
  have apart := (tiles_around tiles).1 y member
  rw [b.inBounds_iff_bounds] at covers
  rw [← Bool.not_eq_true, y.inBounds_iff_bounds]
  omega

/-- Only one bucket of a split of the set covers an id. -/
theorem unique_split {pre pre' post post' : List (Bucket α)} {b b' : Bucket α} {x : NodeData}
    (same : pre ++ b :: post = pre' ++ b' :: post') (inside : b.inBounds x = true)
    (inside' : b'.inBounds x = true) (before : ∀ y ∈ pre, y.inBounds x = false)
    (before' : ∀ y ∈ pre', y.inBounds x = false) : pre = pre' ∧ b = b' ∧ post = post' := by
  have stop : ∀ (p : List (Bucket α)) (c : Bucket α) (q : List (Bucket α)),
      c.inBounds x = true → (∀ y ∈ p, y.inBounds x = false) →
      (p ++ c :: q).takeWhile (fun y => !y.inBounds x) = p := by
    intro p c q inC beforeC
    rw [List.takeWhile_append_of_pos (by simpa using beforeC)]
    simp [inC]
  have first := stop pre b post inside before
  rw [same, stop pre' b' post' inside' before'] at first
  subst first
  have tails := List.append_cancel_left same
  exact ⟨rfl, List.head_eq_of_cons_eq tails, List.tail_eq_of_cons_eq tails⟩

end Lookup

/-- Writing through a pointer to the bucket at a known place replaces that bucket. -/
theorem store_at {t : NodeTree α} {pre post : List (Bucket α)} {b : Bucket α} (c : Bucket α)
    (split : t.buckets = pre ++ b :: post) :
    t.store ⟨c, some pre.length⟩ = { t with buckets := pre ++ c :: post } := by
  simp [store, split]

theorem nodesFrom_spec (elements : Vector (Option α) DHT_K) (seen xs : List α)
    (rest : List (Option α)) (live : elements.toList = (seen ++ xs).map some ++ rest) :
    nodesFrom elements xs.length seen.length = .ok xs := by
  induction xs generalizing seen with
  | nil => rfl
  | cons x xs ih =>
    have here : elements.toList = seen.map some ++ some x :: (xs.map some ++ rest) := by
      simpa using live
    have read := Lib.ArrayAlgorithms.cell_at NodeBucket.outOfArray here
    rw [List.length_map] at read
    have later := ih (seen ++ [x]) (by simpa using live)
    rw [List.length_append, List.length_cons, List.length_nil, Nat.zero_add] at later
    simp only [nodesFrom, List.length_cons, read, deref_some, later, ok_bind]

theorem nodesOf_spec {b : Bucket α} {xs : List α} (h : b.Holds xs) : nodesOf b = .ok xs := by
  obtain ⟨count, rest, live⟩ := h
  have walk := nodesFrom_spec b.elements [] xs rest (by simpa using live)
  rw [nodesOf, count]
  simpa using walk

/-- A cleared tree is one bucket over all ids. -/
theorem clear_buckets (t : NodeTree α) :
    t.clear = { t with buckets := [NodeBucket.new NodeData.minValue NodeData.maxValue] } := rfl

/-- Nodes of a tree whose bucket list is split around one bucket. -/
theorem nodes_perm {t : NodeTree α} {pre post : List (Bucket α)} {b : Bucket α}
    (split : t.buckets = pre ++ b :: post) :
    t.nodes.Perm (b.contents ++ (pre ++ post).flatMap NodeBucket.contents) := by
  rw [nodes, split, List.flatMap_append, List.flatMap_cons, List.flatMap_append,
    ← List.append_assoc, ← List.append_assoc]
  exact List.Perm.append_right _ List.perm_append_comm

@[simp] theorem clear_nodes (t : NodeTree α) : t.clear.nodes = [] := by
  rw [clear_buckets]
  have empty := (NodeBucket.new_holds NodeData.minValue NodeData.maxValue (N := DHT_K) (α := α))
  simp [nodes, empty.contents_eq]

section Invariant

variable [IsNode α]

/-- Shape and contents of a tree whose own range has been halved `d` times. -/
structure Valid (t : NodeTree α) (d : Nat) : Prop where
  depth : d ≤ 160
  shape : t.buckets.map NodeBucket.bounds = spine 160 t.node.number d
  buckets : ∀ b ∈ t.buckets, b.Valid

theorem Valid.tiles {t : NodeTree α} {d : Nat} (h : t.Valid d) :
    Tiles NodeBucket.bounds 0 t.buckets (2 ^ 160) := by
  have whole := spine_tiles 160 t.node.number d h.depth t.node.number_lt
  rw [← h.shape] at whole
  exact (tiles_map id NodeBucket.bounds).mp whole

/-- There is one bucket more than the range of the table's own id was halved. -/
theorem Valid.getBucketsCount_eq {t : NodeTree α} {d : Nat} (h : t.Valid d) :
    t.getBucketsCount = d + 1 := by
  have lengths := congrArg List.length h.shape
  rwa [List.length_map, spine_length] at lengths

theorem minValue_number : NodeData.minValue.number = 0 := by decide

theorem maxValue_number : NodeData.maxValue.number = 2 ^ 160 - 1 := by decide

theorem clear_valid (t : NodeTree α) : t.clear.Valid 0 where
  depth := Nat.zero_le _
  shape := by
    have whole : t.node.number / 2 ^ 160 = 0 := Nat.div_eq_of_lt t.node.number_lt
    rw [clear_buckets]
    simp only [List.map_cons, List.map_nil, spine, leftOf, rightOf, own, Nat.sub_zero,
      List.nil_append, NodeBucket.bounds, NodeBucket.new, minValue_number, maxValue_number]
    rw [whole]
    rfl
  buckets := by
    intro b member
    rw [clear_buckets] at member
    rw [List.mem_singleton.mp member]
    exact NodeBucket.new_valid _ _

/-- Replacing a bucket by a valid one with the same bounds keeps the invariant. -/
theorem Valid.replace {t : NodeTree α} {d : Nat} (h : t.Valid d) {pre post : List (Bucket α)}
    {b c : Bucket α} (split : t.buckets = pre ++ b :: post) (low : c.low = b.low)
    (high : c.high = b.high) (valid : c.Valid) :
    ({ t with buckets := pre ++ c :: post } : NodeTree α).Valid d where
  depth := h.depth
  shape := by
    have bounds : c.bounds = b.bounds := by simp only [NodeBucket.bounds, low, high]
    have shape := h.shape
    rw [split] at shape
    simpa [bounds] using shape
  buckets := by
    intro y member
    rcases List.mem_append.mp member with left | right
    · exact h.buckets y (by rw [split]; exact List.mem_append_left _ left)
    · rcases List.mem_cons.mp right with rfl | right
      · exact valid
      · exact h.buckets y (by rw [split]; exact List.mem_append_right _ (List.mem_cons_of_mem _ right))

/-- A tree of one bucket that has not been split. -/
theorem single_valid (nodeNode : NodeData) {b : Bucket α} (low : b.low = NodeData.minValue)
    (high : b.high = NodeData.maxValue) (valid : b.Valid) : (⟨[b], nodeNode⟩ : NodeTree α).Valid 0 := by
  have empty : (new nodeNode : NodeTree α).Valid 0 := clear_valid _
  have split : (new nodeNode : NodeTree α).buckets =
      [] ++ NodeBucket.new NodeData.minValue NodeData.maxValue :: [] := rfl
  exact empty.replace split low high valid

/-- The bucket covering the table's own id is the innermost range of the spine. -/
theorem Valid.own_bucket {t : NodeTree α} {d : Nat} (h : t.Valid d) {pre post : List (Bucket α)}
    {b : Bucket α} (split : t.buckets = pre ++ b :: post) (inside : b.inBounds t.node = true)
    (before : ∀ y ∈ pre, y.inBounds t.node = false) :
    pre.map NodeBucket.bounds = leftOf 160 t.node.number d ∧
      b.bounds = own 160 t.node.number d ∧
      post.map NodeBucket.bounds = rightOf 160 t.node.number d := by
  have shape := h.shape
  rw [spine, List.map_eq_append_iff] at shape
  obtain ⟨pre', rest, split', left, tail⟩ := shape
  obtain ⟨b', post', rfl, middle, right⟩ := List.map_eq_cons_iff.mp tail
  have ownMember := (mem_own_iff 160 t.node.number d t.node.number t.node.number_lt
    t.node.number_lt).mpr (fun _ _ => rfl)
  have inside' : b'.inBounds t.node = true := by
    rw [b'.inBounds_iff_bounds, middle]
    exact ownMember
  have before' := before_covering h.tiles split' inside'
  obtain ⟨rfl, rfl, rfl⟩ := unique_split (split.symm.trans split') inside inside' before before'
  exact ⟨left, middle, right⟩

/-- The bucket covering the table's own id has the range left after `d` halvings. -/
theorem Valid.own_range {t : NodeTree α} {d : Nat} (h : t.Valid d) {b : Bucket α}
    (member : b ∈ t.buckets) (inside : b.inBounds t.node = true) :
    b.bounds = own 160 t.node.number d := by
  obtain ⟨pre, post, parts⟩ := List.append_of_mem member
  exact (h.own_bucket parts inside (before_covering h.tiles parts inside)).2.1

end Invariant
end NodeTree
end TorrentSync.Source
