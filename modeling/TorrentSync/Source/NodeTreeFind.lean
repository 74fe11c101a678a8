import TorrentSync.Source.NodeTreeRun

/-!
# Finding a bucket

In every tree met in a run the bucket set is strictly ordered by `sortByBounds`, and the
probe `[x, x]` that `findBucket` looks for is incomparable to one bucket of it, the one
that covers `x`. A split of any of its buckets inserts both halves. So none of the
assertions of the tree can fail.
-/
namespace TorrentSync.Source.NodeTree

open Lib Tiling PrefixRange

variable {α : Type}

/-- The degenerate bucket `findBucket` searches with. -/
def probe (x : NodeData) : Bucket α := NodeBucket.new x x

/-- A bucket is incomparable to the probe exactly if it covers the id. -/
theorem incomparable_iff (c : Bucket α) (x : NodeData) :
    sortByBounds c (probe x) = false ∧ sortByBounds (probe x) c = false ↔ c.inBounds x = true := by
  rw [c.inBounds_iff, ← Bool.not_eq_true, ← Bool.not_eq_true]
  simp only [sortByBounds, probe, NodeBucket.new, NodeData.lt_iff]
  omega

/-- `findBucket` of `x` ends at index `i`, where `b` is the one bucket covering `x`. -/
structure FindsOnly (t : NodeTree α) (x : NodeData) (i : Nat) (b : Bucket α) : Prop where
  found : t.findBucket x = .ok i
  bucket : t.bucketAt i = .ok b
  covers : b.inBounds x = true
  only : ∀ j c, t.buckets[j]? = some c → (c.inBounds x = true ↔ j = i)
  incomparable : ∀ j c, t.buckets[j]? = some c →
    (sortByBounds c (probe x) = false ∧ sortByBounds (probe x) c = false ↔ j = i)

private theorem getElem?_around {pre post : List (Bucket α)} {b c : Bucket α} {j : Nat}
    (place : (pre ++ b :: post)[j]? = some c) :
    j = pre.length ∧ c = b ∨ j ≠ pre.length ∧ (c ∈ pre ∨ c ∈ post) := by
  rcases Nat.lt_trichotomy j pre.length with left | here | right
  · rw [List.getElem?_append_left left] at place
    exact .inr ⟨Nat.ne_of_lt left, .inl (List.mem_of_getElem? place)⟩
  · rw [here, List.getElem?_append_right (Nat.le_refl _), Nat.sub_self] at place
    exact .inl ⟨here, (Option.some.inj place).symm⟩
  · obtain ⟨k, rfl⟩ : ∃ k, j = pre.length + (k + 1) := ⟨j - pre.length - 1, by omega⟩
    rw [List.getElem?_append_right (by omega), Nat.add_sub_cancel_left, List.getElem?_cons_succ] at place
    exact .inr ⟨Nat.ne_of_gt right, .inr (List.mem_of_getElem? place)⟩

theorem finds_only {t : NodeTree α} (tiles : Tiles NodeBucket.bounds 0 t.buckets (2 ^ 160))
    (x : NodeData) : ∃ i b, FindsOnly t x i b := by
  obtain ⟨pre, b, post, parts, found, bucket, inside, before, after⟩ := locate tiles x
  have only : ∀ j c, t.buckets[j]? = some c → (c.inBounds x = true ↔ j = pre.length) := by
    intro j c place
    rw [parts] at place
    rcases getElem?_around place with ⟨here, rfl⟩ | ⟨away, left | right⟩
    · simp [here, inside]
    · simp [away, before c left]
    · simp [away, after c right]
  exact ⟨pre.length, b, found, bucket, inside, only, fun j c place => by
    rw [incomparable_iff, only j c place]⟩

/-- `split` of the bucket at index `i` returns; if it returns two buckets then both are in
the set, in the place of the old one. -/
def SplitInserts [IsNode α] (isBad : α → Bool) (i : Nat) (t : NodeTree α) : Prop :=
  ∃ t' halves, t.split isBad i = .ok (t', halves) ∧
    ∀ first second, halves = some (first, second) →
      first.place = some i ∧ second.place = some (i + 1) ∧
      t'.buckets = t.buckets.take i ++ first.bucket :: second.bucket :: t.buckets.drop (i + 1)

section Valid

variable [IsNode α]

theorem Valid.strictlyOrdered {t : NodeTree α} {d : Nat} (h : t.Valid d) :
    t.buckets.Pairwise fun x y => sortByBounds x y = true ∧ sortByBounds y x = false := by
  apply List.Pairwise.imp_of_mem _ (tiles_pairwise h.tiles)
  intro x y left right apart
  have ordered := (tiles_mem h.tiles left).2.1
  have ordered' := (tiles_mem h.tiles right).2.1
  rw [← Bool.not_eq_true]
  simp only [NodeBucket.bounds] at apart ordered ordered'
  simp only [sortByBounds, NodeData.lt_iff]
  omega

theorem Valid.splitInserts (isBad : α → Bool) {t : NodeTree α} {d : Nat} (h : t.Valid d) (i : Nat)
    (inside : i < t.getBucketsCount) : SplitInserts isBad i t := by
  rw [getBucketsCount] at inside
  have parts : t.buckets = t.buckets.take i ++ t.buckets[i] :: t.buckets.drop (i + 1) := by
    rw [List.cons_getElem_drop_succ, List.take_append_drop]
  have index : (t.buckets.take i).length = i :=
    List.length_take_of_le (Nat.le_of_lt inside)
  have range : t.buckets[i].bounds ∈ spine 160 t.node.number d := by
    rw [← h.shape]
    exact List.mem_map_of_mem (List.getElem_mem inside)
  obtain ⟨u, n, depth, range⟩ := mem_spine 160 _ d h.depth range
  rcases split_range isBad h parts depth range with ⟨-, run⟩ | ⟨lower, upper, run, -⟩
  · rw [index] at run
    exact ⟨t, none, run, fun first second impossible => by cases impossible⟩
  · rw [index] at run
    refine ⟨_, _, run, fun first second same => ?_⟩
    cases same
    exact ⟨rfl, rfl, rfl⟩

/-- The split `addNode` makes after a refused insertion inserts both halves. -/
theorem Valid.addNode_splitInserts (isBad : α → Bool) (a : α) {t : NodeTree α} {d : Nat}
    (h : t.Valid d) {i : Nat} {b b' : Bucket α} {isAdded : Bool}
    (found : t.findBucket (nodeData a) = .ok i) (bucket : t.bucketAt i = .ok b)
    (added : b.add isBad (some a) = .ok (b', isAdded)) :
    SplitInserts isBad i (t.store ⟨b', some i⟩) := by
  obtain ⟨pre, c, post, parts, found', bucket', inside, -⟩ := locate h.tiles (nodeData a)
  rw [found] at found'
  cases found'
  rw [bucket] at bucket'
  cases bucket'
  obtain ⟨b'', isAdded', added', valid, low, high, -⟩ :=
    (h.buckets b (by simp [parts])).add_spec isBad a inside
  rw [added] at added'
  cases added'
  rw [store_at b' parts]
  exact (h.replace parts low high valid).splitInserts isBad _ (by simp [getBucketsCount])

/-- A call fails in no other way than by the exception for a null argument. -/
theorem Valid.step_raises {t : NodeTree α} {d : Nat} (h : t.Valid d) (call : NodeTreeCall α) :
    Raises (fun fault => fault = nodeIsNotSet) (NodeTree.step call t) := by
  intro fault failed
  rcases h.step call with thrown | ⟨t', d', stepped, -⟩
  · rw [thrown] at failed
    cases failed
    rfl
  · rw [stepped] at failed
    cases failed

/-- In every run the bucket set is strictly ordered, every id has one bucket, found by
`findBucket` and alone incomparable to the probe, both insertions of every split
succeed, and no call can fail an assertion. -/
theorem run_findsOnly (T : NodeData) (calls : List (NodeTreeCall α)) :
    ∃ t, run calls (new T) = .ok t ∧
      (t.buckets.Pairwise fun x y => sortByBounds x y = true ∧ sortByBounds y x = false) ∧
      (∀ x, ∃ i b, FindsOnly t x i b) ∧
      (∀ isBad i, i < t.getBucketsCount → SplitInserts isBad i t) ∧
      (∀ isBad a i b b' isAdded, t.findBucket (nodeData a) = .ok i → t.bucketAt i = .ok b →
        b.add isBad (some a) = .ok (b', isAdded) → SplitInserts isBad i (t.store ⟨b', some i⟩)) ∧
      ∀ call, Raises (fun fault => fault = nodeIsNotSet) (step call t) := by
  obtain ⟨t, d, reached, valid, -⟩ := (new_valid (α := α) T).run calls
  exact ⟨t, reached, valid.strictlyOrdered, finds_only valid.tiles,
    fun isBad i inside => valid.splitInserts isBad i inside,
    fun isBad a i b b' isAdded found bucket added =>
      valid.addNode_splitInserts isBad a found bucket added,
    valid.step_raises⟩

end Valid
end TorrentSync.Source.NodeTree
