import TorrentSync.Source.NodeTreeRun

/-!
# Refused nodes

`addNode` splits the bucket of the table's own id at most once. When all nodes of that
bucket go to the half that also covers the new node and the own id, the node is refused
although that half could be split again. In every other case a refusal means that the
table has no room for the node.
-/
namespace TorrentSync.Source.NodeTree

open Lib Tiling PrefixRange

variable {α : Type}

/-- `findBucket` of the id leads to `b`. -/
def CoveredBy (t : NodeTree α) (x : NodeData) (b : Bucket α) : Prop :=
  ∃ i, t.findBucket x = .ok i ∧ t.bucketAt i = .ok b

theorem CoveredBy.unique {t : NodeTree α} {x : NodeData} {b c : Bucket α} (left : t.CoveredBy x b)
    (right : t.CoveredBy x c) : b = c := by
  obtain ⟨i, found, bucket⟩ := left
  obtain ⟨j, found', bucket'⟩ := right
  rw [found] at found'
  cases found'
  rw [bucket] at bucket'
  cases bucket'
  rfl

/-- How often the range of the table's own id has been halved. -/
def depth (t : NodeTree α) : Nat := t.getBucketsCount - 1

section Refusal

variable [IsNode α]

/-- A full bucket without bad nodes. -/
def Saturated (isBad : α → Bool) (b : Bucket α) : Prop :=
  b.contents.length = DHT_K ∧ ∀ x ∈ b.contents, isBad x = false

/-- The table has no room for the node: its bucket is full of nodes that are not bad, and
does not hold the table's own id or cannot be split further. -/
def NoRoom (isBad : α → Bool) (a : α) (t : NodeTree α) : Prop :=
  ∃ b, t.CoveredBy (nodeData a) b ∧ Saturated isBad b ∧
    (b.inBounds t.node = false ∨ b.low = b.high)

/-- The bucket of the node is that of the table's own id, is full of nodes that are not
bad, and all of them, the node and the own id agree on the next bit, after which the range
could still be halved. -/
def NeedsSecondSplit (isBad : α → Bool) (a : α) (t : NodeTree α) : Prop :=
  ∃ b, t.CoveredBy (nodeData a) b ∧ Saturated isBad b ∧ b.inBounds t.node = true ∧
    (∀ x ∈ b.contents, (nodeData x).bit t.depth = (nodeData a).bit t.depth) ∧
    t.node.bit t.depth = (nodeData a).bit t.depth ∧ t.depth + 1 < 160

theorem Valid.depth_eq {t : NodeTree α} {d : Nat} (h : t.Valid d) : t.depth = d := by
  rw [NodeTree.depth, h.getBucketsCount_eq, Nat.add_sub_cancel]

theorem Valid.coveredBy {t : NodeTree α} {d : Nat} (h : t.Valid d) {b : Bucket α} {x : NodeData}
    (member : b ∈ t.buckets) (covers : b.inBounds x = true) : t.CoveredBy x b :=
  finds_covering h.tiles member covers

omit [IsNode α] in
/-- A bucket over a prefix range covers a single id exactly if no bit is left. -/
theorem single_iff {b : Bucket α} {u n : Nat} (depth : n ≤ 160) (range : b.bounds = own 160 u n) :
    b.low = b.high ↔ n = 160 := by
  have low : b.low.number = (own 160 u n).1 := congrArg Prod.fst range
  have high : b.high.number = (own 160 u n).2 := congrArg Prod.snd range
  constructor
  · intro same
    by_contra shallow
    have room : 2 ^ 1 ≤ 2 ^ (160 - n) := Nat.pow_le_pow_right (by decide) (by omega)
    have equal : (own 160 u n).1 = (own 160 u n).2 := by rw [← low, ← high, same]
    simp only [own] at equal
    omega
  · rintro rfl
    apply NodeData.number_injective
    rw [low, high]
    simp [own]

/-- The half that took the node holds the table's own id exactly if the own id shares the
next bit with the node. -/
theorem TakesHalf.own_iff {isBad : α → Bool} {a : α} {t : NodeTree α} {d : Nat}
    {b half other c : Bucket α} {isAdded : Bool} (taken : TakesHalf isBad a d b half other c isAdded)
    (covers : b.inBounds (nodeData a) = true)
    (range : b.bounds = PrefixRange.own 160 t.node.number d) :
    c.inBounds t.node = true ↔ t.node.bit d = (nodeData a).bit d := by
  have shared := (mem_own_iff 160 t.node.number d (nodeData a).number t.node.number_lt
    (nodeData a).number_lt).mp (by rw [← range]; exact (b.inBounds_iff_bounds _).mp covers)
  rw [NodeBucket.inBounds_congr taken.low taken.high, half.inBounds_iff_bounds, taken.halfBounds,
    mem_own_iff 160 _ (d + 1) _ (nodeData a).number_lt t.node.number_lt]
  constructor
  · intro agree
    exact agree d (Nat.lt_succ_self d)
  · intro next i below
    rcases Nat.lt_succ_iff_lt_or_eq.mp below with before | rfl
    · exact (shared i before).symm
    · exact next

/-- The bucket covering the node after a split refused it. -/
theorem TakesHalf.bounds_taken {isBad : α → Bool} {a : α} {d : Nat} {b half other c : Bucket α}
    {isAdded : Bool} (taken : TakesHalf isBad a d b half other c isAdded) :
    c.bounds = PrefixRange.own 160 (nodeData a).number (d + 1) := by
  rw [← taken.halfBounds, NodeBucket.bounds, NodeBucket.bounds, taken.low, taken.high]

theorem TakesHalf.covers_taken {isBad : α → Bool} {a : α} {d : Nat} {b half other c : Bucket α}
    {isAdded : Bool} (taken : TakesHalf isBad a d b half other c isAdded) :
    c.inBounds (nodeData a) = true := by
  rw [c.inBounds_iff_bounds, taken.bounds_taken]
  exact (mem_own_iff 160 _ (d + 1) _ (nodeData a).number_lt (nodeData a).number_lt).mpr
    fun _ _ => rfl

omit [IsNode α] in
theorem Ordered.mem {c other : Bucket α} {halves pre post : List (Bucket α)}
    (order : Ordered c other halves) : c ∈ pre ++ halves ++ post := by
  rcases order with rfl | rfl <;> simp

/-- In the outcome with a split the node is refused exactly if all nodes of the bucket
share the next bit with it. -/
theorem TakesHalf.refused_iff {isBad : α → Bool} {a : α} {d : Nat} {b half other c : Bucket α}
    {isAdded : Bool} (taken : TakesHalf isBad a d b half other c isAdded)
    (full : b.contents.length = DHT_K) (clean : ∀ x ∈ b.contents, isBad x = false) :
    isAdded = false ↔ ∀ x ∈ b.contents, (nodeData x).bit d = (nodeData a).bit d := by
  rw [taken.effect.refused_iff, ← taken.full_iff full]
  constructor
  · intro both
    exact both.1
  · intro halfFull
    exact ⟨halfFull, fun x member =>
      clean x (taken.contents.mem_iff.mp (List.mem_append_left _ member))⟩

/-- A refused node leaves a table without room for it, unless a second split was needed. -/
theorem AddOutcome.noRoom_iff {isBad : α → Bool} {a : α} {t t' : NodeTree α} {d d' : Nat}
    {isAdded : Bool} (h : t.Valid d) (h' : t'.Valid d')
    (outcome : AddOutcome isBad a t d t' isAdded) :
    (isAdded = false → NoRoom isBad a t') ↔ ¬ NeedsSecondSplit isBad a t := by
  unfold NeedsSecondSplit
  rw [h.depth_eq]
  cases outcome with
  | @direct pre post b b' _ parts covers low high effect final =>
    have here := h.coveredBy (b := b) (by simp [parts]) covers
    constructor
    · rintro - ⟨c, covered, saturated, own, -, -, splittable⟩
      obtain rfl := here.unique covered
      have refused := effect.refused_iff.mpr saturated
      rw [refused, own] at final
      rcases final with impossible | impossible | deepest
      · cases impossible
      · cases impossible
      · omega
    · rintro - rfl
      have sameBounds := NodeBucket.inBounds_congr low high
      refine ⟨b', h'.coveredBy (by simp) (by rw [sameBounds, covers]), ?_, ?_⟩
      · rw [Saturated, effect.same_of_refused]
        exact effect.refused_iff.mp rfl
      · rcases final with impossible | notOwn | deepest
        · cases impossible
        · exact .inl (by rw [sameBounds, notOwn])
        · cases own : b.inBounds t.node with
          | false => exact .inl (by rw [sameBounds, own])
          | true =>
            have range := h.own_range (b := b) (by simp [parts]) own
            rw [low, high]
            exact .inr ((single_iff h.depth range).mpr deepest)
  | @split pre post halves b half other c _ parts covers own full clean taken order =>
    have range := h.own_range (b := b) (by simp [parts]) own
    have here := h.coveredBy (b := b) (by simp [parts]) covers
    have there := h'.coveredBy order.mem taken.covers_taken
    constructor
    · rintro noRoom ⟨b', covered, -, -, agree, next, splittable⟩
      obtain rfl := here.unique covered
      obtain ⟨c', covered', -, final⟩ := noRoom ((taken.refused_iff full clean).mpr agree)
      obtain rfl := there.unique covered'
      rcases final with notOwn | single
      · have isOwn := (taken.own_iff covers range).mpr next
        rw [isOwn] at notOwn
        cases notOwn
      · have deepest := (single_iff taken.shallow taken.bounds_taken).mp single
        omega
    · rintro noSplit rfl
      have agree := (taken.refused_iff full clean).mp rfl
      refine ⟨c, there, ?_, ?_⟩
      · rw [Saturated, taken.effect.same_of_refused]
        exact taken.effect.refused_iff.mp rfl
      · cases isOwn : c.inBounds t.node with
        | false => exact .inl rfl
        | true =>
          have next := (taken.own_iff covers range).mp isOwn
          have deepest : ¬ d + 1 < 160 := fun splittable =>
            noSplit ⟨b, here, ⟨full, clean⟩, own, agree, next, splittable⟩
          have shallow := taken.shallow
          exact .inr ((single_iff shallow taken.bounds_taken).mpr (by omega))

/-- In every run, whatever `isBad` says during the call: a refusal means that the table
has no room for the node, unless the bucket needed a second split. -/
theorem run_refused_iff (T : NodeData) (calls : List (NodeTreeCall α)) (isBad : α → Bool) (a : α) :
    ∃ t t' isAdded, run calls (new T) = .ok t ∧ t.addNode isBad (some a) = .ok (t', isAdded) ∧
      ((isAdded = false → NoRoom isBad a t') ↔ ¬ NeedsSecondSplit isBad a t) := by
  obtain ⟨t, d, reached, valid, -⟩ := (new_valid (α := α) T).run calls
  obtain ⟨t', d', isAdded, added, valid', -, -, outcome⟩ := valid.addNode_outcome isBad a
  exact ⟨t, t', isAdded, reached, added, outcome.noRoom_iff valid valid'⟩

end Refusal

/-! ## Nine neighbours -/

/-- The id with `n` in its last word and zeros before it. -/
def lastWord (n : Nat) : NodeData := ⟨0, 0, BitVec.ofNat 32 n⟩

/-- A new tree around the id 0 after the ids 1 to 8 were added. -/
def eightNeighbours : Fallible (NodeTree NodeData) :=
  run ((List.range 8).map fun n => .addNode (fun _ => false) (some (lastWord (n + 1))))
    (new NodeData.minValue)

/-- The ninth is refused after one split; then its bucket covers the lower half of all ids
and with them the id of the table. -/
theorem ninthNeighbour_refused : ∃ t t', eightNeighbours = .ok t ∧
    t.addNode (fun _ => false) (some (lastWord 9)) = .ok (t', false) ∧
    ¬ NoRoom (fun _ => false) (lastWord 9) t' := by
  have outcome : (do
      let t ← eightNeighbours
      let (t', isAdded) ← t.addNode (fun _ => false) (some (lastWord 9))
      let i ← t'.findBucket (lastWord 9)
      let b ← t'.bucketAt i
      .ok (isAdded, b.inBounds t'.node, b.low == b.high)) = .ok (false, true, false) := by
    decide +kernel
  obtain ⟨t, reached, outcome⟩ := bind_eq_ok.mp outcome
  obtain ⟨⟨t', isAdded⟩, added, outcome⟩ := bind_eq_ok.mp outcome
  obtain ⟨i, found, outcome⟩ := bind_eq_ok.mp outcome
  obtain ⟨b, bucket, outcome⟩ := bind_eq_ok.mp outcome
  simp only [Except.ok.injEq, Prod.mk.injEq, beq_eq_false_iff_ne] at outcome
  obtain ⟨rfl, own, wide⟩ := outcome
  refine ⟨t, t', reached, added, ?_⟩
  rintro ⟨c, covered, -, final⟩
  obtain rfl := CoveredBy.unique ⟨i, found, bucket⟩ covered
  rcases final with notOwn | single
  · rw [notOwn] at own
    cases own
  · exact wide single

end TorrentSync.Source.NodeTree
