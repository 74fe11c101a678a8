import TorrentSync.Source.NodeTreeInvariant

/-!
# Splitting a bucket

`add` and `remove` keep a bucket valid. On a valid tree `split` replaces the bucket of
the table's own id by its two halves, which take over exactly its nodes, unless that
bucket covers a single id.
-/
namespace TorrentSync.Source

open Lib Tiling PrefixRange OrderedContainers

variable {α : Type} [IsNode α]

namespace NodeBucket

variable {N : Nat}

theorem Valid.length_le {b : NodeBucket N α} (h : b.Valid) : b.contents.length ≤ N :=
  h.holds.length_le

/-- Inserting an id within the bounds keeps a bucket valid. -/
theorem Valid.of_insertSorted {b c : NodeBucket N α} (a : α) (xs : List α) (h : b.Valid)
    (kept : List.Sublist xs b.contents) (inside : b.inBounds (nodeData a) = true)
    (holds : c.Holds (insertSorted a xs)) (low : c.low = b.low) (high : c.high = b.high) :
    c.Valid := by
  apply holds.valid (insertSorted_sorted a xs (List.Pairwise.sublist kept h.sorted))
  intro x member
  rw [inBounds_congr low high]
  rcases (mem_insertSorted a x xs).mp member with rfl | old
  · exact inside
  · exact h.within x (kept.subset old)

/-- What `add` does to the contents: the node goes in, after the bad nodes of a full
bucket went out, or nothing changes because a full bucket has no bad node. -/
inductive Added (isBad : α → Bool) (a : α) (b b' : NodeBucket N α) : Bool → Prop
  | room (free : b.contents.length < N) (gained : b'.contents.Perm (a :: b.contents)) :
      Added isBad a b b' true
  | evicted (full : b.contents.length = N) (unclean : ∃ x ∈ b.contents, isBad x = true)
      (gained : b'.contents.Perm (a :: b.contents.filter fun x => !isBad x)) :
      Added isBad a b b' true
  | refused (full : b.contents.length = N) (clean : ∀ x ∈ b.contents, isBad x = false)
      (same : b'.contents = b.contents) : Added isBad a b b' false

omit [IsNode α] in
/-- A full bucket without bad nodes refuses, and nothing else does. -/
theorem Added.refused_iff {isBad : α → Bool} {a : α} {b b' : NodeBucket N α} {isAdded : Bool}
    (effect : Added isBad a b b' isAdded) :
    isAdded = false ↔ b.contents.length = N ∧ ∀ x ∈ b.contents, isBad x = false := by
  cases effect with
  | room free gained => simp [Nat.ne_of_lt free]
  | evicted full unclean gained => simpa [full] using unclean
  | refused full clean same => exact ⟨fun _ => ⟨full, clean⟩, fun _ => rfl⟩

omit [IsNode α] in
/-- After a refusal the contents are the same. -/
theorem Added.same_of_refused {isBad : α → Bool} {a : α} {b b' : NodeBucket N α}
    (effect : Added isBad a b b' false) : b'.contents = b.contents := by
  cases effect with
  | refused full clean same => exact same

/-- A bucket with room takes every node within its bounds. -/
theorem Valid.add_free (isBad : α → Bool) (a : α) {b : NodeBucket N α} (h : b.Valid)
    (inside : b.inBounds (nodeData a) = true) (free : b.contents.length < N) :
    ∃ b', b.add isBad (some a) = .ok (b', true) ∧ b'.Valid ∧ b'.low = b.low ∧
      b'.high = b.high ∧ b'.contents.Perm (a :: b.contents) := by
  obtain ⟨b', run, holds, low, high⟩ := add_room isBad a h.holds inside free
  refine ⟨b', run, h.of_insertSorted a _ (List.Sublist.refl _) inside holds low high, low, high, ?_⟩
  rw [holds.contents_eq]
  exact insertSorted_perm a _

theorem Valid.add_spec (isBad : α → Bool) (a : α) {b : NodeBucket N α} (h : b.Valid)
    (inside : b.inBounds (nodeData a) = true) :
    ∃ b' isAdded, b.add isBad (some a) = .ok (b', isAdded) ∧ b'.Valid ∧ b'.low = b.low ∧
      b'.high = b.high ∧ Added isBad a b b' isAdded := by
  rcases Nat.lt_or_eq_of_le h.length_le with free | full
  · obtain ⟨b', run, valid, low, high, gained⟩ := h.add_free isBad a inside free
    exact ⟨b', true, run, valid, low, high, .room free gained⟩
  · rcases add_full isBad a h.holds inside full with
      ⟨b', run, unclean, holds, low, high⟩ | ⟨b', run, clean, holds, low, high⟩
    · refine ⟨b', true, run, h.of_insertSorted a _ List.filter_sublist inside holds low high, low,
        high, .evicted full unclean ?_⟩
      rw [holds.contents_eq]
      exact insertSorted_perm a _
    · refine ⟨b', false, run, holds.valid h.sorted ?_, low, high, .refused full clean holds.contents_eq⟩
      intro x member
      rw [inBounds_congr low high]
      exact h.within x member

/-- `remove` on a valid bucket deletes the first node of the id. -/
theorem Valid.remove_spec (addr : NodeData) {b : NodeBucket N α} (h : b.Valid) :
    ∃ b' isRemoved, b.remove addr = .ok (b', isRemoved) ∧ b'.Valid ∧ b'.low = b.low ∧
      b'.high = b.high ∧ b'.contents = b.contents.eraseP fun x => addr.eq (nodeData x) := by
  obtain ⟨b', run, holds, low, high⟩ := NodeBucket.remove_spec addr h.holds
  refine ⟨b', _, run, holds.valid (List.Pairwise.sublist List.eraseP_sublist h.sorted) ?_, low, high,
    holds.contents_eq⟩
  intro x member
  rw [inBounds_congr low high]
  exact h.within x (List.eraseP_sublist.subset member)

end NodeBucket

namespace NodeTree

/-! ## Splitting -/

/-- Distributing nodes over two buckets with room for all of them loses none. -/
theorem distribute_spec (isBad : α → Bool) (xs : List α) {lower upper : Bucket α}
    (validLower : lower.Valid) (validUpper : upper.Valid)
    (room : lower.contents.length + upper.contents.length + xs.length ≤ DHT_K)
    (cover : ∀ x ∈ xs, lower.inBounds (nodeData x) = true ∨ upper.inBounds (nodeData x) = true) :
    ∃ lower' upper', distribute isBad xs lower upper = .ok (lower', upper') ∧
      lower'.Valid ∧ upper'.Valid ∧ lower'.bounds = lower.bounds ∧ upper'.bounds = upper.bounds ∧
      (lower'.contents ++ upper'.contents).Perm (xs ++ (lower.contents ++ upper.contents)) := by
  induction xs generalizing lower upper with
  | nil => exact ⟨lower, upper, rfl, validLower, validUpper, rfl, rfl, List.Perm.refl _⟩
  | cons x xs ih =>
    rw [List.length_cons] at room
    have later : ∀ y ∈ xs, lower.inBounds (nodeData y) = true ∨ upper.inBounds (nodeData y) = true :=
      fun y member => cover y (List.mem_cons_of_mem _ member)
    cases side : lower.inBounds (nodeData x) with
    | true =>
      obtain ⟨c, run, valid, low, high, gained⟩ := validLower.add_free isBad x side (by omega)
      have size := gained.length_eq
      rw [List.length_cons] at size
      obtain ⟨lower', upper', rest, validLower', validUpper', lowerBounds, upperBounds, perm⟩ :=
        ih valid validUpper (by omega) (by simpa only [NodeBucket.inBounds_congr low high] using later)
      refine ⟨lower', upper', ?_, validLower', validUpper', ?_, upperBounds, ?_⟩
      · simp only [distribute, side, if_true, run, ok_bind, rest]
      · rw [lowerBounds, NodeBucket.bounds, NodeBucket.bounds, low, high]
      · have moved := (List.Perm.append_right upper.contents gained).append_left xs
        exact perm.trans (moved.trans List.perm_middle)
    | false =>
      have other : upper.inBounds (nodeData x) = true := by
        simpa [side] using cover x List.mem_cons_self
      obtain ⟨c, run, valid, low, high, gained⟩ := validUpper.add_free isBad x other (by omega)
      have size := gained.length_eq
      rw [List.length_cons] at size
      obtain ⟨lower', upper', rest, validLower', validUpper', lowerBounds, upperBounds, perm⟩ :=
        ih validLower valid (by omega) (by simpa only [NodeBucket.inBounds_congr low high] using later)
      refine ⟨lower', upper', ?_, validLower', validUpper', lowerBounds, ?_, ?_⟩
      · simp only [distribute, side, Bool.false_eq_true, if_false, other, check_true, run, ok_bind,
          rest]
      · rw [upperBounds, NodeBucket.bounds, NodeBucket.bounds, low, high]
      · have moved := (gained.append_left lower.contents).append_left xs
        exact perm.trans (moved.trans ((List.perm_middle.append_left xs).trans List.perm_middle))

omit [IsNode α] in
/-- The two insertions of `split` put the halves where the split bucket was. -/
private theorem insert_halves {pre post : List (Bucket α)} {b lower upper : Bucket α}
    (before : ∀ y ∈ pre, y.bounds.2 < b.bounds.1) (after : ∀ y ∈ post, b.bounds.2 < y.bounds.1)
    (ordered : ∀ y ∈ pre, y.bounds.1 ≤ y.bounds.2)
    (cuts : Cuts b.bounds lower.bounds upper.bounds) :
    insertUnique sortByBounds upper (pre ++ post) = (pre ++ upper :: post, some pre.length) ∧
      insertUnique sortByBounds lower (pre ++ upper :: post) =
        (pre ++ lower :: upper :: post, some pre.length) := by
  obtain ⟨low, meet, high, lowerOrdered, upperOrdered⟩ := cuts
  have order : ∀ x y : Bucket α, sortByBounds x y = true ↔ x.bounds.2 < y.bounds.1 :=
    fun x y => NodeData.lt_iff _ _
  have notBefore : ∀ x y : Bucket α, y.bounds.1 ≤ x.bounds.2 → sortByBounds x y = false := by
    intro x y
    rw [← Bool.not_eq_true, order]
    omega
  have lastOf : ∀ y ∈ pre.getLast?, y ∈ pre := fun y member => List.mem_of_getLast? member
  have headOf : ∀ y ∈ post.head?, y ∈ post := fun y member => List.mem_of_head? member
  constructor
  · apply insertUnique_eq
    · intro y member
      have := before y member
      have := ordered y member
      exact notBefore _ _ (by omega)
    · intro y member
      have := before y (lastOf y member)
      exact (order _ _).mpr (by omega)
    · intro y member
      have := after y (headOf y member)
      exact (order _ _).mpr (by omega)
  · apply insertUnique_eq
    · intro y member
      have := before y member
      have := ordered y member
      exact notBefore _ _ (by omega)
    · intro y member
      have := before y (lastOf y member)
      exact (order _ _).mpr (by omega)
    · intro y member
      obtain rfl : upper = y := by simpa using member
      exact (order _ _).mpr (by omega)

omit [IsNode α] in
theorem cuts_cover {b lower upper : Bucket α}
    (cuts : Cuts b.bounds lower.bounds upper.bounds) {x : NodeData} (inside : b.inBounds x = true) :
    lower.inBounds x = true ∨ upper.inBounds x = true := by
  obtain ⟨low, meet, high, -, -⟩ := cuts
  simp only [NodeBucket.inBounds_iff_bounds] at inside ⊢
  omega

/-- What a successful `split` of the bucket `b` between `pre` and `post` leaves. -/
structure SplitResult (t : NodeTree α) (d : Nat) (pre post : List (Bucket α))
    (b lower upper : Bucket α) : Prop where
  lowerValid : lower.Valid
  upperValid : upper.Valid
  cuts : Cuts b.bounds lower.bounds upper.bounds
  contents : (lower.contents ++ upper.contents).Perm b.contents
  bounds : (lower.bounds, upper.bounds) = halves 160 t.node.number d
  valid : ({ t with buckets := pre ++ lower :: upper :: post } : NodeTree α).Valid (d + 1)

/-- Distributing a bucket over two new ones with its halves keeps its nodes. -/
private theorem distribute_halves (isBad : α → Bool) {b : Bucket α} (valid : b.Valid)
    {half_low half_high : NodeData}
    (cuts : Cuts b.bounds (NodeBucket.new b.low half_low : Bucket α).bounds
      (NodeBucket.new half_high b.high : Bucket α).bounds) :
    ∃ lower upper, distribute isBad b.contents (NodeBucket.new b.low half_low)
        (NodeBucket.new half_high b.high) = .ok (lower, upper) ∧
      lower.Valid ∧ upper.Valid ∧
      lower.bounds = (NodeBucket.new b.low half_low : Bucket α).bounds ∧
      upper.bounds = (NodeBucket.new half_high b.high : Bucket α).bounds ∧
      (lower.contents ++ upper.contents).Perm b.contents ∧
      (upper.size + lower.size == b.size) = true := by
  have lowerNew := NodeBucket.new_valid (N := DHT_K) (α := α) b.low half_low
  have upperNew := NodeBucket.new_valid (N := DHT_K) (α := α) half_high b.high
  have lowerEmpty := (NodeBucket.new_holds b.low half_low (N := DHT_K) (α := α)).contents_eq
  have upperEmpty := (NodeBucket.new_holds half_high b.high (N := DHT_K) (α := α)).contents_eq
  obtain ⟨lower, upper, run, lowerValid, upperValid, lowerBounds, upperBounds, perm⟩ :=
    distribute_spec isBad b.contents lowerNew upperNew
      (by simpa [lowerEmpty, upperEmpty] using valid.length_le)
      (fun x stored => cuts_cover cuts (valid.within x stored))
  rw [lowerEmpty, upperEmpty, List.append_nil, List.append_nil] at perm
  refine ⟨lower, upper, run, lowerValid, upperValid, lowerBounds, upperBounds, perm, ?_⟩
  have lengths := perm.length_eq
  rw [List.length_append] at lengths
  simp only [NodeBucket.size, lowerValid.holds.count, upperValid.holds.count, valid.holds.count,
    beq_iff_eq]
  omega

/-- A bucket of the set over a prefix range is cut in half, unless it covers one id only.
Both insertions of the halves succeed. -/
theorem split_range (isBad : α → Bool) {t : NodeTree α} {d : Nat} (h : t.Valid d)
    {pre post : List (Bucket α)} {b : Bucket α} (parts : t.buckets = pre ++ b :: post) {u n : Nat}
    (depth : n ≤ 160) (range : b.bounds = own 160 u n) :
    (n = 160 ∧ t.split isBad pre.length = .ok (t, none)) ∨
    (∃ lower upper, t.split isBad pre.length =
        .ok ({ t with buckets := pre ++ lower :: upper :: post },
          some (⟨lower, some pre.length⟩, ⟨upper, some (pre.length + 1)⟩)) ∧
      n < 160 ∧ lower.Valid ∧ upper.Valid ∧ (lower.bounds, upper.bounds) = halves 160 u n ∧
      (lower.contents ++ upper.contents).Perm b.contents) := by
  have member : b ∈ t.buckets := by simp [parts]
  have valid := h.buckets b member
  have inRange : pre.length < t.buckets.length := by simp [parts]
  have found : t.bucketAt pre.length = .ok b := by simp [bucketAt, parts]
  have lowEq : b.low.number = (own 160 u n).1 := congrArg Prod.fst range
  have highEq : b.high.number = (own 160 u n).2 := congrArg Prod.snd range
  rcases Nat.lt_or_eq_of_le depth with shallow | deepest
  · right
    obtain ⟨half_low, half_high, halved, lowerEq, upperEq⟩ :=
      NodeData.splitInHalf_own u n shallow b.low b.high lowEq highEq
    have cuts : Cuts b.bounds (NodeBucket.new b.low half_low : Bucket α).bounds
        (NodeBucket.new half_high b.high : Bucket α).bounds := by
      have whole := halves_cuts 160 u n shallow
      rwa [← range, ← lowerEq, ← upperEq] at whole
    obtain ⟨lower, upper, run, lowerValid, upperValid, lowerBounds, upperBounds, perm, sizes⟩ :=
      distribute_halves isBad valid cuts
    have newCuts : Cuts b.bounds lower.bounds upper.bounds := by
      rw [lowerBounds, upperBounds]
      exact cuts
    have tiles := h.tiles
    rw [parts] at tiles
    have around := tiles_around tiles
    obtain ⟨upperIn, lowerIn⟩ := insert_halves around.1 around.2
      (fun y old => (tiles_mem tiles (List.mem_append_left _ old)).2.1) newCuts
    have erased : t.buckets.eraseIdx pre.length = pre ++ post := by
      rw [parts, List.eraseIdx_append_of_length_le (Nat.le_refl _)]
      simp
    refine ⟨lower, upper, ?_, shallow, lowerValid, upperValid, ?_, perm⟩
    · simp only [split, inRange, decide_true, check_true, found, halved, nodesOf_spec valid.holds,
        run, sizes, erased, upperIn, lowerIn, ok_bind]
      simp
    · rw [lowerBounds, upperBounds]
      exact Prod.ext lowerEq upperEq
  · left
    have single : b.low = b.high := by
      apply NodeData.number_injective
      rw [lowEq, highEq, deepest]
      simp [own]
    refine ⟨deepest, ?_⟩
    simp only [split, inRange, decide_true, check_true, found, ok_bind, ← single,
      NodeData.splitInHalf_single]

/-- The bucket of the table's own id is cut in half, unless it covers one id only. -/
theorem split_spec (isBad : α → Bool) {t : NodeTree α} {d : Nat} (h : t.Valid d)
    {pre post : List (Bucket α)} {b : Bucket α} (parts : t.buckets = pre ++ b :: post)
    (inside : b.inBounds t.node = true) (before : ∀ y ∈ pre, y.inBounds t.node = false) :
    (d = 160 ∧ t.split isBad pre.length = .ok (t, none)) ∨
    (∃ lower upper, t.split isBad pre.length =
        .ok ({ t with buckets := pre ++ lower :: upper :: post },
          some (⟨lower, some pre.length⟩, ⟨upper, some (pre.length + 1)⟩)) ∧
      SplitResult t d pre post b lower upper) := by
  obtain ⟨left, middle, right⟩ := h.own_bucket parts inside before
  rcases split_range isBad h parts h.depth middle with
    whole | ⟨lower, upper, run, shallow, lowerValid, upperValid, bounds, perm⟩
  · exact .inl whole
  · right
    have lowerHalf : lower.bounds = (halves 160 t.node.number d).1 := congrArg Prod.fst bounds
    have upperHalf : upper.bounds = (halves 160 t.node.number d).2 := congrArg Prod.snd bounds
    have cuts := halves_cuts 160 t.node.number d shallow
    rw [← middle, ← lowerHalf, ← upperHalf] at cuts
    refine ⟨lower, upper, run, lowerValid, upperValid, cuts, perm, bounds, shallow, ?_, ?_⟩
    · rw [spine_succ 160 _ d shallow, ← left, ← right, ← lowerHalf, ← upperHalf]
      simp
    · intro y stored
      simp only [List.mem_append, List.mem_cons] at stored
      rcases stored with old | rfl | rfl | old
      · exact h.buckets y (by simp [parts, old])
      · exact lowerValid
      · exact upperValid
      · exact h.buckets y (by simp [parts, old])

end NodeTree
end TorrentSync.Source
