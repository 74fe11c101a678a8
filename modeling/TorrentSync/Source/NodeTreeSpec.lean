import Mathlib.Data.Multiset.Basic
import TorrentSync.Source.NodeTreeSplit

/-!
# Specification of the NodeTree operations

On a valid tree no operation faults. What each one does is stated for the multiset of
stored nodes: `addNode` stores its argument or changes nothing but the shape,
`removeNode` takes out one node of the id, `getNode` finds one.
-/
namespace TorrentSync.Source.NodeTree

open Lib Tiling OrderedContainers

variable {α : Type}

/-- The multiset of stored nodes, which is all a user of the tree sees of it. -/
def stored (t : NodeTree α) : Multiset α := ↑t.nodes

/-- The nodes outside one bucket of the set. -/
private def others (pre post : List (Bucket α)) : Multiset α :=
  ↑((pre ++ post).flatMap NodeBucket.contents)

private theorem stored_eq {t : NodeTree α} {pre post : List (Bucket α)} {b : Bucket α}
    (parts : t.buckets = pre ++ b :: post) : t.stored = ↑b.contents + others pre post :=
  Multiset.coe_eq_coe.mpr (nodes_perm parts)

private theorem stored_halves {t : NodeTree α} {pre post : List (Bucket α)} (lower upper : Bucket α)
    (parts : t.buckets = pre ++ lower :: upper :: post) :
    t.stored = ↑(lower.contents ++ upper.contents) + others pre post := by
  apply Multiset.coe_eq_coe.mpr
  rw [nodes, parts, List.flatMap_append, List.flatMap_cons, List.flatMap_cons, List.flatMap_append,
    ← List.append_assoc, ← List.append_assoc, ← List.append_assoc]
  apply List.Perm.append_right
  rw [List.append_assoc]
  exact List.perm_append_comm

theorem size_eq_foldl (buckets : List (Bucket α)) (start : Nat)
    (counts : ∀ b ∈ buckets, b.addressCount = b.contents.length) :
    buckets.foldl (fun init b => init + b.size) start =
      start + (buckets.flatMap NodeBucket.contents).length := by
  induction buckets generalizing start with
  | nil => rfl
  | cons b rest ih =>
    rw [List.foldl_cons, ih _ fun c member => counts c (List.mem_cons_of_mem _ member),
      List.flatMap_cons, List.length_append, NodeBucket.size, counts b List.mem_cons_self]
    omega

section Operations

variable [IsNode α]

/-- `size()` counts the stored nodes. -/
theorem Valid.size_eq {t : NodeTree α} {d : Nat} (h : t.Valid d) : t.size = t.stored.card := by
  rw [size, size_eq_foldl t.buckets 0 fun b member => (h.buckets b member).holds.count, Nat.zero_add]
  rfl

/-- What `addNode` does to the stored nodes. On success the argument is stored; nodes
can only be lost from the bucket covering it, when that was full, and only bad ones. -/
def AddEffect (isBad : α → Bool) (a : α) (t t' : NodeTree α) (isAdded : Bool) : Prop :=
  if isAdded then
    ∃ b ∈ t.buckets, b.inBounds (nodeData a) = true ∧
      ∃ dropped : Multiset α, t'.stored + dropped = a ::ₘ t.stored ∧
        dropped ≤ ↑(b.contents.filter isBad) ∧ (dropped ≠ 0 → b.contents.length = DHT_K)
  else t'.stored = t.stored

/-- `add` on the bucket of the node, seen from the tree. -/
private theorem addEffect_replace {isBad : α → Bool} {a : α} {t t' : NodeTree α}
    {pre post : List (Bucket α)} {b b' : Bucket α} {isAdded : Bool}
    (parts : t.buckets = pre ++ b :: post) (parts' : t'.buckets = pre ++ b' :: post)
    (inside : b.inBounds (nodeData a) = true) (effect : NodeBucket.Added isBad a b b' isAdded) :
    AddEffect isBad a t t' isAdded := by
  have member : b ∈ t.buckets := by simp [parts]
  rw [AddEffect, stored_eq parts, stored_eq parts']
  cases effect with
  | room free gained =>
    rw [if_pos rfl, Multiset.coe_eq_coe.mpr gained, ← Multiset.cons_coe, Multiset.cons_add]
    exact ⟨b, member, inside, 0, add_zero _, Multiset.zero_le _, by simp⟩
  | evicted full unclean gained =>
    rw [if_pos rfl, Multiset.coe_eq_coe.mpr gained]
    refine ⟨b, member, inside, ↑(b.contents.filter isBad), ?_, le_refl _, fun _ => full⟩
    have whole : (↑(b.contents.filter fun x => !isBad x) : Multiset α) + ↑(b.contents.filter isBad) =
        ↑b.contents := by
      rw [Multiset.coe_add, Multiset.coe_eq_coe]
      exact List.perm_append_comm.trans (List.filter_append_perm isBad b.contents)
    rw [← Multiset.cons_coe, Multiset.cons_add, Multiset.cons_add, add_right_comm, whole]
  | refused full clean same =>
    rw [if_neg (by simp), same]

omit [IsNode α] in
/-- In a half of a full bucket without bad nodes the second insertion evicts nothing. -/
private theorem added_clean {isBad : α → Bool} {a : α} {b b' : Bucket α} {isAdded : Bool}
    (clean : ∀ x ∈ b.contents, isBad x = false) (effect : NodeBucket.Added isBad a b b' isAdded) :
    (↑b'.contents : Multiset α) = if isAdded then a ::ₘ ↑b.contents else ↑b.contents := by
  cases effect with
  | room free gained => exact Multiset.coe_eq_coe.mpr gained
  | evicted full unclean gained =>
    have same : b.contents.filter (fun x => !isBad x) = b.contents :=
      List.filter_eq_self.mpr fun x member => by simp [clean x member]
    rw [same] at gained
    exact Multiset.coe_eq_coe.mpr gained
  | refused full clean same => simp [same]

/-- A bucket `b` at depth `d` was split and `a` offered to the half that covers it. That
half holds the ids sharing one more bit with `a`, the other one those that differ there.
`c` is what the second `add` makes of the half. -/
structure TakesHalf (isBad : α → Bool) (a : α) (d : Nat) (b half other c : Bucket α)
    (isAdded : Bool) : Prop where
  shallow : d < 160
  halfValid : half.Valid
  otherValid : other.Valid
  halfBounds : half.bounds = PrefixRange.own 160 (nodeData a).number (d + 1)
  otherBounds : other.bounds = PrefixRange.sibling 160 (nodeData a).number d
  contents : (half.contents ++ other.contents).Perm b.contents
  low : c.low = half.low
  high : c.high = half.high
  effect : NodeBucket.Added isBad a half c isAdded

/-- The half that took the node is full exactly if all nodes of the full bucket went there,
which are those that share the next bit with the node. -/
theorem TakesHalf.full_iff {isBad : α → Bool} {a : α} {d : Nat} {b half other c : Bucket α}
    {isAdded : Bool} (taken : TakesHalf isBad a d b half other c isAdded)
    (full : b.contents.length = DHT_K) :
    half.contents.length = DHT_K ↔
      ∀ x ∈ b.contents, (nodeData x).bit d = (nodeData a).bit d := by
  have total := taken.contents.length_eq
  rw [List.length_append, full] at total
  constructor
  · intro halfFull x member
    have otherEmpty : other.contents = [] := List.eq_nil_of_length_eq_zero (by omega)
    have perm := taken.contents
    rw [otherEmpty, List.append_nil] at perm
    have inside := taken.halfValid.within x (perm.mem_iff.mpr member)
    rw [half.inBounds_iff_bounds, taken.halfBounds] at inside
    exact (PrefixRange.mem_own_iff 160 _ (d + 1) _ (nodeData a).number_lt
      (nodeData x).number_lt).mp inside d (Nat.lt_succ_self d)
  · intro agree
    have otherEmpty : other.contents = [] := by
      apply List.eq_nil_iff_forall_not_mem.mpr
      intro x member
      have inside := taken.otherValid.within x member
      rw [other.inBounds_iff_bounds, taken.otherBounds] at inside
      have apart := (PrefixRange.mem_sibling_iff 160 _ d _ (nodeData a).number_lt
        (nodeData x).number_lt taken.shallow).mp inside
      exact apart.2 (agree x (taken.contents.mem_iff.mp (List.mem_append_right _ member)))
    rw [otherEmpty, List.length_nil, Nat.add_zero] at total
    exact total

/-- The two buckets of a split in set order. -/
def Ordered (c other : Bucket α) (halves : List (Bucket α)) : Prop :=
  halves = [c, other] ∨ halves = [other, c]

/-- The second insertion: into the half that covers the node, or nowhere when the bucket
covers one id only. -/
theorem Valid.addAfterSplit_spec (isBad : α → Bool) (a : α) {t : NodeTree α} {d : Nat}
    (h : t.Valid d) {pre post : List (Bucket α)} {b : Bucket α}
    (parts : t.buckets = pre ++ b :: post) (own : b.inBounds t.node = true)
    (before : ∀ y ∈ pre, y.inBounds t.node = false) (inside : b.inBounds (nodeData a) = true) :
    (d = 160 ∧ t.addAfterSplit isBad a pre.length = .ok (t, false)) ∨
    (∃ half other c halves isAdded, TakesHalf isBad a d b half other c isAdded ∧
      Ordered c other halves ∧
      t.addAfterSplit isBad a pre.length = .ok ({ t with buckets := pre ++ halves ++ post }, isAdded) ∧
      ({ t with buckets := pre ++ halves ++ post } : NodeTree α).Valid (d + 1)) := by
  have bounds := (h.own_bucket parts own before).2.1
  rcases split_spec isBad h parts own before with ⟨deepest, run⟩ | ⟨lower, upper, run, result⟩
  · exact .inl ⟨deepest, by simp only [addAfterSplit, run, ok_bind]⟩
  · right
    have shallow : d < 160 := result.valid.depth
    have ownA : PrefixRange.own 160 (nodeData a).number d = b.bounds := by
      rw [bounds]
      apply PrefixRange.own_eq_of_mem
      rw [← bounds]
      exact (b.inBounds_iff_bounds _).mp inside
    have halves : (lower.bounds, upper.bounds) = PrefixRange.halves 160 (nodeData a).number d := by
      rw [PrefixRange.halves_congr (ownA.trans bounds)]
      exact result.bounds
    rw [PrefixRange.halves_eq 160 _ d shallow] at halves
    have ownMember := (PrefixRange.mem_own_iff 160 (nodeData a).number (d + 1) (nodeData a).number
      (nodeData a).number_lt (nodeData a).number_lt).mpr fun _ _ => rfl
    have notSibling := mt (PrefixRange.mem_sibling_iff 160 (nodeData a).number d (nodeData a).number
      (nodeData a).number_lt (nodeData a).number_lt shallow).mp fun both => both.2 rfl
    cases bit : PrefixRange.bit 160 (nodeData a).number d with
    | false =>
      rw [bit, if_neg (by simp)] at halves
      obtain ⟨lowerBounds, upperBounds⟩ := Prod.mk.inj halves
      have side : lower.inBounds (nodeData a) = true := by
        rw [lower.inBounds_iff_bounds, lowerBounds]
        exact ownMember
      obtain ⟨c, isAdded, added, valid, low, high, effect⟩ := result.lowerValid.add_spec isBad a side
      have final := result.valid.replace (c := c) rfl low high valid
      have taken : TakesHalf isBad a d b lower upper c isAdded := ⟨shallow, result.lowerValid,
        result.upperValid, lowerBounds, upperBounds, result.contents, low, high, effect⟩
      refine ⟨lower, upper, c, [c, upper], isAdded, taken, .inl rfl, ?_, by simpa using final⟩
      simp only [addAfterSplit, run, side, Bool.true_or, check_true, if_true, added, ok_bind,
        store_at (t := { t with buckets := pre ++ lower :: upper :: post }) c rfl]
      simp
    | true =>
      rw [bit, if_pos rfl] at halves
      obtain ⟨lowerBounds, upperBounds⟩ := Prod.mk.inj halves
      have side : lower.inBounds (nodeData a) = false := by
        rw [← Bool.not_eq_true, lower.inBounds_iff_bounds, lowerBounds]
        exact notSibling
      have other : upper.inBounds (nodeData a) = true := by
        rw [upper.inBounds_iff_bounds, upperBounds]
        exact ownMember
      obtain ⟨c, isAdded, added, valid, low, high, effect⟩ := result.upperValid.add_spec isBad a other
      have regroup : ∀ u : Bucket α,
          pre ++ lower :: u :: post = (pre ++ [lower]) ++ u :: post := by simp
      have final := result.valid.replace (c := c) (regroup upper) low high valid
      have stores := store_at (t := { t with buckets := pre ++ lower :: upper :: post }) c
        (regroup upper)
      rw [List.length_append, List.length_cons, List.length_nil, Nat.zero_add, ← regroup] at stores
      rw [← regroup] at final
      have taken : TakesHalf isBad a d b upper lower c isAdded := ⟨shallow, result.upperValid,
        result.lowerValid, upperBounds, lowerBounds, List.perm_append_comm.trans result.contents, low,
        high, effect⟩
      refine ⟨upper, lower, c, [lower, c], isAdded, taken, .inr rfl, ?_, by simpa using final⟩
      simp only [addAfterSplit, run, side, other, Bool.or_true, check_true, Bool.false_eq_true,
        if_false, added, ok_bind, stores]
      simp

/-- Everything `addNode` can do to a tree of depth `d`. -/
inductive AddOutcome (isBad : α → Bool) (a : α) (t : NodeTree α) (d : Nat) :
    NodeTree α → Bool → Prop
  | direct {pre post : List (Bucket α)} {b b' : Bucket α} {isAdded : Bool}
      (parts : t.buckets = pre ++ b :: post) (covers : b.inBounds (nodeData a) = true)
      (low : b'.low = b.low) (high : b'.high = b.high)
      (effect : NodeBucket.Added isBad a b b' isAdded)
      (final : isAdded = true ∨ b.inBounds t.node = false ∨ d = 160) :
      AddOutcome isBad a t d { t with buckets := pre ++ b' :: post } isAdded
  | split {pre post halves : List (Bucket α)} {b half other c : Bucket α} {isAdded : Bool}
      (parts : t.buckets = pre ++ b :: post) (covers : b.inBounds (nodeData a) = true)
      (own : b.inBounds t.node = true) (full : b.contents.length = DHT_K)
      (clean : ∀ x ∈ b.contents, isBad x = false)
      (taken : TakesHalf isBad a d b half other c isAdded) (order : Ordered c other halves) :
      AddOutcome isBad a t d { t with buckets := pre ++ halves ++ post } isAdded

/-- On a valid tree `addNode` returns, with one of its outcomes, and keeps the invariant at
the same depth or one deeper. -/
theorem Valid.addNode_outcome (isBad : α → Bool) (a : α) {t : NodeTree α} {d : Nat} (h : t.Valid d) :
    ∃ t' d' isAdded, t.addNode isBad (some a) = .ok (t', isAdded) ∧ t'.Valid d' ∧
      t'.node = t.node ∧ (d' = d ∨ d' = d + 1) ∧ AddOutcome isBad a t d t' isAdded := by
  obtain ⟨pre, b, post, parts, found, bucket, inside, before, after⟩ := locate h.tiles (nodeData a)
  have inRange : pre.length < t.buckets.length := by simp [parts]
  obtain ⟨b', isAdded, run, valid, low, high, effect⟩ :=
    (h.buckets b (by simp [parts])).add_spec isBad a inside
  have kept := h.replace parts low high valid
  have sameOwn := NodeBucket.inBounds_congr low high t.node
  have start : t.addNode isBad (some a) =
      if !isAdded && b'.inBounds t.node then
        ({ t with buckets := pre ++ b' :: post } : NodeTree α).addAfterSplit isBad a pre.length
      else .ok ({ t with buckets := pre ++ b' :: post }, isAdded) := by
    simp only [addNode, found, bucket, inside, inRange, decide_true, check_true, run, ok_bind,
      store_at b' parts]
  rw [start]
  cases again : !isAdded && b'.inBounds t.node with
  | false =>
    refine ⟨_, d, isAdded, by rw [if_neg (by simp)], kept, rfl, .inl rfl,
      .direct parts inside low high effect ?_⟩
    rw [sameOwn] at again
    cases isAdded with
    | true => exact .inl rfl
    | false => exact .inr (.inl (by simpa using again))
  | true =>
    obtain ⟨rfl, own⟩ : isAdded = false ∧ b'.inBounds t.node = true := by simpa using again
    have effect' := effect
    cases effect with
    | refused full clean same =>
      have ownBefore := before_covering h.tiles parts (sameOwn ▸ own)
      rcases kept.addAfterSplit_spec isBad a rfl own ownBefore
          (by rwa [NodeBucket.inBounds_congr low high]) with
        ⟨deepest, second⟩ | ⟨half, other, c, halves, isAdded, taken, order, second, valid'⟩
      · exact ⟨_, d, false, by rw [if_pos rfl, second], kept, rfl, .inl rfl,
          .direct parts inside low high effect' (.inr (.inr deepest))⟩
      · rw [sameOwn] at own
        have taken' : TakesHalf isBad a d b half other c isAdded :=
          { taken with contents := same ▸ taken.contents }
        exact ⟨_, d + 1, isAdded, by rw [if_pos rfl, second], valid', rfl, .inr rfl,
          .split parts inside own full clean taken' order⟩

omit [IsNode α] in
private theorem stored_ordered {t : NodeTree α} {pre post halves : List (Bucket α)}
    {c other : Bucket α} (parts : t.buckets = pre ++ halves ++ post)
    (order : Ordered c other halves) :
    t.stored = ↑(c.contents ++ other.contents) + others pre post := by
  rcases order with rfl | rfl
  · exact stored_halves c other (by simpa using parts)
  · rw [stored_halves other c (by simpa using parts), Multiset.coe_eq_coe.mpr List.perm_append_comm]

/-- After a split all nodes are still there, and the new one if it was added. -/
theorem TakesHalf.stored {isBad : α → Bool} {a : α} {t : NodeTree α} {d : Nat}
    {pre post halves : List (Bucket α)} {b half other c : Bucket α} {isAdded : Bool}
    (parts : t.buckets = pre ++ b :: post) (clean : ∀ x ∈ b.contents, isBad x = false)
    (taken : TakesHalf isBad a d b half other c isAdded) (order : Ordered c other halves) :
    ({ t with buckets := pre ++ halves ++ post } : NodeTree α).stored =
      if isAdded then a ::ₘ t.stored else t.stored := by
  have kept : ∀ x ∈ half.contents, isBad x = false := fun x member =>
    clean x (taken.contents.mem_iff.mp (List.mem_append_left _ member))
  rw [stored_ordered rfl order, ← Multiset.coe_add, added_clean kept taken.effect,
    stored_eq parts, ← Multiset.coe_eq_coe.mpr taken.contents, ← Multiset.coe_add]
  split <;> simp only [Multiset.cons_add]

/-- The effect on the stored nodes, read off an outcome. -/
theorem AddOutcome.effect_stored {isBad : α → Bool} {a : α} {t t' : NodeTree α} {d : Nat}
    {isAdded : Bool} (outcome : AddOutcome isBad a t d t' isAdded) :
    AddEffect isBad a t t' isAdded := by
  cases outcome with
  | direct parts covers low high effect final => exact addEffect_replace parts rfl covers effect
  | @split pre post halves b half other c _ parts covers own full clean taken order =>
    rw [AddEffect, taken.stored parts clean order]
    cases isAdded with
    | true => exact ⟨b, by simp [parts], covers, 0, add_zero _, Multiset.zero_le _, by simp⟩
    | false => rfl

/-- On a valid tree `addNode` returns, keeps the invariant at the same depth or one
deeper, and has its effect on the stored nodes. -/
theorem Valid.addNode_spec (isBad : α → Bool) (a : α) {t : NodeTree α} {d : Nat} (h : t.Valid d) :
    ∃ t' d' isAdded, t.addNode isBad (some a) = .ok (t', isAdded) ∧ t'.Valid d' ∧
      t'.node = t.node ∧ (d' = d ∨ d' = d + 1) ∧ AddEffect isBad a t t' isAdded := by
  obtain ⟨t', d', isAdded, run, valid, node, deeper, outcome⟩ := h.addNode_outcome isBad a
  exact ⟨t', d', isAdded, run, valid, node, deeper, outcome.effect_stored⟩

/-- Every stored node of an id is in the bucket covering the id. -/
theorem Valid.mem_bucket {t : NodeTree α} {d : Nat} (h : t.Valid d) {pre post : List (Bucket α)}
    {b : Bucket α} {data : NodeData} (parts : t.buckets = pre ++ b :: post)
    (before : ∀ y ∈ pre, y.inBounds data = false) (after : ∀ y ∈ post, y.inBounds data = false)
    {x : α} (member : x ∈ t.nodes) (same : nodeData x = data) : x ∈ b.contents := by
  obtain ⟨c, place, stored⟩ := List.mem_flatMap.mp member
  have inside := (h.buckets c place).within x stored
  rw [same] at inside
  rw [parts] at place
  rcases List.mem_append.mp place with left | right
  · rw [before c left] at inside
    cases inside
  · rcases List.mem_cons.mp right with rfl | right
    · exact stored
    · rw [after c right] at inside
      cases inside

/-- `removeNode` takes out one node with the id of its argument, if there is one. -/
theorem Valid.removeNode_spec (a : α) {t : NodeTree α} {d : Nat} (h : t.Valid d) :
    ∃ t', t.removeNode (some a) = .ok t' ∧ t'.Valid d ∧ t'.node = t.node ∧
      ((∃ x, nodeData x = nodeData a ∧ t.stored = x ::ₘ t'.stored) ∨
        (∀ x ∈ t.stored, nodeData x ≠ nodeData a) ∧ t'.nodes = t.nodes) := by
  obtain ⟨pre, b, post, parts, found, bucket, inside, before, after⟩ := locate h.tiles (nodeData a)
  obtain ⟨b', isRemoved, run, valid, low, high, contents⟩ :=
    (h.buckets b (by simp [parts])).remove_spec (nodeData a)
  have step : t.removeNode (some a) = .ok { t with buckets := pre ++ b' :: post } := by
    simp only [removeNode, found, bucket, inside, check_true, run, ok_bind, store_at b' parts]
  refine ⟨_, step, h.replace parts low high valid, rfl, ?_⟩
  by_cases present : ∃ x ∈ b.contents, nodeData a = nodeData x
  · left
    obtain ⟨x, member, same⟩ := present
    obtain ⟨y, left, right, -, hit, split, erased⟩ :=
      List.exists_of_eraseP (p := fun x => (nodeData a).eq (nodeData x)) member (by simp [same])
    refine ⟨y, ((NodeData.eq_iff _ _).mp hit).symm, ?_⟩
    have parts' : ({ t with buckets := pre ++ b' :: post } : NodeTree α).buckets = pre ++ b' :: post :=
      rfl
    rw [stored_eq parts, stored_eq parts', contents, erased, split,
      ← Multiset.cons_add, Multiset.cons_coe, Multiset.coe_eq_coe.mpr List.perm_middle]
  · right
    have absent : ∀ x ∈ b.contents, ¬ (nodeData a).eq (nodeData x) = true := by
      intro x member hit
      exact present ⟨x, member, (NodeData.eq_iff _ _).mp hit⟩
    have same : b'.contents = b.contents := by rw [contents, List.eraseP_of_forall_not absent]
    refine ⟨?_, by simp only [nodes, parts, List.flatMap_append, List.flatMap_cons, same]⟩
    intro x member same
    have inside := h.mem_bucket parts before after (Multiset.mem_coe.mp member) same
    exact absent x inside ((NodeData.eq_iff _ _).mpr same.symm)

/-- `getNode` finds the first stored node of the id. -/
theorem Valid.getNode_spec (data : NodeData) {t : NodeTree α} {d : Nat} (h : t.Valid d) :
    ∃ found, t.getNode data = .ok found ∧ (∀ x, found = some x → x ∈ t.stored ∧ nodeData x = data) ∧
      (found.isSome = true ↔ ∃ x ∈ t.stored, nodeData x = data) := by
  obtain ⟨pre, b, post, parts, position, bucket, -, before, after⟩ := locate h.tiles data
  have search := NodeBucket.find_spec data (h.buckets b (by simp [parts])).holds
  have run : t.getNode data = .ok (b.contents.find? fun x => (nodeData x).eq data) := by
    simp only [getNode, position, bucket, search, ok_bind]
  refine ⟨_, run, ?_, ?_⟩
  · intro x hit
    refine ⟨?_, by simpa using List.find?_some hit⟩
    rw [stored_eq parts]
    exact Multiset.mem_add.mpr (.inl (Multiset.mem_coe.mpr (List.mem_of_find?_eq_some hit)))
  · rw [List.find?_isSome]
    constructor
    · rintro ⟨x, member, hit⟩
      refine ⟨x, ?_, (NodeData.eq_iff _ _).mp hit⟩
      rw [stored_eq parts]
      exact Multiset.mem_add.mpr (.inl (Multiset.mem_coe.mpr member))
    · rintro ⟨x, member, same⟩
      exact ⟨x, h.mem_bucket parts before after (Multiset.mem_coe.mp member) same,
        (NodeData.eq_iff _ _).mpr same⟩

end Operations
end TorrentSync.Source.NodeTree
