import TorrentSync.Source.NodeTreeSpec

/-!
# Runs of a NodeTree

Any sequence of `addNode`, `removeNode` and `clear` on a new tree keeps the invariant
of NodeTreeInvariant, so every tree met in a run has the shape of a prefix tree around
the table's own id and behaves like a multiset of nodes.
-/
namespace TorrentSync.Source

open Lib Tiling PrefixRange

variable {α : Type}

/-- The calls that change a tree. A null pointer is `none`; `isBad` says which nodes
are bad while the call runs. -/
inductive NodeTreeCall (α : Type) where
  | addNode (isBad : α → Bool) (address : Option α)
  | removeNode (address : Option α)
  | clear

namespace NodeTree

/-- The exception of the null checks, thrown before anything is touched. -/
def nodeIsNotSet : Fault := .invalidArgument "Node is not set"

section Runs

variable [IsNode α]

def step : NodeTreeCall α → NodeTree α → Fallible (NodeTree α)
  | .addNode isBad address, t => do
      let (t, _) ← t.addNode isBad address
      .ok t
  | .removeNode address, t => t.removeNode address
  | .clear, t => .ok t.clear

/-- A run of calls; the exception of a null argument leaves the tree as it was. -/
def run : List (NodeTreeCall α) → NodeTree α → Fallible (NodeTree α)
  | [], t => .ok t
  | call :: calls, t =>
      match step call t with
      | .ok t => run calls t
      | .error fault => if fault = nodeIsNotSet then run calls t else .error fault

/-- A call on a valid tree throws on a null argument and else keeps the invariant,
at the same depth, one deeper, or, for `clear`, back at the root. -/
theorem Valid.step {t : NodeTree α} {d : Nat} (h : t.Valid d) (call : NodeTreeCall α) :
    step call t = .error nodeIsNotSet ∨
    ∃ t' d', step call t = .ok t' ∧ t'.Valid d' ∧ t'.node = t.node ∧
      (d' = d ∨ d' = d + 1 ∨ call = .clear) := by
  cases call with
  | addNode isBad address =>
    cases address with
    | none => exact .inl rfl
    | some a =>
      obtain ⟨t', d', isAdded, added, valid, node, deeper, -⟩ := h.addNode_spec isBad a
      refine .inr ⟨t', d', by simp only [NodeTree.step, added, ok_bind], valid, node, ?_⟩
      rcases deeper with same | more
      · exact .inl same
      · exact .inr (.inl more)
  | removeNode address =>
    cases address with
    | none => exact .inl rfl
    | some a =>
      obtain ⟨t', removed, valid, node, -⟩ := h.removeNode_spec a
      exact .inr ⟨t', d, removed, valid, node, .inl rfl⟩
  | clear => exact .inr ⟨t.clear, 0, rfl, clear_valid t, rfl, .inr (.inr rfl)⟩

theorem Valid.run {t : NodeTree α} {d : Nat} (h : t.Valid d) (calls : List (NodeTreeCall α)) :
    ∃ t' d', run calls t = .ok t' ∧ t'.Valid d' ∧ t'.node = t.node := by
  induction calls generalizing t d with
  | nil => exact ⟨t, d, rfl, h, rfl⟩
  | cons call calls ih =>
    rcases h.step call with thrown | ⟨t', d', stepped, valid, node, -⟩
    · simpa only [NodeTree.run, thrown, if_true] using ih h
    · obtain ⟨t'', d'', later, valid', node'⟩ := ih valid
      exact ⟨t'', d'', by simp only [NodeTree.run, stepped, later], valid', node'.trans node⟩

theorem new_valid (nodeNode : NodeData) : (new nodeNode : NodeTree α).Valid 0 := clear_valid _

end Runs

/-! ## The shape of reachable trees -/

/-- The buckets around `T` at depth `d`: for each of the first `d` bits the ids that
leave `T` at that bit, and the ids sharing all of them. -/
structure PrefixShape (T : NodeData) (d : Nat) (buckets : List (Bucket α)) : Prop where
  depth : d ≤ 160
  ranges : ∃ siblings own, buckets.Perm (siblings ++ [own]) ∧ siblings.length = d ∧
    (∀ i sibling, siblings[i]? = some sibling → ∀ x : NodeData,
      sibling.inBounds x = true ↔ (∀ j < i, x.bit j = T.bit j) ∧ x.bit i ≠ T.bit i) ∧
    ∀ x : NodeData, own.inBounds x = true ↔ ∀ j < d, x.bit j = T.bit j
  aligned : ∀ b ∈ buckets, ∃ k q, k ≤ 160 ∧ b.bounds = (q * 2 ^ k, q * 2 ^ k + (2 ^ k - 1))
  partition : Tiles NodeBucket.bounds NodeData.minValue.number buckets (NodeData.maxValue.number + 1)

/-- The bounds stay, or the one range holding `T` is replaced by its two parts. -/
def SplitsOwn (T : NodeData) (before after : List (Nat × Nat)) : Prop :=
  after = before ∨ ∃ pre own post lower upper, before = pre ++ own :: post ∧
    after = pre ++ lower :: upper :: post ∧ own.1 ≤ T.number ∧ T.number ≤ own.2 ∧
    Cuts own lower upper

/-- The ranges of a permuted list, matched one by one with its buckets. -/
private theorem perm_of_bounds {buckets : List (Bucket α)} {ranges : List (Nat × Nat)}
    (same : (buckets.map NodeBucket.bounds).Perm ranges) :
    ∃ ordered, buckets.Perm ordered ∧ ordered.map NodeBucket.bounds = ranges := by
  have matched : List.Forall₂ (fun r b => r = NodeBucket.bounds b)
      (buckets.map NodeBucket.bounds) buckets := by
    rw [List.forall₂_map_left_iff]
    exact List.forall₂_same.mpr fun _ _ => rfl
  obtain ⟨ordered, pairs, perm⟩ := List.perm_comp_forall₂ same.symm matched
  refine ⟨ordered, perm.symm, ?_⟩
  rw [← List.forall₂_eq_eq_eq, List.forall₂_map_left_iff]
  exact pairs.flip.imp fun _ _ eq => eq.symm

theorem Valid.prefixShape [IsNode α] {t : NodeTree α} {d : Nat} (h : t.Valid d) :
    PrefixShape t.node d t.buckets := by
  have perm := spine_perm 160 t.node.number d
  rw [← h.shape] at perm
  obtain ⟨ordered, reordered, ranges⟩ := perm_of_bounds perm
  obtain ⟨siblings, last, rfl, siblingRanges, lastRange⟩ := List.map_eq_append_iff.mp ranges
  obtain ⟨own, rfl, ownRange⟩ := List.map_eq_singleton_iff.mp lastRange
  have size : siblings.length = d := by simpa using congrArg List.length siblingRanges
  refine ⟨h.depth, ⟨siblings, own, reordered, size, ?_, ?_⟩, ?_, ?_⟩
  · intro i sibling place x
    have inside : i < d := by
      rw [← size]
      exact (List.getElem?_eq_some_iff.mp place).1
    have bounds : sibling.bounds = PrefixRange.sibling 160 t.node.number i := by
      have both := congrArg (fun l => l[i]?) siblingRanges
      simpa [place, inside] using both
    rw [sibling.inBounds_iff_bounds, bounds]
    exact mem_sibling_iff 160 _ i _ t.node.number_lt x.number_lt (lt_of_lt_of_le inside h.depth)
  · intro x
    rw [own.inBounds_iff_bounds, ownRange]
    exact mem_own_iff 160 _ d _ t.node.number_lt x.number_lt
  · intro b member
    have range := List.mem_map_of_mem (f := NodeBucket.bounds) (reordered.mem_iff.mp member)
    rw [ranges, List.mem_append, List.mem_map, List.mem_singleton] at range
    rcases range with ⟨i, -, bounds⟩ | bounds
    · exact ⟨160 - (i + 1), _, Nat.sub_le _ _, bounds.symm⟩
    · exact ⟨160 - d, _, Nat.sub_le _ _, bounds⟩
  · rw [minValue_number, maxValue_number, Nat.sub_add_cancel Nat.one_le_two_pow]
    exact h.tiles

/-- Going from one valid shape around `T` to the same or the next one splits only the
range of `T`. -/
theorem Valid.splitsOwn [IsNode α] {t t' : NodeTree α} {d d' : Nat} (h : t.Valid d)
    (h' : t'.Valid d') (node : t'.node = t.node) (deeper : d' = d ∨ d' = d + 1) :
    SplitsOwn t.node (t.buckets.map NodeBucket.bounds) (t'.buckets.map NodeBucket.bounds) := by
  rw [h.shape, h'.shape, node]
  rcases deeper with rfl | rfl
  · exact .inl rfl
  · right
    have inside := h'.depth
    have holdsT := (mem_own_iff 160 t.node.number d t.node.number t.node.number_lt
      t.node.number_lt).mpr fun _ _ => rfl
    exact ⟨leftOf 160 t.node.number d, own 160 t.node.number d, rightOf 160 t.node.number d, _, _,
      rfl, spine_succ 160 _ d inside, holdsT.1, holdsT.2, halves_cuts 160 _ d inside⟩

section Results

variable [IsNode α]

/-- In every run the buckets of a tree are the prefix ranges around its id; there are
never more than 161, and one further call splits at most the bucket of that id. -/
theorem run_prefixShape (T : NodeData) (calls : List (NodeTreeCall α)) :
    ∃ t d, run calls (new T) = .ok t ∧ t.node = T ∧ PrefixShape T d t.buckets ∧
      t.getBucketsCount = d + 1 ∧ t.getBucketsCount ≤ 161 ∧
      ∀ call t', call ≠ .clear → step call t = .ok t' →
        SplitsOwn T (t.buckets.map NodeBucket.bounds) (t'.buckets.map NodeBucket.bounds) := by
  obtain ⟨t, d, reached, valid, node⟩ := (new_valid (α := α) T).run calls
  have center : t.node = T := node
  have count := valid.getBucketsCount_eq
  have depth := valid.depth
  refine ⟨t, d, reached, center, center ▸ valid.prefixShape, count, by omega, ?_⟩
  intro call t' notClear stepped
  rcases valid.step call with thrown | ⟨t'', d', stepped', valid', node', deeper⟩
  · rw [thrown] at stepped
    cases stepped
  · rw [stepped] at stepped'
    cases stepped'
    rw [← center]
    apply valid.splitsOwn valid' node'
    rcases deeper with same | more | cleared
    · exact .inl same
    · exact .inr more
    · exact absurd cleared notClear

/-- In every run the tree behaves like a multiset of nodes, from which only a
successful `addNode` may drop nodes, bad ones of the full bucket it used. -/
theorem run_refines_multiset (T : NodeData) (calls : List (NodeTreeCall α)) :
    ∃ t, run calls (new T) = .ok t ∧
      (∀ isBad a, ∃ t' isAdded, t.addNode isBad (some a) = .ok (t', isAdded) ∧
        AddEffect isBad a t t' isAdded) ∧
      (∀ a, ∃ t', t.removeNode (some a) = .ok t' ∧
        ((∃ x, nodeData x = nodeData a ∧ t.stored = x ::ₘ t'.stored) ∨
          (∀ x ∈ t.stored, nodeData x ≠ nodeData a) ∧ t'.nodes = t.nodes)) ∧
      (∀ data, ∃ found, t.getNode data = .ok found ∧
        (∀ x, found = some x → x ∈ t.stored ∧ nodeData x = data) ∧
        (found.isSome = true ↔ ∃ x ∈ t.stored, nodeData x = data)) ∧
      t.size = t.stored.card := by
  obtain ⟨t, d, reached, valid, -⟩ := (new_valid (α := α) T).run calls
  refine ⟨t, reached, ?_, ?_, fun data => valid.getNode_spec data, valid.size_eq⟩
  · intro isBad a
    obtain ⟨t', _, isAdded, added, -, -, -, effect⟩ := valid.addNode_spec isBad a
    exact ⟨t', isAdded, added, effect⟩
  · intro a
    obtain ⟨t', removed, -, -, effect⟩ := valid.removeNode_spec a
    exact ⟨t', removed, effect⟩

end Results
end NodeTree
end TorrentSync.Source
