import TorrentSync.Lib.KeyOrder
import TorrentSync.Lib.XorDistance
import TorrentSync.Source.NodeTreeLookup
import TorrentSync.Source.NodeTreeUnique

/-!
# Nearest nodes

NodeTree.cpp:161-208 against XOR distance. The bucket covering an id is an aligned block,
so its nodes are nearer to the id than all others, although the window around it is
chosen in numeric order. The comparator of `knownNodes` is `<=`, which is no strict weak
ordering: nodes with one id are all kept, and several may be returned.
-/
namespace TorrentSync.Source.NodeTree

open Lib Tiling PrefixRange OrderedContainers KeyOrder XorDistance

variable {α : Type} [IsNode α]

/-- The XOR distance of a node from an id, as a number. -/
def distanceTo (data : NodeData) (x : α) : Nat := ((nodeData x).distance data).number

theorem notFarther_iff (data : NodeData) (x y : α) :
    notFarther data x y = true ↔ distanceTo data x ≤ distanceTo data y := NodeData.le_iff _ _

theorem distanceTo_eq_iff (data : NodeData) (x y : α) :
    distanceTo data x = distanceTo data y ↔ nodeData x = nodeData y := by
  simp only [distanceTo, NodeData.distance_number]
  constructor
  · exact fun same => NodeData.number_injective (xor_injective data.number same)
  · exact fun same => by rw [same]

theorem nearest_ascending (data : NodeData) (xs : List α) :
    Ascending (distanceTo data) (nearest data xs) := by
  have inserts : ∀ xs known : List α, Ascending (distanceTo data) known →
      Ascending (distanceTo data)
        (xs.foldl (fun known node => (insertUnique (notFarther data) node known).1) known) := by
    intro xs
    induction xs with
    | nil => exact fun known sorted => sorted
    | cons x xs ih => exact fun known sorted => ih _ (insertUnique_ascending (notFarther_iff data) x sorted)
  exact inserts xs [] List.Pairwise.nil

/-! ## The window -/

omit [IsNode α] in
/-- The window starts one bucket before the covering one, if there is one. -/
theorem window_eq {t : NodeTree α} (tiles : Tiles NodeBucket.bounds 0 t.buckets (2 ^ 160))
    {pre post : List (Bucket α)} {b : Bucket α} (parts : t.buckets = pre ++ b :: post)
    {data : NodeData} (covers : b.inBounds data = true) :
    t.window data = (t.buckets.drop (pre.length - 1)).take 3 := by
  obtain ⟨pre', b', post', parts', found, -, covers', before', -⟩ := locate tiles data
  obtain ⟨rfl, -, -⟩ := unique_split (parts.symm.trans parts') covers covers'
    (before_covering tiles parts covers) before'
  simp only [findBucket] at found
  obtain ⟨-, -, position⟩ := bind_eq_ok.mp found
  rw [window, Except.ok.inj position]

omit [IsNode α] in
/-- The window holds the covering bucket between some of the others. -/
theorem window_parts {t : NodeTree α} (tiles : Tiles NodeBucket.bounds 0 t.buckets (2 ^ 160))
    {pre post : List (Bucket α)} {b : Bucket α} (parts : t.buckets = pre ++ b :: post)
    {data : NodeData} (covers : b.inBounds data = true) :
    ∃ left right, t.window data = left ++ b :: right ∧ left.Sublist pre ∧ right.Sublist post := by
  rw [window_eq tiles parts covers, parts, List.drop_append_of_le_length (Nat.sub_le _ _)]
  have size : (pre.drop (pre.length - 1)).length ≤ 1 := by
    rw [List.length_drop]
    omega
  refine ⟨pre.drop (pre.length - 1), post.take (3 - (pre.drop (pre.length - 1)).length - 1), ?_,
    List.drop_sublist _ _, List.take_sublist _ _⟩
  rw [List.take_append, List.take_of_length_le (size.trans (by decide)), List.take_cons (by omega)]

/-- A node of another bucket is outside the bounds of this one. -/
theorem Valid.outside {t : NodeTree α} {d : Nat} (h : t.Valid d) {pre post : List (Bucket α)}
    {b : Bucket α} (parts : t.buckets = pre ++ b :: post) {y : α}
    (other : y ∈ (pre ++ post).flatMap NodeBucket.contents) : b.inBounds (nodeData y) = false := by
  rw [← Bool.not_eq_true]
  exact fun covers => h.others_apart parts covers y other rfl

/-- Of the nodes of the window, those within the covering bucket are its contents. -/
theorem Valid.window_filter {t : NodeTree α} {d : Nat} (h : t.Valid d) {pre post : List (Bucket α)}
    {b : Bucket α} (parts : t.buckets = pre ++ b :: post) {data : NodeData}
    (covers : b.inBounds data = true) :
    ((t.window data).flatMap NodeBucket.contents).filter (fun y => b.inBounds (nodeData y)) =
      b.contents := by
  obtain ⟨left, right, shape, fromPre, fromPost⟩ := window_parts h.tiles parts covers
  have none : ∀ buckets : List (Bucket α), buckets ⊆ pre ++ post →
      (buckets.flatMap NodeBucket.contents).filter (fun y => b.inBounds (nodeData y)) = [] := by
    intro buckets others
    rw [List.filter_eq_nil_iff]
    intro y member
    obtain ⟨c, place, stored⟩ := List.mem_flatMap.mp member
    rw [h.outside parts (List.mem_flatMap.mpr ⟨c, others place, stored⟩)]
    exact Bool.false_ne_true
  have all : b.contents.filter (fun y => b.inBounds (nodeData y)) = b.contents :=
    List.filter_eq_self.mpr (h.buckets b (by simp [parts])).within
  rw [shape, List.flatMap_append, List.flatMap_cons, List.filter_append, List.filter_append, all,
    none left fun c member => List.mem_append_left _ (fromPre.subset member),
    none right fun c member => List.mem_append_right _ (fromPost.subset member)]
  simp

/-- A bucket covering an id is an aligned block around it: its nodes are the nearest. -/
theorem Valid.nearer {t : NodeTree α} {d : Nat} (h : t.Valid d) {b : Bucket α}
    (member : b ∈ t.buckets) {data : NodeData} (covers : b.inBounds data = true) {a c : α}
    (inside : b.inBounds (nodeData a) = true) (outside : b.inBounds (nodeData c) = false) :
    distanceTo data a < distanceTo data c := by
  have range := List.mem_map_of_mem (f := NodeBucket.bounds) member
  rw [h.shape] at range
  obtain ⟨u, n, -, bounds⟩ := mem_spine 160 t.node.number d h.depth range
  have block : ∀ y : NodeData,
      b.inBounds y = true ↔ y.number / 2 ^ (160 - n) = u / 2 ^ (160 - n) := by
    intro y
    rw [b.inBounds_iff_bounds, bounds, mem_own_iff_div]
  rw [← Bool.not_eq_true] at outside
  rw [block] at covers inside outside
  simp only [distanceTo, NodeData.distance_number]
  exact xor_lt_of_block (inside.trans covers.symm) fun same => outside (same.trans covers)

/-! ## What getClosestNodes returns -/

/-- The eight nearest of the stored nodes, or all of them, from the nearest on. -/
structure NearestOf (data : NodeData) (stored result : List α) : Prop where
  increasing : result.Pairwise fun a b => distanceTo data a < distanceTo data b
  length : result.length = min DHT_FIND_NODE_COUNT stored.length
  others : ∃ rest, stored.Perm (result ++ rest) ∧
    ∀ a ∈ result, ∀ c ∈ rest, distanceTo data a < distanceTo data c

theorem nearestOf_take {data : NodeData} {stored : List α} (unique : (stored.map nodeData).Nodup) :
    NearestOf data stored ((nearest data stored).take DHT_FIND_NODE_COUNT) := by
  have perm := nearest_perm data stored
  have distinct : ((nearest data stored).map nodeData).Nodup := (perm.map nodeData).nodup_iff.mpr unique
  have increasing : (nearest data stored).Pairwise fun a b => distanceTo data a < distanceTo data b := by
    have apart := List.pairwise_map.mp distinct
    refine List.Pairwise.imp₂ ?_ (nearest_ascending data stored) apart
    intro a b le apart
    exact lt_of_le_of_ne le fun same => apart ((distanceTo_eq_iff data a b).mp same)
  have parts := List.take_append_drop DHT_FIND_NODE_COUNT (nearest data stored)
  refine ⟨increasing.sublist (List.take_sublist _ _), ?_,
    (nearest data stored).drop DHT_FIND_NODE_COUNT, ?_, ?_⟩
  · rw [List.length_take, perm.length_eq]
  · exact perm.symm.trans (List.Perm.of_eq parts.symm)
  · rw [← parts] at increasing
    exact (List.pairwise_append.mp increasing).2.2

theorem window_unique {t : NodeTree α} (unique : t.UniqueIds) (data : NodeData) :
    (((t.window data).flatMap NodeBucket.contents).map nodeData).Nodup := by
  have part : (t.window data).Sublist t.buckets :=
    (List.take_sublist _ _).trans (List.drop_sublist _ _)
  exact List.Nodup.sublist ((part.flatMap NodeBucket.contents).map nodeData) unique

/-- An id that the covering bucket does not hold is not stored. -/
theorem Valid.find_none {t : NodeTree α} {d : Nat} (h : t.Valid d) {pre post : List (Bucket α)}
    {b : Bucket α} (parts : t.buckets = pre ++ b :: post) {data : NodeData}
    (covers : b.inBounds data = true) (absent : ∀ n ∈ b.contents, nodeData n ≠ data) :
    t.nodes.find? (fun a => (nodeData a).eq data) = none := by
  rw [List.find?_eq_none]
  intro y member
  rw [NodeData.eq_iff]
  rcases List.mem_append.mp ((nodes_perm parts).mem_iff.mp member) with own | other
  · exact absent y own
  · exact h.others_apart parts covers y other

/-- The nodes of the covering bucket are returned first, all of them. -/
theorem Valid.closest_covering {t : NodeTree α} {d : Nat} (h : t.Valid d) {pre post : List (Bucket α)}
    {b : Bucket α} (parts : t.buckets = pre ++ b :: post) {data : NodeData}
    (covers : b.inBounds data = true) :
    ∃ first rest, (nearest data ((t.window data).flatMap NodeBucket.contents)).take
        DHT_FIND_NODE_COUNT = first ++ rest ∧ first.Perm b.contents ∧
      (∀ y ∈ rest, b.inBounds (nodeData y) = false) ∧ (b.contents.length = 8 → rest = []) := by
  have member : b ∈ t.buckets := by simp [parts]
  have perm := nearest_perm data ((t.window data).flatMap NodeBucket.contents)
  have ascending := nearest_ascending data ((t.window data).flatMap NodeBucket.contents)
  generalize nearest data ((t.window data).flatMap NodeBucket.contents) = sorted at perm ascending
  have own : (sorted.filter fun y => b.inBounds (nodeData y)).Perm b.contents := by
    rw [← h.window_filter parts covers]
    exact perm.filter _
  have split := filter_append_filter_not (p := fun y => b.inBounds (nodeData y)) (ascending.imp (by
    intro a c le inside
    by_contra outside
    have less := h.nearer member covers inside (Bool.eq_false_iff.mpr outside)
    omega))
  have few : b.contents.length ≤ 8 := (h.buckets b member).holds.length_le
  refine ⟨_, (sorted.filter fun y => !b.inBounds (nodeData y)).take
    (8 - (sorted.filter fun y => b.inBounds (nodeData y)).length), ?_, own, ?_, ?_⟩
  · nth_rewrite 1 [← split]
    rw [show DHT_FIND_NODE_COUNT = 8 from rfl, List.take_append,
      List.take_of_length_le (own.length_eq.trans_le few)]
  · intro y inRest
    simpa using (List.mem_filter.mp (List.mem_of_mem_take inRest)).2
  · intro full
    rw [own.length_eq, full]
    rfl

/-- What `getClosestNodes` has to do on a tree whose bucket `b` covers the id. -/
structure FindsNearest (x : NodeData) (t : NodeTree α) (pre : List (Bucket α)) (b : Bucket α)
    (post : List (Bucket α)) (result : List α) : Prop where
  parts : t.buckets = pre ++ b :: post
  covers : b.inBounds x = true
  elsewhere : ∀ c ∈ pre ++ post, c.inBounds x = false
  returned : t.getClosestNodes x = .ok result
  /-- a node with the id itself is the whole answer -/
  matched : ∀ n ∈ b.contents, nodeData n = x → result = [n]
  /-- else the nearest nodes of up to three buckets -/
  nearest : (∀ n ∈ b.contents, nodeData n ≠ x) →
    NearestOf x (((t.buckets.drop (pre.length - 1)).take 3).flatMap NodeBucket.contents) result
  /-- those of the covering bucket come first -/
  ownFirst : (∀ n ∈ b.contents, nodeData n ≠ x) →
    ∃ first rest, result = first ++ rest ∧ first.Perm b.contents ∧
      ∀ y ∈ rest, b.inBounds (nodeData y) = false
  /-- eight nodes of the covering bucket are the nearest of the whole tree -/
  exact_ : (∀ n ∈ b.contents, nodeData n ≠ x) → b.contents.length = 8 →
    result.Perm b.contents ∧
      ∀ y ∈ t.nodes, y ∈ result ∨ ∀ n ∈ result, distanceTo x n < distanceTo x y

/-- In every reached tree without duplicates `getClosestNodes` returns the nearest nodes. -/
theorem run_closest (T : NodeData) (calls : List (NodeTreeCall α)) :
    ∃ t, run calls (new T) = .ok t ∧
      (t.UniqueIds → ∀ x : NodeData, ∃ pre b post result, FindsNearest x t pre b post result) := by
  obtain ⟨t, d, reached, h, -⟩ := (new_valid (α := α) T).run calls
  refine ⟨t, reached, fun unique x => ?_⟩
  obtain ⟨pre, b, post, parts, -, -, covers, before, after⟩ := locate h.tiles x
  have member : b ∈ t.buckets := by simp [parts]
  have result : (∀ n ∈ b.contents, nodeData n ≠ x) → t.closest x =
      (nearest x ((t.window x).flatMap NodeBucket.contents)).take DHT_FIND_NODE_COUNT := by
    intro absent
    rw [closest, h.find_none parts covers absent]
  obtain ⟨first, rest, shape, own, others, full⟩ := h.closest_covering parts covers
  refine ⟨pre, b, post, t.closest x, parts, covers, ?_, h.getClosestNodes_spec x, ?_, ?_, ?_, ?_⟩
  · intro c place
    rcases List.mem_append.mp place with left | right
    · exact before c left
    · exact after c right
  · rintro n stored rfl
    have inTree : n ∈ t.nodes := List.mem_flatMap.mpr ⟨b, member, stored⟩
    exact closest_of_mem inTree fun y stored' same => List.inj_on_of_nodup_map unique stored' inTree same
  · intro absent
    rw [result absent, ← window_eq h.tiles parts covers]
    exact nearestOf_take (window_unique unique x)
  · intro absent
    exact ⟨first, rest, (result absent).trans shape, own, others⟩
  · intro absent eight
    rw [result absent, shape, full eight, List.append_nil]
    refine ⟨own, fun y stored => ?_⟩
    rcases List.mem_append.mp ((nodes_perm parts).mem_iff.mp stored) with inside | outside
    · exact .inl (own.mem_iff.mpr inside)
    · refine .inr fun n returned => ?_
      exact h.nearer member covers ((h.buckets b member).within n (own.mem_iff.mp returned))
        (h.outside parts outside)

/-- Two nodes in the one bucket of a new tree. -/
theorem run_closest_two :
    ∃ t pre b post result,
      run [offerOne, .addNode (fun _ => false) (some (lastWord 2))] (new NodeData.minValue) = .ok t ∧
      t.UniqueIds ∧ FindsNearest (lastWord 3) t pre b post result := by
  obtain ⟨t, reached, finds⟩ :=
    run_closest NodeData.minValue [offerOne, .addNode (fun _ => false) (some (lastWord 2))]
  have computed : (do
      let t ← run [offerOne, .addNode (fun _ => false) (some (lastWord 2))] (new NodeData.minValue)
      .ok t.nodes) = .ok [lastWord 1, lastWord 2] := by
    decide +kernel
  rw [reached, ok_bind] at computed
  have unique : t.UniqueIds := by
    rw [UniqueIds, Except.ok.inj computed]
    decide
  obtain ⟨pre, b, post, result, found⟩ := finds unique (lastWord 3)
  exact ⟨t, pre, b, post, result, reached, unique, found⟩

/-! ## The comparator and repeated ids -/

/-- The comparator of `knownNodes` holds of every node and itself, so it is no strict weak
ordering, whatever the target. -/
theorem notFarther_not_strictWeak (data : NodeData) (a : α) :
    ¬ StrictWeak (notFarther data : α → α → Bool) := by
  intro order
  have reflexive := (notFarther_iff data a a).mpr (Nat.le_refl _)
  rw [order.irrefl a] at reflexive
  cases reflexive

/-- The id itself is stored, or every id that the window holds twice has seven nodes of the
window nearer to the target. -/
def NoRepetitionNear (x : NodeData) (t : NodeTree α) : Prop :=
  (∃ a ∈ t.nodes, nodeData a = x) ∨
    ∀ y ∈ (t.window x).flatMap NodeBucket.contents,
      2 ≤ ((t.window x).flatMap NodeBucket.contents).countP (fun a => nodeData a = nodeData y) →
        7 ≤ ((t.window x).flatMap NodeBucket.contents).countP
          fun a => distanceTo x a < distanceTo x y

/-- The returned nodes have distinct ids exactly if no id repeats among the nearest. -/
theorem closest_nodup_iff (x : NodeData) (t : NodeTree α) :
    ((t.closest x).map nodeData).Nodup ↔ NoRepetitionNear x t := by
  unfold closest NoRepetitionNear
  cases search : t.nodes.find? fun a => (nodeData a).eq x with
  | some n =>
    have hit := List.find?_some search
    rw [NodeData.eq_iff] at hit
    exact iff_of_true (List.nodup_singleton _) (.inl ⟨n, List.mem_of_find?_eq_some search, hit⟩)
  | none =>
    have absent : ¬ ∃ a ∈ t.nodes, nodeData a = x := by
      rintro ⟨a, member, same⟩
      have miss := List.find?_eq_none.mp search a member
      rw [NodeData.eq_iff] at miss
      exact miss same
    have perm := nearest_perm x ((t.window x).flatMap NodeBucket.contents)
    have ascending := nearest_ascending x ((t.window x).flatMap NodeBucket.contents)
    have byDistance : (((nearest x ((t.window x).flatMap NodeBucket.contents)).take
          DHT_FIND_NODE_COUNT).map nodeData).Nodup ↔
        (((nearest x ((t.window x).flatMap NodeBucket.contents)).take
          DHT_FIND_NODE_COUNT).map (distanceTo x)).Nodup := by
      rw [List.Nodup, List.pairwise_map, List.Nodup, List.pairwise_map]
      simp only [ne_eq, distanceTo_eq_iff]
    rw [or_iff_right absent, byDistance, ascending.take_nodup_iff]
    simp only [perm.mem_iff, perm.countP_eq, distanceTo_eq_iff]
    constructor
    · intro late y member twice
      exact Nat.le_of_succ_le_succ (late y member twice)
    · intro late y member twice
      exact Nat.succ_le_succ (late y member twice)

/-- The comparator is a strict weak ordering for no target, and in every reached tree the
returned list has no id twice exactly under `NoRepetitionNear`. -/
theorem run_closest_nodup_iff (T : NodeData) (calls : List (NodeTreeCall α)) (x : NodeData) :
    (∀ _ : α, ¬ StrictWeak (notFarther x : α → α → Bool)) ∧
    ∃ t result, run calls (new T) = .ok t ∧ t.getClosestNodes x = .ok result ∧
      ((result.map nodeData).Nodup ↔ NoRepetitionNear x t) := by
  obtain ⟨t, d, reached, h, -⟩ := (new_valid (α := α) T).run calls
  exact ⟨fun a => notFarther_not_strictWeak x a, t, t.closest x, reached, h.getClosestNodes_spec x,
    closest_nodup_iff x t⟩

/-- The id 1, offered twice, is returned twice. -/
theorem closest_repeats :
    notFarther NodeData.minValue (lastWord 1) (lastWord 1) = true ∧
    ¬ StrictWeak (notFarther NodeData.minValue : NodeData → NodeData → Bool) ∧
    ∃ t result, run [offerOne, offerOne] (new NodeData.minValue) = .ok t ∧
      t.getClosestNodes NodeData.minValue = .ok result ∧ result = [lastWord 1, lastWord 1] ∧
      ¬ (result.map nodeData).Nodup := by
  have computed : (do
      let t ← run [offerOne, offerOne] (new NodeData.minValue)
      let result ← t.getClosestNodes NodeData.minValue
      .ok result) = .ok [lastWord 1, lastWord 1] := by
    decide +kernel
  obtain ⟨t, reached, computed⟩ := bind_eq_ok.mp computed
  obtain ⟨result, returned, computed⟩ := bind_eq_ok.mp computed
  refine ⟨by decide, notFarther_not_strictWeak _ (lastWord 1), t, result, reached, returned,
    Except.ok.inj computed, ?_⟩
  rw [Except.ok.inj computed]
  decide

end TorrentSync.Source.NodeTree
