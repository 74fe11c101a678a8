import TorrentSync.Source.NodeTreeRefusal

/-!
# Duplicate ids

`NodeBucket::add` does not look for the id it is given, so an id offered again is stored
again. `KeepsUnique` says when an `addNode` keeps the ids of a tree distinct; as long as
every step of a run does, an id is stored once and `removeNode` removes it.
-/
namespace TorrentSync.Source.NodeTree

open Lib Tiling

variable {α : Type} [IsNode α]

/-- Over all buckets each id is stored at most once. -/
def UniqueIds (t : NodeTree α) : Prop := (t.nodes.map nodeData).Nodup

/-- In the bucket of `a` the id of `a` is not stored, or only in a bad node that a full
bucket drops; or the node is refused: the bucket is full of nodes that are not bad, and
is not split or all its nodes share the next bit with `a`. -/
def KeepsUnique (isBad : α → Bool) (a : α) (t : NodeTree α) : Prop :=
  ∃ b, t.CoveredBy (nodeData a) b ∧
    ((∀ x ∈ b.contents, nodeData x = nodeData a → b.contents.length = DHT_K ∧ isBad x = true) ∨
      Saturated isBad b ∧ (b.inBounds t.node = false ∨
        ∀ x ∈ b.contents, (nodeData x).bit t.depth = (nodeData a).bit t.depth))

/-! ## One step -/

/-- A tree that gained `a` and kept some of its nodes is free of duplicates exactly if none
of them has the id of `a`. -/
theorem unique_of_gained {t t' : NodeTree α} {a : α} {kept : List α} (unique : t.UniqueIds)
    (gained : t'.nodes.Perm (a :: kept)) (old : List.Subperm kept t.nodes) :
    t'.UniqueIds ↔ ∀ x ∈ kept, nodeData x ≠ nodeData a := by
  have keptUnique : (kept.map nodeData).Nodup := by
    obtain ⟨same, perm, sublist⟩ := old
    exact (perm.map nodeData).nodup_iff.mp (List.Nodup.sublist (sublist.map nodeData) unique)
  unfold UniqueIds
  rw [(gained.map nodeData).nodup_iff, List.map_cons, List.nodup_cons, List.mem_map]
  constructor
  · rintro ⟨absent, -⟩ x member same
    exact absent ⟨x, member, same⟩
  · intro apart
    refine ⟨?_, keptUnique⟩
    rintro ⟨x, member, same⟩
    exact apart x member same

/-- Nodes in other buckets do not have the id of `a`. -/
theorem Valid.others_apart {t : NodeTree α} {d : Nat} (h : t.Valid d) {pre post : List (Bucket α)}
    {b : Bucket α} (parts : t.buckets = pre ++ b :: post) {data : NodeData}
    (covers : b.inBounds data = true) :
    ∀ x ∈ (pre ++ post).flatMap NodeBucket.contents, nodeData x ≠ data := by
  rintro x member rfl
  obtain ⟨c, place, stored⟩ := List.mem_flatMap.mp member
  have tiles := h.tiles
  rw [parts] at tiles
  have around := tiles_around tiles
  have old : c ∈ t.buckets := by
    rw [parts]
    rcases List.mem_append.mp place with left | right
    · exact List.mem_append_left _ left
    · exact List.mem_append_right _ (List.mem_cons_of_mem _ right)
  have inside := (h.buckets c old).within x stored
  rw [NodeBucket.inBounds_iff_bounds] at inside covers
  rcases List.mem_append.mp place with left | right
  · have apart := around.1 c left
    omega
  · have apart := around.2 c right
    omega

/-- A tree that gained `a` in the bucket of its id, where it kept some of the nodes, is free
of duplicates exactly if none of these has the id of `a`. -/
theorem Valid.unique_iff_kept {t t' : NodeTree α} {d : Nat} (h : t.Valid d) (unique : t.UniqueIds)
    {pre post : List (Bucket α)} {b : Bucket α} {a : α} (parts : t.buckets = pre ++ b :: post)
    (covers : b.inBounds (nodeData a) = true) {kept : List α} (sub : kept.Sublist b.contents)
    (gained : t'.nodes.Perm (a :: (kept ++ (pre ++ post).flatMap NodeBucket.contents))) :
    t'.UniqueIds ↔ ∀ x ∈ kept, nodeData x ≠ nodeData a := by
  have old : List.Subperm (kept ++ (pre ++ post).flatMap NodeBucket.contents) t.nodes :=
    (sub.append (List.Sublist.refl _)).subperm.trans (nodes_perm parts).symm.subperm
  rw [unique_of_gained unique gained old]
  constructor
  · intro distinct x member
    exact distinct x (List.mem_append_left _ member)
  · intro distinct x member
    rcases List.mem_append.mp member with here | elsewhere
    · exact distinct x here
    · exact h.others_apart parts covers x elsewhere

theorem UniqueIds.perm {t t' : NodeTree α} (unique : t.UniqueIds) (same : t'.nodes.Perm t.nodes) :
    t'.UniqueIds :=
  (same.map nodeData).nodup_iff.mpr unique

theorem Valid.keepsUnique_iff (isBad : α → Bool) {a : α} {t : NodeTree α} {d : Nat} (h : t.Valid d)
    {b : Bucket α} (here : t.CoveredBy (nodeData a) b) : KeepsUnique isBad a t ↔
      ((∀ x ∈ b.contents, nodeData x = nodeData a → b.contents.length = DHT_K ∧ isBad x = true) ∨
        Saturated isBad b ∧ (b.inBounds t.node = false ∨
          ∀ x ∈ b.contents, (nodeData x).bit d = (nodeData a).bit d)) := by
  unfold KeepsUnique
  rw [h.depth_eq]
  constructor
  · rintro ⟨c, covered, condition⟩
    obtain rfl := here.unique covered
    exact condition
  · exact fun condition => ⟨b, here, condition⟩

/-- A node that is not refused keeps the ids distinct exactly under the condition, if the
bucket kept all its nodes but the bad ones a full bucket drops. -/
theorem Valid.unique_iff_offered {isBad : α → Bool} {t t' : NodeTree α} {d : Nat} (h : t.Valid d)
    (unique : t.UniqueIds) {pre post : List (Bucket α)} {b : Bucket α} {a : α}
    (parts : t.buckets = pre ++ b :: post) (covers : b.inBounds (nodeData a) = true)
    {kept : List α} (sub : kept.Sublist b.contents)
    (gained : t'.nodes.Perm (a :: (kept ++ (pre ++ post).flatMap NodeBucket.contents)))
    (stays : ∀ x ∈ b.contents, x ∈ kept ↔ ¬ (b.contents.length = DHT_K ∧ isBad x = true))
    (accepted : ¬ (Saturated isBad b ∧ (b.inBounds t.node = false ∨
      ∀ x ∈ b.contents, (nodeData x).bit d = (nodeData a).bit d))) :
    t'.UniqueIds ↔ KeepsUnique isBad a t := by
  rw [h.unique_iff_kept unique parts covers sub gained,
    h.keepsUnique_iff isBad (h.coveredBy (b := b) (by simp [parts]) covers), or_iff_left accepted]
  constructor
  · intro distinct x member same
    by_contra good
    exact distinct x ((stays x member).mpr good) same
  · intro dropped x member same
    have stored := sub.subset member
    exact (stays x stored).mp member (dropped x stored same)

/-- At depth 160 the bucket of the table's own id covers one id. -/
theorem Valid.one_id {t : NodeTree α} (h : t.Valid 160) {b : Bucket α} (member : b ∈ t.buckets)
    (own : b.inBounds t.node = true) {data : NodeData} (covers : b.inBounds data = true) :
    ∀ x ∈ b.contents, nodeData x = data := by
  have single := (single_iff h.depth (h.own_range member own)).mpr rfl
  have one : ∀ x : NodeData, b.inBounds x = true → x = b.low := by
    intro x inside
    rw [b.inBounds_iff, ← single] at inside
    exact NodeData.number_injective (Nat.le_antisymm inside.2 inside.1)
  intro x stored
  rw [one _ covers, one _ ((h.buckets b member).within x stored)]

/-- `addNode` keeps the ids distinct exactly under its condition. -/
theorem AddOutcome.unique_iff {isBad : α → Bool} {a : α} {t t' : NodeTree α} {d : Nat}
    {isAdded : Bool} (h : t.Valid d) (unique : t.UniqueIds)
    (outcome : AddOutcome isBad a t d t' isAdded) : t'.UniqueIds ↔ KeepsUnique isBad a t := by
  cases outcome with
  | @direct pre post b b' _ parts covers low high effect final =>
    have stored : b ∈ t.buckets := by simp [parts]
    have after := nodes_perm (rfl : ({ t with buckets := pre ++ b' :: post } : NodeTree α).buckets =
      pre ++ b' :: post)
    cases effect with
    | room free gained =>
      have notFull : ¬ b.contents.length = DHT_K := Nat.ne_of_lt free
      apply h.unique_iff_offered unique parts covers (List.Sublist.refl _)
        (after.trans (gained.append_right _))
      · intro x member
        exact iff_of_true member fun dropped => notFull dropped.1
      · intro refused
        exact notFull refused.1.1
    | evicted full unclean gained =>
      apply h.unique_iff_offered unique parts covers List.filter_sublist
        (after.trans (gained.append_right _))
      · intro x member
        simp [member, full]
      · intro refused
        obtain ⟨y, stored, bad⟩ := unclean
        rw [refused.1.2 y stored] at bad
        cases bad
    | refused full clean same =>
      have unchanged := unique.perm ((after.trans (by rw [same])).trans (nodes_perm parts).symm)
      rw [h.keepsUnique_iff isBad (h.coveredBy stored covers)]
      refine iff_of_true unchanged (.inr ⟨⟨full, clean⟩, ?_⟩)
      rcases final with impossible | notOwn | rfl
      · cases impossible
      · exact .inl notOwn
      · cases own : b.inBounds t.node with
        | false => exact .inl rfl
        | true =>
          exact .inr fun x member => by rw [h.one_id stored own covers x member]
  | @split pre post halves b half other c _ parts covers own full clean taken order =>
    have refusal := taken.refused_iff full clean
    have total := taken.stored parts clean order
    cases isAdded with
    | true =>
      have gained := (Multiset.coe_eq_coe.mp total).trans ((nodes_perm parts).cons a)
      apply h.unique_iff_offered unique parts covers (List.Sublist.refl _) gained
      · intro x member
        refine iff_of_true member fun dropped => ?_
        rw [clean x member] at dropped
        cases dropped.2
      · rintro ⟨-, notOwn | agree⟩
        · rw [own] at notOwn
          cases notOwn
        · exact Bool.noConfusion (refusal.mpr agree)
    | false =>
      have unchanged := unique.perm (Multiset.coe_eq_coe.mp total)
      rw [h.keepsUnique_iff isBad (h.coveredBy (b := b) (by simp [parts]) covers)]
      exact iff_of_true unchanged (.inr ⟨⟨full, clean⟩, .inr (refusal.mp rfl)⟩)

/-- In particular an id that is not stored may be offered. -/
theorem Valid.keepsUnique_of_absent (isBad : α → Bool) {a : α} {t : NodeTree α} {d : Nat}
    (h : t.Valid d) (absent : ∀ x ∈ t.nodes, nodeData x ≠ nodeData a) : KeepsUnique isBad a t := by
  obtain ⟨pre, b, post, parts, found, bucket, -⟩ := locate h.tiles (nodeData a)
  refine ⟨b, ⟨pre.length, found, bucket⟩, .inl fun x member same => absurd same (absent x ?_)⟩
  exact (nodes_perm parts).mem_iff.mpr (List.mem_append_left _ member)

/-! ## Runs -/

theorem UniqueIds.removeNode {a : α} {t t' : NodeTree α} {d : Nat} (h : t.Valid d)
    (unique : t.UniqueIds) (removed : t.removeNode (some a) = .ok t') :
    t'.UniqueIds ∧ t'.getNode (nodeData a) = .ok none := by
  obtain ⟨t'', removed', valid, -, effect⟩ := h.removeNode_spec a
  rw [removed] at removed'
  cases removed'
  have both : t'.UniqueIds ∧ ∀ x ∈ t'.stored, nodeData x ≠ nodeData a := by
    rcases effect with ⟨x, same, taken⟩ | ⟨absent, unchanged⟩
    · have perm : t.nodes.Perm (x :: t'.nodes) := Multiset.coe_eq_coe.mp taken
      unfold UniqueIds at unique
      rw [(perm.map nodeData).nodup_iff, List.map_cons, List.nodup_cons] at unique
      refine ⟨unique.2, fun y member again => unique.1 ?_⟩
      rw [same, ← again]
      exact List.mem_map_of_mem (Multiset.mem_coe.mp member)
    · unfold UniqueIds stored at *
      rw [unchanged]
      exact ⟨unique, absent⟩
  obtain ⟨found, searched, -, present⟩ := valid.getNode_spec (nodeData a)
  refine ⟨both.1, ?_⟩
  cases found with
  | none => exact searched
  | some x =>
    obtain ⟨y, member, same⟩ := present.mp rfl
    exact absurd same (both.2 y member)

/-- No id takes more than one slot of a bucket. -/
theorem UniqueIds.count_le_one {t : NodeTree α} (unique : t.UniqueIds) {b : Bucket α}
    (member : b ∈ t.buckets) (data : NodeData) : (b.contents.map nodeData).count data ≤ 1 := by
  obtain ⟨pre, post, parts⟩ := List.append_of_mem member
  have perm := (nodes_perm parts).map nodeData
  unfold UniqueIds at unique
  rw [perm.nodup_iff, List.map_append] at unique
  exact List.nodup_iff_count_le_one.mp (List.Nodup.of_append_left unique) data

/-- The condition on one call: an `addNode` keeps the ids distinct. -/
def CallKeepsUnique : NodeTreeCall α → NodeTree α → Prop
  | .addNode isBad (some a), t => KeepsUnique isBad a t
  | _, _ => True

/-- Every call of a run meets a condition on the tree it is made on. -/
def EachCall (condition : NodeTreeCall α → NodeTree α → Prop) : List (NodeTreeCall α) → NodeTree α → Prop
  | [], _ => True
  | call :: calls, t => condition call t ∧
      match step call t with
      | .ok t' => EachCall condition calls t'
      | .error _ => EachCall condition calls t

theorem EachCall.take {condition : NodeTreeCall α → NodeTree α → Prop} (calls : List (NodeTreeCall α))
    (k : Nat) {t : NodeTree α} (met : EachCall condition calls t) :
    EachCall condition (calls.take k) t := by
  induction calls generalizing k t with
  | nil => simpa using met
  | cons call calls ih =>
    cases k with
    | zero => trivial
    | succ k =>
      rw [EachCall] at met
      rw [List.take_succ_cons, EachCall]
      refine ⟨met.1, ?_⟩
      cases stepped : step call t with
      | ok t' =>
        rw [stepped] at met
        exact ih k met.2
      | error fault =>
        rw [stepped] at met
        exact ih k met.2

/-- One call that meets its condition keeps the ids distinct. -/
theorem UniqueIds.step {t t' : NodeTree α} {d : Nat} (h : t.Valid d) (unique : t.UniqueIds)
    {call : NodeTreeCall α} (met : CallKeepsUnique call t) (stepped : NodeTree.step call t = .ok t') :
    t'.UniqueIds := by
  cases call with
  | addNode isBad address =>
    obtain ⟨⟨t'', isAdded⟩, added, same⟩ := bind_eq_ok.mp stepped
    cases same
    cases address with
    | none => cases added
    | some a =>
      obtain ⟨t'', d', isAdded', added', -, -, -, outcome⟩ := h.addNode_outcome isBad a
      rw [added] at added'
      cases added'
      exact (outcome.unique_iff h unique).mpr met
  | removeNode address =>
    cases address with
    | none => cases stepped
    | some a => exact (unique.removeNode h stepped).1
  | clear =>
    cases stepped
    unfold UniqueIds
    rw [clear_nodes]
    exact List.nodup_nil

theorem UniqueIds.run {t : NodeTree α} {d : Nat} (h : t.Valid d) (unique : t.UniqueIds)
    (calls : List (NodeTreeCall α)) (met : EachCall CallKeepsUnique calls t) :
    ∃ t' d', NodeTree.run calls t = .ok t' ∧ t'.Valid d' ∧ t'.UniqueIds := by
  induction calls generalizing t d with
  | nil => exact ⟨t, d, rfl, h, unique⟩
  | cons call calls ih =>
    rw [EachCall] at met
    rcases h.step call with thrown | ⟨t', d', stepped, valid, -⟩
    · rw [thrown] at met
      obtain ⟨t', d', later, valid, unique'⟩ := ih h unique met.2
      exact ⟨t', d', by simpa only [NodeTree.run, thrown, if_true] using later, valid, unique'⟩
    · rw [stepped] at met
      obtain ⟨t'', d'', later, valid', unique'⟩ := ih valid (unique.step h met.1 stepped) met.2
      exact ⟨t'', d'', by simp only [NodeTree.run, stepped, later], valid', unique'⟩

/-- In a run whose every `addNode` meets its condition each state reached stores each id
at most once, `removeNode` leaves no node of its id, and no id fills a bucket. -/
theorem run_uniqueIds (T : NodeData) (calls : List (NodeTreeCall α))
    (met : EachCall CallKeepsUnique calls (new T)) (k : Nat) :
    ∃ t, NodeTree.run (calls.take k) (new T) = .ok t ∧ t.UniqueIds ∧
      (∀ a, ∃ t', t.removeNode (some a) = .ok t' ∧ t'.getNode (nodeData a) = .ok none) ∧
      ∀ b ∈ t.buckets, ∀ data, (b.contents.map nodeData).count data ≤ 1 := by
  have empty : (new T : NodeTree α).UniqueIds := by
    unfold UniqueIds new
    rw [clear_nodes]
    exact List.nodup_nil
  obtain ⟨t, d, reached, valid, unique⟩ := empty.run (new_valid T) (calls.take k) (met.take calls k)
  refine ⟨t, reached, unique, ?_, fun b member data => unique.count_le_one member data⟩
  intro a
  obtain ⟨t', removed, -⟩ := valid.removeNode_spec a
  exact ⟨t', removed, (unique.removeNode valid removed).2⟩

/-! ## One id offered again -/

/-- `addNode` of the id 1 while no node is bad. -/
def offerOne : NodeTreeCall NodeData := .addNode (fun _ => false) (some (lastWord 1))

/-- Offered again after it was removed, the id meets the condition. -/
theorem run_uniqueIds_removed :
    ∃ t, NodeTree.run ([offerOne, .removeNode (some (lastWord 1)), offerOne].take 3)
        (new NodeData.minValue) = .ok t ∧ t.UniqueIds ∧
      (∀ a, ∃ t', t.removeNode (some a) = .ok t' ∧ t'.getNode (nodeData a) = .ok none) ∧
      ∀ b ∈ t.buckets, ∀ data, (b.contents.map nodeData).count data ≤ 1 := by
  have computed : (do
      let t ← NodeTree.step offerOne (new NodeData.minValue)
      let t' ← NodeTree.step (.removeNode (some (lastWord 1))) t
      .ok (t'.nodes)) = .ok [] := by
    decide +kernel
  obtain ⟨t, first, computed⟩ := bind_eq_ok.mp computed
  obtain ⟨t', second, computed⟩ := bind_eq_ok.mp computed
  have empty : t'.nodes = [] := Except.ok.inj computed
  have start := new_valid (α := NodeData) NodeData.minValue
  obtain ⟨t'', d, reached, valid, -⟩ := start.run [offerOne, .removeNode (some (lastWord 1))]
  simp only [NodeTree.run, first, second, Except.ok.injEq] at reached
  rw [← reached] at valid
  apply run_uniqueIds
  simp only [EachCall, first, second]
  refine ⟨start.keepsUnique_of_absent _ ?_, trivial, valid.keepsUnique_of_absent _ ?_, ?_⟩
  · rw [new, clear_nodes]
    exact fun x member => absurd member List.not_mem_nil
  · rw [empty]
    exact fun x member => absurd member List.not_mem_nil
  · cases NodeTree.step offerOne t' <;> trivial

/-- Offered twice, the id 1 is stored twice and still found after `removeNode`; offered
eight times, it fills the bucket. -/
theorem offeredTwice_stored :
    (∃ t t', NodeTree.run [offerOne, offerOne] (new NodeData.minValue) = .ok t ∧ ¬ t.UniqueIds ∧
      t.removeNode (some (lastWord 1)) = .ok t' ∧
      t'.getNode (lastWord 1) = .ok (some (lastWord 1))) ∧
    ∃ t, NodeTree.run (List.replicate 8 offerOne) (new NodeData.minValue) = .ok t ∧
      t.nodes = List.replicate DHT_K (lastWord 1) ∧ t.getBucketsCount = 1 := by
  have twice : (do
      let t ← NodeTree.run [offerOne, offerOne] (new NodeData.minValue)
      let t' ← t.removeNode (some (lastWord 1))
      let found ← t'.getNode (lastWord 1)
      .ok (t.nodes, found)) = .ok ([lastWord 1, lastWord 1], some (lastWord 1)) := by
    decide +kernel
  have filled : (do
      let t ← NodeTree.run (List.replicate 8 offerOne) (new NodeData.minValue)
      .ok (t.nodes, t.getBucketsCount)) = .ok (List.replicate DHT_K (lastWord 1), 1) := by
    decide +kernel
  constructor
  · obtain ⟨t, reached, twice⟩ := bind_eq_ok.mp twice
    obtain ⟨t', removed, twice⟩ := bind_eq_ok.mp twice
    obtain ⟨found, searched, twice⟩ := bind_eq_ok.mp twice
    simp only [Except.ok.injEq, Prod.mk.injEq] at twice
    obtain ⟨nodes, rfl⟩ := twice
    refine ⟨t, t', reached, ?_, removed, searched⟩
    unfold UniqueIds
    rw [nodes]
    decide
  · obtain ⟨t, reached, filled⟩ := bind_eq_ok.mp filled
    simp only [Except.ok.injEq, Prod.mk.injEq] at filled
    exact ⟨t, reached, filled⟩

end TorrentSync.Source.NodeTree
