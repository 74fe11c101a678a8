import TorrentSync.Source.NodeTreeAging

/-!
# Lookups near the table's own id

The bucket of the table's own id and its last sibling are what is left of a full bucket. As long
as nothing is removed they hold eight nodes, and both are among the three buckets that
`getClosestNodes` looks at for an id of their common range: there its answer is the nearest
nodes of the whole table.
-/
namespace TorrentSync.Source.NodeTree

open Lib Tiling PrefixRange XorDistance KeyOrder

variable {α : Type}

/-- The ids of the range of the table's own id after `k` halvings. -/
def inOwn (t : NodeTree α) (k : Nat) (x : NodeData) : Bool :=
  x.number / 2 ^ (160 - k) == t.node.number / 2 ^ (160 - k)

theorem inOwn_iff (t : NodeTree α) (k : Nat) (x : NodeData) :
    t.inOwn k x = true ↔ ∀ i < k, x.bit i = t.node.bit i := by
  rw [inOwn, beq_iff_eq, ← mem_own_iff_div]
  exact mem_own_iff 160 _ k _ t.node.number_lt x.number_lt

theorem inOwn_bounds {t : NodeTree α} {k : Nat} {b : Bucket α} (range : b.bounds = own 160 t.node.number k)
    (x : NodeData) : b.inBounds x = t.inOwn k x := by
  rw [Bool.eq_iff_iff, b.inBounds_iff_bounds, range, mem_own_iff_div, inOwn, beq_iff_eq]

section Lookup

variable [IsNode α] {t : NodeTree α} {d : Nat}

/-- The two buckets of the last halving stand side by side. -/
theorem Valid.last_halves (h : t.Valid (d + 1)) :
    ∃ pre l u post, t.buckets = pre ++ l :: u :: post ∧
      ∀ x : NodeData, t.inOwn d x = true → l.inBounds x = true ∨ u.inBounds x = true := by
  have shallow : d < 160 := h.depth
  have shape := h.shape
  rw [spine_succ 160 _ d shallow, List.map_eq_append_iff] at shape
  obtain ⟨pre, rest, parts, -, tail⟩ := shape
  obtain ⟨l, rest, rfl, lower, tail⟩ := List.map_eq_cons_iff.mp tail
  obtain ⟨u, post, rfl, upper, -⟩ := List.map_eq_cons_iff.mp tail
  refine ⟨pre, l, u, post, parts, fun x inside => ?_⟩
  have cuts := halves_cuts 160 t.node.number d shallow
  rw [← lower, ← upper] at cuts
  rw [inOwn, beq_iff_eq, ← mem_own_iff_div] at inside
  obtain ⟨low, meet, high, -, -⟩ := cuts
  simp only [NodeBucket.inBounds_iff_bounds]
  omega

/-- Both buckets of the last halving are in the window of an id of their range. -/
theorem Valid.window_halves (h : t.Valid d) {pre post : List (Bucket α)} {l u : Bucket α}
    (parts : t.buckets = pre ++ l :: u :: post) {x : NodeData}
    (covers : l.inBounds x = true ∨ u.inBounds x = true) : l ∈ t.window x ∧ u ∈ t.window x := by
  rcases covers with first | second
  · rw [window_eq h.tiles parts first, parts, List.drop_append_of_le_length (Nat.sub_le _ _)]
    have size : (pre.drop (pre.length - 1)).length ≤ 1 := by
      rw [List.length_drop]
      omega
    match before : pre.drop (pre.length - 1) with
    | [] => simp
    | [b] => simp
    | b :: c :: rest =>
      rw [before] at size
      simp at size
  · have regroup : t.buckets = (pre ++ [l]) ++ u :: post := by simp [parts]
    rw [window_eq h.tiles regroup second, parts, List.length_append, List.length_singleton,
      Nat.add_sub_cancel, List.drop_left]
    simp

/-- Every stored node of the range is in the window. -/
theorem Valid.window_near (h : t.Valid d) {x : NodeData} (near : t.inOwn (d - 1) x = true) {y : α}
    (stored : y ∈ t.nodes) (nearY : t.inOwn (d - 1) (nodeData y) = true) :
    y ∈ (t.window x).flatMap NodeBucket.contents := by
  obtain ⟨c, member, inC⟩ := List.mem_flatMap.mp stored
  refine List.mem_flatMap.mpr ⟨c, ?_, inC⟩
  have coversY := (h.buckets c member).within y inC
  cases d with
  | zero =>
    have single := h.getBucketsCount_eq
    obtain ⟨b, only⟩ := List.length_eq_one_iff.mp (show t.buckets.length = 1 from single)
    have isB : c = b := by simpa [only] using member
    have all : b.inBounds x = true := by
      obtain ⟨pre, b', post, parts, -, -, covers, -⟩ := locate h.tiles x
      have isB' : b' = b := by
        have inside : b' ∈ t.buckets := by simp [parts]
        simpa [only] using inside
      rwa [← isB']
    have parts : t.buckets = [] ++ b :: [] := by rw [only, List.nil_append]
    rw [isB, window_eq h.tiles parts all, only]
    simp
  | succ d =>
    obtain ⟨pre, l, u, post, parts, halves⟩ := h.last_halves
    obtain ⟨inL, inU⟩ := h.window_halves parts (halves x near)
    have covering := h.coveredBy member coversY
    rcases halves (nodeData y) nearY with first | second
    · rwa [covering.unique (h.coveredBy (b := l) (by simp [parts]) first)]
    · rwa [covering.unique (h.coveredBy (b := u) (by simp [parts]) second)]

/-- Ids of the range are nearer to each other than others. -/
theorem inOwn_nearer {k : Nat} {x : NodeData} (near : t.inOwn k x = true) (a c : α)
    (nearA : t.inOwn k (nodeData a) = true) (farC : t.inOwn k (nodeData c) = false) :
    distanceTo x a < distanceTo x c := by
  rw [← Bool.not_eq_true] at farC
  rw [inOwn, beq_iff_eq] at near nearA farC
  simp only [distanceTo, NodeData.distance_number]
  exact xor_lt_of_block (nearA.trans near.symm) fun same => farC (same.trans near)

/-- Eight nodes in the range of the last halving, once there was one. -/
def Crowded (t : NodeTree α) (d : Nat) : Prop :=
  d ≠ 0 → DHT_FIND_NODE_COUNT ≤ t.nodes.countP fun y => t.inOwn (d - 1) (nodeData y)

/-- On a crowded tree the answer is the nearest of all stored nodes. -/
theorem Valid.nearestOf_all (h : t.Valid d) (unique : t.UniqueIds) (crowded : Crowded t d)
    {x : NodeData} (near : t.inOwn (d - 1) x = true) (absent : ∀ n ∈ t.nodes, nodeData n ≠ x) :
    NearestOf x t.nodes (t.closest x) := by
  have nothing : t.nodes.find? (fun a => (nodeData a).eq x) = none := by
    rw [List.find?_eq_none]
    intro y stored same
    exact absent y stored ((NodeData.eq_iff _ _).mp same)
  have shape : t.closest x =
      (nearest x ((t.window x).flatMap NodeBucket.contents)).take DHT_FIND_NODE_COUNT := by
    rw [closest, nothing]
  obtain ⟨increasing, length, rest, perm, least⟩ := nearestOf_take (window_unique unique x)
  rw [← shape] at increasing length perm least
  -- the nodes of the buckets around the window
  obtain ⟨outside, whole⟩ : ∃ outside,
      t.nodes.Perm ((t.window x).flatMap NodeBucket.contents ++ outside) := by
    have part : (t.window x).Sublist t.buckets :=
      (List.take_sublist _ _).trans (List.drop_sublist _ _)
    obtain ⟨outside, perm⟩ := (part.flatMap NodeBucket.contents).exists_perm_append
    exact ⟨outside, perm⟩
  have far : ∀ c ∈ outside, t.inOwn (d - 1) (nodeData c) = false := by
    intro c out
    rw [← Bool.not_eq_true]
    intro nearC
    have inWindow := h.window_near near (whole.mem_iff.mpr (List.mem_append_right _ out)) nearC
    have distinct : (((t.window x).flatMap NodeBucket.contents ++ outside).map nodeData).Nodup :=
      (whole.map nodeData).nodup_iff.mp unique
    rw [List.map_append, List.nodup_append] at distinct
    exact distinct.2.2 _ (List.mem_map_of_mem inWindow) _ (List.mem_map_of_mem out) rfl
  have all : t.nodes.Perm (t.closest x ++ (rest ++ outside)) := by
    rw [← List.append_assoc]
    exact whole.trans (perm.append_right _)
  have enough : outside ≠ [] → DHT_FIND_NODE_COUNT ≤
      (t.closest x ++ rest).countP fun y => t.inOwn (d - 1) (nodeData y) := by
    intro more
    have deep : d ≠ 0 := by
      rintro rfl
      obtain ⟨c, out⟩ := List.exists_mem_of_ne_nil _ more
      have all : t.inOwn (0 - 1) (nodeData c) = true := (inOwn_iff t _ _).mpr fun i below => by omega
      rw [far c out] at all
      cases all
    have none : outside.countP (fun y => t.inOwn (d - 1) (nodeData y)) = 0 :=
      List.countP_eq_zero.mpr fun c out => by simp [far c out]
    have total := crowded deep
    rwa [whole.countP_eq, List.countP_append, none, Nat.add_zero, perm.countP_eq] at total
  refine ⟨increasing, ?_, rest ++ outside, all, ?_⟩
  · by_cases more : outside = []
    · rw [length, whole.length_eq, more, List.append_nil]
    · have many := (enough more).trans List.countP_le_length
      rw [← perm.length_eq] at many
      have total := whole.length_eq
      rw [List.length_append] at total
      omega
  · intro a returned c other
    rcases List.mem_append.mp other with later | out
    · exact least a returned c later
    · have fewer : (t.closest x).length ≤
          (t.closest x ++ rest).countP fun y => t.inOwn (d - 1) (nodeData y) := by
        refine le_trans ?_ (enough (List.ne_nil_of_mem out))
        rw [length]
        exact Nat.min_le_left _ _
      exact least_of_part (inOwn_nearer near) least fewer far a returned c out

/-! ## Keeping the crowd -/

/-- More nodes keep a tree crowded. -/
theorem Crowded.more {t' : NodeTree α} (crowded : Crowded t d) (node : t'.node = t.node)
    (more : t.stored ≤ t'.stored) : Crowded t' d := by
  intro deep
  refine (crowded deep).trans ?_
  have same : ∀ x, t'.inOwn (d - 1) x = t.inOwn (d - 1) x := fun x => by rw [inOwn, inOwn, node]
  simp only [same]
  exact (Multiset.coe_le.mp more).countP_le _

/-- The eight nodes of a bucket that is split are in its range. -/
theorem Valid.crowded_split {t' : NodeTree α} (h : t.Valid d) {b : Bucket α} (member : b ∈ t.buckets)
    (own : b.inBounds t.node = true) (full : b.contents.length = DHT_K) (node : t'.node = t.node)
    (more : t.stored ≤ t'.stored) : Crowded t' (d + 1) := by
  intro _
  have range := h.own_range member own
  have inside : b.contents.countP (fun y => t'.inOwn (d + 1 - 1) (nodeData y)) = b.contents.length := by
    refine List.countP_eq_length.mpr fun y stored => ?_
    rw [Nat.add_sub_cancel, inOwn, node, ← inOwn, ← inOwn_bounds range]
    exact (h.buckets b member).within y stored
  obtain ⟨pre, post, parts⟩ := List.append_of_mem member
  have part : (↑b.contents : Multiset α) ≤ t.stored :=
    Multiset.coe_le.mpr ((List.sublist_append_left _ _).subperm.trans (nodes_perm parts).symm.subperm)
  have total := (Multiset.coe_le.mp (part.trans more)).countP_le fun y => t'.inOwn (d + 1 - 1) (nodeData y)
  rw [inside, full] at total
  exact total

end Lookup

variable {t : NodeTree Node} {d : Nat}

theorem Crowded.addNode (crowded : Crowded t d) (h : Answering t d) (now : Int) {a : Node}
    (answered : a.lastUnansweredQueries = 0) :
    ∃ t' d' isAdded, t.addNode (Node.isBad now) (some a) = .ok (t', isAdded) ∧ Answering t' d' ∧
      t'.node = t.node ∧ Crowded t' d' := by
  obtain ⟨t', d', isAdded, run, answering, node, outcome, stored⟩ := h.addNode now answered
  have more : t.stored ≤ t'.stored := by
    rw [stored]
    split
    · exact Multiset.le_cons_self _ _
    · exact le_refl _
  refine ⟨t', d', isAdded, run, answering, node, ?_⟩
  have deep := answering.valid.getBucketsCount_eq
  have before := h.valid.getBucketsCount_eq
  cases outcome with
  | @direct pre post b b' _ parts =>
    have same : d' = d := by
      simp only [getBucketsCount, parts, List.length_append, List.length_cons] at deep before
      omega
    rw [same]
    exact crowded.more node more
  | @split pre post halves b half other c _ parts covers own full clean taken order =>
    have deeper : d' = d + 1 := by
      have two : halves.length = 2 := by rcases order with rfl | rfl <;> rfl
      simp only [getBucketsCount, parts, List.length_append, List.length_cons, two] at deep before
      omega
    rw [deeper]
    exact h.valid.crowded_split (by simp [parts]) own full node more

theorem Crowded.setGood (crowded : Crowded t d) (h : Answering t d) (now : Int) (data : NodeData) :
    ∃ t', t.update (Node.setGood now) data = .ok t' ∧ Answering t' d ∧ t'.node = t.node ∧
      Crowded t' d := by
  obtain ⟨pre, b, post, b', parts, run, answering, -, -, contents⟩ := h.setGood now data
  refine ⟨_, run, answering, rfl, fun deep => ?_⟩
  have ids : ((pre ++ b' :: post).flatMap NodeBucket.contents).map nodeData =
      ((pre ++ b :: post).flatMap NodeBucket.contents).map nodeData := by
    simp only [List.flatMap_append, List.flatMap_cons, List.map_append, contents,
      updateFirst_ids (Node.setGood now) (fun _ => rfl)]
  have count := crowded deep
  have counts : ∀ nodes : List Node, nodes.countP (fun y => t.inOwn (d - 1) (nodeData y)) =
      (nodes.map nodeData).countP (t.inOwn (d - 1)) := fun nodes => by rw [List.countP_map]; rfl
  rw [counts, nodes, parts, ← ids, ← counts] at count
  exact count

theorem Crowded.step {host : Host} (crowded : Crowded t d) (h : Answering t d) {call : TimedCall}
    (built : call.Built host) (keeps : call.Keeps) :
    ∃ t' d', timedStep call t = .ok t' ∧ Answering t' d' ∧ t'.node = t.node ∧ Crowded t' d' := by
  cases call with
  | addNode now address =>
    obtain ⟨t', d', isAdded, run, answering, node, crowded'⟩ :=
      crowded.addNode h now (Node.Built.lastUnansweredQueries built)
    exact ⟨t', d', by simp only [timedStep, run, ok_bind], answering, node, crowded'⟩
  | setGood now data =>
    obtain ⟨t', run, answering, node, crowded'⟩ := crowded.setGood h now data
    exact ⟨t', d, run, answering, node, crowded'⟩
  | removeNode address => exact keeps.elim
  | clear => exact keeps.elim

/-- In every run without removals: for each id that shares all bits but the last of the depth
with the table's own id, `getClosestNodes` returns the nearest nodes of the whole table. -/
theorem timedRun_closest_all (host : Host) (T : NodeData) (calls : List TimedCall)
    (built : ∀ call ∈ calls, call.Built host) (keeps : ∀ call ∈ calls, call.Keeps) :
    ∃ t, timedRun calls (new T) = .ok t ∧
      (t.UniqueIds → ∀ x : NodeData, (∀ i < t.depth - 1, x.bit i = T.bit i) →
        (∀ n ∈ t.nodes, n.nodeData ≠ x) →
        ∃ result, t.getClosestNodes x = .ok result ∧ NearestOf x t.nodes result) := by
  obtain ⟨t, reached, d, answering, node, crowded⟩ := timedRun_keeps
    (P := fun t => ∃ d, Answering t d ∧ t.node = T ∧ Crowded t d)
    (Q := fun call => call.Built host ∧ call.Keeps)
    (fun t₁ call ⟨d₁, h₁, node₁, crowded₁⟩ ⟨own, keep⟩ => by
      obtain ⟨t₂, d₂, stepped, answering, same, crowded₂⟩ := crowded₁.step h₁ own keep
      exact ⟨t₂, stepped, d₂, answering, same.trans node₁, crowded₂⟩)
    (fun call member => ⟨built call member, keeps call member⟩)
    ⟨0, new_answering T, rfl, fun deep => absurd rfl deep⟩
  refine ⟨t, reached, fun unique x shares absent => ?_⟩
  have near : t.inOwn (d - 1) x = true := by
    rw [inOwn_iff, ← answering.valid.depth_eq, node]
    exact shares
  exact ⟨t.closest x, answering.valid.getClosestNodes_spec x,
    answering.valid.nearestOf_all unique crowded near absent⟩

/-- After one split, for an id far from that of the table. -/
theorem timedRun_closest_all_neighbours :
    ∃ t result, timedRun nineNeighbours (new NodeData.maxValue) = .ok t ∧
      t.getClosestNodes (lastWord 20) = .ok result ∧ NearestOf (lastWord 20) t.nodes result := by
  obtain ⟨t, reached, exact_⟩ := timedRun_closest_all Host.x86 NodeData.maxValue nineNeighbours
    nineNeighbours_built nineNeighbours_keeps
  have computed : (do
      let t ← timedRun nineNeighbours (new NodeData.maxValue)
      .ok (t.nodes.map Node.nodeData, t.depth)) = .ok ((List.range 8).map fun n => lastWord (n + 1), 1) := by
    decide +kernel
  rw [reached, ok_bind, Except.ok.injEq, Prod.mk.injEq] at computed
  obtain ⟨ids, depth⟩ := computed
  have unique : t.UniqueIds := by
    show (t.nodes.map Node.nodeData).Nodup
    rw [ids]
    decide
  obtain ⟨result, returned, nearest⟩ := exact_ unique (lastWord 20)
    (fun i below => by rw [depth] at below; omega) (by
      intro n stored same
      have listed := List.mem_map_of_mem (f := Node.nodeData) stored
      rw [ids, same] at listed
      revert listed
      decide)
  exact ⟨t, result, reached, returned, nearest⟩

end TorrentSync.Source.NodeTree
