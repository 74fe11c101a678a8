import TorrentSync.Lib.ListParts
import TorrentSync.Source.NodeTreeAging

/-!
# First come, first served

What a run without removals stores, from the ids offered alone: each bucket holds the first
eight offers in its range, but for offers that met a bucket to be halved twice. Each of these
made the tree deeper by one.
-/
namespace TorrentSync.Source.NodeTree

open Lib Tiling PrefixRange ListParts

/-- The ids offered to `addNode`, in order. -/
def offered (calls : List TimedCall) : List NodeData :=
  calls.filterMap fun
    | .addNode _ address => some address.nodeData
    | _ => none

section Ranges

variable {α : Type} [IsNode α]

/-- The other buckets do not cover the id. -/
theorem Valid.apart {t : NodeTree α} {d : Nat} (h : t.Valid d) {pre post : List (Bucket α)} {b : Bucket α}
    (parts : t.buckets = pre ++ b :: post) {x : NodeData} (covers : b.inBounds x = true) :
    ∀ c ∈ pre ++ post, c.inBounds x = false := by
  obtain ⟨pre', b', post', parts', -, -, covers', before', after'⟩ := locate h.tiles x
  obtain ⟨rfl, rfl, rfl⟩ := unique_split (parts.symm.trans parts') covers covers'
    (before_covering h.tiles parts covers) before'
  intro c member
  rcases List.mem_append.mp member with left | right
  · exact before' c left
  · exact after' c right

variable {isBad : α → Bool} {a : α} {t : NodeTree α} {d : Nat} {b half other c : Bucket α} {isAdded : Bool}

/-- The bucket that was split holds the ids that share `d` bits with the node. -/
theorem Valid.inBounds_own (h : t.Valid d) (member : b ∈ t.buckets) (own : b.inBounds t.node = true)
    (covers : b.inBounds (nodeData a) = true) (x : NodeData) :
    b.inBounds x = true ↔ ∀ i < d, x.bit i = (nodeData a).bit i := by
  have range := h.own_range member own
  have range' : b.bounds = PrefixRange.own 160 (nodeData a).number d := by
    rw [range]
    refine (own_eq_of_mem ?_).symm
    rw [← range]
    exact (b.inBounds_iff_bounds _).mp covers
  rw [b.inBounds_iff_bounds, range']
  exact mem_own_iff 160 _ d _ (nodeData a).number_lt x.number_lt

theorem TakesHalf.inBounds_half (taken : TakesHalf isBad a d b half other c isAdded)
    (range : ∀ x : NodeData, b.inBounds x = true ↔ ∀ i < d, x.bit i = (nodeData a).bit i) (x : NodeData) :
    half.inBounds x = ((x.bit d == (nodeData a).bit d) && b.inBounds x) := by
  rw [Bool.eq_iff_iff, half.inBounds_iff_bounds, taken.halfBounds, Bool.and_eq_true, beq_iff_eq, range]
  refine (mem_own_iff 160 _ (d + 1) _ (nodeData a).number_lt x.number_lt).trans ?_
  constructor
  · intro agree
    exact ⟨agree d (Nat.lt_succ_self d), fun i below => agree i (Nat.lt_succ_of_lt below)⟩
  · rintro ⟨next, shared⟩ i below
    rcases Nat.lt_succ_iff_lt_or_eq.mp below with before | rfl
    · exact shared i before
    · exact next

theorem TakesHalf.inBounds_other (taken : TakesHalf isBad a d b half other c isAdded)
    (range : ∀ x : NodeData, b.inBounds x = true ↔ ∀ i < d, x.bit i = (nodeData a).bit i) (x : NodeData) :
    other.inBounds x = (!(x.bit d == (nodeData a).bit d) && b.inBounds x) := by
  rw [Bool.eq_iff_iff, other.inBounds_iff_bounds, taken.otherBounds, Bool.and_eq_true, Bool.not_eq_true',
    beq_eq_false_iff_ne, range]
  exact (mem_sibling_iff 160 _ d _ (nodeData a).number_lt x.number_lt taken.shallow).trans and_comm

/-- The ids of the two halves are those of the bucket, by the next bit. -/
theorem TakesHalf.ids (taken : TakesHalf isBad a d b half other c isAdded)
    (range : ∀ x : NodeData, b.inBounds x = true ↔ ∀ i < d, x.bit i = (nodeData a).bit i)
    {kept : List NodeData} (all : (b.contents.map nodeData).Perm (kept.filter b.inBounds)) :
    (half.contents.map nodeData).Perm (kept.filter half.inBounds) ∧
      (other.contents.map nodeData).Perm (kept.filter other.inBounds) := by
  have whole := (taken.contents.map nodeData).trans all
  rw [List.map_append] at whole
  obtain ⟨first, second⟩ := perm_parts (q := fun x => x.bit d == (nodeData a).bit d) whole
    (fun x member => by
      obtain ⟨y, stored, rfl⟩ := List.mem_map.mp member
      have inside := taken.halfValid.within y stored
      rw [taken.inBounds_half range, Bool.and_eq_true] at inside
      exact inside.1)
    (fun x member => by
      obtain ⟨y, stored, rfl⟩ := List.mem_map.mp member
      have inside := taken.otherValid.within y stored
      rw [taken.inBounds_other range, Bool.and_eq_true, Bool.not_eq_true'] at inside
      exact inside.1)
  rw [List.filter_filter] at first second
  have sameHalf := funext (taken.inBounds_half range)
  have sameOther := funext (taken.inBounds_other range)
  exact ⟨sameHalf ▸ first, sameOther ▸ second⟩

end Ranges

/-! ## The invariant -/

/-- The bucket holds the first of the offers in its range, and all of them if it can still be
halved. -/
structure Serves (T : NodeData) (d : Nat) (kept : List NodeData) (b : Bucket Node) : Prop where
  firsts : (b.contents.map Node.nodeData).Perm ((kept.filter b.inBounds).take DHT_K)
  all : d < 160 → b.inBounds T = true → (kept.filter b.inBounds).length ≤ DHT_K

/-- `kept` leaves out at most as many offers as the range of the table's own id was halved. -/
structure FirstComers (t : NodeTree Node) (d : Nat) (offers kept : List NodeData) : Prop where
  sublist : kept.Sublist offers
  missed : offers.length ≤ kept.length + d
  serves : ∀ b ∈ t.buckets, Serves t.node d kept b

variable {t : NodeTree Node} {T x : NodeData} {d : Nat} {offers kept : List NodeData} {b c : Bucket Node}

theorem filter_inside (inside : b.inBounds x = true) (kept : List NodeData) :
    (kept ++ [x]).filter b.inBounds = kept.filter b.inBounds ++ [x] := by
  rw [List.filter_append, List.filter_singleton, inside, cond_true]

theorem filter_outside (outside : b.inBounds x = false) (kept : List NodeData) :
    (kept ++ [x]).filter b.inBounds = kept.filter b.inBounds := by
  rw [List.filter_append, List.filter_singleton, outside, cond_false, List.append_nil]

/-- An offer outside the range of a bucket. -/
theorem Serves.outside (h : Serves T d kept b) (outside : b.inBounds x = false) :
    Serves T d (kept ++ [x]) b := by
  refine ⟨?_, ?_⟩
  · rw [filter_outside outside]
    exact h.firsts
  · rw [filter_outside outside]
    exact h.all

/-- Away from the table's own id the depth does not matter. -/
theorem Serves.deeper (h : Serves T d kept b) (away : b.inBounds T = false) (d' : Nat) :
    Serves T d' kept b :=
  ⟨h.firsts, fun _ own => by rw [away] at own; cases own⟩

/-- A bucket with all offers in its range, which are no more than it has room for. -/
theorem Serves.of_all (all : (b.contents.map Node.nodeData).Perm (kept.filter b.inBounds))
    (few : b.contents.length ≤ DHT_K) : Serves T d kept b := by
  have fits : (kept.filter b.inBounds).length ≤ DHT_K := by rwa [← all.length_eq, List.length_map]
  refine ⟨?_, fun _ _ => fits⟩
  rwa [List.take_of_length_le fits]

/-- A bucket that can be halved, or has room, holds all the offers in its range. -/
theorem Serves.holdsAll (h : Serves T d kept b)
    (open_ : b.contents.length < DHT_K ∨ (d < 160 ∧ b.inBounds T = true)) :
    (b.contents.map Node.nodeData).Perm (kept.filter b.inBounds) := by
  have firsts := h.firsts
  have size := firsts.length_eq
  rw [List.length_map, List.length_take] at size
  have fits : (kept.filter b.inBounds).length ≤ DHT_K := by
    rcases open_ with room | ⟨shallow, own⟩
    · omega
    · exact h.all shallow own
  rwa [List.take_of_length_le fits] at firsts

/-- Only the bounds and the ids matter. -/
theorem Serves.congr (h : Serves T d kept b) (low : c.low = b.low) (high : c.high = b.high)
    (ids : c.contents.map Node.nodeData = b.contents.map Node.nodeData) : Serves T d kept c := by
  have range : c.inBounds = b.inBounds := funext (NodeBucket.inBounds_congr low high)
  refine ⟨?_, ?_⟩
  · rw [ids, range]
    exact h.firsts
  · rw [range]
    exact h.all

/-- `add` serves the new offer too, if a refusal is final. -/
theorem Serves.added {isBad : Node → Bool} {a : Node} {isAdded : Bool} (h : Serves T d kept b)
    (clean : ∀ y ∈ b.contents, isBad y = false) (covers : b.inBounds a.nodeData = true)
    (low : c.low = b.low) (high : c.high = b.high) (effect : NodeBucket.Added isBad a b c isAdded)
    (final : isAdded = true ∨ b.inBounds T = false ∨ d = 160) :
    Serves T d (kept ++ [a.nodeData]) c := by
  have range : c.inBounds = b.inBounds := funext (NodeBucket.inBounds_congr low high)
  cases effect with
  | room free gained =>
    refine .of_all ?_ ?_
    · rw [range, filter_inside covers]
      exact (gained.map Node.nodeData).trans
        (((h.holdsAll (.inl free)).cons _).trans (List.perm_append_singleton _ _).symm)
    · rw [gained.length_eq]
      exact free
  | evicted full unclean gained =>
    obtain ⟨y, member, bad⟩ := unclean
    rw [clean y member] at bad
    cases bad
  | refused full _ same =>
    have firsts := h.firsts
    have many := firsts.length_eq
    rw [List.length_map, List.length_take, full] at many
    refine ⟨?_, fun shallow own => ?_⟩
    · rw [range, filter_inside covers, same, List.take_append_of_le_length (by omega)]
      exact firsts
    · rw [range] at own
      rcases final with impossible | away | deepest
      · cases impossible
      · rw [away] at own
        cases own
      · omega

/-- Both halves of the own range hold all the offers in their ranges. -/
theorem FirstComers.halves (first : FirstComers t d offers kept) (h : t.Valid d) {isBad : Node → Bool}
    {pre post : List (Bucket Node)} {half other : Bucket Node} {a : Node} {isAdded : Bool}
    (parts : t.buckets = pre ++ b :: post) (covers : b.inBounds (nodeData a) = true)
    (own : b.inBounds t.node = true) (taken : TakesHalf isBad a d b half other c isAdded) :
    Serves t.node (d + 1) kept half ∧ Serves t.node (d + 1) kept other ∧
      ∀ y ∈ pre ++ post, Serves t.node (d + 1) kept y := by
  have member : b ∈ t.buckets := by simp [parts]
  have range := h.inBounds_own member own covers
  obtain ⟨halfAll, otherAll⟩ :=
    taken.ids range ((first.serves b member).holdsAll (.inr ⟨taken.shallow, own⟩))
  refine ⟨.of_all halfAll taken.halfValid.length_le, .of_all otherAll taken.otherValid.length_le, ?_⟩
  intro y place
  refine (first.serves y ?_).deeper (h.apart parts own y place) _
  rw [parts]
  rcases List.mem_append.mp place with left | right
  · exact List.mem_append_left _ left
  · exact List.mem_append_right _ (List.mem_cons_of_mem _ right)

/-- `addNode` passes over an offer only if it halves the range of the own id. -/
theorem FirstComers.addNode (first : FirstComers t d offers kept) (h : Answering t d) (now : Int)
    {a : Node} (answered : a.lastUnansweredQueries = 0) :
    ∃ t' d' isAdded kept', t.addNode (Node.isBad now) (some a) = .ok (t', isAdded) ∧
      Answering t' d' ∧ t'.node = t.node ∧ FirstComers t' d' (offers ++ [a.nodeData]) kept' := by
  obtain ⟨t', d', isAdded, run, answering, node, outcome, -⟩ := h.addNode now answered
  have deep := answering.valid.getBucketsCount_eq
  have before := h.valid.getBucketsCount_eq
  have missed := first.missed
  cases outcome with
  | @direct pre post b b' _ parts covers low high effect final =>
    have same : d' = d := by
      simp only [getBucketsCount, parts, List.length_append, List.length_cons] at deep before
      omega
    subst same
    have member : b ∈ t.buckets := by simp [parts]
    have apart := h.valid.apart parts covers
    refine ⟨_, d', isAdded, kept ++ [a.nodeData], run, answering, node, ?_, ?_, ?_⟩
    · exact first.sublist.append (List.Sublist.refl _)
    · simp only [List.length_append, List.length_singleton]
      omega
    · intro c place
      rcases List.mem_append.mp place with left | right
      · exact (first.serves c (by simp [parts, left])).outside (apart c (List.mem_append_left _ left))
      · rcases List.mem_cons.mp right with rfl | right
        · exact (first.serves b member).added (h.clean now member) covers low high effect final
        · exact (first.serves c (by simp [parts, right])).outside
            (apart c (List.mem_append_right _ right))
  | @split pre post halves b half other c _ parts covers own full clean taken order =>
    have deeper : d' = d + 1 := by
      have two : halves.length = 2 := by rcases order with rfl | rfl <;> rfl
      simp only [getBucketsCount, parts, List.length_append, List.length_cons, two] at deep before
      omega
    subst deeper
    have member : b ∈ t.buckets := by simp [parts]
    have apart := h.valid.apart parts covers
    have range := h.valid.inBounds_own member own covers
    obtain ⟨halfServes, otherServes, around⟩ := first.halves h.valid parts covers own taken
    have places : ∀ y ∈ pre ++ halves ++ post, y ∈ pre ++ post ∨ y = c ∨ y = other := by
      intro y place
      rcases order with rfl | rfl <;>
        simp only [List.mem_append, List.mem_cons, List.not_mem_nil, or_false] at place ⊢ <;> tauto
    have otherAway : other.inBounds (nodeData a) = false := by
      rw [taken.inBounds_other range, beq_self_eq_true, Bool.not_true, Bool.false_and]
    cases isAdded with
    | true =>
      refine ⟨_, d + 1, true, kept ++ [a.nodeData], run, answering, node, ?_, ?_, ?_⟩
      · exact first.sublist.append (List.Sublist.refl _)
      · simp only [List.length_append, List.length_singleton]
        omega
      · intro y place
        rcases places y place with elsewhere | rfl | rfl
        · exact (around y elsewhere).outside (apart y elsewhere)
        · have kept' : ∀ x ∈ half.contents, Node.isBad now x = false := fun x stored =>
            clean x (taken.contents.mem_iff.mp (List.mem_append_left _ stored))
          have inHalf : half.inBounds a.nodeData = true := by
            rw [← NodeBucket.inBounds_congr taken.low taken.high]
            exact taken.covers_taken
          exact halfServes.added kept' inHalf taken.low taken.high taken.effect (.inl rfl)
        · exact otherServes.outside otherAway
    | false =>
      refine ⟨_, d + 1, false, kept, run, answering, node, ?_, ?_, ?_⟩
      · exact first.sublist.trans (List.sublist_append_left _ _)
      · simp only [List.length_append, List.length_singleton]
        omega
      · intro y place
        rcases places y place with elsewhere | rfl | rfl
        · exact around y elsewhere
        · exact halfServes.congr taken.low taken.high (congrArg _ taken.effect.same_of_refused)
        · exact otherServes

theorem FirstComers.setGood (first : FirstComers t d offers kept) (h : Answering t d) (now : Int)
    (data : NodeData) :
    ∃ t', t.update (Node.setGood now) data = .ok t' ∧ Answering t' d ∧ t'.node = t.node ∧
      FirstComers t' d offers kept := by
  obtain ⟨pre, b, post, b', parts, run, answering, low, high, contents⟩ := h.setGood now data
  refine ⟨_, run, answering, rfl, first.sublist, first.missed, fun c place => ?_⟩
  rcases List.mem_append.mp place with left | right
  · exact first.serves c (by simp [parts, left])
  · rcases List.mem_cons.mp right with rfl | right
    · refine (first.serves b (by simp [parts])).congr low high ?_
      rw [contents, updateFirst_map Node.nodeData (Node.setGood now) (fun _ => rfl)]
    · exact first.serves c (by simp [parts, right])

theorem FirstComers.run {host : Host} {calls : List TimedCall} (first : FirstComers t d offers kept)
    (h : Answering t d) (built : ∀ call ∈ calls, call.Built host) (keeps : ∀ call ∈ calls, call.Keeps) :
    ∃ t' d' kept', timedRun calls t = .ok t' ∧ Answering t' d' ∧ t'.node = t.node ∧
      FirstComers t' d' (offers ++ offered calls) kept' := by
  induction calls generalizing t d offers kept with
  | nil => exact ⟨t, d, kept, rfl, h, rfl, by simpa [offered] using first⟩
  | cons call calls ih =>
    have later : ∀ {t₁ : NodeTree Node} {d₁ kept₁} {offers₁ : List NodeData},
        timedStep call t = .ok t₁ → Answering t₁ d₁ → t₁.node = t.node → FirstComers t₁ d₁ offers₁ kept₁ →
        ∃ t' d' kept', timedRun (call :: calls) t = .ok t' ∧ Answering t' d' ∧ t'.node = t.node ∧
          FirstComers t' d' (offers₁ ++ offered calls) kept' := by
      intro t₁ d₁ kept₁ offers₁ stepped h₁ node first₁
      obtain ⟨t', d', kept', reached, answering, same, whole⟩ :=
        ih first₁ h₁ (fun c member => built c (List.mem_cons_of_mem _ member))
          fun c member => keeps c (List.mem_cons_of_mem _ member)
      exact ⟨t', d', kept', by simp only [timedRun, stepped, ok_bind, reached], answering, same.trans node,
        whole⟩
    cases call with
    | addNode now address =>
      have own : Node.Built host address := built _ List.mem_cons_self
      obtain ⟨t₁, d₁, isAdded, kept₁, run, h₁, node, first₁⟩ :=
        first.addNode h now own.lastUnansweredQueries
      obtain ⟨t', d', kept', whole⟩ := later (by simp only [timedStep, run, ok_bind]) h₁ node first₁
      rw [List.append_assoc] at whole
      exact ⟨t', d', kept', whole⟩
    | setGood now data =>
      obtain ⟨t₁, run, h₁, node, first₁⟩ := first.setGood h now data
      exact later run h₁ node first₁
    | removeNode address => exact (keeps _ List.mem_cons_self).elim
    | clear => exact (keeps _ List.mem_cons_self).elim

/-- After every run without removals each bucket holds the first eight offers in its range, and
the bucket of the table's own id all of them as long as it can be halved, but for at most as many
offers as the tree is deep. -/
theorem timedRun_firstComers (host : Host) (T : NodeData) (calls : List TimedCall)
    (built : ∀ call ∈ calls, call.Built host) (keeps : ∀ call ∈ calls, call.Keeps) :
    ∃ t, ∃ kept : List NodeData, timedRun calls (new T) = .ok t ∧ kept.Sublist (offered calls) ∧ t.depth ≤ 160 ∧
      (offered calls).length ≤ kept.length + t.depth ∧
      ∀ b ∈ t.buckets,
        (b.contents.map Node.nodeData).Perm ((kept.filter b.inBounds).take DHT_K) ∧
        (t.depth < 160 → b.inBounds T = true → (kept.filter b.inBounds).length ≤ DHT_K) := by
  have start : FirstComers (new T) 0 [] [] := by
    refine ⟨List.Sublist.refl _, Nat.zero_le _, fun b member => ?_⟩
    have empty : b.contents = [] := by
      rw [List.eq_nil_iff_forall_not_mem]
      intro x stored
      have none : x ∈ (new T).nodes := List.mem_flatMap.mpr ⟨b, member, stored⟩
      simp [new] at none
    exact .of_all (by rw [empty]; exact List.Perm.nil) (by simp [empty])
  obtain ⟨t, d, kept, reached, answering, node, first⟩ := start.run (new_answering T) built keeps
  rw [List.nil_append] at first
  have depth := answering.valid.depth_eq
  have node' : t.node = T := node
  refine ⟨t, kept, reached, first.sublist, ?_, ?_, fun b member => ?_⟩
  · rw [depth]
    exact answering.valid.depth
  · rw [depth]
    exact first.missed
  · have serves := first.serves b member
    rw [node'] at serves
    rw [depth]
    exact ⟨serves.firsts, serves.all⟩

/-- Nine offers around the id 0: eight are stored. -/
theorem timedRun_firstComers_neighbours :
    ∃ t, ∃ kept : List NodeData, timedRun nineNeighbours (new NodeData.maxValue) = .ok t ∧
      kept.Sublist (offered nineNeighbours) ∧ t.depth ≤ 160 ∧
      (offered nineNeighbours).length ≤ kept.length + t.depth ∧
      ∀ b ∈ t.buckets,
        (b.contents.map Node.nodeData).Perm ((kept.filter b.inBounds).take DHT_K) ∧
        (t.depth < 160 → b.inBounds NodeData.maxValue = true →
          (kept.filter b.inBounds).length ≤ DHT_K) :=
  timedRun_firstComers Host.x86 NodeData.maxValue nineNeighbours nineNeighbours_built nineNeighbours_keeps

end TorrentSync.Source.NodeTree
