import TorrentSync.Source.NodeBucketRun

/-!
# The free slots of a NodeBucket

`remove` and `clear` null the slots they free, so that the bucket keeps no reference
to a node it no longer stores. `removeBad` only lowers the count: a slot it frees
is null if the node that was there has been moved to the front, and holds a bad node
otherwise. `add` calls `removeBad` on a full bucket and then overwrites one free slot.
-/
namespace TorrentSync.Source

variable {N : Nat} {α : Type}

namespace NodeBucket

/-- Every array slot at index `size()` or above holds a null pointer. -/
def TailNull (b : NodeBucket N α) : Prop :=
  ∀ (i : Nat) (inside : i < N), b.size ≤ i → b.elements[i] = none

/-- With as many slots as there are good nodes, and `more`, no bad node is behind them. -/
def BadInFront (isBad : α → Bool) (more : Nat) (xs : List α) : Prop :=
  ∀ x ∈ xs.drop ((xs.filter fun x => !isBad x).length + more), isBad x = false

theorem tailNull_iff {b : NodeBucket N α} {xs : List α} {tail : List (Option α)}
    (h : b.Stores xs tail) : b.TailNull ↔ ∀ t ∈ tail, t = none := by
  have sizes := h.length
  have slot : ∀ (j : Nat) (below : j < tail.length) (inside : xs.length + j < N),
      b.elements[xs.length + j] = tail[j] := by
    intro j below inside
    have whole : b.elements.toList[xs.length + j]? = some tail[j] := by
      rw [h.slots, List.getElem?_append_right (by simp), List.length_map, Nat.add_sub_cancel_left,
        List.getElem?_eq_getElem below]
    obtain ⟨_, value⟩ := List.getElem?_eq_some_iff.mp whole
    simpa using value
  constructor
  · intro null t member
    obtain ⟨j, below, rfl⟩ := List.mem_iff_getElem.mp member
    rw [← slot j below (by omega)]
    exact null _ _ (by simp only [size, h.count, Nat.le_add_right])
  · intro null i inside above
    rw [size, h.count] at above
    obtain ⟨j, rfl⟩ := Nat.exists_eq_add_of_le above
    have below : j < tail.length := by omega
    rw [slot j below inside]
    exact null _ (List.getElem_mem below)

theorem leftBehind_null_iff (isBad : α → Bool) (more : Nat) (xs : List α) :
    (∀ t ∈ (leftBehind isBad xs).drop more, t = none) ↔ BadInFront isBad more xs := by
  unfold leftBehind BadInFront
  rw [← List.map_drop, List.drop_drop, List.forall_mem_map]
  refine forall₂_congr fun x _ => ?_
  cases isBad x <;> simp

variable [IsNode α] {low high : NodeData}

/-- The call leaves no bad node in a slot it frees: `removeBad` moves a good node over each
bad one, and `add` into a full bucket puts its own node into the first slot freed. -/
def Covers (b : NodeBucket N α) : NodeBucketCall α → Prop
  | .add isBad addr => b.inBounds (nodeData addr) = true → b.size = b.maxSize →
      BadInFront isBad 1 b.contents
  | .removeBad isBad => BadInFront isBad 0 b.contents
  | .remove _ | .clear | .find _ => True

/-- `add` keeps the free slots null exactly if it covers the bad nodes. -/
theorem Stores.add_tail {b : NodeBucket N α} {xs : List α} {tail : List (Option α)}
    (h : b.Stores xs tail) (null : ∀ t ∈ tail, t = none) (isBad : α → Bool) (a : α) :
    ∃ b' answer xs' tail', step (.add isBad a) b = .ok (b', answer) ∧ b'.Stores xs' tail' ∧
      ((∀ t ∈ tail', t = none) ↔ b.Covers (.add isBad a)) := by
  have sizes := h.length
  have full : b.size = b.maxSize ↔ tail = [] := by
    rw [size, maxSize, h.count, ← List.length_eq_zero_iff]
    omega
  simp only [Covers, h.holds.contents_eq, full]
  by_cases inside : b.inBounds (nodeData a) = true
  · cases tail with
    | cons hole tail =>
      obtain ⟨b', added, stores, -⟩ := add_room_slots isBad a h inside
      refine ⟨b', .returned true, _, tail, by simp only [step, added], stores, ?_⟩
      simpa using fun t member => null t (List.mem_cons_of_mem hole member)
    | nil =>
      simp only [inside, forall_const]
      rcases add_full_slots isBad a h inside with ⟨b', added, -, stores, -⟩ | ⟨b', added, clean, stores, -⟩
      · refine ⟨b', .returned true, _, _, by simp only [step, added], stores, ?_⟩
        rw [← leftBehind_null_iff, List.drop_one]
      · refine ⟨b', .returned false, _, _, by simp only [step, added], stores, ?_⟩
        simpa [BadInFront] using fun x member => clean x (List.mem_of_mem_drop member)
  · have thrown := add_outside isBad a b (by simpa using inside)
    refine ⟨b, _, xs, tail, by simp only [step, thrown, Fault.isException]; rfl, h, ?_⟩
    simpa [inside] using null

/-- One call keeps the free slots null exactly if it covers the bad nodes. -/
theorem Stores.step_tail {b : NodeBucket N α} {xs : List α} {tail : List (Option α)}
    (h : b.Stores xs tail) (null : ∀ t ∈ tail, t = none) (call : NodeBucketCall α) :
    ∃ b' answer xs' tail', step call b = .ok (b', answer) ∧ b'.Stores xs' tail' ∧
      ((∀ t ∈ tail', t = none) ↔ b.Covers call) := by
  cases call with
  | add isBad addr => exact h.add_tail null isBad addr
  | remove addr =>
    obtain ⟨b', removed, stores, -⟩ := remove_slots addr h
    refine ⟨b', _, _, _, by simp only [step, removed, ok_bind]; rfl, stores, iff_of_true ?_ trivial⟩
    split
    · simpa using null
    · exact null
  | removeBad isBad =>
    obtain ⟨b', dropped, stores, -⟩ := removeBad_slots isBad h
    refine ⟨b', .done, _, _, by simp only [step, dropped, ok_bind], stores, ?_⟩
    rw [Covers, h.holds.contents_eq, ← leftBehind_null_iff, List.drop_zero, List.forall_mem_append]
    exact and_iff_left null
  | clear =>
    obtain ⟨b', cleared, stores, -⟩ := clear_slots h
    refine ⟨b', .done, _, _, by simp only [step, cleared, ok_bind], stores, iff_of_true ?_ trivial⟩
    rw [List.forall_mem_append]
    exact ⟨fun t member => List.eq_of_mem_replicate member, null⟩
  | find addr =>
    refine ⟨b, _, xs, tail, by simp only [step, find_spec addr h.holds, ok_bind]; rfl, h, ?_⟩
    exact iff_of_true null trivial

/-- A run is its first call and the run from the bucket that leaves. -/
theorem run_cons_iff {b b' : NodeBucket N α} {call : NodeBucketCall α}
    {answer : NodeBucketAnswer α} (stepped : step call b = .ok (b', answer))
    (calls : List (NodeBucketCall α)) (P : NodeBucket N α → Prop) :
    (∃ b'' answers, run (call :: calls) b = .ok (b'', answers) ∧ P b'') ↔
      ∃ b'' answers, run calls b' = .ok (b'', answers) ∧ P b'' := by
  simp only [run, stepped, ok_bind]
  cases run calls b' with
  | error fault => simp
  | ok result =>
    obtain ⟨b'', answers⟩ := result
    simp

/-- From a bucket with null free slots: they stay null at every point of a sequence of calls
exactly if every call covers the bad nodes. -/
theorem Stores.run_tail {b : NodeBucket N α} {xs : List α} {tail : List (Option α)}
    (h : b.Stores xs tail) (null : ∀ t ∈ tail, t = none) (calls : List (NodeBucketCall α)) :
    (∀ done rest, calls = done ++ rest →
      ∃ b' answers, run done b = .ok (b', answers) ∧ b'.TailNull) ↔
    (∀ done call rest, calls = done ++ call :: rest →
      ∃ b' answers, run done b = .ok (b', answers) ∧ b'.Covers call) := by
  induction calls generalizing b xs tail with
  | nil =>
    refine iff_of_true ?_ ?_
    · intro done rest same
      obtain ⟨rfl, -⟩ := List.append_eq_nil_iff.mp same.symm
      exact ⟨b, [], rfl, (tailNull_iff h).mpr null⟩
    · intro done call rest same
      simp at same
  | cons call calls ih =>
    obtain ⟨b', answer, xs', tail', stepped, stores, kept⟩ := h.step_tail null call
    constructor
    · intro always done next rest same
      obtain ⟨b'', answers, run', null'⟩ := (run_cons_iff stepped [] TailNull).mp (always [call] calls rfl)
      cases run'
      have clean := (tailNull_iff stores).mp null'
      cases done with
      | nil =>
        cases same
        exact ⟨b, [], rfl, kept.mp clean⟩
      | cons first done =>
        cases same
        rw [run_cons_iff stepped done fun b => b.Covers next]
        refine (ih stores clean).mp (fun done' rest' same' => ?_) done next rest rfl
        exact (run_cons_iff stepped done' TailNull).mp (always (call :: done') rest' (by rw [same']; rfl))
    · intro covered done rest same
      obtain ⟨_, _, start, covers⟩ := covered [] call calls rfl
      cases start
      have clean := kept.mpr covers
      cases done with
      | nil => exact ⟨b, [], rfl, (tailNull_iff h).mpr null⟩
      | cons first done =>
        cases same
        rw [run_cons_iff stepped done TailNull]
        refine (ih stores clean).mpr (fun done' next rest' same' => ?_) done rest rfl
        exact (run_cons_iff stepped done' fun b => b.Covers next).mp
          (covered (call :: done') next rest' (by rw [same']; rfl))

/-- In every sequence of calls on a new bucket the free slots are null throughout exactly
if each call covers the bad nodes: that is the whole condition. -/
theorem run_tailNull_iff (N : Nat) (low high : NodeData) (calls : List (NodeBucketCall α)) :
    (∀ done rest, calls = done ++ rest →
      ∃ (b : NodeBucket N α) (answers : List (NodeBucketAnswer α)),
        run done (new low high) = .ok (b, answers) ∧ b.TailNull) ↔
    (∀ done call rest, calls = done ++ call :: rest →
      ∃ (b : NodeBucket N α) (answers : List (NodeBucketAnswer α)),
        run done (new low high) = .ok (b, answers) ∧ b.Covers call) :=
  (new_stores low high).run_tail (fun _ member => List.eq_of_mem_replicate member) calls

/-- `removeBad` of the only node, which is bad: the count drops to 0 and slot 0 keeps the node. -/
theorem removeBad_keeps_reference :
    ∃ (b : NodeBucket DHT_K NodeData) (answers : List (NodeBucketAnswer NodeData)),
      run [.add (fun _ => false) NodeData.minValue, .removeBad fun _ => true]
        (new NodeData.minValue NodeData.maxValue) = .ok (b, answers) ∧
      b.size = 0 ∧ b.elements.get ⟨0, by decide⟩ = some NodeData.minValue ∧ ¬ b.TailNull := by
  refine ⟨_, _, rfl, rfl, rfl, ?_⟩
  intro null
  exact absurd (null 0 (by decide) (by decide)) (by decide)

end NodeBucket
end TorrentSync.Source
