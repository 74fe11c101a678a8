import TorrentSync.Source.NodeBucketSpec

/-!
# Runs of a NodeBucket

A bucket seen through its calls is a list of at most `N` nodes, sorted by id and
within the bucket's bounds. `SortedNodes` is that list with its invariant, `Effect`
says what each call does to it and answers, and the array of `NodeBucket` simulates
both call by call.
-/
namespace TorrentSync.Source

variable {N : Nat} {α : Type}

/-- The calls of a bucket. `isBad` says which nodes are bad while the call runs. -/
inductive NodeBucketCall (α : Type) where
  | add (isBad : α → Bool) (addr : α)
  | remove (addr : NodeData)
  | removeBad (isBad : α → Bool)
  | clear
  | find (addr : NodeData)

inductive NodeBucketAnswer (α : Type) where
  | threw (fault : Fault)
  | returned (value : Bool)
  | found (node : Option α)
  | done

/-! ## The sorted list -/

/-- Nodes sorted by id, within bounds, and no more than a bucket takes. -/
structure SortedNodes (N : Nat) (α : Type) [IsNode α] (low high : NodeData) where
  nodes : List α
  sorted : NodeBucket.Sorted nodes
  within : ∀ x ∈ nodes, low.number ≤ (nodeData x).number ∧ (nodeData x).number ≤ high.number
  fits : nodes.length ≤ N

namespace SortedNodes

variable [IsNode α] {low high : NodeData}

def empty : SortedNodes N α low high := ⟨[], List.Pairwise.nil, by simp, Nat.zero_le N⟩

/-- Some of the nodes, in the same order. -/
def part (s : SortedNodes N α low high) (xs : List α) (less : xs.Sublist s.nodes) :
    SortedNodes N α low high :=
  ⟨xs, s.sorted.sublist less, fun x member => s.within x (less.subset member),
    less.length_le.trans s.fits⟩

def insert (s : SortedNodes N α low high) (a : α)
    (inside : low.number ≤ (nodeData a).number ∧ (nodeData a).number ≤ high.number)
    (room : s.nodes.length < N) : SortedNodes N α low high where
  nodes := NodeBucket.insertSorted a s.nodes
  sorted := NodeBucket.insertSorted_sorted a s.nodes s.sorted
  within := by
    intro x member
    rcases (NodeBucket.mem_insertSorted a x s.nodes).mp member with rfl | old
    · exact inside
    · exact s.within x old
  fits := by
    rw [NodeBucket.insertSorted_length]
    exact room

/-- What a call does to the list, and what it answers. -/
inductive Effect (s : SortedNodes N α low high) :
    NodeBucketCall α → SortedNodes N α low high → NodeBucketAnswer α → Prop
  | outside (isBad : α → Bool) (a : α) (what : String)
      (out : ¬ (low.number ≤ (nodeData a).number ∧ (nodeData a).number ≤ high.number)) :
      Effect s (.add isBad a) s (.threw (.invalidArgument what))
  | room (isBad : α → Bool) (a : α) (s' : SortedNodes N α low high)
      (inside : low.number ≤ (nodeData a).number ∧ (nodeData a).number ≤ high.number)
      (free : s.nodes.length < N) (gained : s'.nodes.Perm (a :: s.nodes)) :
      Effect s (.add isBad a) s' (.returned true)
  | evicted (isBad : α → Bool) (a : α) (s' : SortedNodes N α low high)
      (inside : low.number ≤ (nodeData a).number ∧ (nodeData a).number ≤ high.number)
      (full : s.nodes.length = N) (unclean : ∃ x ∈ s.nodes, isBad x = true)
      (gained : s'.nodes.Perm (a :: s.nodes.filter fun x => !isBad x)) :
      Effect s (.add isBad a) s' (.returned true)
  | refused (isBad : α → Bool) (a : α)
      (inside : low.number ≤ (nodeData a).number ∧ (nodeData a).number ≤ high.number)
      (full : s.nodes.length = N) (clean : ∀ x ∈ s.nodes, isBad x = false) :
      Effect s (.add isBad a) s (.returned false)
  | removed (addr : NodeData) (s' : SortedNodes N α low high) (pre : List α) (x : α) (post : List α)
      (parts : s.nodes = pre ++ x :: post) (hit : nodeData x = addr)
      (rest : s'.nodes = pre ++ post) : Effect s (.remove addr) s' (.returned true)
  | absent (addr : NodeData) (unstored : ∀ x ∈ s.nodes, nodeData x ≠ addr) :
      Effect s (.remove addr) s (.returned false)
  | removedBad (isBad : α → Bool) (s' : SortedNodes N α low high)
      (kept : s'.nodes = s.nodes.filter fun x => !isBad x) : Effect s (.removeBad isBad) s' .done
  | cleared (s' : SortedNodes N α low high) (emptied : s'.nodes = []) : Effect s .clear s' .done
  | found (addr : NodeData) (x : α) (member : x ∈ s.nodes) (hit : nodeData x = addr) :
      Effect s (.find addr) s (.found (some x))
  | missing (addr : NodeData) (unstored : ∀ x ∈ s.nodes, nodeData x ≠ addr) :
      Effect s (.find addr) s (.found none)

/-- The effects of a sequence of calls, one after the other. -/
inductive Behaves : SortedNodes N α low high → List (NodeBucketCall α) →
    SortedNodes N α low high → List (NodeBucketAnswer α) → Prop
  | nil (s : SortedNodes N α low high) : Behaves s [] s []
  | cons {s s' s'' : SortedNodes N α low high} {call : NodeBucketCall α}
      {answer : NodeBucketAnswer α} {calls : List (NodeBucketCall α)}
      {answers : List (NodeBucketAnswer α)} (first : Effect s call s' answer)
      (rest : Behaves s' calls s'' answers) : Behaves s (call :: calls) s'' (answer :: answers)

end SortedNodes

namespace NodeBucket

/-! ## The array behind it -/

/-- The loop of `clear` meets live slots only, stays within the array and empties them. -/
theorem clearFrom_spec (elements : Vector (Option α) N) (seen rest : List (Option α)) (xs : List α)
    (live : elements.toList = seen ++ (xs.map some ++ rest)) :
    ∃ elements', clearFrom elements xs.length seen.length = .ok elements' ∧
      elements'.toList = seen ++ (List.replicate xs.length none ++ rest) := by
  induction xs generalizing elements seen with
  | nil => exact ⟨elements, rfl, live⟩
  | cons x xs ih =>
    have here : elements.toList = seen ++ some x :: (xs.map some ++ rest) := by simpa using live
    obtain ⟨w, written, shape⟩ := Lib.ArrayAlgorithms.put_at outOfArray none here
    obtain ⟨elements', later, emptied⟩ := ih w (seen ++ [none]) (by simpa using shape)
    refine ⟨elements', ?_, ?_⟩
    · rw [List.length_append, List.length_singleton] at later
      simp only [clearFrom, List.length_cons, Lib.ArrayAlgorithms.cell_at outOfArray here,
        Option.isSome_some, check_true, written, ok_bind, later]
    · rw [emptied, List.length_cons, List.replicate_succ]
      simp

theorem clear_slots {b : NodeBucket N α} {xs : List α} {tail : List (Option α)}
    (h : b.Stores xs tail) :
    ∃ b', b.clear = .ok b' ∧ b'.Stores [] (List.replicate xs.length none ++ tail) ∧
      b'.low = b.low ∧ b'.high = b.high := by
  obtain ⟨count, slots⟩ := h
  obtain ⟨elements', cleared, emptied⟩ := clearFrom_spec b.elements [] tail xs slots
  rw [List.length_nil, ← count] at cleared
  refine ⟨{ b with elements := elements', addressCount := 0 }, ?_, ⟨rfl, emptied⟩, rfl, rfl⟩
  simp only [clear, cleared, ok_bind]

theorem clear_spec {b : NodeBucket N α} {xs : List α} (h : b.Holds xs) :
    ∃ b', b.clear = .ok b' ∧ b'.Holds [] ∧ b'.low = b.low ∧ b'.high = b.high := by
  obtain ⟨tail, stores⟩ := h.stores
  obtain ⟨b', run, stores', bounds⟩ := clear_slots stores
  exact ⟨b', run, stores'.holds, bounds⟩

variable [IsNode α] {low high : NodeData}

/-- One call. `add` throws before it writes, so the bucket is as it was when the
caller catches the exception. -/
def step : NodeBucketCall α → NodeBucket N α → Fallible (NodeBucket N α × NodeBucketAnswer α)
  | .add isBad addr, b =>
      match b.add isBad (some addr) with
      | .ok (b, isAdded) => .ok (b, .returned isAdded)
      | .error fault => if fault.isException then .ok (b, .threw fault) else .error fault
  | .remove addr, b => do
      let (b, isRemoved) ← b.remove addr
      .ok (b, .returned isRemoved)
  | .removeBad isBad, b => do
      let b ← b.removeBad isBad
      .ok (b, .done)
  | .clear, b => do
      let b ← b.clear
      .ok (b, .done)
  | .find addr, b => do
      let node ← b.find addr
      .ok (b, .found node)

def run : List (NodeBucketCall α) → NodeBucket N α →
    Fallible (NodeBucket N α × List (NodeBucketAnswer α))
  | [], b => .ok (b, [])
  | call :: calls, b => do
      let (b, answer) ← step call b
      let (b, answers) ← run calls b
      .ok (b, answer :: answers)

/-- The live slots of the bucket are the nodes of the list, and its bounds are the list's. -/
structure Represents (b : NodeBucket N α) (s : SortedNodes N α low high) : Prop where
  holds : b.Holds s.nodes
  low_eq : b.low = low
  high_eq : b.high = high

theorem new_represents : (new low high : NodeBucket N α).Represents
    (SortedNodes.empty : SortedNodes N α low high) := ⟨new_holds low high, rfl, rfl⟩

/-- A bucket that still has the bounds represents the list it holds. -/
theorem Represents.of_holds {b b' : NodeBucket N α} {s s' : SortedNodes N α low high}
    (h : b.Represents s) (holds : b'.Holds s'.nodes) (sameLow : b'.low = b.low)
    (sameHigh : b'.high = b.high) : b'.Represents s' :=
  ⟨holds, sameLow.trans h.low_eq, sameHigh.trans h.high_eq⟩

/-- `add` acts on the list as its `Effect` says. -/
theorem Represents.add_step {b : NodeBucket N α} {s : SortedNodes N α low high}
    (h : b.Represents s) (isBad : α → Bool) (a : α) :
    ∃ b' s' answer, step (.add isBad a) b = .ok (b', answer) ∧
      s.Effect (.add isBad a) s' answer ∧ b'.Represents s' := by
  have bounds : b.inBounds (nodeData a) = true ↔
      low.number ≤ (nodeData a).number ∧ (nodeData a).number ≤ high.number := by
    rw [b.inBounds_iff, h.low_eq, h.high_eq]
  by_cases inside : b.inBounds (nodeData a) = true
  · have within := bounds.mp inside
    rcases Nat.lt_or_eq_of_le s.fits with free | full
    · obtain ⟨b', added, holds, sameLow, sameHigh⟩ := add_room isBad a h.holds inside free
      refine ⟨b', s.insert a within free, .returned true, by simp only [step, added], ?_,
        h.of_holds holds sameLow sameHigh⟩
      exact .room isBad a _ within free (insertSorted_perm a s.nodes)
    · rcases add_full isBad a h.holds inside full with
        ⟨b', added, unclean, holds, sameLow, sameHigh⟩ | ⟨b', added, clean, holds, sameLow, sameHigh⟩
      · obtain ⟨x, member, bad⟩ := unclean
        have fewer : (s.nodes.filter fun x => !isBad x).length < N :=
          (List.length_filter_lt_length_iff_exists.mpr ⟨x, member, by simpa using bad⟩).trans_eq full
        refine ⟨b', (s.part _ List.filter_sublist).insert a within fewer, .returned true,
          by simp only [step, added], ?_, h.of_holds holds sameLow sameHigh⟩
        exact .evicted isBad a _ within full ⟨x, member, bad⟩ (insertSorted_perm a _)
      · exact ⟨b', s, .returned false, by simp only [step, added], .refused isBad a within full clean,
          h.of_holds holds sameLow sameHigh⟩
  · have thrown := add_outside isBad a b (by simpa using inside)
    have caught : step (.add isBad a) b = .ok (b, .threw (.invalidArgument
        ("The address can't stay in this Bucket: " ++ (nodeData a).string ++ " " ++ b.low.string ++
          "-" ++ b.high.string))) := by
      simp only [step, thrown, Fault.isException]
      rfl
    exact ⟨b, s, _, caught, .outside isBad a _ fun within => inside (bounds.mpr within), h⟩

/-- `remove` acts on the list as its `Effect` says. -/
theorem Represents.remove_step {b : NodeBucket N α} {s : SortedNodes N α low high}
    (h : b.Represents s) (addr : NodeData) :
    ∃ b' s' answer, step (.remove addr) b = .ok (b', answer) ∧
      s.Effect (.remove addr) s' answer ∧ b'.Represents s' := by
  obtain ⟨b', removed, holds, sameLow, sameHigh⟩ := NodeBucket.remove_spec addr h.holds
  cases stored : s.nodes.any fun x => addr.eq (nodeData x) with
  | true =>
    rw [stored] at removed
    obtain ⟨x, member, hit⟩ := List.any_eq_true.mp stored
    obtain ⟨y, pre, post, -, hitY, parts, erased⟩ :=
      List.exists_of_eraseP (p := fun x => addr.eq (nodeData x)) member hit
    refine ⟨b', s.part _ List.eraseP_sublist, .returned true,
      by simp only [step, removed, ok_bind], ?_, h.of_holds holds sameLow sameHigh⟩
    exact .removed addr _ pre y post parts ((NodeData.eq_iff _ _).mp hitY).symm erased
  | false =>
    rw [stored] at removed
    have unstored : ∀ x ∈ s.nodes, ¬ addr.eq (nodeData x) = true := by simpa using stored
    rw [List.eraseP_of_forall_not unstored] at holds
    refine ⟨b', s, .returned false, by simp only [step, removed, ok_bind], ?_,
      h.of_holds holds sameLow sameHigh⟩
    refine .absent addr fun x member same => unstored x member ?_
    rw [NodeData.eq_iff, same]

/-- `find` answers as its `Effect` says and leaves the bucket alone. -/
theorem Represents.find_step {b : NodeBucket N α} {s : SortedNodes N α low high}
    (h : b.Represents s) (addr : NodeData) :
    ∃ b' s' answer, step (.find addr) b = .ok (b', answer) ∧
      s.Effect (.find addr) s' answer ∧ b'.Represents s' := by
  have searched := find_spec addr h.holds
  refine ⟨b, s, .found (s.nodes.find? fun x => (nodeData x).eq addr),
    by simp only [step, searched, ok_bind], ?_, h⟩
  cases result : s.nodes.find? fun x => (nodeData x).eq addr with
  | some x =>
    have hit : (nodeData x).eq addr = true := List.find?_some (p := fun x => (nodeData x).eq addr) result
    exact .found addr x (List.mem_of_find?_eq_some result) ((NodeData.eq_iff _ _).mp hit)
  | none =>
    refine .missing addr fun x member same => ?_
    have missed := List.find?_eq_none.mp result x member
    rw [NodeData.eq_iff] at missed
    exact missed same

theorem Represents.step {b : NodeBucket N α} {s : SortedNodes N α low high} (h : b.Represents s)
    (call : NodeBucketCall α) :
    ∃ b' s' answer, step call b = .ok (b', answer) ∧ s.Effect call s' answer ∧ b'.Represents s' := by
  cases call with
  | add isBad addr => exact h.add_step isBad addr
  | remove addr => exact h.remove_step addr
  | removeBad isBad =>
    obtain ⟨b', dropped, holds, sameLow, sameHigh⟩ := removeBad_spec isBad h.holds
    exact ⟨b', s.part _ List.filter_sublist, .done, by simp only [NodeBucket.step, dropped, ok_bind],
      .removedBad isBad _ rfl, h.of_holds holds sameLow sameHigh⟩
  | clear =>
    obtain ⟨b', cleared, holds, sameLow, sameHigh⟩ := clear_spec h.holds
    exact ⟨b', .empty, .done, by simp only [NodeBucket.step, cleared, ok_bind], .cleared _ rfl,
      h.of_holds holds sameLow sameHigh⟩
  | find addr => exact h.find_step addr

theorem Represents.run {b : NodeBucket N α} {s : SortedNodes N α low high} (h : b.Represents s)
    (calls : List (NodeBucketCall α)) :
    ∃ b' s' answers, run calls b = .ok (b', answers) ∧ s.Behaves calls s' answers ∧
      b'.Represents s' := by
  induction calls generalizing b s with
  | nil => exact ⟨b, s, [], rfl, .nil s, h⟩
  | cons call calls ih =>
    obtain ⟨b', s', answer, stepped, effect, represents⟩ := h.step call
    obtain ⟨b'', s'', answers, later, behaves, final⟩ := ih represents
    refine ⟨b'', s'', answer :: answers, ?_, .cons effect behaves, final⟩
    simp only [NodeBucket.run, stepped, later, ok_bind]

/-- Any sequence of calls on a new bucket of any size and bounds returns, with the answers
and the contents of a sorted list of at most `N` nodes within the bounds. -/
theorem run_behaves (N : Nat) (low high : NodeData) (calls : List (NodeBucketCall α)) :
    ∃ (b : NodeBucket N α) (s : SortedNodes N α low high) (answers : List (NodeBucketAnswer α)),
      run calls (new low high) = .ok (b, answers) ∧
      (SortedNodes.empty : SortedNodes N α low high).Behaves calls s answers ∧ b.Represents s :=
  new_represents.run calls

end NodeBucket
end TorrentSync.Source
