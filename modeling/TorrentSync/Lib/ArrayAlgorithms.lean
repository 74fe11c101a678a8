import Mathlib.Data.List.Basic
import Mathlib.Data.List.Induction
import Mathlib.Data.List.TakeWhile

/-!
# Range algorithms on fixed arrays

The element-by-element loops behind `std::find_if`, `std::copy`,
`std::copy_backward` and `std::remove_if` on an array of fixed size. Every access
is checked: an index outside the array ends the loop with the caller's error, so
a successful run is also a proof that no index left the array. The specification
lemmas describe the array by the segments a range splits it into.
-/
namespace TorrentSync.Lib.ArrayAlgorithms

variable {β ε : Type} {n : Nat} (oob : ε)

/-- A checked read. -/
def cell (v : Vector β n) (i : Nat) : Except ε β :=
  if h : i < n then .ok v[i] else .error oob

/-- A checked write. -/
def put (v : Vector β n) (i : Nat) (x : β) : Except ε (Vector β n) :=
  if h : i < n then .ok (v.set i x h) else .error oob

/-- `std::find_if` over `count` cells from `first`; the past-the-end index if none. -/
def findIf (pred : β → Except ε Bool) (v : Vector β n) : Nat → Nat → Except ε Nat
  | 0, first => .ok first
  | count + 1, first => do
      let x ← cell oob v first
      if ← pred x then .ok first else findIf pred v count (first + 1)

/-- `std::copy` of `count` cells, in increasing order. -/
def copyForward (v : Vector β n) : Nat → Nat → Nat → Except ε (Vector β n)
  | 0, _, _ => .ok v
  | count + 1, src, dst => do
      let x ← cell oob v src
      let v ← put oob v dst x
      copyForward v count (src + 1) (dst + 1)

/-- `std::copy_backward` of `count` cells ending before `last`, in decreasing order. -/
def copyBackward (v : Vector β n) : Nat → Nat → Nat → Except ε (Vector β n)
  | 0, _, _ => .ok v
  | count + 1, last, dlast => do
      let x ← cell oob v (last - 1)
      let v ← put oob v (dlast - 1) x
      copyBackward v count (last - 1) (dlast - 1)

/-- The compaction loop of `std::remove_if`: kept cells are moved down to `result`
and a moved-from cell is left holding `hole`. -/
def compact (pred : β → Except ε Bool) (hole : β) (v : Vector β n) :
    Nat → Nat → Nat → Except ε (Vector β n × Nat)
  | 0, _, result => .ok (v, result)
  | count + 1, first, result => do
      let x ← cell oob v first
      if ← pred x then compact pred hole v count (first + 1) result
      else do
        let v ← put oob v result x
        let v ← put oob v first hole
        compact pred hole v count (first + 1) (result + 1)

/-- `std::remove_if` over the first `count` cells: the array and the new end. -/
def removeIf (pred : β → Except ε Bool) (hole : β) (v : Vector β n) (count : Nat) :
    Except ε (Vector β n × Nat) := do
  let found ← findIf oob pred v count 0
  if found = count then .ok (v, found)
  else compact oob pred hole v (count - (found + 1)) (found + 1) found

theorem cell_at {v : Vector β n} {pre post : List β} {x : β} (h : v.toList = pre ++ x :: post) :
    cell oob v pre.length = .ok x := by
  have size := congrArg List.length h
  simp only [Vector.length_toList, List.length_append, List.length_cons] at size
  have inside : pre.length < n := by omega
  have read : v.toList[pre.length]? = some x := by rw [h]; simp
  rw [cell, dif_pos inside]
  congr 1
  rw [List.getElem?_eq_some_iff] at read
  obtain ⟨_, value⟩ := read
  simpa using value

theorem put_at {v : Vector β n} {pre post : List β} {x : β} (y : β)
    (h : v.toList = pre ++ x :: post) :
    ∃ w, put oob v pre.length y = .ok w ∧ w.toList = pre ++ y :: post := by
  have size := congrArg List.length h
  simp only [Vector.length_toList, List.length_append, List.length_cons] at size
  have inside : pre.length < n := by omega
  refine ⟨v.set pre.length y, dif_pos inside, ?_⟩
  rw [Vector.toList_set, h]
  simp

/-- The search stops at the first cell satisfying the predicate. -/
theorem findIf_spec {v : Vector β n} (pred : β → Except ε Bool) {p : β → Bool}
    (pre xs post : List β) (h : v.toList = pre ++ xs ++ post)
    (total : ∀ x ∈ xs, pred x = .ok (p x)) :
    findIf oob pred v xs.length pre.length =
      .ok (pre.length + (xs.takeWhile (fun x => !p x)).length) := by
  induction xs generalizing pre with
  | nil => simp [findIf]
  | cons x xs ih =>
    have here : v.toList = pre ++ x :: (xs ++ post) := by simpa using h
    have next : v.toList = (pre ++ [x]) ++ xs ++ post := by simpa using h
    have rest := ih (pre ++ [x]) next (fun y member => total y (List.mem_cons_of_mem x member))
    simp only [List.length_append, List.length_cons, List.length_nil] at rest
    simp only [findIf, List.length_cons, cell_at oob here, total x List.mem_cons_self, bind,
      Except.bind]
    cases hit : p x
    · simp only [Bool.false_eq_true, if_false, List.takeWhile_cons, hit, Bool.not_false, if_true,
        List.length_cons]
      rw [rest]
      congr 1
      omega
    · simp [hit]

/-- Shifting a segment one cell to the right overwrites the cell after it. -/
theorem copyBackward_spec {v : Vector β n} (pre xs post : List β) (z : β)
    (h : v.toList = pre ++ xs ++ z :: post) :
    ∃ w y, copyBackward oob v xs.length (pre.length + xs.length) (pre.length + xs.length + 1) =
      .ok w ∧ w.toList = pre ++ y :: xs ++ post := by
  induction xs using List.reverseRecOn generalizing v z post with
  | nil => exact ⟨v, z, rfl, by simpa using h⟩
  | append_singleton xs x ih =>
    have source : v.toList = (pre ++ xs) ++ x :: (z :: post) := by simpa using h
    have target : v.toList = (pre ++ xs ++ [x]) ++ z :: post := by simpa using h
    obtain ⟨w, written, shape⟩ := put_at oob x target
    have next : w.toList = pre ++ xs ++ x :: (x :: post) := by simpa using shape
    obtain ⟨u, y, copied, final⟩ := ih (x :: post) x next
    refine ⟨u, y, ?_, by simpa using final⟩
    have read := cell_at oob source
    simp only [List.length_append, List.length_cons, List.length_nil, Nat.zero_add] at read written ⊢
    rw [← Nat.add_assoc] at *
    simp only [copyBackward, Nat.add_sub_cancel, read, written, bind, Except.bind]
    exact copied

/-- Shifting a segment one cell to the left overwrites the cell before it. -/
theorem copyForward_spec {v : Vector β n} (pre xs post : List β) (z : β)
    (h : v.toList = pre ++ z :: xs ++ post) :
    ∃ w y, copyForward oob v xs.length (pre.length + 1) pre.length = .ok w ∧
      w.toList = pre ++ xs ++ y :: post := by
  induction xs generalizing v pre z with
  | nil => exact ⟨v, z, rfl, by simpa using h⟩
  | cons x xs ih =>
    have source : v.toList = (pre ++ [z]) ++ x :: (xs ++ post) := by simpa using h
    have target : v.toList = pre ++ z :: (x :: xs ++ post) := by simpa using h
    obtain ⟨w, written, shape⟩ := put_at oob x target
    have next : w.toList = (pre ++ [x]) ++ x :: xs ++ post := by simpa using shape
    obtain ⟨u, y, copied, final⟩ := ih (pre ++ [x]) x next
    refine ⟨u, y, ?_, by simpa using final⟩
    have read := cell_at oob source
    simp only [List.length_append, List.length_cons, List.length_nil, Nat.zero_add] at read copied ⊢
    simp only [copyForward, read, written, bind, Except.bind]
    exact copied

/-- What `std::remove_if` leaves in a cell it moves nothing to: a kept element has been
moved from there, any other is untouched. -/
def vacated (p : β → Bool) (hole x : β) : β := if p x then x else hole

/-- The compaction loop keeps exactly the cells failing the predicate, in order, and
each of them overwrites one cell of the gap. -/
theorem compact_spec {v : Vector β n} {pred : β → Except ε Bool} {p : β → Bool} (hole : β)
    (kept junk xs post : List β) (gap : junk ≠ []) (h : v.toList = kept ++ junk ++ xs ++ post)
    (total : ∀ x ∈ xs, pred x = .ok (p x)) :
    ∃ w, compact oob pred hole v xs.length (kept.length + junk.length) kept.length =
        .ok (w, kept.length + (xs.filter (fun x => !p x)).length) ∧
      w.toList = kept ++ xs.filter (fun x => !p x) ++
        (junk ++ xs.map (vacated p hole)).drop (xs.filter (fun x => !p x)).length ++ post := by
  induction xs generalizing v kept junk with
  | nil => exact ⟨v, rfl, by simpa using h⟩
  | cons x xs ih =>
    have total' : ∀ y ∈ xs, pred y = .ok (p y) :=
      fun y member => total y (List.mem_cons_of_mem x member)
    have source : v.toList = (kept ++ junk) ++ x :: (xs ++ post) := by simpa using h
    have read := cell_at oob source
    rw [List.length_append] at read
    simp only [compact, List.length_cons, read, total x List.mem_cons_self, bind, Except.bind]
    cases bad : p x
    · obtain ⟨j, junk, rfl⟩ := List.exists_cons_of_ne_nil gap
      have target : v.toList = kept ++ j :: (junk ++ x :: xs ++ post) := by simpa using h
      obtain ⟨w, moved, shape⟩ := put_at oob x target
      have freed : w.toList = (kept ++ x :: junk) ++ x :: (xs ++ post) := by simpa using shape
      obtain ⟨u, cleared, shape'⟩ := put_at oob hole freed
      have next : u.toList = (kept ++ [x]) ++ (junk ++ [hole]) ++ xs ++ post := by simpa using shape'
      obtain ⟨t, run, final⟩ := ih (kept ++ [x]) (junk ++ [hole]) (by simp) next total'
      refine ⟨t, ?_, by simpa [List.filter_cons, bad, vacated] using final⟩
      simp only [List.length_append, List.length_cons, List.length_nil, Nat.zero_add] at cleared run ⊢
      simp only [Bool.false_eq_true, if_false, moved, cleared]
      rw [show kept.length + (junk.length + 1) + 1 = kept.length + 1 + (junk.length + 1) by omega, run]
      simp [bad, Nat.add_assoc, Nat.add_comm 1]
    · have next : v.toList = kept ++ (junk ++ [x]) ++ xs ++ post := by simpa using h
      obtain ⟨w, run, final⟩ := ih kept (junk ++ [x]) (by simp) next total'
      refine ⟨w, ?_, by simpa [List.filter_cons, bad, vacated] using final⟩
      simp only [List.length_append, List.length_cons, List.length_nil, Nat.zero_add] at run
      simp only [if_true]
      rw [Nat.add_assoc, run]
      simp [bad]

/-- A list that a search does not run through has a first element the search stops at. -/
theorem exists_first {p : β → Bool} {xs : List β}
    (stops : (xs.takeWhile fun x => !p x).length ≠ xs.length) :
    ∃ bad rest, xs = (xs.takeWhile fun x => !p x) ++ bad :: rest ∧ p bad = true := by
  have split := List.takeWhile_append_dropWhile (p := fun x => !p x) (l := xs)
  cases tail : xs.dropWhile fun x => !p x with
  | nil =>
    rw [tail, List.append_nil] at split
    exact absurd (congrArg List.length split) stops
  | cons bad rest =>
    have head := List.head_dropWhile_not (fun x => !p x) (l := xs) (by rw [tail]; simp)
    exact ⟨bad, rest, by rw [← tail, split], by simpa [tail] using head⟩

theorem filter_takeWhile (p : β → Bool) (xs : List β) :
    (xs.takeWhile p).filter p = xs.takeWhile p :=
  List.filter_eq_self.mpr fun _ member => List.mem_takeWhile_imp member

/-- `removeIf` keeps exactly the cells failing the predicate, in order. The cells behind
them are as the moves left them, and nothing past the searched cells is touched. -/
theorem removeIf_spec {v : Vector β n} (pred : β → Except ε Bool) {p : β → Bool} (hole : β)
    (xs post : List β) (h : v.toList = xs ++ post) (total : ∀ x ∈ xs, pred x = .ok (p x)) :
    ∃ w, removeIf oob pred hole v xs.length = .ok (w, (xs.filter (fun x => !p x)).length) ∧
      w.toList = xs.filter (fun x => !p x) ++
        (xs.map (vacated p hole)).drop (xs.filter (fun x => !p x)).length ++ post := by
  have search := findIf_spec oob pred (p := p) [] xs post (by simpa using h) total
  have kept := filter_takeWhile (fun x => !p x) xs
  simp only [List.length_nil, Nat.zero_add] at search
  simp only [removeIf, search, bind, Except.bind]
  by_cases none : (xs.takeWhile (fun x => !p x)).length = xs.length
  · have whole := (List.takeWhile_prefix (fun x => !p x) (l := xs)).eq_of_length none
    have clean : xs.filter (fun x => !p x) = xs := by rwa [whole] at kept
    have behind : (xs.map (vacated p hole)).drop xs.length = [] :=
      List.drop_eq_nil_of_le (by rw [List.length_map])
    refine ⟨v, ?_, by rw [clean, behind, List.append_nil, h]⟩
    rw [if_pos none, none, clean]
  · rw [if_neg none]
    obtain ⟨bad, rest, split, isBad⟩ := exists_first none
    generalize xs.takeWhile (fun x => !p x) = front at split kept ⊢
    subst split
    obtain ⟨w, run, shape⟩ := compact_spec oob (p := p) hole front [bad] rest post (by simp)
      (by simpa using h) (fun x member => total x (by simp [member]))
    have filtered : (front ++ bad :: rest).filter (fun x => !p x) =
        front ++ rest.filter (fun x => !p x) := by
      rw [List.filter_append, kept, List.filter_cons, isBad]
      rfl
    -- the first bad cell is where the gap begins
    have behind : ((front ++ bad :: rest).map (vacated p hole)).drop
        (front ++ rest.filter (fun x => !p x)).length =
        ([bad] ++ rest.map (vacated p hole)).drop (rest.filter (fun x => !p x)).length := by
      rw [List.map_append, List.map_cons, List.length_append, ← List.length_map (vacated p hole),
        List.drop_length_add_append, vacated, if_pos isBad]
      rfl
    refine ⟨w, ?_, by rw [filtered, behind]; exact shape⟩
    have count : (front ++ bad :: rest).length - (front.length + 1) = rest.length := by
      simp only [List.length_append, List.length_cons]
      omega
    rw [count, filtered, List.length_append]
    simpa using run

end TorrentSync.Lib.ArrayAlgorithms
