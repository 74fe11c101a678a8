import Mathlib.Data.List.Nodup
import TorrentSync.Lib.OrderedContainers

/-!
# Lists in the order of a key

Lists whose elements have ascending keys, keys being natural numbers. Building such a list
by `insertUnique` with the comparator "not greater" keeps all elements; its first `k`
elements are the `k` with the least keys, and they repeat a key exactly if it is met early
enough.
-/
namespace TorrentSync.Lib.KeyOrder

open OrderedContainers

variable {β : Type}

/-- No element is followed by one with a smaller key. -/
def Ascending (key : β → Nat) (xs : List β) : Prop := xs.Pairwise fun a b => key a ≤ key b

/-- What keeps failing once it fails splits the list in two. -/
theorem filter_append_filter_not {p : β → Bool} {xs : List β}
    (down : xs.Pairwise fun a b => p b = true → p a = true) :
    xs.filter p ++ xs.filter (fun x => !p x) = xs := by
  induction xs with
  | nil => rfl
  | cons x xs ih =>
    obtain ⟨head, tail⟩ := List.pairwise_cons.mp down
    cases holds : p x with
    | true =>
      rw [List.filter_cons_of_pos holds, List.filter_cons_of_neg (by simp [holds]), List.cons_append,
        ih tail]
    | false =>
      have none : xs.filter p = [] := by
        rw [List.filter_eq_nil_iff]
        intro y member more
        rw [head y member more] at holds
        cases holds
      rw [List.filter_cons_of_neg (by simp [holds]), List.filter_cons_of_pos (by simp [holds]), none,
        List.nil_append, List.filter_eq_self.mpr]
      intro y member
      rw [Bool.not_eq_true', ← Bool.not_eq_true]
      exact fun more => by rw [head y member more] at holds; cases holds

/-- A set whose comparator is "not greater" keeps its elements in ascending order. -/
theorem insertUnique_ascending {key : β → Nat} {le : β → β → Bool}
    (byKey : ∀ a b, le a b = true ↔ key a ≤ key b) (x : β) {xs : List β} (h : Ascending key xs) :
    Ascending key (insertUnique le x xs).1 := by
  have split := List.takeWhile_append_dropWhile (p := fun y => !le x y) (l := xs)
  have before : ∀ y ∈ xs.takeWhile (fun y => !le x y), key y < key x := by
    intro y member
    have stay := List.mem_takeWhile_imp (p := fun y => !le x y) member
    rw [Bool.not_eq_true', ← Bool.not_eq_true, byKey] at stay
    exact Nat.lt_of_not_le stay
  have first : ∀ y ∈ (xs.dropWhile fun y => !le x y).head?, key x ≤ key y := by
    intro y member
    have stop := List.head?_dropWhile_not (fun y => !le x y) xs
    rw [Option.mem_def.mp member] at stop
    simpa [byKey] using stop
  simp only [insertUnique]
  rw [← split] at h
  obtain ⟨left, right, across⟩ := List.pairwise_append.mp h
  generalize xs.takeWhile (fun y => !le x y) = pre at *
  generalize xs.dropWhile (fun y => !le x y) = post at *
  have above : ∀ y ∈ post, key x ≤ key y := by
    intro y member
    cases post with
    | nil => cases member
    | cons z rest =>
      have lead := first z rfl
      rcases List.mem_cons.mp member with rfl | later
      · exact lead
      · exact lead.trans ((List.pairwise_cons.mp right).1 y later)
  cases tail : pre.getLast? with
  | none => exact List.pairwise_cons.mpr ⟨above, right⟩
  | some z =>
    have order : le z x = true := (byKey z x).mpr (before z (List.mem_of_getLast? tail)).le
    simp only [order, if_true]
    refine List.pairwise_append.mpr ⟨left, List.pairwise_cons.mpr ⟨above, right⟩, ?_⟩
    intro a memberA b memberB
    rcases List.mem_cons.mp memberB with rfl | later
    · exact (before a memberA).le
    · exact across a memberA b later

/-- The elements before the ones with a given key, those with it, and the rest. -/
theorem Ascending.split {key : β → Nat} {xs : List β} (h : Ascending key xs) (v : Nat) :
    ∃ above, xs = xs.filter (fun x => key x < v) ++ (xs.filter (fun x => key x = v) ++ above) ∧
      ∀ x ∈ above, v < key x := by
  have lower := filter_append_filter_not (p := fun x => decide (key x < v)) (h.imp fun le less => by
    rw [decide_eq_true_eq] at less ⊢
    omega)
  have upper := filter_append_filter_not (p := fun x => decide (key x ≤ v))
    ((h.filter fun x => !decide (key x < v)).imp fun le less => by
      rw [decide_eq_true_eq] at less ⊢
      omega)
  have same : (xs.filter fun x => !decide (key x < v)).filter (fun x => decide (key x ≤ v)) =
      xs.filter fun x => key x = v := by
    rw [List.filter_filter]
    apply List.filter_congr
    intro x _
    rw [Bool.eq_iff_iff]
    simp only [Bool.and_eq_true, decide_eq_true_eq, Bool.not_eq_true', decide_eq_false_iff_not]
    omega
  rw [same] at upper
  refine ⟨_, by rw [upper, lower], ?_⟩
  intro x member
  have more := (List.mem_filter.mp member).2
  simpa using more

/-- How often a key occurs among the first `k` elements. -/
theorem Ascending.countP_take {key : β → Nat} {xs : List β} (h : Ascending key xs) (v k : Nat) :
    (xs.take k).countP (fun x => key x = v) =
      min (k - xs.countP fun x => key x < v) (xs.countP fun x => key x = v) := by
  obtain ⟨above, parts, greater⟩ := h.split v
  have before : ((xs.filter fun x => key x < v).take k).countP (fun x => key x = v) = 0 := by
    rw [List.countP_eq_zero]
    intro x member
    have less := (List.mem_filter.mp (List.mem_of_mem_take member)).2
    simp only [decide_eq_true_eq] at less ⊢
    omega
  have after : ∀ n, (above.take n).countP (fun x => key x = v) = 0 := by
    intro n
    rw [List.countP_eq_zero]
    intro x member
    have more := greater x (List.mem_of_mem_take member)
    simp only [decide_eq_true_eq]
    omega
  have all : ∀ n, ((xs.filter fun x => key x = v).take n).countP (fun x => key x = v) =
      min n (xs.filter fun x => key x = v).length := by
    intro n
    rw [← List.length_take, List.countP_eq_length]
    intro x member
    exact (List.mem_filter.mp (List.mem_of_mem_take member)).2
  rw [List.countP_eq_length_filter (p := fun x => decide (key x < v)), List.countP_eq_length_filter
    (p := fun x => decide (key x = v)) (l := xs)]
  nth_rewrite 1 [parts]
  rw [List.take_append, List.countP_append, List.take_append, List.countP_append, before, after, all,
    Nat.zero_add, Nat.add_zero]

/-- The first `k` elements repeat a key exactly if one that occurs twice has at most `k - 2`
elements before it. -/
theorem Ascending.take_nodup_iff {key : β → Nat} {xs : List β} (h : Ascending key xs) (k : Nat) :
    ((xs.take k).map key).Nodup ↔
      ∀ y ∈ xs, 2 ≤ xs.countP (fun x => key x = key y) →
        k ≤ xs.countP (fun x => key x < key y) + 1 := by
  have counted : ∀ v, ((xs.take k).map key).count v =
      min (k - xs.countP fun x => key x < v) (xs.countP fun x => key x = v) := by
    intro v
    rw [← h.countP_take, List.count, List.countP_map]
    rfl
  rw [List.nodup_iff_count_le_one]
  constructor
  · intro once y _ twice
    have single := once (key y)
    rw [counted] at single
    omega
  · intro late v
    rw [counted]
    by_contra more
    obtain ⟨y, member, rfl⟩ : ∃ y ∈ xs, key y = v := by
      simpa using List.countP_pos_iff.mp (show 0 < xs.countP fun x => key x = v by omega)
    have enough := late y member (by omega)
    omega

/-- The elements of a part with the least keys have the least keys of the whole, if the part
holds as many elements of an initial segment and what is outside the part is not in it. -/
theorem least_of_part {key : β → Nat} {near : β → Bool} {result rest outside : List β}
    (initial : ∀ a c, near a = true → near c = false → key a < key c)
    (least : ∀ a ∈ result, ∀ c ∈ rest, key a < key c)
    (enough : result.length ≤ (result ++ rest).countP near)
    (far : ∀ c ∈ outside, near c = false) :
    ∀ a ∈ result, ∀ c ∈ outside, key a < key c := by
  intro a member c out
  cases isNear : near a with
  | true => exact initial a c isNear (far c out)
  | false =>
    exfalso
    have fewer : result.countP near < result.length := by
      refine lt_of_le_of_ne List.countP_le_length fun all => ?_
      rw [List.countP_eq_length.mp all a member] at isNear
      cases isNear
    rw [List.countP_append] at enough
    obtain ⟨b, later, nearer⟩ := List.countP_pos_iff.mp (show 0 < rest.countP near by omega)
    have less := least a member b later
    have more := initial b a nearer isNear
    omega

end TorrentSync.Lib.KeyOrder
