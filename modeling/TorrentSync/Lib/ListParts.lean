import Mathlib.Algebra.GroupWithZero.Nat
import Mathlib.Data.List.DropRight
import Mathlib.Data.List.Nodup
import Mathlib.Data.List.Perm.Subperm

/-!
# Parts of lists

A list is known up to its order from its parts: those that a predicate tells apart, and those
that share a key.
-/
namespace TorrentSync.Lib.ListParts

variable {α : Type}

/-- The parts of a list that a predicate tells apart. -/
theorem perm_parts {xs ys zs : List α} {q : α → Bool} (whole : (xs ++ ys).Perm zs)
    (yes : ∀ x ∈ xs, q x = true) (no : ∀ y ∈ ys, q y = false) :
    xs.Perm (zs.filter q) ∧ ys.Perm (zs.filter fun x => !q x) := by
  have none : ys.filter q = [] := List.filter_eq_nil_iff.mpr fun y member => by simp [no y member]
  have none' : (xs.filter fun x => !q x) = [] :=
    List.filter_eq_nil_iff.mpr fun x member => by simp [yes x member]
  have first := whole.filter q
  have second := whole.filter fun x => !q x
  rw [List.filter_append, List.filter_eq_self.mpr yes, none, List.append_nil] at first
  rw [List.filter_append, none', List.nil_append,
    List.filter_eq_self.mpr fun y member => by simp [no y member]] at second
  exact ⟨first, second⟩

/-- Two lists that have the same elements for each key, in the same order, differ by the order of
elements with different keys only. -/
theorem perm_of_filter_key {κ : Type} [DecidableEq κ] (key : α → κ) {xs ys : List α}
    (same : ∀ k, (xs.filter fun x => key x = k) = ys.filter fun y => key y = k) : xs.Perm ys := by
  classical
  refine List.perm_iff_count.mpr fun a => ?_
  calc xs.count a
      = (xs.filter fun x => key x = key a).count a := (List.count_filter (by simp)).symm
    _ = (ys.filter fun y => key y = key a).count a := by rw [same]
    _ = ys.count a := List.count_filter (by simp)

/-- Distinct positions of elements with a property are no more than these elements. -/
theorem filter_getElem?_length_le (l : List α) (q : α → Bool) {positions : List Nat}
    (distinct : positions.Nodup) :
    (positions.filter fun k => (l[k]?).any q).length ≤ l.countP q := by
  have elements : (List.range l.length).map (fun k => l[k]?) = l.map some := by
    refine List.ext_getElem (by simp) fun k inside _ => ?_
    simp only [List.getElem_map, List.getElem_range]
    exact List.getElem?_eq_getElem (by simpa using inside)
  have inside : positions.filter (fun k => (l[k]?).any q) ⊆
      (List.range l.length).filter fun k => (l[k]?).any q := by
    intro k member
    obtain ⟨-, found⟩ := List.mem_filter.mp member
    refine List.mem_filter.mpr ⟨List.mem_range.mpr ?_, found⟩
    by_contra beyond
    rw [List.getElem?_eq_none (Nat.le_of_not_lt beyond)] at found
    cases found
  calc (positions.filter fun k => (l[k]?).any q).length
      ≤ ((List.range l.length).filter fun k => (l[k]?).any q).length :=
        (List.subperm_of_subset (distinct.filter _) inside).length_le
    _ = ((List.range l.length).map fun k => l[k]?).countP (Option.any q) := by
        rw [← List.countP_eq_length_filter, List.countP_map]
        rfl
    _ = l.countP q := by
        rw [elements, List.countP_map]
        rfl

/-- Distinct elements of a list have together no more than all of them. -/
theorem sum_map_le_of_subset (f : α → Nat) {xs ys : List α} (distinct : xs.Nodup) (inside : xs ⊆ ys) :
    (xs.map f).sum ≤ (ys.map f).sum := by
  obtain ⟨part, perm, sub⟩ := List.subperm_of_subset distinct inside
  rw [← (perm.map f).sum_nat]
  clear perm distinct inside
  induction sub with
  | slnil => exact Nat.le_refl _
  | cons a _ ih =>
    rw [List.map_cons, List.sum_cons]
    omega
  | cons_cons a _ ih =>
    rw [List.map_cons, List.map_cons, List.sum_cons, List.sum_cons]
    omega

/-- What follows the last separator does not reach beyond a separator. -/
theorem rtakeWhile_append_suffix {p : α → Bool} {xs : List α} (ends : ∀ x ∈ xs.getLast?, p x = false)
    (ys : List α) : (xs ++ ys).rtakeWhile p <:+ ys := by
  induction ys using List.reverseRecOn with
  | nil =>
    rw [List.append_nil]
    rcases List.eq_nil_or_concat xs with rfl | ⟨front, x, rfl⟩
    · exact List.suffix_refl []
    · have none : (front ++ [x]).rtakeWhile p = [] :=
        List.rtakeWhile_concat_neg p front x (by simp [ends x (by simp)])
      simp [none]
  | append_singleton ys y ih =>
    rw [← List.append_assoc, List.rtakeWhile_concat]
    split
    · obtain ⟨front, same⟩ := ih
      exact ⟨front, by rw [← List.append_assoc, same]⟩
    · exact List.nil_suffix

/-- Words none of which begins another: where the text of some goes on as a text, the words go on. -/
theorem flatMap_prefix {β : Type} {f : α → List β} (filled : ∀ a, f a ≠ [])
    (unique : ∀ a b r r', f a ++ r = f b ++ r' → a = b ∧ r = r') {xs ys : List α} {more : List β}
    (same : xs.flatMap f ++ more = ys.flatMap f) : ∃ zs, ys = xs ++ zs := by
  induction xs generalizing ys with
  | nil => exact ⟨ys, rfl⟩
  | cons x xs ih =>
    cases ys with
    | nil => simp [filled x] at same
    | cons y ys =>
      rw [List.flatMap_cons, List.flatMap_cons, List.append_assoc] at same
      obtain ⟨rfl, rest⟩ := unique x y _ _ same
      obtain ⟨zs, rfl⟩ := ih rest
      exact ⟨zs, rfl⟩

end TorrentSync.Lib.ListParts
