import Mathlib.Data.List.Basic
import Mathlib.Tactic.Cases

/-!
# Interval tilings

A list whose elements carry closed intervals tiles `[lo, hi)` when the intervals
are nonempty and follow one another without gap or overlap. Cutting one interval
in two keeps the tiling, and every point below `hi` lies in exactly one interval.
-/
namespace TorrentSync.Lib.Tiling

variable {β : Type*} (range : β → Nat × Nat)

/-- Consecutive closed intervals that cover exactly `[lo, hi)`. -/
def Tiles : Nat → List β → Nat → Prop
  | lo, [], hi => lo = hi
  | lo, x :: rest, hi =>
      (range x).1 = lo ∧ (range x).1 ≤ (range x).2 ∧ Tiles ((range x).2 + 1) rest hi

variable {range}

/-- `lower` and `upper` are what is left of the interval `x` after one cut. -/
structure Cuts (x lower upper : Nat × Nat) : Prop where
  low : lower.1 = x.1
  meet : lower.2 + 1 = upper.1
  high : upper.2 = x.2
  lowerNonempty : lower.1 ≤ lower.2
  upperNonempty : upper.1 ≤ upper.2

theorem tiles_append {lo hi : Nat} {xs ys : List β} :
    Tiles range lo (xs ++ ys) hi ↔ ∃ mid, Tiles range lo xs mid ∧ Tiles range mid ys hi := by
  induction xs generalizing lo with
  | nil => simp [Tiles]
  | cons x xs ih =>
    simp only [List.cons_append, Tiles, ih]
    constructor
    · rintro ⟨start, nonempty, mid, left, right⟩
      exact ⟨mid, ⟨start, nonempty, left⟩, right⟩
    · rintro ⟨mid, ⟨start, nonempty, left⟩, right⟩
      exact ⟨start, nonempty, mid, left, right⟩

theorem tiles_le {lo hi : Nat} {xs : List β} (h : Tiles range lo xs hi) : lo ≤ hi := by
  induction xs generalizing lo with
  | nil => exact Nat.le_of_eq h
  | cons x xs ih =>
    obtain ⟨start, nonempty, rest⟩ := h
    have := ih rest
    omega

/-- Every interval of a tiling is nonempty and inside the tiled range. -/
theorem tiles_mem {lo hi : Nat} {xs : List β} (h : Tiles range lo xs hi) {x : β} (member : x ∈ xs) :
    lo ≤ (range x).1 ∧ (range x).1 ≤ (range x).2 ∧ (range x).2 < hi := by
  induction xs generalizing lo with
  | nil => cases member
  | cons y ys ih =>
    obtain ⟨start, nonempty, rest⟩ := h
    have bound := tiles_le rest
    rcases List.mem_cons.mp member with rfl | later
    · omega
    · have inner := ih rest later
      omega

/-- The intervals around a chosen one end before it and start after it. -/
theorem tiles_around {lo hi : Nat} {pre post : List β} {x : β}
    (h : Tiles range lo (pre ++ x :: post) hi) :
    (∀ y ∈ pre, (range y).2 < (range x).1) ∧ (∀ y ∈ post, (range x).2 < (range y).1) := by
  obtain ⟨mid, left, start, nonempty, right⟩ := tiles_append.mp h
  refine ⟨fun y member => ?_, fun y member => ?_⟩
  · have inside := tiles_mem left member
    omega
  · have inside := tiles_mem right member
    omega

/-- The intervals of a tiling are in order, each one ending before the later ones start. -/
theorem tiles_pairwise {lo hi : Nat} {xs : List β} (h : Tiles range lo xs hi) :
    xs.Pairwise fun x y => (range x).2 < (range y).1 := by
  induction xs generalizing lo with
  | nil => exact List.Pairwise.nil
  | cons x xs ih =>
    obtain ⟨start, nonempty, rest⟩ := h
    apply List.Pairwise.cons _ (ih rest)
    intro y member
    have later := (tiles_mem rest member).1
    omega

/-- Every point of the tiled range splits the tiling at the interval covering it. -/
theorem tiles_cover {lo hi : Nat} {xs : List β} (h : Tiles range lo xs hi) {point : Nat}
    (above : lo ≤ point) (below : point < hi) :
    ∃ pre x post, xs = pre ++ x :: post ∧ (range x).1 ≤ point ∧ point ≤ (range x).2 ∧
      (∀ y ∈ pre, (range y).2 < point) ∧ (∀ y ∈ post, point < (range y).1) := by
  induction xs generalizing lo with
  | nil =>
    have empty : lo = hi := h
    omega
  | cons x xs ih =>
    obtain ⟨start, nonempty, rest⟩ := h
    by_cases here : point ≤ (range x).2
    · refine ⟨[], x, xs, rfl, by omega, here, by simp, fun y member => ?_⟩
      have inside := tiles_mem rest member
      omega
    · obtain ⟨pre, y, post, split, low, high, before, after⟩ := ih rest (by omega)
      refine ⟨x :: pre, y, post, by rw [split, List.cons_append], low, high, ?_, after⟩
      intro z member
      rcases List.mem_cons.mp member with rfl | inner
      · omega
      · exact before z inner

/-- Cutting one element of a tiling in two leaves a tiling. -/
theorem tiles_cut {lo hi : Nat} {pre post : List β} {x lower upper : β}
    (h : Tiles range lo (pre ++ x :: post) hi) (cuts : Cuts (range x) (range lower) (range upper)) :
    Tiles range lo (pre ++ lower :: upper :: post) hi := by
  obtain ⟨mid, left, start, nonempty, right⟩ := tiles_append.mp h
  refine tiles_append.mpr ⟨mid, left, cuts.low.trans start, cuts.lowerNonempty, cuts.meet.symm,
    cuts.upperNonempty, ?_⟩
  rw [cuts.high]
  exact right

/-- Tiling only depends on the intervals the elements carry. -/
theorem tiles_map {γ : Type*} (range : β → Nat × Nat) (f : γ → β) {lo hi : Nat} {xs : List γ} :
    Tiles range lo (xs.map f) hi ↔ Tiles (fun x => range (f x)) lo xs hi := by
  induction xs generalizing lo with
  | nil => rfl
  | cons x xs ih => simp only [List.map_cons, Tiles, ih]

end TorrentSync.Lib.Tiling
