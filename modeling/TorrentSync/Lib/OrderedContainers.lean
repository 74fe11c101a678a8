import Mathlib.Data.Int.Order.Basic
import Mathlib.Data.List.Lex
import Mathlib.Data.List.TakeWhile

/-!
# Ordered associative containers

`std::set` and `std::multimap` seen as the list of their elements in iteration
order. Comparators are arbitrary Boolean functions, since a program may pass one
that is not a strict order; the specification lemmas say what the comparator has
to satisfy at the element in question. `lexCompare` is
`std::lexicographical_compare` after integer promotion of both element types.
-/
namespace TorrentSync.Lib.OrderedContainers

variable {β κ ν : Type}

/-! ## Sets -/

/-- `lower_bound`: the index of the first element not ordered before the key. -/
def lowerBound (lt : β → κ → Bool) (xs : List β) (key : κ) : Nat :=
  (xs.takeWhile fun x => lt x key).length

/-- `std::set::insert`: the element goes before the first one it is ordered before,
unless it is not ordered after its predecessor there. The result carries the index
of the inserted element, or nothing when the insertion was refused. -/
def insertUnique (lt : β → β → Bool) (x : β) (xs : List β) : List β × Option Nat :=
  let pre := xs.takeWhile fun y => !lt x y
  let post := xs.dropWhile fun y => !lt x y
  match pre.getLast? with
  | none => (x :: post, some 0)
  | some y => if lt y x then (pre ++ x :: post, some pre.length) else (xs, none)

private theorem takeWhile_split (p : β → Bool) (pre post : List β) (all : ∀ y ∈ pre, p y = true)
    (stop : ∀ y ∈ post.head?, p y = false) :
    (pre ++ post).takeWhile p = pre ∧ (pre ++ post).dropWhile p = post := by
  rw [List.takeWhile_append_of_pos all, List.dropWhile_append_of_pos all]
  cases post with
  | nil => simp
  | cons y ys =>
    have failed := stop y (by simp)
    simp [failed]

theorem lowerBound_eq {lt : β → κ → Bool} {key : κ} (pre : List β) (x : β) (post : List β)
    (before : ∀ y ∈ pre, lt y key = true) (here : lt x key = false) :
    lowerBound lt (pre ++ x :: post) key = pre.length := by
  rw [lowerBound, (takeWhile_split _ pre (x :: post) before (by simpa using here)).1]

/-- An element that fits strictly between two parts of the set is inserted there. -/
theorem insertUnique_eq {lt : β → β → Bool} (x : β) (pre post : List β)
    (before : ∀ y ∈ pre, lt x y = false) (last : ∀ y ∈ pre.getLast?, lt y x = true)
    (after : ∀ y ∈ post.head?, lt x y = true) :
    insertUnique lt x (pre ++ post) = (pre ++ x :: post, some pre.length) := by
  obtain ⟨left, right⟩ := takeWhile_split (fun y => !lt x y) pre post
    (fun y member => by simp [before y member]) (fun y member => by simp [after y member])
  simp only [insertUnique, left, right]
  cases tail : pre.getLast? with
  | none =>
    have empty : pre = [] := List.getLast?_eq_none_iff.mp tail
    simp [empty]
  | some y => simp [last y tail]

/-- Under a comparator that orders any two elements, no insertion is refused. -/
theorem insertUnique_perm {lt : β → β → Bool} (total : ∀ a b, lt a b = false → lt b a = true)
    (x : β) (xs : List β) : (insertUnique lt x xs).1.Perm (x :: xs) := by
  have split := List.takeWhile_append_dropWhile (p := fun y => !lt x y) (l := xs)
  have notBefore : ∀ y ∈ xs.takeWhile (fun y => !lt x y), lt x y = false := by
    intro y member
    simpa using List.mem_takeWhile_imp member
  simp only [insertUnique]
  generalize xs.takeWhile (fun y => !lt x y) = pre at split notBefore
  generalize xs.dropWhile (fun y => !lt x y) = post at split
  cases tail : pre.getLast? with
  | none =>
    have empty : pre = [] := List.getLast?_eq_none_iff.mp tail
    rw [← split, empty]
    exact List.Perm.refl _
  | some y =>
    have last : lt y x = true := total x y (notBefore y (List.mem_of_getLast? tail))
    simp only [last, if_true]
    rw [← split]
    exact List.perm_middle

/-! ## Strict total orders -/

/-- What an ordered container asks of a comparator on its keys. -/
structure StrictTotal (lt : κ → κ → Bool) : Prop where
  irrefl : ∀ a, lt a a = false
  trans : ∀ a b c, lt a b = true → lt b c = true → lt a c = true
  total : ∀ a b, lt a b = false → lt b a = false → a = b

/-- A strict weak ordering: what an ordered set asks of a comparator on its elements. -/
structure StrictWeak (lt : κ → κ → Bool) : Prop where
  irrefl : ∀ a, lt a a = false
  asymm : ∀ a b, lt a b = true → lt b a = false
  trans : ∀ a b c, lt a b = true → lt b c = true → lt a c = true
  incomparable : ∀ a b c, lt a b = false → lt b a = false → lt b c = false → lt c b = false →
    lt a c = false ∧ lt c a = false

theorem StrictTotal.asymm {lt : κ → κ → Bool} (order : StrictTotal lt) {a b : κ}
    (less : lt a b = true) : lt b a = false := by
  by_contra more
  have loop := order.trans a b a less (by simpa using more)
  rw [order.irrefl a] at loop
  cases loop

theorem StrictTotal.lt_of_lt_of_not {lt : κ → κ → Bool} (order : StrictTotal lt) {a b c : κ}
    (less : lt a b = true) (notAfter : lt c b = false) : lt a c = true := by
  cases compare : lt b c with
  | true => exact order.trans a b c less compare
  | false =>
    have same := order.total b c compare notAfter
    rwa [← same]

/-- `std::lexicographical_compare` of two ranges whose elements are compared as the
integers they promote to. -/
def lexCompare (f g : β → Int) : List β → List β → Bool
  | _, [] => false
  | [], _ :: _ => true
  | x :: xs, y :: ys =>
      if f x < g y then true else if g y < f x then false else lexCompare f g xs ys

theorem lexCompare_congr {f f' g : β → Int} {xs ys : List β} (same : ∀ x ∈ xs, f x = f' x) :
    lexCompare f g xs ys = lexCompare f' g xs ys := by
  induction xs generalizing ys with
  | nil => cases ys <;> rfl
  | cons x xs ih =>
    cases ys with
    | nil => rfl
    | cons y ys =>
      rw [lexCompare, lexCompare, same x List.mem_cons_self,
        ih fun z member => same z (List.mem_cons_of_mem _ member)]

theorem lexCompare_iff (f g : β → Int) (xs ys : List β) :
    lexCompare f g xs ys = true ↔ xs.map f < ys.map g := by
  induction xs generalizing ys with
  | nil => cases ys <;> simp [lexCompare]
  | cons x xs ih =>
    cases ys with
    | nil => simp [lexCompare]
    | cons y ys =>
      rw [lexCompare, List.map_cons, List.map_cons, List.cons_lt_cons_iff, ← ih]
      rcases lt_trichotomy (f x) (g y) with less | same | greater
      · simp [less]
      · simp [same]
      · simp [greater, greater.not_gt, greater.ne']

theorem lexCompare_strictTotal (f : β → Int) (injective : Function.Injective f) :
    StrictTotal (lexCompare f f) where
  irrefl := by
    intro xs
    rw [← Bool.not_eq_true, lexCompare_iff]
    exact lt_irrefl _
  trans := by
    intro xs ys zs left right
    rw [lexCompare_iff] at left right ⊢
    exact lt_trans left right
  total := by
    intro xs ys left right
    rw [← Bool.not_eq_true, lexCompare_iff] at left right
    exact List.map_injective_iff.mpr injective (le_antisymm (not_lt.mp right) (not_lt.mp left))

/-! ## Multimaps -/

/-- `upper_bound` of a key in a multimap. -/
def upperBound (lt : κ → κ → Bool) (entries : List (κ × ν)) (key : κ) : Nat :=
  (entries.takeWhile fun e => !lt key e.1).length

/-- `std::multimap::insert`: after the entries whose keys are not greater. -/
def insertMulti (lt : κ → κ → Bool) (key : κ) (value : ν) (entries : List (κ × ν)) :
    List (κ × ν) :=
  entries.takeWhile (fun e => !lt key e.1) ++
    (key, value) :: entries.dropWhile (fun e => !lt key e.1)

/-- `equal_range`: the indices of the first entry of a key and of the one past its last. -/
def equalRange (lt : κ → κ → Bool) (entries : List (κ × ν)) (key : κ) : Nat × Nat :=
  (lowerBound (fun e k => lt e.1 k) entries key, upperBound lt entries key)

/-- No entry is followed by one with a smaller key. -/
def SortedByKey (lt : κ → κ → Bool) (entries : List (κ × ν)) : Prop :=
  entries.Pairwise fun a b => lt b.1 a.1 = false

theorem insertMulti_perm (lt : κ → κ → Bool) (key : κ) (value : ν) (entries : List (κ × ν)) :
    (insertMulti lt key value entries).Perm ((key, value) :: entries) := by
  have split := List.takeWhile_append_dropWhile (p := fun e : κ × ν => !lt key e.1) (l := entries)
  apply List.Perm.trans List.perm_middle
  rw [split]

/-- Where a condition that keeps failing upwards fails once, it fails to the end. -/
private theorem of_mem_dropWhile {lt : κ → κ → Bool} {p : κ × ν → Bool} {entries : List (κ × ν)}
    (sorted : SortedByKey lt entries)
    (upwards : ∀ a b : κ × ν, p a = false → lt b.1 a.1 = false → p b = false) :
    ∀ e ∈ entries.dropWhile p, p e = false := by
  intro e member
  have rest := sorted.sublist (List.dropWhile_sublist p)
  have head := List.head_dropWhile_not p (l := entries) (List.ne_nil_of_mem member)
  cases tail : entries.dropWhile p with
  | nil =>
    rw [tail] at member
    cases member
  | cons first later =>
    simp only [tail, List.head_cons] at member rest head
    rcases List.mem_cons.mp member with rfl | inner
    · exact head
    · exact upwards first e head ((List.pairwise_cons.mp rest).1 e inner)

/-- From the first entry with a greater key on, all keys are greater. -/
private theorem above_dropWhile {lt : κ → κ → Bool} (order : StrictTotal lt) (key : κ)
    {entries : List (κ × ν)} (sorted : SortedByKey lt entries) :
    ∀ e ∈ entries.dropWhile (fun e => !lt key e.1), lt key e.1 = true := by
  intro e member
  have fails := of_mem_dropWhile sorted (by
    intro a b above notBefore
    simp only [Bool.not_eq_false'] at above ⊢
    exact order.lt_of_lt_of_not above notBefore) e member
  simpa using fails

theorem insertMulti_sorted {lt : κ → κ → Bool} (order : StrictTotal lt) (key : κ) (value : ν)
    (entries : List (κ × ν)) (sorted : SortedByKey lt entries) :
    SortedByKey lt (insertMulti lt key value entries) := by
  have split := List.takeWhile_append_dropWhile (p := fun e : κ × ν => !lt key e.1) (l := entries)
  have parts := sorted
  rw [SortedByKey, ← split, List.pairwise_append] at parts
  obtain ⟨left, right, across⟩ := parts
  have low : ∀ e ∈ entries.takeWhile (fun e => !lt key e.1), lt key e.1 = false := by
    intro e member
    simpa using List.mem_takeWhile_imp (p := fun e : κ × ν => !lt key e.1) member
  have high := above_dropWhile order key sorted
  rw [SortedByKey, insertMulti, List.pairwise_append, List.pairwise_cons]
  refine ⟨left, ⟨fun e member => order.asymm (high e member), right⟩, ?_⟩
  intro a memberA b memberB
  rcases List.mem_cons.mp memberB with rfl | later
  · exact low a memberA
  · exact across a memberA b later

/-- In a sorted multimap `equal_range` delimits exactly the entries of the key. -/
theorem equalRange_split {lt : κ → κ → Bool} (order : StrictTotal lt) (key : κ)
    (entries : List (κ × ν)) (sorted : SortedByKey lt entries) :
    ∃ pre mid post, entries = pre ++ mid ++ post ∧
      equalRange lt entries key = (pre.length, pre.length + mid.length) ∧
      (∀ e ∈ mid, e.1 = key) ∧ (∀ e ∈ pre, e.1 ≠ key) ∧ (∀ e ∈ post, e.1 ≠ key) := by
  have below : ∀ e ∈ entries.takeWhile (fun e => lt e.1 key), lt e.1 key = true :=
    fun e member => List.mem_takeWhile_imp (p := fun e : κ × ν => lt e.1 key) member
  have notBelow : ∀ e ∈ entries.dropWhile (fun e => lt e.1 key), lt e.1 key = false :=
    of_mem_dropWhile sorted (by
      intro a b above notBefore
      by_contra less
      rw [order.lt_of_lt_of_not (by simpa using less) above] at notBefore
      cases notBefore)
  have rest := sorted.sublist (List.dropWhile_sublist fun e => lt e.1 key)
  have split := List.takeWhile_append_dropWhile (p := fun e : κ × ν => lt e.1 key) (l := entries)
  generalize entries.takeWhile (fun e => lt e.1 key) = pre at below split
  generalize tail : entries.dropWhile (fun e => lt e.1 key) = others at notBelow split rest
  have parts := List.takeWhile_append_dropWhile (p := fun e : κ × ν => !lt key e.1) (l := others)
  have notAbove : ∀ e ∈ others.takeWhile (fun e => !lt key e.1), lt key e.1 = false := by
    intro e member
    simpa using List.mem_takeWhile_imp (p := fun e : κ × ν => !lt key e.1) member
  have above := above_dropWhile order key rest
  refine ⟨pre, others.takeWhile fun e => !lt key e.1, others.dropWhile fun e => !lt key e.1, ?_, ?_, ?_,
    ?_, ?_⟩
  · rw [List.append_assoc, parts, split]
  · have first := (takeWhile_split (fun e : κ × ν => lt e.1 key) pre others below fun e member =>
      notBelow e (List.mem_of_head? member)).1
    have second : (pre ++ others).takeWhile (fun e => !lt key e.1) =
        pre ++ others.takeWhile fun e => !lt key e.1 :=
      List.takeWhile_append_of_pos fun e member => by simp [order.asymm (below e member)]
    rw [equalRange, lowerBound, upperBound, ← split, first, second, List.length_append]
  · intro e member
    exact order.total e.1 key (notBelow e (List.takeWhile_sublist _ |>.subset member))
      (notAbove e member)
  · intro e member same
    have less := below e member
    rw [same, order.irrefl] at less
    cases less
  · intro e member same
    have more := above e member
    rw [same, order.irrefl] at more
    cases more

end TorrentSync.Lib.OrderedContainers
