import TorrentSync.Lib.Decimal
import TorrentSync.Lib.OrderedContainers

/-!
# Bencoding

Values built from octet strings, lists and dictionaries, and their bencoded form.
A dictionary is the list of its entries in the order they are written; it is
canonical when its keys ascend strictly as raw unsigned octets.
-/
namespace TorrentSync.Lib.Bencode

open Decimal OrderedContainers

inductive Value where
  | str (s : List UInt8)
  | list (items : List Value)
  | dict (entries : List (List UInt8 × Value))

/-- A string: its length in decimal, a colon, its octets. -/
def string (s : List UInt8) : List UInt8 := digits s.length ++ 58 :: s

mutual

def encode : Value → List UInt8
  | .str s => string s
  | .list items => 108 :: (encodeItems items ++ [101])
  | .dict entries => 100 :: (encodeEntries entries ++ [101])

def encodeItems : List Value → List UInt8
  | [] => []
  | v :: rest => encode v ++ encodeItems rest

def encodeEntries : List (List UInt8 × Value) → List UInt8
  | [] => []
  | (k, v) :: rest => string k ++ encode v ++ encodeEntries rest

end

/-- Raw order of octet strings. -/
def keyLt (a b : List UInt8) : Bool := lexCompare (fun x => Int.ofNat x.toNat) (fun x => Int.ofNat x.toNat) a b

mutual

/-- Every dictionary lists its keys in strictly ascending order. -/
def canonical : Value → Bool
  | .str _ => true
  | .list items => canonicalItems items
  | .dict entries =>
      decide ((entries.map Prod.fst).IsChain fun a b => keyLt a b = true) && canonicalEntries entries

def canonicalItems : List Value → Bool
  | [] => true
  | v :: rest => canonical v && canonicalItems rest

def canonicalEntries : List (List UInt8 × Value) → Bool
  | [] => true
  | (_, v) :: rest => canonical v && canonicalEntries rest

end

mutual

/-- A value without lists. -/
def ListFree : Value → Prop
  | .str _ => True
  | .list _ => False
  | .dict entries => ListFreeEntries entries

def ListFreeEntries : List (List UInt8 × Value) → Prop
  | [] => True
  | (_, v) :: rest => ListFree v ∧ ListFreeEntries rest

end

mutual

/-- Every key has one property and every leaf another. -/
def Each (onKey onLeaf : List UInt8 → Prop) : Value → Prop
  | .str s => onLeaf s
  | .list items => EachItem onKey onLeaf items
  | .dict entries => EachEntry onKey onLeaf entries

def EachItem (onKey onLeaf : List UInt8 → Prop) : List Value → Prop
  | [] => True
  | v :: rest => Each onKey onLeaf v ∧ EachItem onKey onLeaf rest

def EachEntry (onKey onLeaf : List UInt8 → Prop) : List (List UInt8 × Value) → Prop
  | [] => True
  | (k, v) :: rest => onKey k ∧ Each onKey onLeaf v ∧ EachEntry onKey onLeaf rest

end

mutual

/-- No dictionary has two entries of one key. -/
def DistinctKeys : Value → Prop
  | .str _ => True
  | .list items => DistinctKeysItems items
  | .dict entries => (entries.map Prod.fst).Nodup ∧ DistinctKeysEntries entries

def DistinctKeysItems : List Value → Prop
  | [] => True
  | v :: rest => DistinctKeys v ∧ DistinctKeysItems rest

def DistinctKeysEntries : List (List UInt8 × Value) → Prop
  | [] => True
  | (_, v) :: rest => DistinctKeys v ∧ DistinctKeysEntries rest

end

@[simp] theorem string_length (s : List UInt8) :
    (string s).length = (digits s.length).length + 1 + s.length := by
  simp only [string, List.length_append, List.length_cons]
  omega

section Each

variable {onKey onKey' onKey'' onLeaf onLeaf' onLeaf'' : List UInt8 → Prop}

mutual

/-- Properties of all keys and all leaves combine. -/
theorem Each.combine (keys : ∀ k, onKey k → onKey' k → onKey'' k)
    (values : ∀ s, onLeaf s → onLeaf' s → onLeaf'' s) {v : Value} (h : Each onKey onLeaf v)
    (h' : Each onKey' onLeaf' v) : Each onKey'' onLeaf'' v := by
  cases v with
  | str s => exact values s h h'
  | list items => exact EachItem.combine keys values h h'
  | dict entries => exact EachEntry.combine keys values h h'

theorem EachItem.combine (keys : ∀ k, onKey k → onKey' k → onKey'' k)
    (values : ∀ s, onLeaf s → onLeaf' s → onLeaf'' s) {items : List Value}
    (h : EachItem onKey onLeaf items) (h' : EachItem onKey' onLeaf' items) :
    EachItem onKey'' onLeaf'' items := by
  match items, h, h' with
  | [], _, _ => trivial
  | v :: rest, h, h' => exact ⟨h.1.combine keys values h'.1, h.2.combine keys values h'.2⟩

theorem EachEntry.combine (keys : ∀ k, onKey k → onKey' k → onKey'' k)
    (values : ∀ s, onLeaf s → onLeaf' s → onLeaf'' s) {entries : List (List UInt8 × Value)}
    (h : EachEntry onKey onLeaf entries) (h' : EachEntry onKey' onLeaf' entries) :
    EachEntry onKey'' onLeaf'' entries := by
  match entries, h, h' with
  | [], _, _ => trivial
  | (k, v) :: rest, h, h' =>
    exact ⟨keys k h.1 h'.1, h.2.1.combine keys values h'.2.1, h.2.2.combine keys values h'.2.2⟩

end

end Each

/-! ## Leaves and the paths that lead to them -/

mutual

/-- The leaves in the order of the encoding, each with the keys and positions that lead to it. -/
def paths : Value → List (List (List UInt8) × List UInt8)
  | .str s => [([], s)]
  | .list items => pathsAt 0 items
  | .dict entries => pathsIn entries

def pathsAt (i : Nat) : List Value → List (List (List UInt8) × List UInt8)
  | [] => []
  | v :: rest => (paths v).map (fun p => (digits i :: p.1, p.2)) ++ pathsAt (i + 1) rest

def pathsIn : List (List UInt8 × Value) → List (List (List UInt8) × List UInt8)
  | [] => []
  | (k, v) :: rest => (paths v).map (fun p => (k :: p.1, p.2)) ++ pathsIn rest

end

section Paths

/-- A position is named once. -/
theorem digits_inj {i j : Nat} (same : digits i = digits j) : i = j := by
  rw [← ofDigits_digits i, same, ofDigits_digits]

/-- A path into a list starts with a position, one into a dictionary with a key. -/
theorem pathsAt_head {items : List Value} {i : Nat} {p : List (List UInt8) × List UInt8}
    (member : p ∈ pathsAt i items) : ∃ j names, i ≤ j ∧ p.1 = digits j :: names := by
  induction items generalizing i with
  | nil => cases member
  | cons v rest ih =>
    rw [pathsAt, List.mem_append] at member
    rcases member with first | later
    · obtain ⟨q, -, rfl⟩ := List.mem_map.mp first
      exact ⟨i, q.1, le_refl i, rfl⟩
    · obtain ⟨j, names, above, split⟩ := ih later
      exact ⟨j, names, by omega, split⟩

theorem pathsIn_head {entries : List (List UInt8 × Value)} {p : List (List UInt8) × List UInt8}
    (member : p ∈ pathsIn entries) : ∃ k names, k ∈ entries.map Prod.fst ∧ p.1 = k :: names := by
  induction entries with
  | nil => cases member
  | cons entry rest ih =>
    obtain ⟨k, v⟩ := entry
    rw [pathsIn, List.mem_append] at member
    rcases member with first | later
    · obtain ⟨q, -, rfl⟩ := List.mem_map.mp first
      exact ⟨k, q.1, by simp, rfl⟩
    · obtain ⟨k', names, among, split⟩ := ih later
      exact ⟨k', names, List.mem_cons_of_mem _ among, split⟩

/-- Leaves below one name, and the leaves of the other names. -/
private theorem nodup_below {name : List UInt8} {below others : List (List (List UInt8) × List UInt8)}
    (first : (below.map Prod.fst).Nodup) (later : (others.map Prod.fst).Nodup)
    (apart : ∀ p ∈ others, ∀ names, p.1 ≠ name :: names) :
    ((below.map (fun p => (name :: p.1, p.2)) ++ others).map Prod.fst).Nodup := by
  have named : (below.map (fun p => (name :: p.1, p.2))).map Prod.fst =
      (below.map Prod.fst).map (name :: ·) := by
    simp [List.map_map, Function.comp_def]
  rw [List.map_append, named, List.nodup_append]
  refine ⟨List.Pairwise.map _ (fun a b differs same => differs (List.cons.inj same).2) first, later, ?_⟩
  rintro a inBelow b inOthers rfl
  obtain ⟨names, -, rfl⟩ := List.mem_map.mp inBelow
  obtain ⟨p, member, same⟩ := List.mem_map.mp inOthers
  exact apart p member names same

mutual

/-- Different leaves are reached by different paths. -/
theorem paths_nodup (v : Value) (distinct : DistinctKeys v) : ((paths v).map Prod.fst).Nodup := by
  cases v with
  | str s => simp [paths]
  | list items => exact pathsAt_nodup items distinct 0
  | dict entries => exact pathsIn_nodup entries distinct.1 distinct.2

theorem pathsAt_nodup (items : List Value) (distinct : DistinctKeysItems items) (i : Nat) :
    ((pathsAt i items).map Prod.fst).Nodup := by
  match items, distinct with
  | [], _ => exact List.nodup_nil
  | v :: rest, distinct =>
    apply nodup_below (paths_nodup v distinct.1) (pathsAt_nodup rest distinct.2 (i + 1))
    intro p member names same
    obtain ⟨j, names', above, split⟩ := pathsAt_head member
    have position := digits_inj (List.cons.inj (split.symm.trans same)).1
    omega

theorem pathsIn_nodup (entries : List (List UInt8 × Value)) (keys : (entries.map Prod.fst).Nodup)
    (distinct : DistinctKeysEntries entries) : ((pathsIn entries).map Prod.fst).Nodup := by
  match entries, keys, distinct with
  | [], _, _ => exact List.nodup_nil
  | (k, v) :: rest, keys, distinct =>
    rw [List.map_cons, List.nodup_cons] at keys
    apply nodup_below (paths_nodup v distinct.1) (pathsIn_nodup rest keys.2 distinct.2)
    intro p member names same
    obtain ⟨k', names', among, split⟩ := pathsIn_head member
    obtain rfl : k' = k := (List.cons.inj (split.symm.trans same)).1
    exact keys.1 among

end

mutual

/-- Every name of a path is a key or a position. -/
theorem paths_names {onKey onLeaf : List UInt8 → Prop} (positions : ∀ i, onKey (digits i)) (v : Value)
    (each : Each onKey onLeaf v) : ∀ p ∈ paths v, ∀ name ∈ p.1, onKey name := by
  cases v with
  | str s => simp [paths]
  | list items => exact pathsAt_names positions items each 0
  | dict entries => exact pathsIn_names positions entries each

theorem pathsAt_names {onKey onLeaf : List UInt8 → Prop} (positions : ∀ i, onKey (digits i))
    (items : List Value) (each : EachItem onKey onLeaf items) (i : Nat) :
    ∀ p ∈ pathsAt i items, ∀ name ∈ p.1, onKey name := by
  match items, each with
  | [], _ => simp [pathsAt]
  | v :: rest, each =>
    have first := paths_names positions v each.1
    have later := pathsAt_names positions rest each.2 (i + 1)
    simp only [pathsAt, List.forall_mem_append, List.forall_mem_map, List.forall_mem_cons]
    exact ⟨fun p member => ⟨positions i, first p member⟩, later⟩

theorem pathsIn_names {onKey onLeaf : List UInt8 → Prop} (positions : ∀ i, onKey (digits i))
    (entries : List (List UInt8 × Value)) (each : EachEntry onKey onLeaf entries) :
    ∀ p ∈ pathsIn entries, ∀ name ∈ p.1, onKey name := by
  match entries, each with
  | [], _ => simp [pathsIn]
  | (k, v) :: rest, each =>
    have first := paths_names positions v each.2.1
    have later := pathsIn_names positions rest each.2.2
    simp only [pathsIn, List.forall_mem_append, List.forall_mem_map, List.forall_mem_cons]
    exact ⟨fun p member => ⟨each.1, first p member⟩, later⟩

end

end Paths

/-- The names of a path with a separator between them. -/
def joined {α : Type} (sep : α) : List (List α) → List α
  | [] => []
  | name :: rest => name ++ rest.flatMap fun name => sep :: name

section Joined

variable {α : Type} {sep : α}

/-- What follows a name in a joined path. -/
private theorem following_cases (rest : List (List α)) :
    (rest.flatMap fun name => sep :: name) = [] ∨
      ∃ tail, (rest.flatMap fun name => sep :: name) = sep :: tail := by
  cases rest with
  | nil => exact .inl rfl
  | cons name rest => exact .inr ⟨_, rfl⟩

/-- A name without the separator ends where the separator stands. -/
theorem name_front {x y xs ys : List α} (cleanX : sep ∉ x) (cleanY : sep ∉ y)
    (startX : xs = [] ∨ ∃ tail, xs = sep :: tail) (startY : ys = [] ∨ ∃ tail, ys = sep :: tail)
    (same : x ++ xs = y ++ ys) : x = y ∧ xs = ys := by
  induction x generalizing y with
  | nil =>
    cases y with
    | nil => exact ⟨rfl, same⟩
    | cons c y =>
      rcases startX with rfl | ⟨tail, rfl⟩
      · cases same
      · obtain ⟨rfl, -⟩ := List.cons.inj same
        exact absurd List.mem_cons_self cleanY
  | cons c x ih =>
    cases y with
    | nil =>
      rcases startY with rfl | ⟨tail, rfl⟩
      · cases same
      · obtain ⟨rfl, -⟩ := List.cons.inj same
        exact absurd List.mem_cons_self cleanX
    | cons d y =>
      obtain ⟨rfl, after⟩ := List.cons.inj same
      obtain ⟨rfl, rests⟩ := ih (fun member => cleanX (List.mem_cons_of_mem _ member))
        (fun member => cleanY (List.mem_cons_of_mem _ member)) after
      exact ⟨rfl, rests⟩

private theorem following_inj {xs ys : List (List α)} (cleanX : ∀ x ∈ xs, sep ∉ x)
    (cleanY : ∀ y ∈ ys, sep ∉ y)
    (same : xs.flatMap (fun name => sep :: name) = ys.flatMap (fun name => sep :: name)) : xs = ys := by
  induction xs generalizing ys with
  | nil =>
    cases ys with
    | nil => rfl
    | cons y ys => cases same
  | cons x xs ih =>
    cases ys with
    | nil => cases same
    | cons y ys =>
      rw [List.forall_mem_cons] at cleanX cleanY
      rw [List.flatMap_cons, List.flatMap_cons] at same
      obtain ⟨rfl, rests⟩ := name_front cleanX.1 cleanY.1 (following_cases xs) (following_cases ys)
        (List.cons.inj same).2
      rw [ih cleanX.2 cleanY.2 rests]

/-- The names can be read off the joined path. -/
theorem joined_inj {xs ys : List (List α)} (cleanX : ∀ x ∈ xs, x ≠ [] ∧ sep ∉ x)
    (cleanY : ∀ y ∈ ys, y ≠ [] ∧ sep ∉ y) (same : joined sep xs = joined sep ys) : xs = ys := by
  cases xs with
  | nil =>
    cases ys with
    | nil => rfl
    | cons y ys => exact absurd (List.append_eq_nil_iff.mp same.symm).1 (cleanY y List.mem_cons_self).1
  | cons x xs =>
    cases ys with
    | nil => exact absurd (List.append_eq_nil_iff.mp same).1 (cleanX x List.mem_cons_self).1
    | cons y ys =>
      rw [List.forall_mem_cons] at cleanX cleanY
      obtain ⟨rfl, rests⟩ := name_front cleanX.1.2 cleanY.1.2 (following_cases xs) (following_cases ys) same
      rw [following_inj (fun x member => (cleanX.2 x member).2) (fun y member => (cleanY.2 y member).2)
        rests]

end Joined

/-! ## Bencodings of a value -/

/-- An unsigned decimal length, a colon and so many octets. -/
inductive IsString (s : List UInt8) : List UInt8 → Prop
  | mk {number : List UInt8} (filled : number ≠ []) (numeric : ∀ c ∈ number, isDigit c = true)
      (exact : ofDigits number = s.length) : IsString s (number ++ 58 :: s)

mutual

/-- The octets stand for the value. Unlike `encode` this leaves zeros in front of a length open. -/
inductive IsBencoding : Value → List UInt8 → Prop
  | str {s octets : List UInt8} (inner : IsString s octets) : IsBencoding (.str s) octets
  | list {items : List Value} {octets : List UInt8} (inner : IsItems items octets) :
      IsBencoding (.list items) (108 :: (octets ++ [101]))
  | dict {entries : List (List UInt8 × Value)} {octets : List UInt8} (inner : IsEntries entries octets) :
      IsBencoding (.dict entries) (100 :: (octets ++ [101]))

inductive IsItems : List Value → List UInt8 → Prop
  | nil : IsItems [] []
  | cons {v : Value} {items : List Value} {first rest : List UInt8} (value : IsBencoding v first)
      (later : IsItems items rest) : IsItems (v :: items) (first ++ rest)

inductive IsEntries : List (List UInt8 × Value) → List UInt8 → Prop
  | nil : IsEntries [] []
  | cons {k : List UInt8} {v : Value} {entries : List (List UInt8 × Value)}
      {first second rest : List UInt8} (key : IsString k first) (value : IsBencoding v second)
      (later : IsEntries entries rest) : IsEntries ((k, v) :: entries) (first ++ (second ++ rest))

end

def Value.isContainer : Value → Bool
  | .str _ => false
  | .list _ | .dict _ => true

/-- A bencoded list or dictionary. -/
def IsContainer (octets : List UInt8) : Prop := ∃ v, v.isContainer = true ∧ IsBencoding v octets

/-- A string starts with a digit. -/
theorem IsString.head {s octets : List UInt8} (h : IsString s octets) :
    ∃ d tail, octets = d :: tail ∧ isDigit d = true := by
  cases h with
  | @mk number filled numeric exact =>
    obtain ⟨d, ds, split⟩ := List.exists_cons_of_ne_nil filled
    exact ⟨d, ds ++ 58 :: s, by rw [split]; rfl, numeric d (by simp [split])⟩

theorem isString_string (s : List UInt8) : IsString s (string s) :=
  .mk (digits_ne_nil _) (digits_isDigit _) (ofDigits_digits _)

mutual

/-- `encode` writes a bencoding. -/
theorem isBencoding_encode (v : Value) : IsBencoding v (encode v) := by
  cases v with
  | str s => exact .str (isString_string s)
  | list items => exact .list (isItems_encode items)
  | dict entries => exact .dict (isEntries_encode entries)

theorem isItems_encode (items : List Value) : IsItems items (encodeItems items) := by
  match items with
  | [] => exact .nil
  | v :: rest => exact .cons (isBencoding_encode v) (isItems_encode rest)

theorem isEntries_encode (entries : List (List UInt8 × Value)) :
    IsEntries entries (encodeEntries entries) := by
  match entries with
  | [] => exact .nil
  | (k, v) :: rest =>
    rw [encodeEntries, List.append_assoc]
    exact .cons (isString_string k) (isBencoding_encode v) (isEntries_encode rest)

end

end TorrentSync.Lib.Bencode
