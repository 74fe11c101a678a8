import TorrentSync.Source.BEncodeDecoderFraming
import TorrentSync.Source.BEncodeDecoderPaths

/-!
# Where the entries of the data map come from

Whatever the decoder makes of the positions in lists, each entry of the data map comes from
one leaf, and its key starts with the path of the structure the leaf was read in. `Origin`
follows a leaf of a dictionary two levels down, as far as messages look.
-/
namespace TorrentSync.Source.BEncodeDecoder

open Lib Decimal Bencode

/-- A leaf of a dictionary at `path`, or one further down. -/
def InDictionary (path : Buffer) (entries : List (Buffer × Value)) (e : Buffer × Buffer) : Prop :=
  ∃ tail, e.1 = path ++ tail ∧ ((tail, .str e.2) ∈ entries ∨ 47 ∈ tail)

/-- A leaf of a list at `path`, or one further down. -/
def InList (path : Buffer) (e : Buffer × Buffer) : Prop :=
  ∃ tail, e.1 = path ++ tail ∧ ((∃ i, tail = digits i) ∨ 47 ∈ tail)

/-- A leaf of the value of a key in a dictionary at `path`. A list may take another name than
its key. -/
def Origin (path k : Buffer) (v : Value) (e : Buffer × Buffer) : Prop :=
  match v with
  | .str s => e = (path ++ k, s)
  | .dict entries => InDictionary (path ++ (k ++ [47])) entries e
  | .list _ => ∃ name, 47 ∉ name ∧ InList (path ++ (name ++ [47])) e

theorem Origin.inDictionary {path k : Buffer} {v : Value} {entries : List (Buffer × Value)}
    {e : Buffer × Buffer} (h : Origin path k v e) (member : (k, v) ∈ entries) :
    InDictionary path entries e := by
  cases v with
  | str s =>
    obtain rfl : e = (path ++ k, s) := h
    exact ⟨k, rfl, .inl member⟩
  | dict inner =>
    obtain ⟨tail, key, -⟩ := h
    exact ⟨k ++ [47] ++ tail, by rw [key, List.append_assoc], .inr (by simp)⟩
  | list items =>
    obtain ⟨name, -, tail, key, -⟩ := h
    exact ⟨name ++ [47] ++ tail, by rw [key, List.append_assoc], .inr (by simp)⟩

/-- The walk stays in the structures it started in, and the entries it adds are described. -/
structure Grown (b b' : Book) (new : Buffer × Buffer → Prop) : Prop where
  running : b'.parseEnded = false
  stack : b'.structureStack = b.structureStack
  added : ∀ e ∈ b'.data.entries, e ∈ b.data.entries ∨ new e

theorem Grown.mono {b b' : Book} {new new' : Buffer × Buffer → Prop} (h : Grown b b' new)
    (weaker : ∀ e, new e → new' e) : Grown b b' new' :=
  ⟨h.running, h.stack, fun e member => (h.added e member).imp_right (weaker e)⟩

theorem Grown.trans {b b' b'' : Book} {new : Buffer × Buffer → Prop} (first : Grown b b' new)
    (second : Grown b' b'' new) : Grown b b'' new where
  running := second.running
  stack := second.stack.trans first.stack
  added := by
    intro e member
    rcases second.added e member with old | fresh
    · exact first.added e old
    · exact .inr fresh

/-- An inner structure is walked over. -/
theorem grown_enclosed {b opened b' : Book} {t : Token} {body : List Token} {name : Buffer}
    {kind : Structure} {new : Buffer × Buffer → Prop} (opens : b.act t = some opened)
    (pushed : opened.structureStack = b.structureStack ++ [(name, kind)])
    (same : opened.data = b.data) (inside : b.structureStack.isEmpty = false)
    (grows : ∀ inner, Book.run body opened = some inner → Grown opened inner new)
    (runs : Book.run (t :: (body ++ [.closes])) b = some b') : Grown b b' new := by
  rw [Book.run, opens, Option.bind_some, Book.run_append] at runs
  obtain ⟨inner, walked, closed⟩ := Option.bind_eq_some_iff.mp runs
  obtain ⟨last, acts, final⟩ := Option.bind_eq_some_iff.mp closed
  cases final
  have grown := grows inner walked
  have stack : inner.structureStack.dropLast = b.structureStack := by
    rw [grown.stack, pushed, List.dropLast_concat]
  cases (Book.act_iff.mp acts).2 with
  | closes top counted =>
    refine ⟨?_, stack, fun e member => ?_⟩
    · rw [stack, inside]
    · rw [← same]
      exact grown.added e member

/-- The path below a named structure. -/
private theorem pathOf_named (stack : List (Buffer × Structure)) (name : Buffer) (kind : Structure)
    (named : pathOf stack ++ name ≠ []) :
    pathOf (stack ++ [(name, kind)]) = pathOf stack ++ (name ++ [47]) := by
  rw [pathOf_push, inside_of_ne_nil named, List.append_assoc]

mutual

theorem grown_entry (k : Buffer) (v : Value) {b b' : Book} {outer : Buffer}
    (runs : Book.run (entryTokens k v) b = some b') (running : b.parseEnded = false)
    (top : b.structureStack.getLast? = some (outer, .DICTIONARY)) (clean : CleanKey k)
    (cleanValue : Each CleanKey (fun _ => True) v) :
    Grown b b' (Origin (pathOf b.structureStack) k v) := by
  have inside := isEmpty_of_last top
  have key := StringText.plain_key clean.2.2
  cases v with
  | str s =>
    simp only [entryTokens, Book.run, Book.act, running, top, key] at runs
    cases runs
    exact ⟨rfl, rfl, fun e member => DataMap.mem_insert member⟩
  | dict entries =>
    have opens : b.act (.sub (.plain k) .DICTIONARY) = some { b with
        lastToken := k
        structureStack := b.structureStack ++ [(k, .DICTIONARY)] } := by
      simp only [Book.act, running, top, Book.openStructure, key]
      rfl
    refine grown_enclosed opens rfl rfl inside ?_ runs
    intro inner walked
    have grown := grown_entries entries walked running (List.getLast?_concat ..) cleanValue
    refine grown.mono ?_
    rintro e ⟨k', v', member, origin⟩
    rw [pathOf_named _ _ _ (by simp [clean.1])] at origin
    exact origin.inDictionary member
  | list items =>
    let name := if b.listCounter > 0 then digits b.listCounter else k
    have cleanName : CleanKey name := by
      unfold name
      split
      · exact cleanKey_digits _
      · exact clean
    have opens : b.act (.sub (.plain k) .LIST) = some { b with
        lastToken := name
        listCounter := 0
        structureStack := b.structureStack ++ [(name, .LIST)] } := by
      simp only [Book.act, running, top, Book.openStructure, key, name]
      rfl
    refine grown_enclosed opens rfl rfl inside ?_ runs
    intro inner walked
    have path := pathOf_named b.structureStack name .LIST (by simp [cleanName.1])
    have grown := grown_items items walked running (List.getLast?_concat ..) (by simp [path]) cleanValue
    refine grown.mono ?_
    intro e found
    rw [path] at found
    exact ⟨name, cleanName.2.1, found⟩

theorem grown_entries (entries : List (Buffer × Value)) {b b' : Book} {outer : Buffer}
    (runs : Book.run (entriesTokens entries) b = some b') (running : b.parseEnded = false)
    (top : b.structureStack.getLast? = some (outer, .DICTIONARY))
    (clean : EachEntry CleanKey (fun _ => True) entries) :
    Grown b b' fun e => ∃ k v, (k, v) ∈ entries ∧ Origin (pathOf b.structureStack) k v e := by
  match entries, clean with
  | [], _ =>
    cases runs
    exact ⟨running, rfl, fun e member => .inl member⟩
  | (k, v) :: rest, clean =>
    rw [entriesTokens, Book.run_append] at runs
    obtain ⟨next, walked, later⟩ := Option.bind_eq_some_iff.mp runs
    have first := grown_entry k v walked running top clean.1 clean.2.1
    have second := grown_entries rest later first.running (by rw [first.stack, top]) clean.2.2
    rw [first.stack] at second
    refine (first.mono ?_).trans (second.mono ?_)
    · intro e origin
      exact ⟨k, v, List.mem_cons_self, origin⟩
    · rintro e ⟨k', v', member, origin⟩
      exact ⟨k', v', List.mem_cons_of_mem _ member, origin⟩

theorem grown_item (v : Value) {b b' : Book} {outer : Buffer}
    (runs : Book.run (itemTokens v) b = some b') (running : b.parseEnded = false)
    (top : b.structureStack.getLast? = some (outer, .LIST)) (named : pathOf b.structureStack ≠ [])
    (clean : Each CleanKey (fun _ => True) v) :
    Grown b b' (InList (pathOf b.structureStack)) := by
  have inside := isEmpty_of_last top
  cases v with
  | str s =>
    simp only [itemTokens, Book.run, Book.act, running, top] at runs
    cases runs
    refine ⟨rfl, rfl, fun e member => ?_⟩
    rcases DataMap.mem_insert member with old | rfl
    · exact .inl old
    · exact .inr ⟨digits b.listCounter, rfl, .inl ⟨_, rfl⟩⟩
  | dict entries =>
    have opens := Book.act_iff.mpr ⟨running, @Book.Acts.nested b .DICTIONARY outer top⟩
    refine grown_enclosed opens rfl rfl inside ?_ runs
    intro inner walked
    have grown := grown_entries entries walked running (List.getLast?_concat ..) clean
    refine grown.mono ?_
    rintro e ⟨k, v, member, origin⟩
    obtain ⟨tail, key, -⟩ := origin.inDictionary member
    rw [Book.openStructure, pathOf_named _ _ _ (by simp [named])] at key
    exact ⟨b.lastToken ++ [47] ++ tail, by rw [key, List.append_assoc], .inr (by simp)⟩
  | list items =>
    let name := if b.listCounter > 0 then digits b.listCounter else b.lastToken
    have opens : b.act (.opens .LIST) = some { b with
        lastToken := name
        listCounter := 0
        structureStack := b.structureStack ++ [(name, .LIST)] } := by
      simp [Book.act, running, top, Book.openStructure, name]
    refine grown_enclosed opens rfl rfl inside ?_ runs
    intro inner walked
    have path := pathOf_named b.structureStack name .LIST (by simp [named])
    have grown := grown_items items walked running (List.getLast?_concat ..) (by simp [path]) clean
    refine grown.mono ?_
    rintro e ⟨tail, key, -⟩
    rw [path] at key
    exact ⟨name ++ [47] ++ tail, by rw [key, List.append_assoc], .inr (by simp)⟩

theorem grown_items (items : List Value) {b b' : Book} {outer : Buffer}
    (runs : Book.run (itemsTokens items) b = some b') (running : b.parseEnded = false)
    (top : b.structureStack.getLast? = some (outer, .LIST)) (named : pathOf b.structureStack ≠ [])
    (clean : EachItem CleanKey (fun _ => True) items) :
    Grown b b' (InList (pathOf b.structureStack)) := by
  match items, clean with
  | [], _ =>
    cases runs
    exact ⟨running, rfl, fun e member => .inl member⟩
  | v :: rest, clean =>
    rw [itemsTokens, Book.run_append] at runs
    obtain ⟨next, walked, later⟩ := Option.bind_eq_some_iff.mp runs
    have first := grown_item v walked running top named clean.1
    have second := grown_items rest later first.running (by rw [first.stack, top])
      (by rw [first.stack]; exact named) clean.2
    rw [first.stack] at second
    exact first.trans second

end

/-- Every entry of the data map of a dictionary comes from one of its entries. -/
theorem origin_of_run {entries : List (Buffer × Value)} {b : Book}
    (clean : EachEntry CleanKey (fun _ => True) entries)
    (runs : Book.run (itemTokens (.dict entries)) .start = some b) {e : Buffer × Buffer}
    (member : e ∈ b.data.entries) : ∃ k v, (k, v) ∈ entries ∧ Origin [] k v e := by
  have opens : Book.start.act (.opens .DICTIONARY) = some (Book.start.openStructure .DICTIONARY) := rfl
  rw [itemTokens, Book.run, opens, Option.bind_some, Book.run_append] at runs
  obtain ⟨inner, walked, closed⟩ := Option.bind_eq_some_iff.mp runs
  obtain ⟨last, acts, final⟩ := Option.bind_eq_some_iff.mp closed
  cases final
  have grown := grown_entries entries walked rfl rfl clean
  have same : b.data = inner.data := by
    cases (Book.act_iff.mp acts).2
    rfl
  rw [same] at member
  rcases grown.added e member with impossible | origin
  · exact absurd impossible List.not_mem_nil
  · exact origin

/-! ## Reading keys back -/

/-- A key without '/' names a string of the dictionary. -/
theorem Origin.direct {k : Buffer} {v : Value} {e : Buffer × Buffer} (h : Origin [] k v e)
    (plain : 47 ∉ e.1) : k = e.1 ∧ v = .str e.2 := by
  cases v with
  | str s =>
    obtain rfl : e = (k, s) := h
    exact ⟨rfl, rfl⟩
  | dict entries =>
    obtain ⟨tail, key, -⟩ := h
    exact absurd (by simp [key]) plain
  | list items =>
    obtain ⟨name, -, tail, key, -⟩ := h
    exact absurd (by simp [key]) plain

/-- A key with one '/' and no position after it names a string one dictionary further down. -/
theorem Origin.nested {k outer name value : Buffer} {v : Value} (h : Origin [] k v (joined 47 [outer, name], value))
    (clean : CleanKey k) (plainOuter : 47 ∉ outer) (plainName : 47 ∉ name)
    (noPosition : ∀ i, name ≠ digits i) :
    k = outer ∧ ∃ entries, v = .dict entries ∧ (name, .str value) ∈ entries := by
  have shape : joined 47 [outer, name] = outer ++ 47 :: name := by simp [joined]
  rw [shape] at h
  cases v with
  | str s =>
    obtain ⟨rfl, -⟩ := Prod.mk.inj h
    exact absurd (by simp) clean.2.1
  | dict entries =>
    obtain ⟨tail, key, found⟩ := h
    have key' : outer ++ 47 :: name = k ++ 47 :: tail := by simpa using key
    obtain ⟨rfl, rest⟩ := name_front plainOuter clean.2.1 (.inr ⟨_, rfl⟩) (.inr ⟨_, rfl⟩) key'
    obtain rfl := (List.cons.inj rest).2
    exact ⟨rfl, entries, rfl, found.resolve_right plainName⟩
  | list items =>
    obtain ⟨name', plainName', tail, key, found⟩ := h
    have key' : outer ++ 47 :: name = name' ++ 47 :: tail := by simpa using key
    obtain ⟨rfl, rest⟩ := name_front plainOuter plainName' (.inr ⟨_, rfl⟩) (.inr ⟨_, rfl⟩) key'
    obtain rfl := (List.cons.inj rest).2
    rcases found with ⟨i, position⟩ | slash
    · exact absurd position (noPosition i)
    · exact absurd slash plainName

end TorrentSync.Source.BEncodeDecoder
