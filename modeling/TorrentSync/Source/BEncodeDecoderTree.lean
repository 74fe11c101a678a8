import TorrentSync.Lib.Bencode
import TorrentSync.Source.BEncodeDecoderTokens

/-!
# Decoding trees

What `parseMessage` makes of the bencoded form of a tree. The induction follows the tree;
between the entries of one structure the decoder is back at the same stack, with the
leaves read so far inserted. `Tracks` singles out the trees on which its one list counter
and its one last token agree with the position in the tree.
-/
namespace TorrentSync.Source.BEncodeDecoder

open Lib Decimal Bencode

/-! ## Strings -/

/-- A key whose length fits an `int` with room for the final NUL, and for whose array the
call stack has room. -/
def FittingKey (host : Host) (k : Buffer) : Prop :=
  k.length < 2 ^ 31 - 1 ∧ host.stackHolds (k.length + 1) = true

/-- A key the decoder reads whole: it fits and it holds no NUL. -/
def ReadableKey (host : Host) (k : Buffer) : Prop := 0 ∉ k ∧ FittingKey host k

/-- A key that every host reads whole. -/
def ShortKey (k : Buffer) : Prop := 0 ∉ k ∧ k.length ≤ grantedSize

instance (k : Buffer) : Decidable (ShortKey k) := inferInstanceAs (Decidable (_ ∧ _))

/-- A leaf there is room for. -/
def ReadableValue (host : Host) (v : Buffer) : Prop :=
  v.length ≤ maxSize ∧ host.grants v.length = true

theorem FittingKey.of_small (host : Host) {k : Buffer} (small : k.length ≤ grantedSize) :
    FittingKey host k := by
  have large : grantedSize < 2 ^ 31 - 1 := by decide
  exact ⟨small.trans_lt large, host.stackHoldsSmall _ (Nat.succ_le_succ small)⟩

theorem ShortKey.readable (host : Host) {k : Buffer} (h : ShortKey k) : ReadableKey host k :=
  ⟨h.1, .of_small host h.2⟩

theorem ReadableValue.of_small (host : Host) {v : Buffer} (small : v.length ≤ grantedSize) :
    ReadableValue host v := by
  have large : grantedSize ≤ maxSize := by decide
  exact ⟨small.trans large, host.grantsSmall _ small⟩

/-- A string in its bencoded form. -/
def StringText.plain (s : Buffer) : StringText where
  length := ⟨[], .none, digits s.length, fun _ member => absurd member List.not_mem_nil,
    digits_isDigit _, digits_ne_nil _⟩
  body := s
  exact := ofDigits_digits _

@[simp] theorem StringText.plain_text (s : Buffer) : (StringText.plain s).text = string s := by
  simp [text, plain, LengthText.text, Sign.text, string]

theorem StringText.plain_readAsKey {host : Host} {k : Buffer} (fits : FittingKey host k) :
    (StringText.plain k).ReadAsKey host := by
  refine ⟨?_, fits⟩
  have short := fits.1
  have magnitude : (StringText.plain k).length.magnitude = k.length := ofDigits_digits _
  have minus : (StringText.plain k).length.minus = false := rfl
  have body : (StringText.plain k).body = k := rfl
  rw [magnitude, minus, body]
  simp only [Istream.acceptInt, Bool.false_eq_true, if_false, Int.ofNat_eq_natCast]
  rw [if_pos (by omega)]

theorem ReadableKey.readAsKey {host : Host} {k : Buffer} (h : ReadableKey host k) :
    (StringText.plain k).ReadAsKey host :=
  StringText.plain_readAsKey h.2

/-- A key without NUL is read whole. -/
theorem StringText.plain_key {k : Buffer} (whole : 0 ∉ k) : (StringText.plain k).key = k := by
  have same : k.takeWhile (· ≠ 0) = k := by
    rw [List.takeWhile_eq_self_iff]
    intro c member
    have differs : c ≠ 0 := fun zero => whole (zero ▸ member)
    simpa using differs
  exact same

theorem ReadableValue.readAsValue {host : Host} {v : Buffer} (h : ReadableValue host v) :
    (StringText.plain v).ReadAsValue host := by
  refine ⟨?_, h⟩
  have small := h.1
  have magnitude : (StringText.plain v).length.magnitude = v.length := ofDigits_digits _
  have minus : (StringText.plain v).length.minus = false := rfl
  have body : (StringText.plain v).body = v := rfl
  unfold maxSize at small
  rw [magnitude, minus, body]
  simp only [Istream.acceptSize, Bool.false_eq_true, if_false, Int.ofNat_eq_natCast]
  rw [if_pos (by omega)]

/-! ## Trees -/

/-- The path below a structure that stands at `path`. -/
def inside (path : Buffer) : Buffer := if path.length > 0 then path ++ ascii "/" else path

theorem pathOf_push (stack : List (Buffer × Structure)) (name : Buffer) (kind : Structure) :
    pathOf (stack ++ [(name, kind)]) = inside (pathOf stack ++ name) := by
  rw [pathOf, List.foldl_append]
  rfl

/-- A tree whose keys and leaves the decoder reads whole. -/
abbrev Readable (host : Host) : Value → Prop := Each (ReadableKey host) (ReadableValue host)

abbrev ReadableItems (host : Host) : List Value → Prop :=
  EachItem (ReadableKey host) (ReadableValue host)

abbrev ReadableEntries (host : Host) : List (Buffer × Value) → Prop :=
  EachEntry (ReadableKey host) (ReadableValue host)

/-- Keys without NUL. -/
abbrev WholeKeys : Value → Prop := Each (fun k => 0 ∉ k) fun _ => True

abbrev WholeKeysItems : List Value → Prop := EachItem (fun k => 0 ∉ k) fun _ => True

abbrev WholeKeysEntries : List (Buffer × Value) → Prop := EachEntry (fun k => 0 ∉ k) fun _ => True

mutual

/-- The leaves of a tree with the paths that lead to them, in the order of the encoding. -/
def leaves (path : Buffer) : Value → List (Buffer × Buffer)
  | .str v => [(path, v)]
  | .list items => leavesAt (inside path) 0 items
  | .dict entries => leavesIn (inside path) entries

def leavesAt (pre : Buffer) (i : Nat) : List Value → List (Buffer × Buffer)
  | [] => []
  | v :: rest => leaves (pre ++ digits i) v ++ leavesAt pre (i + 1) rest

def leavesIn (pre : Buffer) : List (Buffer × Value) → List (Buffer × Buffer)
  | [] => []
  | (k, v) :: rest => leaves (pre ++ k) v ++ leavesIn pre rest

end

/-- The list counter after an entry of a dictionary that was read while it was `c`. -/
def counterPast (c : Nat) (k : Buffer) : Value → Nat
  | .str _ => c
  | .list _ => ((counterAfter k .LIST).toOption).getD 0
  | .dict _ => 0

mutual

/-- An entry of a dictionary, read while the list counter is `c`, whose structures get their
own names: a list takes the counter for its name unless that is 0. -/
def TracksEntry (c : Nat) (k : Buffer) : Value → Prop
  | .str _ => True
  | .list items => (c = 0 ∨ k = digits c) ∧ (counterAfter k .LIST).isOk ∧ TracksItems 0 items
  | .dict entries => TracksEntries c entries

def TracksEntries (c : Nat) : List (Buffer × Value) → Prop
  | [] => True
  | (k, v) :: rest => TracksEntry c k v ∧ TracksEntries (counterPast c k v) rest

/-- Items of a list from position `i` on: strings, and lists that are not the first item.
A list at position 2147483647 cannot be closed, and after a later one counting starts anew. -/
def TracksItems (i : Nat) : List Value → Prop
  | [] => True
  | v :: rest => TracksItem i v ∧ TracksItems (i + 1) rest

def TracksItem (i : Nat) : Value → Prop
  | .str _ => True
  | .list items => 0 < i ∧ i + 1 < 2 ^ 31 ∧ TracksItems 0 items
  | .dict _ => False

end

/-- A list or dictionary on which the decoder keeps track of its position. -/
def Tracks : Value → Prop
  | .str _ => False
  | .list items => TracksItems 0 items
  | .dict entries => TracksEntries 0 entries

mutual

theorem tracksEntry_of_listFree {v : Value} (h : ListFree v) (c : Nat) (k : Buffer) : TracksEntry c k v := by
  cases v with
  | str v => trivial
  | list items => exact absurd h id
  | dict entries => exact tracks_of_listFree h c

/-- Without lists there is nothing to keep track of. -/
theorem tracks_of_listFree {entries : List (Buffer × Value)} (h : ListFreeEntries entries) (c : Nat) :
    TracksEntries c entries := by
  match entries, h with
  | [], _ => trivial
  | (k, v) :: rest, h => exact ⟨tracksEntry_of_listFree h.1 c k, tracks_of_listFree h.2 _⟩

end

/-- The map after inserting leaves one by one. -/
def insertAll (pairs : List (Buffer × Buffer)) (data : DataMap) : DataMap :=
  pairs.foldl (fun data pair => data.insert pair.1 pair.2) data

@[simp] theorem insertAll_append (xs ys : List (Buffer × Buffer)) (data : DataMap) :
    insertAll (xs ++ ys) data = insertAll ys (insertAll xs data) := List.foldl_append

/-- Entries with distinct keys are all inserted. -/
theorem insertAll_entries (pairs : List (Buffer × Buffer)) (data : DataMap)
    (distinct : ((data.entries ++ pairs).map Prod.fst).Nodup) :
    (insertAll pairs data).entries = data.entries ++ pairs := by
  induction pairs generalizing data with
  | nil => simp [insertAll]
  | cons pair rest ih =>
    have absent : pair.1 ∉ data.entries.map Prod.fst := by
      rw [List.map_append, List.nodup_append] at distinct
      intro member
      exact distinct.2.2 _ member _ (by simp) rfl
    have inserted : (data.insert pair.1 pair.2).entries = data.entries ++ [pair] := by
      rw [DataMap.insert, dif_neg absent]
    have step := ih (data.insert pair.1 pair.2) (by rw [inserted]; simpa using distinct)
    rw [insertAll, List.foldl_cons, ← insertAll, step, inserted]
    simp

/-! ## The tokens of a tree -/

mutual

def entryTokens (k : Buffer) : Value → List Token
  | .str v => [.entry (.plain k) (.plain v)]
  | .list items => .sub (.plain k) .LIST :: (itemsTokens items ++ [.closes])
  | .dict entries => .sub (.plain k) .DICTIONARY :: (entriesTokens entries ++ [.closes])

def itemTokens : Value → List Token
  | .str v => [.item (.plain v)]
  | .list items => .opens .LIST :: (itemsTokens items ++ [.closes])
  | .dict entries => .opens .DICTIONARY :: (entriesTokens entries ++ [.closes])

def itemsTokens : List Value → List Token
  | [] => []
  | v :: rest => itemTokens v ++ itemsTokens rest

def entriesTokens : List (Buffer × Value) → List Token
  | [] => []
  | (k, v) :: rest => entryTokens k v ++ entriesTokens rest

end

mutual

theorem texts_entry (k : Buffer) (v : Value) : texts (entryTokens k v) = string k ++ encode v := by
  cases v with
  | str v => simp [entryTokens, Token.text, encode]
  | list items =>
    simp [entryTokens, Token.text, encode, texts_items items, Structure.letter]
  | dict entries =>
    simp [entryTokens, Token.text, encode, texts_entries entries, Structure.letter]

theorem texts_item (v : Value) : texts (itemTokens v) = encode v := by
  cases v with
  | str v => simp [itemTokens, Token.text, encode]
  | list items => simp [itemTokens, Token.text, encode, texts_items items, Structure.letter]
  | dict entries => simp [itemTokens, Token.text, encode, texts_entries entries, Structure.letter]

theorem texts_items (items : List Value) : texts (itemsTokens items) = encodeItems items := by
  match items with
  | [] => rfl
  | v :: rest => rw [itemsTokens, texts_append, texts_item v, texts_items rest, encodeItems]

theorem texts_entries (entries : List (Buffer × Value)) :
    texts (entriesTokens entries) = encodeEntries entries := by
  match entries with
  | [] => rfl
  | (k, v) :: rest =>
    rw [entriesTokens, texts_append, texts_entry k v, texts_entries rest, encodeEntries]

end

/-! ## Walks over a tree -/

/-- Between its opening letter and its end a structure is on top of the stack. -/
theorem Book.run_enclosed {b opened inner : Book} {t : Token} {body : List Token} {name : Buffer}
    {kind : Structure} (stack : List (Buffer × Structure)) {c : Nat} (opens : b.act t = some opened)
    (runs : Book.run body opened = some inner) (running : inner.parseEnded = false)
    (pushed : inner.structureStack = stack ++ [(name, kind)])
    (counted : counterAfter name kind = .ok c) :
    Book.run (t :: (body ++ [.closes])) b =
      some { inner with listCounter := c, structureStack := stack, parseEnded := stack.isEmpty } := by
  have closed : inner.act .closes =
      some { inner with listCounter := c, structureStack := stack, parseEnded := stack.isEmpty } := by
    have acts := Book.act_iff.mpr ⟨running, .closes (by rw [pushed, List.getLast?_concat]) counted⟩
    rwa [pushed, List.dropLast_concat] at acts
  rw [Book.run, opens, Option.bind_some, Book.run_append, runs, Option.bind_some, Book.run, closed]
  rfl

theorem counterAfter_digits {i : Nat} (small : i + 1 < 2 ^ 31) :
    counterAfter (digits i) .LIST = .ok (i + 1) := by
  have numeric : (digits i).all isDigit = true := List.all_eq_true.mpr (digits_isDigit i)
  have nonempty : (digits i).isEmpty = false := by simp [digits_ne_nil]
  have inRange : ¬ 2147483648 ≤ i := by omega
  have notLast : ¬ i = 2147483647 := by omega
  simp [counterAfter, numeric, nonempty, ofDigits_digits, inRange, notLast]

theorem isEmpty_of_last {stack : List (Buffer × Structure)} {top : Buffer × Structure}
    (last : stack.getLast? = some top) : stack.isEmpty = false := by
  cases stack with
  | nil => cases last
  | cons => rfl

mutual

/-- An entry leaves the stack alone and inserts its leaves. -/
theorem run_entry (k : Buffer) (v : Value) (b : Book) {name : Buffer}
    (running : b.parseEnded = false) (top : b.structureStack.getLast? = some (name, .DICTIONARY))
    (wholeKey : 0 ∉ k) (whole : WholeKeys v) (tracks : TracksEntry b.listCounter k v) :
    ∃ token, Book.run (entryTokens k v) b = some { b with
      listCounter := counterPast b.listCounter k v
      lastToken := token
      data := insertAll (leaves (pathOf b.structureStack ++ k) v) b.data } := by
  have nonempty := isEmpty_of_last top
  cases v with
  | str v =>
    refine ⟨b.lastToken, ?_⟩
    simp only [entryTokens, Book.run, Book.act, running, top, StringText.plain_key wholeKey]
    rfl
  | list items =>
    simp only [TracksEntry] at tracks
    obtain ⟨named, closes, tracks⟩ := tracks
    -- a running counter names the list, and only as its key would
    have name : (if b.listCounter > 0 then digits b.listCounter else k) = k := by
      rcases named with zero | same
      · simp [zero]
      · split
        · exact same.symm
        · rfl
    obtain ⟨c, counted⟩ : ∃ c, counterAfter k .LIST = .ok c := by
      cases result : counterAfter k .LIST with
      | ok c => exact ⟨c, rfl⟩
      | error fault =>
        rw [result] at closes
        cases closes
    obtain ⟨token, runs⟩ := run_items items
      { b with
        lastToken := k
        listCounter := 0
        structureStack := b.structureStack ++ [(k, .LIST)] }
      running (List.getLast?_concat ..) whole tracks
    refine ⟨token, ?_⟩
    have opens : b.act (.sub (.plain k) .LIST) = some { b with
        lastToken := k
        listCounter := 0
        structureStack := b.structureStack ++ [(k, .LIST)] } := by
      simp only [Book.act, running, top, Book.openStructure, StringText.plain_key wholeKey, name]
      rfl
    rw [entryTokens, Book.run_enclosed b.structureStack opens runs running rfl counted]
    simp only [pathOf_push, leaves, counterPast, counted, nonempty, running]
    rfl
  | dict entries =>
    simp only [TracksEntry] at tracks
    obtain ⟨c, token, runs⟩ := run_entries entries
      { b with
        lastToken := k
        structureStack := b.structureStack ++ [(k, .DICTIONARY)] }
      running (List.getLast?_concat ..) whole tracks
    refine ⟨token, ?_⟩
    have opens : b.act (.sub (.plain k) .DICTIONARY) = some { b with
        lastToken := k
        structureStack := b.structureStack ++ [(k, .DICTIONARY)] } := by
      simp only [Book.act, running, top, Book.openStructure, StringText.plain_key wholeKey]
      rfl
    have counted : counterAfter k .DICTIONARY = .ok 0 := rfl
    rw [entryTokens, Book.run_enclosed b.structureStack opens runs running rfl counted]
    simp only [pathOf_push, leaves, counterPast, nonempty, running]

theorem run_item (v : Value) (b : Book) {name : Buffer} (running : b.parseEnded = false)
    (top : b.structureStack.getLast? = some (name, .LIST)) (whole : WholeKeys v)
    (tracks : TracksItem b.listCounter v) :
    ∃ token, Book.run (itemTokens v) b = some { b with
      listCounter := b.listCounter + 1
      lastToken := token
      data := insertAll (leaves (pathOf b.structureStack ++ digits b.listCounter) v) b.data } := by
  have nonempty := isEmpty_of_last top
  cases v with
  | str v =>
    refine ⟨b.lastToken, ?_⟩
    simp only [itemTokens, Book.run, Book.act, running, top]
    rfl
  | list items =>
    simp only [TracksItem] at tracks
    obtain ⟨later, small, tracks⟩ := tracks
    obtain ⟨token, runs⟩ := run_items items
      { b with
        lastToken := digits b.listCounter
        listCounter := 0
        structureStack := b.structureStack ++ [(digits b.listCounter, .LIST)] }
      running (List.getLast?_concat ..) whole tracks
    refine ⟨token, ?_⟩
    have opens : b.act (.opens .LIST) = some { b with
        lastToken := digits b.listCounter
        listCounter := 0
        structureStack := b.structureStack ++ [(digits b.listCounter, .LIST)] } := by
      simp only [Book.act, running, top, Book.openStructure, later, if_true]
      rfl
    rw [itemTokens, Book.run_enclosed b.structureStack opens runs running rfl (counterAfter_digits small)]
    simp only [pathOf_push, leaves, nonempty, running]
  | dict entries =>
    simp only [TracksItem] at tracks

theorem run_items (items : List Value) (b : Book) {name : Buffer}
    (running : b.parseEnded = false) (top : b.structureStack.getLast? = some (name, .LIST))
    (whole : WholeKeysItems items) (tracks : TracksItems b.listCounter items) :
    ∃ token, Book.run (itemsTokens items) b = some { b with
      listCounter := b.listCounter + items.length
      lastToken := token
      data := insertAll (leavesAt (pathOf b.structureStack) b.listCounter items) b.data } := by
  match items with
  | [] => exact ⟨b.lastToken, rfl⟩
  | v :: rest =>
    simp only [TracksItems] at tracks
    simp only [EachItem] at whole
    obtain ⟨token, runs⟩ := run_item v b running top whole.1 tracks.1
    obtain ⟨token', runs'⟩ := run_items rest
      { b with
        listCounter := b.listCounter + 1
        lastToken := token
        data := insertAll (leaves (pathOf b.structureStack ++ digits b.listCounter) v) b.data }
      running top whole.2 tracks.2
    refine ⟨token', ?_⟩
    rw [itemsTokens, Book.run_append, runs, Option.bind_some, runs', leavesAt, insertAll_append]
    simp only [List.length_cons, Option.some.injEq, Book.mk.injEq, true_and, and_true]
    omega

theorem run_entries (entries : List (Buffer × Value)) (b : Book) {name : Buffer}
    (running : b.parseEnded = false) (top : b.structureStack.getLast? = some (name, .DICTIONARY))
    (whole : WholeKeysEntries entries) (tracks : TracksEntries b.listCounter entries) :
    ∃ c token, Book.run (entriesTokens entries) b = some { b with
      listCounter := c
      lastToken := token
      data := insertAll (leavesIn (pathOf b.structureStack) entries) b.data } := by
  match entries with
  | [] => exact ⟨b.listCounter, b.lastToken, rfl⟩
  | (k, v) :: rest =>
    simp only [TracksEntries] at tracks
    simp only [EachEntry] at whole
    obtain ⟨token, runs⟩ := run_entry k v b running top whole.1 whole.2.1 tracks.1
    obtain ⟨c, token', runs'⟩ := run_entries rest
      { b with
        listCounter := counterPast b.listCounter k v
        lastToken := token
        data := insertAll (leaves (pathOf b.structureStack ++ k) v) b.data }
      running top whole.2.2 tracks.2
    refine ⟨c, token', ?_⟩
    rw [entriesTokens, Book.run_append, runs, Option.bind_some, runs', leavesIn, insertAll_append]

end

mutual

theorem readable_entry {host : Host} (k : Buffer) (v : Value) (readableKey : ReadableKey host k)
    (readable : Readable host v) : ∀ t ∈ entryTokens k v, t.Readable host := by
  have key := readableKey.readAsKey
  cases v with
  | str v =>
    simp only [entryTokens, List.mem_singleton, forall_eq]
    exact ⟨key, ReadableValue.readAsValue readable⟩
  | list items =>
    have inner := readable_items items readable
    simp only [entryTokens, List.forall_mem_cons, List.forall_mem_append]
    exact ⟨key, inner, trivial, fun t member => absurd member List.not_mem_nil⟩
  | dict entries =>
    have inner := readable_entries entries readable
    simp only [entryTokens, List.forall_mem_cons, List.forall_mem_append]
    exact ⟨key, inner, trivial, fun t member => absurd member List.not_mem_nil⟩

theorem readable_item {host : Host} (v : Value) (readable : Readable host v) :
    ∀ t ∈ itemTokens v, t.Readable host := by
  cases v with
  | str v =>
    simp only [itemTokens, List.mem_singleton, forall_eq]
    exact ReadableValue.readAsValue readable
  | list items =>
    have inner := readable_items items readable
    simp only [itemTokens, List.forall_mem_cons, List.forall_mem_append]
    exact ⟨trivial, inner, trivial, fun t member => absurd member List.not_mem_nil⟩
  | dict entries =>
    have inner := readable_entries entries readable
    simp only [itemTokens, List.forall_mem_cons, List.forall_mem_append]
    exact ⟨trivial, inner, trivial, fun t member => absurd member List.not_mem_nil⟩

theorem readable_items {host : Host} (items : List Value) (readable : ReadableItems host items) :
    ∀ t ∈ itemsTokens items, t.Readable host := by
  match items with
  | [] => exact fun t member => absurd member List.not_mem_nil
  | v :: rest =>
    simp only [EachItem] at readable
    simp only [itemsTokens, List.forall_mem_append]
    exact ⟨readable_item v readable.1, readable_items rest readable.2⟩

theorem readable_entries {host : Host} (entries : List (Buffer × Value))
    (readable : ReadableEntries host entries) : ∀ t ∈ entriesTokens entries, t.Readable host := by
  match entries with
  | [] => exact fun t member => absurd member List.not_mem_nil
  | (k, v) :: rest =>
    simp only [EachEntry] at readable
    simp only [entriesTokens, List.forall_mem_append]
    exact ⟨readable_entry k v readable.1 readable.2.1, readable_entries rest readable.2.2⟩

end

/-! ## Messages -/

/-- The walk over a message the decoder keeps track of. -/
theorem run_message (v : Value) (whole : WholeKeys v) (tracks : Tracks v) :
    ∃ b, Book.run (itemTokens v) .start = some b ∧ b.parseEnded = true ∧
      b.data = insertAll (leaves [] v) .empty := by
  cases v with
  | str v =>
    simp only [Tracks] at tracks
  | list items =>
    have opens : Book.start.act (.opens .LIST) = some (Book.start.openStructure .LIST) := rfl
    obtain ⟨token, runs⟩ := run_items items (Book.start.openStructure .LIST) rfl rfl whole tracks
    exact ⟨_, Book.run_enclosed [] opens runs rfl rfl rfl, rfl, rfl⟩
  | dict entries =>
    have opens : Book.start.act (.opens .DICTIONARY) = some (Book.start.openStructure .DICTIONARY) := rfl
    obtain ⟨c, token, runs⟩ :=
      run_entries entries (Book.start.openStructure .DICTIONARY) rfl rfl whole tracks
    exact ⟨_, Book.run_enclosed [] opens runs rfl rfl rfl, rfl, rfl⟩

/-- `parseMessage` on the bencoded form of a tree inserts its leaves in order. -/
theorem parseMessage_encode (host : Host) (v : Value) (rest : Buffer) (readable : Readable host v)
    (tracks : Tracks v) :
    parseMessage host (Istream.ofBuffer (encode v ++ rest)) =
      .ok (insertAll (leaves [] v) .empty, ⟨rest, false, false⟩) := by
  have whole : WholeKeys v :=
    readable.combine (fun _ readableKey _ => readableKey.1) (fun _ _ _ => trivial) readable
  obtain ⟨b, runs, ended, data⟩ := run_message v whole tracks
  have accepted : Accepted host (encode v ++ rest) (itemTokens v) b rest :=
    ⟨⟨by rw [texts_item], readable_item v readable, runs⟩, ended⟩
  rw [accepted.parse, data]

end TorrentSync.Source.BEncodeDecoder
