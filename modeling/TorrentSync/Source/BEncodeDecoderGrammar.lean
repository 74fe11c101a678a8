import TorrentSync.Source.BEncodeDecoderTree

/-!
# The grammar of accepted messages

The decoder accepts more than bencoding: a length may have blanks or a sign in front, and a
structure may stand where a dictionary should have a key. `Remaining` is what bencoding asks
of the octets still unread, given what is left of the structures that are open. Token by
token it agrees with the decoder on plain tokens and on no others, and it tells the tokens.
-/
namespace TorrentSync.Source.BEncodeDecoder

open Lib Decimal Bencode

/-- A token that stands in bencoding: lengths are plain and no structure is a key. -/
def Token.Plain : Token → Prop
  | .opens _ | .closes => True
  | .bare _ => False
  | .sub key _ => key.Plain
  | .entry key value => key.Plain ∧ value.Plain
  | .item value => value.Plain

/-- The token with the same strings in canonical form. -/
def Token.canonical : Token → Token
  | .opens kind => .opens kind
  | .bare kind => .bare kind
  | .sub key kind => .sub (.plain key.body) kind
  | .entry key value => .entry (.plain key.body) (.plain value.body)
  | .item value => .item (.plain value.body)
  | .closes => .closes

/-- What is left of an open structure. -/
inductive Frame where
  | entries (left : List (Buffer × Value))
  | items (left : List Value)

namespace Frame

def kind : Frame → Structure
  | entries _ => .DICTIONARY
  | items _ => .LIST

def value : Frame → Value
  | entries left => .dict left
  | items left => .list left

def done : Structure → Frame
  | .DICTIONARY => entries []
  | .LIST => items []

def IsLeft : Frame → Buffer → Prop
  | entries left => IsEntries left
  | items left => IsItems left

def tokens : Frame → List Token
  | entries left => entriesTokens left
  | items left => itemsTokens left

end Frame

/-- Octets that bring the open structures, innermost first, to their ends in front of `rest`. -/
def Remaining (rest : Buffer) : List Frame → Buffer → Prop
  | [], octets => octets = rest
  | frame :: outer, octets =>
      ∃ body more, octets = body ++ 101 :: more ∧ frame.IsLeft body ∧ Remaining rest outer more

def frameTokens : List Frame → List Token
  | [] => []
  | frame :: outer => frame.tokens ++ .closes :: frameTokens outer

/-! ## Strings -/

theorem StringText.isString {s : StringText} (plain : s.Plain) : IsString s.body s.text := by
  obtain ⟨noBlanks, unsigned⟩ := plain
  have value : s.length.value = s.length.magnitude := by
    simp [LengthText.value, LengthText.minus, unsigned]
  have text : s.text = s.length.number ++ 58 :: s.body := by
    simp [StringText.text, LengthText.text, noBlanks, unsigned, Sign.text]
  rw [text]
  exact .mk s.length.nonempty s.length.digits (value.symm.trans s.exact)

theorem StringText.of_isString {body octets : Buffer} (h : IsString body octets) :
    ∃ s : StringText, s.Plain ∧ s.body = body ∧ s.text = octets := by
  cases h with
  | @mk number filled numeric exact =>
    exact ⟨⟨⟨[], .none, number, fun _ member => absurd member List.not_mem_nil, numeric, filled⟩,
      body, exact⟩, ⟨rfl, rfl⟩, rfl, by simp [StringText.text, LengthText.text, Sign.text]⟩

/-- A string in front is the string the decoder reads. -/
theorem isString_front {k first : Buffer} (h : IsString k first) {s : StringText}
    {octets rest : Buffer} (same : s.text ++ octets = first ++ rest) :
    s.Plain ∧ k = s.body ∧ octets = rest := by
  obtain ⟨t, plain, rfl, rfl⟩ := StringText.of_isString h
  obtain ⟨rfl, after⟩ := StringText.unique same
  exact ⟨plain, rfl, after⟩

theorem isString_notLetter {k first : Buffer} (h : IsString k first) {c : UInt8}
    {octets rest : Buffer} (letter : c = 100 ∨ c = 101 ∨ c = 108) : c :: octets ≠ first ++ rest := by
  intro same
  obtain ⟨d, tail, rfl, digit⟩ := h.head
  obtain ⟨rfl, -⟩ := List.cons.inj same
  have ne := LengthText.digit_ne digit
  rcases letter with rfl | rfl | rfl
  · exact ne.2.2.2.1 rfl
  · exact ne.2.2.2.2.1 rfl
  · exact ne.2.2.2.2.2 rfl

theorem letter_cases (kind : Structure) :
    kind.letter = 100 ∨ kind.letter = 101 ∨ kind.letter = 108 := by
  cases kind
  · exact .inl rfl
  · exact .inr (.inr rfl)

/-! ## Values -/

/-- A list or dictionary is a letter, what is inside, and an end. -/
theorem Frame.isBencoding_iff (frame : Frame) (octets : Buffer) :
    IsBencoding frame.value octets ↔
      ∃ body, octets = frame.kind.letter :: (body ++ [101]) ∧ frame.IsLeft body := by
  cases frame with
  | entries left =>
    constructor
    · intro h
      cases h with
      | dict inner => exact ⟨_, rfl, inner⟩
    · rintro ⟨body, rfl, inner⟩
      exact .dict inner
  | items left =>
    constructor
    · intro h
      cases h with
      | list inner => exact ⟨_, rfl, inner⟩
    · rintro ⟨body, rfl, inner⟩
      exact .list inner

/-- A value is a string or a structure. -/
theorem value_cases (v : Value) : (∃ s, v = .str s) ∨ ∃ frame : Frame, v = frame.value := by
  cases v with
  | str s => exact .inl ⟨s, rfl⟩
  | list items => exact .inr ⟨.items items, rfl⟩
  | dict entries => exact .inr ⟨.entries entries, rfl⟩

theorem isBencoding_front {v : Value} {first : Buffer} (h : IsBencoding v first) {s : StringText}
    {octets rest : Buffer} (same : s.text ++ octets = first ++ rest) :
    s.Plain ∧ v = .str s.body ∧ octets = rest := by
  rcases value_cases v with ⟨body, rfl⟩ | ⟨frame, rfl⟩
  · cases h with
    | str inner =>
      obtain ⟨plain, rfl, after⟩ := isString_front inner same
      exact ⟨plain, rfl, after⟩
  · obtain ⟨body, rfl, -⟩ := (frame.isBencoding_iff first).mp h
    obtain ⟨c, tail, head, notDict, -, notList⟩ := s.text_cons octets
    rw [head] at same
    obtain ⟨rfl, -⟩ := List.cons.inj same
    cases frame
    · exact absurd rfl notDict
    · exact absurd rfl notList

theorem isBencoding_letter {v : Value} {first : Buffer} (h : IsBencoding v first) {kind : Structure}
    {octets rest : Buffer} (same : kind.letter :: octets = first ++ rest) :
    ∃ inner : Frame, inner.kind = kind ∧ v = inner.value ∧
      ∃ body, octets = body ++ 101 :: rest ∧ inner.IsLeft body := by
  rcases value_cases v with ⟨body, rfl⟩ | ⟨frame, rfl⟩
  · cases h with
    | str inner => exact absurd same (isString_notLetter inner (letter_cases kind))
  · obtain ⟨body, rfl, inside⟩ := (frame.isBencoding_iff first).mp h
    obtain ⟨letter, after⟩ := List.cons.inj same
    have sameKind : frame.kind = kind := by
      cases frame <;> cases kind <;> first | rfl | cases letter
    exact ⟨frame, sameKind, rfl, body, by simpa using after, inside⟩

theorem isBencoding_notEnd {v : Value} {first : Buffer} (h : IsBencoding v first)
    {octets rest : Buffer} : 101 :: octets ≠ first ++ rest := by
  rcases value_cases v with ⟨body, rfl⟩ | ⟨frame, rfl⟩
  · cases h with
    | str inner => exact isString_notLetter inner (.inr (.inl rfl))
  · obtain ⟨body, rfl, -⟩ := (frame.isBencoding_iff first).mp h
    intro same
    obtain ⟨letter, -⟩ := List.cons.inj same
    cases frame <;> cases letter

/-! ## Tokens -/

section Tokens

variable {outer : List Frame} {rest octets : Buffer}

theorem remaining_end (frame : Frame) :
    Remaining rest (frame :: outer) (101 :: octets) ↔
      frame = .done frame.kind ∧ Remaining rest outer octets := by
  constructor
  · rintro ⟨body, more, split, inner, later⟩
    cases frame with
    | entries left =>
      cases inner with
      | nil => exact ⟨rfl, (List.cons.inj split).2 ▸ later⟩
      | cons key value others =>
        rw [List.append_assoc] at split
        exact absurd split (isString_notLetter key (.inr (.inl rfl)))
    | items left =>
      cases inner with
      | nil => exact ⟨rfl, (List.cons.inj split).2 ▸ later⟩
      | cons value others =>
        rw [List.append_assoc] at split
        exact absurd split (isBencoding_notEnd value)
  · rintro ⟨done, later⟩
    refine ⟨[], octets, rfl, ?_, later⟩
    rw [done]
    cases frame
    · exact IsEntries.nil
    · exact IsItems.nil

theorem remaining_item (value : StringText) (left : List Value) :
    Remaining rest (.items left :: outer) (value.text ++ octets) ↔
      value.Plain ∧ ∃ left', left = .str value.body :: left' ∧
        Remaining rest (.items left' :: outer) octets := by
  constructor
  · rintro ⟨body, more, split, inner, later⟩
    cases inner with
    | nil =>
      obtain ⟨c, tail, head, -, notEnd, -⟩ := value.text_cons octets
      rw [head] at split
      exact absurd (List.cons.inj split).1 notEnd
    | @cons v left' first others item inner =>
      rw [List.append_assoc] at split
      obtain ⟨plain, rfl, rfl⟩ := isBencoding_front item split
      exact ⟨plain, left', rfl, others, more, rfl, inner, later⟩
  · rintro ⟨plain, left', rfl, body, more, rfl, inner, later⟩
    exact ⟨value.text ++ body, more, by simp, .cons (.str (StringText.isString plain)) inner, later⟩

theorem remaining_opens (kind : Structure) (left : List Value) :
    Remaining rest (.items left :: outer) (kind.letter :: octets) ↔
      ∃ inner : Frame, inner.kind = kind ∧ ∃ left', left = inner.value :: left' ∧
        Remaining rest (inner :: .items left' :: outer) octets := by
  constructor
  · rintro ⟨body, more, split, inner, later⟩
    cases inner with
    | nil => cases kind <;> cases split
    | @cons v left' first others item inner =>
      rw [List.append_assoc] at split
      obtain ⟨frame, sameKind, rfl, body, rfl, inside⟩ := isBencoding_letter item split
      exact ⟨frame, sameKind, left', rfl, body, others ++ 101 :: more, rfl, inside, others, more, rfl,
        inner, later⟩
  · rintro ⟨frame, rfl, left', rfl, body, -, rfl, inside, others, more, rfl, inner, later⟩
    refine ⟨frame.kind.letter :: (body ++ [101]) ++ others, more, by simp, ?_, later⟩
    exact .cons ((frame.isBencoding_iff _).mpr ⟨body, rfl, inside⟩) inner

theorem remaining_entry (key value : StringText) (left : List (Buffer × Value)) :
    Remaining rest (.entries left :: outer) (key.text ++ (value.text ++ octets)) ↔
      (key.Plain ∧ value.Plain) ∧ ∃ left', left = (key.body, .str value.body) :: left' ∧
        Remaining rest (.entries left' :: outer) octets := by
  constructor
  · rintro ⟨body, more, split, inner, later⟩
    cases inner with
    | nil =>
      obtain ⟨c, tail, head, -, notEnd, -⟩ := key.text_cons (value.text ++ octets)
      rw [head] at split
      exact absurd (List.cons.inj split).1 notEnd
    | @cons k v left' first second others key' value' inner =>
      rw [List.append_assoc, List.append_assoc] at split
      obtain ⟨plain, rfl, after⟩ := isString_front key' split
      obtain ⟨plainValue, rfl, rfl⟩ := isBencoding_front value' after
      exact ⟨⟨plain, plainValue⟩, left', rfl, others, more, rfl, inner, later⟩
  · rintro ⟨⟨plain, plainValue⟩, left', rfl, body, more, rfl, inner, later⟩
    exact ⟨key.text ++ (value.text ++ body), more, by simp,
      .cons (StringText.isString plain) (.str (StringText.isString plainValue)) inner, later⟩

theorem remaining_sub (key : StringText) (kind : Structure) (left : List (Buffer × Value)) :
    Remaining rest (.entries left :: outer) (key.text ++ kind.letter :: octets) ↔
      key.Plain ∧ ∃ inner : Frame, inner.kind = kind ∧ ∃ left', left = (key.body, inner.value) :: left' ∧
        Remaining rest (inner :: .entries left' :: outer) octets := by
  constructor
  · rintro ⟨body, more, split, inner, later⟩
    cases inner with
    | nil =>
      obtain ⟨c, tail, head, -, notEnd, -⟩ := key.text_cons (kind.letter :: octets)
      rw [head] at split
      exact absurd (List.cons.inj split).1 notEnd
    | @cons k v left' first second others key' value' inner =>
      rw [List.append_assoc, List.append_assoc] at split
      obtain ⟨plain, rfl, after⟩ := isString_front key' split
      obtain ⟨frame, sameKind, rfl, body, rfl, inside⟩ := isBencoding_letter value' after
      exact ⟨plain, frame, sameKind, left', rfl, body, others ++ 101 :: more, rfl, inside, others, more,
        rfl, inner, later⟩
  · rintro ⟨plain, frame, rfl, left', rfl, body, -, rfl, inside, others, more, rfl, inner, later⟩
    refine ⟨key.text ++ (frame.kind.letter :: (body ++ [101]) ++ others), more, by simp, ?_, later⟩
    exact .cons (StringText.isString plain) ((frame.isBencoding_iff _).mpr ⟨body, rfl, inside⟩) inner

theorem remaining_bare (kind : Structure) (left : List (Buffer × Value)) :
    ¬ Remaining rest (.entries left :: outer) (kind.letter :: octets) := by
  rintro ⟨body, more, split, inner, -⟩
  cases inner with
  | nil => cases kind <;> cases split
  | cons key value others =>
    rw [List.append_assoc] at split
    exact isString_notLetter key (letter_cases kind) split

end Tokens

/-! ## Walks -/

/-- The open structures, innermost first. -/
def kinds (structureStack : List (Buffer × Structure)) : List Structure :=
  (structureStack.map Prod.snd).reverse

@[simp] theorem kinds_concat (stack : List (Buffer × Structure)) (name : Buffer) (kind : Structure) :
    kinds (stack ++ [(name, kind)]) = kind :: kinds stack := by
  simp [kinds]

theorem kinds_of_top {stack : List (Buffer × Structure)} {name : Buffer} {kind : Structure}
    (top : stack.getLast? = some (name, kind)) : kinds stack = kind :: kinds stack.dropLast := by
  obtain ⟨front, rfl⟩ := List.getLast?_eq_some_iff.mp top
  simp

theorem Book.kinds_openStructure (kind : Structure) (b : Book) :
    kinds (b.openStructure kind).structureStack = kind :: kinds b.structureStack := by
  cases kind <;> simp [Book.openStructure]

theorem Book.openStructure_ended (kind : Structure) {b : Book} (running : b.parseEnded = false) :
    (b.openStructure kind).parseEnded = (b.openStructure kind).structureStack.isEmpty := by
  cases kind <;> simp [Book.openStructure, running]

/-- The message has ended when no structure is open. -/
theorem act_ended {b b' : Book} {t : Token} (acts : b.act t = some b') :
    b'.parseEnded = b'.structureStack.isEmpty := by
  obtain ⟨running, acts⟩ := Book.act_iff.mp acts
  have inside : ∀ {top}, b.structureStack.getLast? = some top →
      b.parseEnded = b.structureStack.isEmpty := by
    intro top last
    obtain ⟨front, split⟩ := List.getLast?_eq_some_iff.mp last
    simp [running, split]
  cases acts with
  | message outside => exact Book.openStructure_ended _ running
  | nested top => exact Book.openStructure_ended _ running
  | bare top => exact Book.openStructure_ended _ running
  | sub top => exact Book.openStructure_ended _ running
  | entry top => exact inside top
  | item top => exact inside top
  | closes top counted => rfl

/-- The innermost frame under the innermost structure. -/
private theorem frames_cons {frames : List Frame} {stack : List (Buffer × Structure)} {name : Buffer}
    {kind : Structure} (top : stack.getLast? = some (name, kind))
    (matching : frames.map Frame.kind = kinds stack) :
    ∃ frame outer, frames = frame :: outer ∧ frame.kind = kind ∧
      outer.map Frame.kind = kinds stack.dropLast := by
  rw [kinds_of_top top] at matching
  obtain ⟨frame, outer, rfl, same, others⟩ := List.map_eq_cons_iff.mp matching
  exact ⟨frame, outer, rfl, same, others⟩

/-- Under a list there is a frame of items, under a dictionary one of entries. -/
private theorem frames_items {frames : List Frame} {stack : List (Buffer × Structure)} {name : Buffer}
    (top : stack.getLast? = some (name, .LIST)) (matching : frames.map Frame.kind = kinds stack) :
    ∃ items outer, frames = .items items :: outer := by
  obtain ⟨frame, outer, rfl, sameKind, -⟩ := frames_cons top matching
  cases frame with
  | entries => cases sameKind
  | items items => exact ⟨items, outer, rfl⟩

private theorem frames_entries {frames : List Frame} {stack : List (Buffer × Structure)} {name : Buffer}
    (top : stack.getLast? = some (name, .DICTIONARY))
    (matching : frames.map Frame.kind = kinds stack) :
    ∃ entries outer, frames = .entries entries :: outer := by
  obtain ⟨frame, outer, rfl, sameKind, -⟩ := frames_cons top matching
  cases frame with
  | entries entries => exact ⟨entries, outer, rfl⟩
  | items => cases sameKind

/-- A token of the decoder is the next token of what is left, if bencoding is left. -/
theorem act_remaining {b b' : Book} {t : Token} (acts : b.act t = some b') {frames : List Frame}
    (matching : frames.map Frame.kind = kinds b.structureStack) (inside : b.structureStack ≠ [])
    {rest octets : Buffer} (left : Remaining rest frames (t.text ++ octets)) :
    t.Plain ∧ ∃ frames', frames'.map Frame.kind = kinds b'.structureStack ∧
      Remaining rest frames' octets ∧ frameTokens frames = t.canonical :: frameTokens frames' := by
  cases (Book.act_iff.mp acts).2 with
  | message outside => exact absurd outside inside
  | @nested kind name top =>
    obtain ⟨items, outer, rfl⟩ := frames_items top matching
    obtain ⟨inner, rfl, items', rfl, later⟩ := (remaining_opens kind items).mp left
    refine ⟨trivial, inner :: .items items' :: outer, ?_, later, ?_⟩
    · rw [Book.kinds_openStructure, ← matching]
      rfl
    · cases inner <;> simp [frameTokens, Frame.tokens, itemsTokens, itemTokens, Frame.value,
        Frame.kind, Token.canonical]
  | @bare kind name top =>
    obtain ⟨entries, outer, rfl⟩ := frames_entries top matching
    exact absurd left (remaining_bare kind entries)
  | @sub key kind name top =>
    obtain ⟨entries, outer, rfl⟩ := frames_entries top matching
    rw [Token.text, List.append_assoc] at left
    obtain ⟨plain, inner, rfl, entries', rfl, later⟩ := (remaining_sub key kind entries).mp left
    refine ⟨plain, inner :: .entries entries' :: outer, ?_, later, ?_⟩
    · rw [Book.kinds_openStructure, ← matching]
      rfl
    · cases inner <;> simp [frameTokens, Frame.tokens, entriesTokens, entryTokens, Frame.value,
        Frame.kind, Token.canonical]
  | @entry key value name top =>
    obtain ⟨entries, outer, rfl⟩ := frames_entries top matching
    rw [Token.text, List.append_assoc] at left
    obtain ⟨plain, entries', rfl, later⟩ := (remaining_entry key value entries).mp left
    exact ⟨plain, .entries entries' :: outer, matching, later, rfl⟩
  | @item value name top =>
    obtain ⟨items, outer, rfl⟩ := frames_items top matching
    obtain ⟨plain, items', rfl, later⟩ := (remaining_item value items).mp left
    exact ⟨plain, .items items' :: outer, matching, later, rfl⟩
  | closes top counted =>
    obtain ⟨frame, outer, rfl, sameKind, others⟩ := frames_cons top matching
    obtain ⟨done, later⟩ := (remaining_end frame).mp left
    refine ⟨trivial, outer, others, later, ?_⟩
    rw [done]
    cases frame <;> rfl

/-- In front of what is left a plain token leaves bencoding. -/
theorem act_fills {b b' : Book} {t : Token} (acts : b.act t = some b') (inside : b.structureStack ≠ [])
    (plain : t.Plain) {frames' : List Frame} (matching : frames'.map Frame.kind = kinds b'.structureStack)
    {rest octets : Buffer} (left : Remaining rest frames' octets) :
    ∃ frames, frames.map Frame.kind = kinds b.structureStack ∧
      Remaining rest frames (t.text ++ octets) := by
  cases (Book.act_iff.mp acts).2 with
  | message outside => exact absurd outside inside
  | nested top =>
    rw [Book.kinds_openStructure] at matching
    obtain ⟨inner, frames, rfl, rfl, others⟩ := List.map_eq_cons_iff.mp matching
    obtain ⟨items, outer, rfl⟩ := frames_items top others
    exact ⟨.items (inner.value :: items) :: outer, others,
      (remaining_opens inner.kind _).mpr ⟨inner, rfl, items, rfl, left⟩⟩
  | bare top => exact absurd plain id
  | @sub key kind name top =>
    rw [Book.kinds_openStructure] at matching
    obtain ⟨inner, frames, rfl, rfl, others⟩ := List.map_eq_cons_iff.mp matching
    obtain ⟨entries, outer, rfl⟩ := frames_entries top others
    refine ⟨.entries ((key.body, inner.value) :: entries) :: outer, others, ?_⟩
    rw [Token.text, List.append_assoc]
    exact (remaining_sub key inner.kind _).mpr ⟨plain, inner, rfl, entries, rfl, left⟩
  | @entry key value name top =>
    obtain ⟨entries, outer, rfl⟩ := frames_entries top matching
    refine ⟨.entries ((key.body, .str value.body) :: entries) :: outer, matching, ?_⟩
    rw [Token.text, List.append_assoc]
    exact (remaining_entry key value _).mpr ⟨plain, entries, rfl, left⟩
  | @item value name top =>
    obtain ⟨items, outer, rfl⟩ := frames_items top matching
    exact ⟨.items (.str value.body :: items) :: outer, matching,
      (remaining_item value _).mpr ⟨plain, items, rfl, left⟩⟩
  | @closes name kind listCounter top counted =>
    refine ⟨.done kind :: frames', ?_, ?_⟩
    · rw [kinds_of_top top, List.map_cons, matching]
      cases kind <;> rfl
    · exact (remaining_end (.done kind)).mpr ⟨by cases kind <;> rfl, left⟩

/-- A walk that can go on is inside a structure. -/
private theorem inside_of_act {b b' : Book} {t : Token} (acts : b.act t = some b')
    (steady : b.parseEnded = b.structureStack.isEmpty) : b.structureStack ≠ [] := by
  rw [(Book.act_iff.mp acts).1] at steady
  simpa using steady.symm

theorem run_remaining (ts : List Token) {b b' : Book} (runs : Book.run ts b = some b')
    (done : b'.parseEnded = true) (steady : b.parseEnded = b.structureStack.isEmpty)
    {frames : List Frame} (matching : frames.map Frame.kind = kinds b.structureStack)
    {rest octets : Buffer} (left : Remaining rest frames (texts ts ++ octets)) :
    (∀ t ∈ ts, t.Plain) ∧ ts.map Token.canonical = frameTokens frames ∧ octets = rest := by
  induction ts generalizing b frames with
  | nil =>
    cases runs
    have closed : b'.structureStack = [] := by simpa [done] using steady.symm
    have noFrames : frames = [] := by simpa [closed, kinds] using matching
    subst noFrames
    exact ⟨fun _ member => absurd member List.not_mem_nil, rfl, left⟩
  | cons t ts ih =>
    obtain ⟨next, acts, later⟩ := Option.bind_eq_some_iff.mp runs
    rw [texts_cons, List.append_assoc] at left
    obtain ⟨plain, frames', matching', left', first⟩ :=
      act_remaining acts matching (inside_of_act acts steady) left
    obtain ⟨plains, others, same⟩ := ih later (act_ended acts) matching' left'
    exact ⟨List.forall_mem_cons.mpr ⟨plain, plains⟩, by rw [List.map_cons, others, first], same⟩

theorem run_fills (ts : List Token) {b b' : Book} (runs : Book.run ts b = some b')
    (done : b'.parseEnded = true) (steady : b.parseEnded = b.structureStack.isEmpty)
    (plain : ∀ t ∈ ts, t.Plain) (rest : Buffer) :
    ∃ frames, frames.map Frame.kind = kinds b.structureStack ∧ Remaining rest frames (texts ts ++ rest) := by
  induction ts generalizing b with
  | nil =>
    cases runs
    have closed : b'.structureStack = [] := by simpa [done] using steady.symm
    exact ⟨[], by simp [closed, kinds], rfl⟩
  | cons t ts ih =>
    obtain ⟨next, acts, later⟩ := Option.bind_eq_some_iff.mp runs
    rw [List.forall_mem_cons] at plain
    obtain ⟨frames', matching, left⟩ := ih later (act_ended acts) plain.2
    rw [texts_cons, List.append_assoc]
    exact act_fills acts (inside_of_act acts steady) plain.1 matching left

/-- The first token opens the message. -/
theorem act_start {b : Book} {t : Token} (acts : Book.start.act t = some b) :
    ∃ kind, t = .opens kind ∧ b = Book.start.openStructure kind := by
  cases t with
  | opens kind =>
    cases acts
    exact ⟨kind, rfl, rfl⟩
  | bare kind => cases acts
  | sub key kind => cases acts
  | entry key value => cases acts
  | item value => cases acts
  | closes => cases acts

/-- The tokens of an accepted message that starts with a bencoded structure are plain, and they
are the tokens of the value the octets stand for. -/
theorem Accepted.tokens {host : Host} {octets rest rest' : Buffer} {ts : List Token} {b : Book}
    {frame : Frame} (h : Accepted host (octets ++ rest) ts b rest')
    (bencoded : IsBencoding frame.value octets) :
    (∀ t ∈ ts, t.Plain) ∧ ts.map Token.canonical = itemTokens frame.value ∧ rest' = rest := by
  obtain ⟨body, rfl, inside⟩ := (frame.isBencoding_iff octets).mp bencoded
  have runs := h.runs
  have split := h.split
  cases ts with
  | nil =>
    cases runs
    have ended := h.ended
    cases ended
  | cons t ts =>
    obtain ⟨next, acts, later⟩ := Option.bind_eq_some_iff.mp runs
    obtain ⟨kind, rfl, rfl⟩ := act_start acts
    obtain ⟨letter, after⟩ := List.cons.inj split
    obtain rfl : frame.kind = kind := by
      cases frame <;> cases kind <;> first | rfl | cases letter
    have shape : texts ts ++ rest' = body ++ [101] ++ rest := after.symm
    have left : Remaining rest [frame] (texts ts ++ rest') :=
      ⟨body, rest, by rw [shape, List.append_assoc]; rfl, inside, rfl⟩
    obtain ⟨plain, same, rests⟩ := run_remaining ts later h.ended (act_ended acts)
      (by rw [Book.kinds_openStructure]; rfl) left
    refine ⟨List.forall_mem_cons.mpr ⟨trivial, plain⟩, ?_, rests⟩
    rw [List.map_cons, same]
    cases frame <;> rfl

/-- The octets of an accepted message are a bencoded container exactly if its tokens are plain. -/
theorem Accepted.isContainer_iff {host : Host} {octets rest : Buffer} {ts : List Token} {b : Book}
    (h : Accepted host octets ts b rest) : IsContainer (texts ts) ↔ ∀ t ∈ ts, t.Plain := by
  constructor
  · rintro ⟨v, container, bencoded⟩
    rcases value_cases v with ⟨s, rfl⟩ | ⟨frame, rfl⟩
    · cases container
    · have accepted : Accepted host (texts ts ++ rest) ts b rest := ⟨⟨rfl, h.readable, h.runs⟩, h.ended⟩
      exact (accepted.tokens bencoded).1
  · intro plain
    have runs := h.runs
    cases ts with
    | nil =>
      cases runs
      have ended := h.ended
      cases ended
    | cons t ts =>
      obtain ⟨next, acts, later⟩ := Option.bind_eq_some_iff.mp runs
      obtain ⟨kind, rfl, rfl⟩ := act_start acts
      rw [List.forall_mem_cons] at plain
      obtain ⟨frames, matching, left⟩ := run_fills ts later h.ended (act_ended acts) plain.2 []
      rw [Book.kinds_openStructure] at matching
      obtain ⟨frame, outer, rfl, rfl, others⟩ := List.map_eq_cons_iff.mp matching
      obtain rfl : outer = [] := List.map_eq_nil_iff.mp others
      obtain ⟨body, -, split, inside, rfl⟩ := left
      rw [List.append_nil] at split
      refine ⟨frame.value, by cases frame <;> rfl, (frame.isBencoding_iff _).mpr ⟨body, ?_, inside⟩⟩
      rw [texts_cons, split]
      rfl

/-- Whenever `parseMessage` returns it has read tokens, and what it consumed is a bencoded
container exactly if no length among them has a blank or a sign in front and no structure
stands where a key should. -/
theorem parseMessage_isContainer_iff (host : Host) (octets : Buffer) (data : DataMap)
    (stream : Istream) (returned : parseMessage host (Istream.ofBuffer octets) = .ok (data, stream)) :
    (∃ ts b, Accepted host octets ts b stream.rest) ∧
    ∀ ts b, Accepted host octets ts b stream.rest →
      octets = texts ts ++ stream.rest ∧ (IsContainer (texts ts) ↔ ∀ t ∈ ts, t.Plain) := by
  obtain ⟨ts, b, accepted, -, -⟩ := parse_accepted returned
  exact ⟨⟨ts, b, accepted⟩, fun ts' b' accepted' => ⟨accepted'.split, accepted'.isContainer_iff⟩⟩

theorem parseMessage_isContainer_iff_dictionary :
    (∃ ts b, Accepted .x86 (ascii "d1:a2:bbe") ts b []) ∧
    ∀ ts b, Accepted .x86 (ascii "d1:a2:bbe") ts b [] →
      ascii "d1:a2:bbe" = texts ts ++ [] ∧ (IsContainer (texts ts) ↔ ∀ t ∈ ts, t.Plain) :=
  parseMessage_isContainer_iff .x86 (ascii "d1:a2:bbe") ⟨[(ascii "a", ascii "bb")], by decide⟩
    ⟨[], false, false⟩ rfl

/-- A list whose item has the length `+1`, and a dictionary where a dictionary is the key. -/
theorem signedLength_accepted :
    parseMessage .x86 (Istream.ofBuffer (ascii "l+1:ae")) =
      .ok (⟨[(ascii "0", ascii "a")], by decide⟩, ⟨[], false, false⟩) ∧
    ¬ IsContainer (ascii "l+1:ae") ∧
    parseMessage .x86 (Istream.ofBuffer (ascii "ddee")) = .ok (.empty, ⟨[], false, false⟩) ∧
    ¬ IsContainer (ascii "ddee") := by
  refine ⟨rfl, ?_, rfl, ?_⟩
  · intro container
    let item : StringText := ⟨⟨[], .plus, [49], by simp, by simp [isDigit], by simp⟩, ascii "a", rfl⟩
    have accepted : Accepted .x86 (ascii "l+1:ae") [.opens .LIST, .item item, .closes] _ [] :=
      ⟨⟨rfl, by simp [Token.Readable, StringText.ReadAsValue, item]; decide, rfl⟩, rfl⟩
    have plain := accepted.isContainer_iff.mp container (.item item) (by simp)
    cases plain.2
  · intro container
    have accepted : Accepted .x86 (ascii "ddee")
        [.opens .DICTIONARY, .bare .DICTIONARY, .closes, .closes] _ [] :=
      ⟨⟨rfl, by simp [Token.Readable], rfl⟩, rfl⟩
    exact accepted.isContainer_iff.mp container (.bare .DICTIONARY) (by simp)

end TorrentSync.Source.BEncodeDecoder
