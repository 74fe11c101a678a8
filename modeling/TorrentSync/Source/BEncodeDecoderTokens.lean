import TorrentSync.Source.BEncodeDecoderStrings

/-!
# Tokens of an accepted message

One pass of the decoder as a walk over tokens. A token is what one iteration of the loop
takes from a good stream, except that a key whose value is a structure goes together with
the letter that opens the structure. `act` is what the token does to the variables of
`parseMessage`. `parseMessage` accepts an input exactly if the input starts with the text
of readable tokens that lead to its end.
-/
namespace TorrentSync.Source

open Lib Decimal

/-- The letter that opens a structure. -/
def Structure.letter : Structure → UInt8
  | .DICTIONARY => 100
  | .LIST => 108

/-- The octets the loop has a case for, and the others. -/
theorem Structure.letter_or (c : UInt8) :
    (∃ kind : Structure, c = kind.letter) ∨ c = 101 ∨ c ≠ 100 ∧ c ≠ 101 ∧ c ≠ 108 := by
  by_cases dict : c = 100
  · exact .inl ⟨.DICTIONARY, dict⟩
  · by_cases list : c = 108
    · exact .inl ⟨.LIST, list⟩
    · by_cases ending : c = 101
      · exact .inr (.inl ending)
      · exact .inr (.inr ⟨dict, ending, list⟩)

namespace BEncodeDecoder

/-- The variables of `parseMessage` and the members it writes, without the stream. -/
structure Book where
  parseEnded : Bool
  listCounter : Nat
  structureStack : List (Buffer × Structure)
  lastToken : Buffer
  data : DataMap

inductive Token where
  /-- a structure that is the message or an item of a list -/
  | opens (kind : Structure)
  /-- a structure in a dictionary where a key should be -/
  | bare (kind : Structure)
  /-- a key and the letter of the structure that is its value -/
  | sub (key : StringText) (kind : Structure)
  | entry (key value : StringText)
  | item (value : StringText)
  | closes

namespace Token

def text : Token → Buffer
  | opens kind | bare kind => [kind.letter]
  | sub key kind => key.text ++ [kind.letter]
  | entry key value => key.text ++ value.text
  | item value => value.text
  | closes => [101]

/-- The readers accept the strings of the token. -/
def Readable (host : Host) : Token → Prop
  | opens _ | bare _ | closes => True
  | sub key _ => key.ReadAsKey host
  | entry key value => key.ReadAsKey host ∧ value.ReadAsValue host
  | item value => value.ReadAsValue host

end Token

namespace Book

def start : Book := ⟨false, 0, [], [], .empty⟩

/-- The state of the loop with these variables and the given unread octets. -/
def reading (b : Book) (octets : Buffer) : State :=
  ⟨⟨octets, false, false⟩, b.parseEnded, b.listCounter, b.structureStack, b.lastToken, b.data⟩

/-- `case 'd'` and `case 'l'`. -/
def openStructure (kind : Structure) (b : Book) : Book :=
  match kind with
  | .DICTIONARY => { b with structureStack := b.structureStack ++ [(b.lastToken, .DICTIONARY)] }
  | .LIST =>
      let lastToken := if b.listCounter > 0 then digits b.listCounter else b.lastToken
      { b with
        lastToken := lastToken
        listCounter := 0
        structureStack := b.structureStack ++ [(lastToken, .LIST)] }

/-- What a token does where it can stand, and nothing elsewhere. -/
def act (b : Book) (t : Token) : Option Book :=
  if b.parseEnded then none
  else match t, b.structureStack.getLast? with
    | .opens kind, none | .opens kind, some (_, .LIST) => some (b.openStructure kind)
    | .bare kind, some (_, .DICTIONARY) => some (b.openStructure kind)
    | .sub key kind, some (_, .DICTIONARY) => some ({ b with lastToken := key.key }.openStructure kind)
    | .entry key value, some (_, .DICTIONARY) =>
        some { b with data := b.data.insert (pathOf b.structureStack ++ key.key) value.body }
    | .item value, some (_, .LIST) =>
        some { b with
          listCounter := b.listCounter + 1
          data := b.data.insert (pathOf b.structureStack ++ digits b.listCounter) value.body }
    | .closes, some (name, kind) =>
        match counterAfter name kind with
        | .ok listCounter => some { b with
            listCounter := listCounter
            structureStack := b.structureStack.dropLast
            parseEnded := b.structureStack.dropLast.isEmpty }
        | .error _ => none
    | _, _ => none

/-- Where each token can stand, and what it does there. -/
inductive Acts (b : Book) : Token → Book → Prop
  | message {kind : Structure} (outside : b.structureStack = []) :
      Acts b (.opens kind) (b.openStructure kind)
  | nested {kind : Structure} {name : Buffer} (top : b.structureStack.getLast? = some (name, .LIST)) :
      Acts b (.opens kind) (b.openStructure kind)
  | bare {kind : Structure} {name : Buffer}
      (top : b.structureStack.getLast? = some (name, .DICTIONARY)) :
      Acts b (.bare kind) (b.openStructure kind)
  | sub {key : StringText} {kind : Structure} {name : Buffer}
      (top : b.structureStack.getLast? = some (name, .DICTIONARY)) :
      Acts b (.sub key kind) ({ b with lastToken := key.key }.openStructure kind)
  | entry {key value : StringText} {name : Buffer}
      (top : b.structureStack.getLast? = some (name, .DICTIONARY)) :
      Acts b (.entry key value)
        { b with data := b.data.insert (pathOf b.structureStack ++ key.key) value.body }
  | item {value : StringText} {name : Buffer}
      (top : b.structureStack.getLast? = some (name, .LIST)) :
      Acts b (.item value) { b with
        listCounter := b.listCounter + 1
        data := b.data.insert (pathOf b.structureStack ++ digits b.listCounter) value.body }
  | closes {name : Buffer} {kind : Structure} {listCounter : Nat}
      (top : b.structureStack.getLast? = some (name, kind))
      (counted : counterAfter name kind = .ok listCounter) :
      Acts b .closes { b with
        listCounter := listCounter
        structureStack := b.structureStack.dropLast
        parseEnded := b.structureStack.dropLast.isEmpty }

theorem act_iff {b b' : Book} {t : Token} :
    b.act t = some b' ↔ b.parseEnded = false ∧ Acts b t b' := by
  constructor
  · intro acts
    unfold act at acts
    split at acts
    · cases acts
    · next running =>
      refine ⟨by simpa using running, ?_⟩
      split at acts
      · next kind outside =>
        cases acts
        exact .message (List.getLast?_eq_none_iff.mp outside)
      · next top =>
        cases acts
        exact .nested top
      · next top =>
        cases acts
        exact .bare top
      · next top =>
        cases acts
        exact .sub top
      · next top =>
        cases acts
        exact .entry top
      · next top =>
        cases acts
        exact .item top
      · next top =>
        split at acts
        · next counted =>
          cases acts
          exact .closes top counted
        · cases acts
      · cases acts
  · rintro ⟨running, acts⟩
    cases acts with
    | message outside => simp [act, running, outside]
    | nested top => simp [act, running, top]
    | bare top => simp [act, running, top]
    | sub top => simp [act, running, top]
    | entry top => simp [act, running, top]
    | item top => simp [act, running, top]
    | closes top counted => simp [act, running, top, counted]

/-- A walk over tokens. -/
def run : List Token → Book → Option Book
  | [], b => some b
  | t :: ts, b => (b.act t).bind (run ts)

end Book

/-- The text of a sequence of tokens. -/
def texts (ts : List Token) : Buffer := ts.flatMap Token.text

@[simp] theorem texts_nil : texts [] = [] := rfl

@[simp] theorem texts_cons (t : Token) (ts : List Token) : texts (t :: ts) = t.text ++ texts ts := rfl

@[simp] theorem texts_append (ts us : List Token) : texts (ts ++ us) = texts ts ++ texts us :=
  List.flatMap_append

theorem Book.run_append (ts us : List Token) (b : Book) :
    run (ts ++ us) b = (run ts b).bind (run us) := by
  induction ts generalizing b with
  | nil => rfl
  | cons t ts ih =>
    rw [List.cons_append, run, run]
    cases b.act t with
    | none => rfl
    | some b' => exact ih b'

/-! ## Streams that have failed -/

private theorem extract_bad (accept : Bool → Nat → Option Int) {stream : Istream}
    (bad : stream.good = false) : stream.extract accept = (none, { stream with failbit := true }) := by
  unfold Istream.extract
  rw [bad]
  rfl

theorem readElement_bad (host : Host) {stream : Istream} (bad : stream.good = false) :
    readElement host stream = .error errorReading := by
  simp [readElement, Istream.extractInt, extract_bad _ bad, Istream.get, Istream.good]

theorem readValue_bad (host : Host) {stream : Istream} (bad : stream.good = false) :
    readValue host stream = .error errorReading := by
  simp [readValue, Istream.extractSize, extract_bad _ bad, Istream.get, Istream.good]

/-! ## Iterations -/

section Steps

variable (host : Host) (b : Book)

theorem step_letter (kind : Structure) (rest : Buffer) :
    step host (b.reading (kind.letter :: rest)) = .ok ((b.openStructure kind).reading rest) := by
  cases kind <;> rfl

theorem step_closes (rest : Buffer) :
    step host (b.reading (101 :: rest)) = closeStructure (b.reading rest) := rfl

theorem step_end {name : Buffer} {kind : Structure} {listCounter : Nat} (rest : Buffer)
    (top : b.structureStack.getLast? = some (name, kind))
    (counted : counterAfter name kind = .ok listCounter) :
    step host (b.reading (101 :: rest)) =
      .ok ({ b with
        listCounter := listCounter
        structureStack := b.structureStack.dropLast
        parseEnded := b.structureStack.dropLast.isEmpty }.reading rest) := by
  rw [step_closes, closeStructure]
  simp only [Book.reading, top, counted, ok_bind]

/-- Octets that start with neither of the three letters go to the default case. -/
theorem step_other {c : UInt8} {tail : Buffer} (ne : c ≠ 100 ∧ c ≠ 101 ∧ c ≠ 108) :
    step host (b.reading (c :: tail)) = readEntry host (b.reading (c :: tail)) := by
  have peeked : Istream.peek ⟨c :: tail, false, false⟩ = (some c, ⟨c :: tail, false, false⟩) := rfl
  simp [step, Book.reading, peeked, ne]

theorem step_text (s : StringText) (rest : Buffer) :
    step host (b.reading (s.text ++ rest)) = readEntry host (b.reading (s.text ++ rest)) := by
  obtain ⟨c, tail, head, ne⟩ := s.text_cons rest
  rw [head]
  exact step_other host b ne

/-! What the default case does after a key: it fails on a stream that has failed, leaves the
letter of a structure to the next iteration, and reads the value otherwise. -/

theorem readEntry_cut {octets key name : Buffer} {stream : Istream}
    (top : b.structureStack.getLast? = some (name, .DICTIONARY))
    (read : readElement host ⟨octets, false, false⟩ = .ok (key, stream))
    (bad : stream.good = false ∨ stream.rest = []) :
    readEntry host (b.reading octets) = .error errorReading := by
  have peeked : stream.peek.1 = none ∧ stream.peek.2.good = false := by
    unfold Istream.peek
    cases good : stream.good with
    | false => simp [Istream.good]
    | true =>
      rw [good] at bad
      rw [bad.resolve_left Bool.noConfusion]
      simp [Istream.good]
  rw [readEntry]
  simp only [Book.reading, top, read, ok_bind, peeked.1, reduceCtorEq, decide_false, Bool.or_self,
    Bool.false_eq_true, if_false, readValue_bad host peeked.2, error_bind]

theorem readEntry_key_end {key : StringText} (readable : key.ReadAsKey host) {name : Buffer}
    (top : b.structureStack.getLast? = some (name, .DICTIONARY)) :
    readEntry host (b.reading (key.text ++ [])) = .error errorReading :=
  readEntry_cut host b top (readable.run []) (.inr rfl)

theorem readEntry_key_letter {key : StringText} (readable : key.ReadAsKey host) {name : Buffer}
    (kind : Structure) (rest : Buffer)
    (top : b.structureStack.getLast? = some (name, .DICTIONARY)) :
    readEntry host (b.reading (key.text ++ kind.letter :: rest)) =
      .ok ({ b with lastToken := key.key }.reading (kind.letter :: rest)) := by
  have peeked : Istream.peek ⟨kind.letter :: rest, false, false⟩ =
      (some kind.letter, ⟨kind.letter :: rest, false, false⟩) := rfl
  have letter : (decide (some kind.letter = some 108) || decide (some kind.letter = some (100 : UInt8))) =
      true := by
    cases kind <;> rfl
  rw [readEntry]
  simp only [Book.reading, top, readable.run, ok_bind, peeked]
  rw [if_pos letter]

theorem readEntry_key_value {key : StringText} (readable : key.ReadAsKey host) {name : Buffer} {c : UInt8}
    (tail : Buffer) (ne : c ≠ 100 ∧ c ≠ 108)
    (top : b.structureStack.getLast? = some (name, .DICTIONARY)) :
    readEntry host (b.reading (key.text ++ c :: tail)) =
      (readValue host ⟨c :: tail, false, false⟩ >>= fun read =>
        .ok { b.reading [] with
          stream := read.2
          data := b.data.insert (pathOf b.structureStack ++ key.key) read.1 }) := by
  have peeked : Istream.peek ⟨c :: tail, false, false⟩ = (some c, ⟨c :: tail, false, false⟩) := rfl
  rw [readEntry]
  simp only [Book.reading, top, readable.run, ok_bind, peeked]
  rw [if_neg (by simp [ne])]

theorem step_key {key : StringText} (readable : key.ReadAsKey host) {name : Buffer} (kind : Structure)
    (rest : Buffer) (top : b.structureStack.getLast? = some (name, .DICTIONARY)) :
    step host (b.reading (key.text ++ kind.letter :: rest)) =
      .ok ({ b with lastToken := key.key }.reading (kind.letter :: rest)) := by
  rw [step_text]
  exact readEntry_key_letter host b readable kind rest top

theorem step_entry {key value : StringText} (readable : key.ReadAsKey host)
    (readableValue : value.ReadAsValue host) {name : Buffer} (rest : Buffer)
    (top : b.structureStack.getLast? = some (name, .DICTIONARY)) :
    step host (b.reading (key.text ++ (value.text ++ rest))) =
      .ok ({ b with data := b.data.insert (pathOf b.structureStack ++ key.key) value.body }.reading
        rest) := by
  obtain ⟨c, tail, head, ne⟩ := value.text_cons rest
  rw [step_text, head, readEntry_key_value host b readable tail ⟨ne.1, ne.2.2⟩ top, ← head,
    readableValue.run, ok_bind]
  rfl

theorem step_item {value : StringText} (readable : value.ReadAsValue host) {name : Buffer}
    (rest : Buffer) (top : b.structureStack.getLast? = some (name, .LIST)) :
    step host (b.reading (value.text ++ rest)) =
      .ok ({ b with
        listCounter := b.listCounter + 1
        data := b.data.insert (pathOf b.structureStack ++ digits b.listCounter) value.body }.reading
          rest) := by
  rw [step_text, readEntry]
  simp only [Book.reading, top, readable.run, ok_bind]

/-- Without an octet to read an iteration throws `BEncodeException`. -/
theorem step_nil : ∃ what, step host (b.reading []) = .error (.bencode what) := by
  have peeked : Istream.peek ⟨[], false, false⟩ = (none, ⟨[], true, false⟩) := rfl
  have bad : Istream.good ⟨[], true, false⟩ = false := rfl
  simp only [step, Book.reading, peeked, Istream.good_mk, Bool.not_true, Bool.false_eq_true, if_false,
    reduceCtorEq]
  unfold readEntry
  split
  · exact ⟨_, rfl⟩
  · rw [readElement_bad host bad, error_bind]
    exact ⟨_, rfl⟩
  · rw [readValue_bad host bad, error_bind]
    exact ⟨_, rfl⟩

end Steps

/-! ## From tokens to the loop -/

/-- The loop follows a readable token that can stand where it does. -/
theorem act_reaches (host : Host) {b b' : Book} {t : Token} (readable : t.Readable host)
    (acts : b.act t = some b') (rest : Buffer) :
    Reaches host (b.reading (t.text ++ rest)) (b'.reading rest) := by
  obtain ⟨running, acts⟩ := Book.act_iff.mp acts
  have one : ∀ {octets : Buffer} {b'' : Book}, step host (b.reading octets) = .ok (b''.reading rest) →
      Reaches host (b.reading octets) (b''.reading rest) :=
    fun stepped => .next rfl running stepped (.refl _)
  cases acts with
  | message outside => exact one (step_letter host b _ rest)
  | nested top => exact one (step_letter host b _ rest)
  | bare top => exact one (step_letter host b _ rest)
  | @sub key kind name top =>
    rw [Token.text, List.append_assoc]
    have opened := step_letter host { b with lastToken := key.key } kind rest
    exact .next rfl running (step_key host b readable kind rest top)
      (.next rfl running opened (.refl _))
  | entry top =>
    rw [Token.text, List.append_assoc]
    exact one (step_entry host b readable.1 readable.2 rest top)
  | item top => exact one (step_item host b readable rest top)
  | closes top counted => exact one (step_end host b rest top counted)

theorem run_reaches (host : Host) (ts : List Token) {b b' : Book}
    (readable : ∀ t ∈ ts, t.Readable host) (runs : Book.run ts b = some b') (rest : Buffer) :
    Reaches host (b.reading (texts ts ++ rest)) (b'.reading rest) := by
  induction ts generalizing b with
  | nil =>
    cases runs
    exact .refl _
  | cons t ts ih =>
    obtain ⟨next, acts, later⟩ := Option.bind_eq_some_iff.mp runs
    rw [texts_cons, List.append_assoc]
    exact (act_reaches host (readable t List.mem_cons_self) acts _).trans
      (ih (fun u member => readable u (List.mem_cons_of_mem _ member)) later)

/-! ## From the loop to tokens -/

/-- On a stream that is not good the loop throws or stops before the message has ended. -/
theorem loop_bad {host : Host} (fuel : Nat) {s : State} (bad : s.stream.good = false)
    (running : s.parseEnded = false) :
    (∃ what, loop host fuel s = .error (.bencode what)) ∨
      (∃ s', s'.parseEnded = false ∧ loop host fuel s = .ok s') := by
  cases fuel with
  | zero => exact .inr ⟨s, running, rfl⟩
  | succ fuel =>
    rw [loop]
    split
    · have thrown : step host s = .error (.bencode "Error in stream while reading a char") := by
        simp [step, bad]
      rw [thrown]
      exact .inl ⟨_, rfl⟩
    · exact .inr ⟨s, running, rfl⟩

/-- What an iteration that returns has read. -/
inductive Read (host : Host) (b : Book) (octets : Buffer) : State → Prop
  | letter {kind : Structure} {rest : Buffer} (split : octets = kind.letter :: rest) :
      Read host b octets ((b.openStructure kind).reading rest)
  | ending {name : Buffer} {kind : Structure} {listCounter : Nat} {rest : Buffer}
      (split : octets = 101 :: rest) (top : b.structureStack.getLast? = some (name, kind))
      (counted : counterAfter name kind = .ok listCounter) :
      Read host b octets ({ b with
        listCounter := listCounter
        structureStack := b.structureStack.dropLast
        parseEnded := b.structureStack.dropLast.isEmpty }.reading rest)
  | key {key : StringText} {kind : Structure} {name rest : Buffer}
      (split : octets = key.text ++ kind.letter :: rest) (readable : key.ReadAsKey host)
      (top : b.structureStack.getLast? = some (name, .DICTIONARY)) :
      Read host b octets ({ b with lastToken := key.key }.reading (kind.letter :: rest))
  | entry {key value : StringText} {name rest : Buffer}
      (split : octets = key.text ++ (value.text ++ rest)) (readable : key.ReadAsKey host)
      (readableValue : value.ReadAsValue host)
      (top : b.structureStack.getLast? = some (name, .DICTIONARY)) :
      Read host b octets ({ b with
        data := b.data.insert (pathOf b.structureStack ++ key.key) value.body }.reading rest)
  | item {value : StringText} {name rest : Buffer} (split : octets = value.text ++ rest)
      (readable : value.ReadAsValue host) (top : b.structureStack.getLast? = some (name, .LIST)) :
      Read host b octets ({ b with
        listCounter := b.listCounter + 1
        data := b.data.insert (pathOf b.structureStack ++ digits b.listCounter) value.body }.reading
          rest)
  | bad {s : State} (stream : s.stream.good = false) (running : s.parseEnded = b.parseEnded) :
      Read host b octets s

/-- What follows a key. -/
private theorem readAfterKey {host : Host} {b : Book} {key : StringText} {name unread : Buffer}
    {s : State} (readable : key.ReadAsKey host) (top : b.structureStack.getLast? = some (name, .DICTIONARY))
    (entered : readEntry host (b.reading (key.text ++ unread)) = .ok s) :
    Read host b (key.text ++ unread) s := by
  cases unread with
  | nil =>
    rw [readEntry_key_end host b readable top] at entered
    cases entered
  | cons c tail =>
    by_cases letter : ∃ kind : Structure, c = kind.letter
    · obtain ⟨kind, rfl⟩ := letter
      rw [readEntry_key_letter host b readable kind tail top] at entered
      cases entered
      exact .key rfl readable top
    · have ne : c ≠ 100 ∧ c ≠ 108 :=
        ⟨fun same => letter ⟨.DICTIONARY, same⟩, fun same => letter ⟨.LIST, same⟩⟩
      rw [readEntry_key_value host b readable tail ne top] at entered
      obtain ⟨⟨value, stream⟩, read, entered⟩ := bind_eq_ok.mp entered
      cases entered
      cases good : stream.good with
      | false => exact .bad good rfl
      | true =>
        obtain ⟨v, readableValue, rfl, split, shape⟩ := StringText.of_readValue read good
        rw [split]
        have entry : Read host b (key.text ++ (v.text ++ stream.rest)) _ :=
          .entry rfl readable readableValue top
        rwa [Book.reading, ← shape] at entry

private theorem readEntry_cases {host : Host} {b : Book} {octets : Buffer} {s : State}
    (entered : readEntry host (b.reading octets) = .ok s) : Read host b octets s := by
  have whole := entered
  unfold readEntry at entered
  split at entered
  · cases entered
  · next name top =>
    obtain ⟨⟨key, stream⟩, read, -⟩ := bind_eq_ok.mp entered
    cases good : stream.good with
    | false =>
      rw [readEntry_cut host b top read (.inl good)] at whole
      cases whole
    | true =>
      obtain ⟨k, readable, rfl, split, -⟩ := StringText.of_readElement read good
      rw [split] at whole ⊢
      exact readAfterKey readable top whole
  · next name top =>
    obtain ⟨⟨value, stream⟩, read, entered⟩ := bind_eq_ok.mp entered
    cases entered
    cases good : stream.good with
    | false => exact .bad good rfl
    | true =>
      obtain ⟨v, readable, rfl, split, shape⟩ := StringText.of_readValue read good
      have item : Read host b octets _ := .item split readable top
      rwa [Book.reading, ← shape] at item

theorem step_cases {host : Host} {b : Book} {octets : Buffer} {s : State}
    (stepped : step host (b.reading octets) = .ok s) : Read host b octets s := by
  cases octets with
  | nil =>
    obtain ⟨what, thrown⟩ := step_nil host b
    rw [thrown] at stepped
    cases stepped
  | cons c tail =>
    rcases Structure.letter_or c with ⟨kind, rfl⟩ | rfl | other
    · rw [step_letter] at stepped
      cases stepped
      exact .letter rfl
    · rw [step_closes] at stepped
      unfold closeStructure at stepped
      split at stepped
      · cases stepped
      · next name kind top =>
        obtain ⟨listCounter, counted, stepped⟩ := bind_eq_ok.mp stepped
        cases stepped
        exact .ending rfl top counted
    · rw [step_other host b other] at stepped
      exact readEntry_cases stepped

/-- An iteration that returns has read a token, or the key of one, or it has left the stream
in an error state. -/
theorem step_token {host : Host} {b : Book} {octets : Buffer} {s : State}
    (running : b.parseEnded = false) (stepped : step host (b.reading octets) = .ok s) :
    (∃ t b' rest, t.Readable host ∧ b.act t = some b' ∧ octets = t.text ++ rest ∧
      Reaches host s (b'.reading rest)) ∨
    (s.stream.good = false ∧ s.parseEnded = false) := by
  cases step_cases stepped with
  | @letter kind rest split =>
    refine .inl ?_
    cases top : b.structureStack.getLast? with
    | none =>
      have outside := List.getLast?_eq_none_iff.mp top
      exact ⟨.opens kind, _, rest, trivial, Book.act_iff.mpr ⟨running, .message outside⟩, split, .refl _⟩
    | some last =>
      obtain ⟨name, outer⟩ := last
      cases outer with
      | DICTIONARY =>
        exact ⟨.bare kind, _, rest, trivial, Book.act_iff.mpr ⟨running, .bare top⟩, split, .refl _⟩
      | LIST =>
        exact ⟨.opens kind, _, rest, trivial, Book.act_iff.mpr ⟨running, .nested top⟩, split, .refl _⟩
  | @ending name kind listCounter rest split top counted =>
    have acts := Book.act_iff.mpr ⟨running, .closes top counted⟩
    exact .inl ⟨.closes, _, rest, trivial, acts, split, .refl _⟩
  | @key key kind name rest split readable top =>
    -- the next iteration opens the structure
    have opened := step_letter host { b with lastToken := key.key } kind rest
    exact .inl ⟨.sub key kind, _, rest, readable, Book.act_iff.mpr ⟨running, .sub top⟩,
      by rw [split, Token.text, List.append_assoc]; rfl, .next rfl running opened (.refl _)⟩
  | @entry key value name rest split readable readableValue top =>
    exact .inl ⟨.entry key value, _, rest, ⟨readable, readableValue⟩,
      Book.act_iff.mpr ⟨running, .entry top⟩, by rw [split, Token.text, List.append_assoc], .refl _⟩
  | @item value name rest split readable top =>
    exact .inl ⟨.item value, _, rest, readable, Book.act_iff.mpr ⟨running, .item top⟩, split, .refl _⟩
  | bad stream same => exact .inr ⟨stream, same.trans running⟩

/-- Readable tokens that take the decoder from one set of variables to another, the octets
they are read from and what follows these. -/
structure Walk (host : Host) (b : Book) (octets : Buffer) (ts : List Token) (b' : Book)
    (rest : Buffer) : Prop where
  split : octets = texts ts ++ rest
  readable : ∀ t ∈ ts, t.Readable host
  runs : Book.run ts b = some b'

theorem Walk.nil (host : Host) (b : Book) (octets : Buffer) : Walk host b octets [] b octets :=
  ⟨rfl, fun _ member => absurd member List.not_mem_nil, rfl⟩

theorem Walk.cons {host : Host} {b b' b'' : Book} {octets rest rest' : Buffer} {t : Token}
    {ts : List Token} (readable : t.Readable host) (acts : b.act t = some b')
    (split : octets = t.text ++ rest) (later : Walk host b' rest ts b'' rest') :
    Walk host b octets (t :: ts) b'' rest' where
  split := by rw [split, later.split, texts_cons, List.append_assoc]
  readable := List.forall_mem_cons.mpr ⟨readable, later.readable⟩
  runs := by
    rw [Book.run, acts]
    exact later.runs

theorem Walk.append {host : Host} {b b' : Book} {octets rest : Buffer} {ts : List Token}
    (h : Walk host b octets ts b' rest) (more : Buffer) :
    Walk host b (octets ++ more) ts b' (rest ++ more) :=
  ⟨by rw [h.split, List.append_assoc], h.readable, h.runs⟩

theorem Walk.reaches {host : Host} {b b' : Book} {octets rest : Buffer} {ts : List Token}
    (h : Walk host b octets ts b' rest) : Reaches host (b.reading octets) (b'.reading rest) := by
  rw [h.split]
  exact run_reaches host ts h.readable h.runs rest

/-- The loop walks over readable tokens until the message ends, an iteration throws, or a
string is cut off. -/
theorem loop_walk (host : Host) (fuel : Nat) (b : Book) (octets : Buffer)
    (enough : octets.length < fuel) :
    ∃ ts b' rest, Walk host b octets ts b' rest ∧
      ((b'.parseEnded = true ∧ loop host fuel (b.reading octets) = .ok (b'.reading rest)) ∨
       (b'.parseEnded = false ∧ ∃ fault, step host (b'.reading rest) = .error fault ∧
          loop host fuel (b.reading octets) = .error fault) ∨
       (∃ what, loop host fuel (b.reading octets) = .error (.bencode what)) ∨
       (∃ s, s.parseEnded = false ∧ loop host fuel (b.reading octets) = .ok s)) := by
  induction fuel using Nat.strongRecOn generalizing b octets with
  | ind fuel ih =>
    obtain ⟨fuel, rfl⟩ : ∃ n, fuel = n + 1 := ⟨fuel - 1, by omega⟩
    cases running : b.parseEnded with
    | true =>
      refine ⟨[], b, octets, .nil host b octets, .inl ⟨running, ?_⟩⟩
      simp [loop, Book.reading, running]
    | false =>
      have open_ : (!(b.reading octets).stream.eofbit && !(b.reading octets).parseEnded) = true := by
        simp [Book.reading, running]
      cases stepped : step host (b.reading octets) with
      | error fault =>
        refine ⟨[], b, octets, .nil host b octets, .inr (.inl ⟨running, fault, stepped, ?_⟩)⟩
        rw [loop, if_pos open_, stepped]
        rfl
      | ok s =>
        have entered : loop host (fuel + 1) (b.reading octets) = loop host fuel s := by
          rw [loop, if_pos open_, stepped]
          rfl
        have consumed : s.stream.rest.length < octets.length := step_consumes stepped
        rcases step_token running stepped with ⟨t, b', rest, readable, acts, split, reaches⟩ | ⟨bad, still⟩
        · obtain ⟨fuel', less, enough', same⟩ := reaches.loop fuel (by omega)
          obtain ⟨ts, b'', rest', walk, outcome⟩ := ih fuel' (Nat.lt_succ_of_le less) b' rest enough'
          refine ⟨t :: ts, b'', rest', .cons readable acts split walk, ?_⟩
          rw [entered, same]
          exact outcome
        · refine ⟨[], b, octets, .nil host b octets, .inr (.inr ?_)⟩
          rw [entered]
          exact loop_bad fuel bad still

/-! ## Accepted inputs -/

/-- The input starts with the readable tokens `ts`, which take the decoder from its start to
the end of the message; `rest` is what follows them. -/
structure Accepted (host : Host) (octets : Buffer) (ts : List Token) (b : Book) (rest : Buffer) :
    Prop extends Walk host .start octets ts b rest where
  ended : b.parseEnded = true

/-- `parseMessage` returns on the text of such tokens, whatever follows it. -/
theorem Accepted.parse {host : Host} {octets rest : Buffer} {ts : List Token} {b : Book}
    (h : Accepted host octets ts b rest) :
    parseMessage host (Istream.ofBuffer octets) = .ok (b.data, ⟨rest, false, false⟩) := by
  obtain ⟨fuel, -, enough, same⟩ := h.toWalk.reaches.loop (octets.length + 1) (Nat.lt_succ_self _)
  obtain ⟨fuel, rfl⟩ : ∃ n, fuel = n + 1 := ⟨fuel - 1, by omega⟩
  have stopped : loop host (fuel + 1) (b.reading rest) = .ok (b.reading rest) := by
    simp [loop, Book.reading, h.ended]
  have entered : loop host ((Istream.ofBuffer octets).rest.length + 1)
      (BEncodeDecoder.start (Istream.ofBuffer octets)) = .ok (b.reading rest) := same.trans stopped
  have ended := h.ended
  simp only [parseMessage, entered, ok_bind, Book.reading, ended]
  rfl

/-- `parseMessage` walks over readable tokens. It reaches the end of the message and returns,
or it throws `BEncodeException`, or an iteration fails in another way. -/
theorem parse_walk (host : Host) (octets : Buffer) :
    ∃ ts b rest, Walk host .start octets ts b rest ∧
      ((b.parseEnded = true ∧ parseMessage host (Istream.ofBuffer octets) =
          .ok (b.data, ⟨rest, false, false⟩)) ∨
       (b.parseEnded = false ∧ ∃ fault, step host (b.reading rest) = .error fault ∧
          parseMessage host (Istream.ofBuffer octets) = .error fault) ∨
       (∃ what, parseMessage host (Istream.ofBuffer octets) = .error (.bencode what))) := by
  obtain ⟨ts, b, rest, walk, outcome⟩ :=
    loop_walk host (octets.length + 1) .start octets (Nat.lt_succ_self _)
  have entered : parseMessage host (Istream.ofBuffer octets) =
      (loop host (octets.length + 1) (Book.start.reading octets) >>= fun s =>
        if !s.parseEnded then .error (.bencode "Message could not be parsed correctly")
        else .ok (s.data, s.stream)) := rfl
  refine ⟨ts, b, rest, walk, ?_⟩
  rcases outcome with ⟨ended, looped⟩ | ⟨running, fault, stepped, looped⟩ | ⟨what, looped⟩ |
    ⟨s, running, looped⟩
  · refine .inl ⟨ended, ?_⟩
    rw [entered, looped, ok_bind]
    simp [Book.reading, ended]
  · refine .inr (.inl ⟨running, fault, stepped, ?_⟩)
    rw [entered, looped, error_bind]
  · refine .inr (.inr ⟨what, ?_⟩)
    rw [entered, looped, error_bind]
  · refine .inr (.inr ⟨"Message could not be parsed correctly", ?_⟩)
    rw [entered, looped, ok_bind, running]
    rfl

/-- Whenever `parseMessage` returns, it has read such tokens. -/
theorem parse_accepted {host : Host} {octets : Buffer} {data : DataMap} {stream : Istream}
    (returned : parseMessage host (Istream.ofBuffer octets) = .ok (data, stream)) :
    ∃ ts b, Accepted host octets ts b stream.rest ∧ data = b.data ∧
      stream = ⟨stream.rest, false, false⟩ := by
  obtain ⟨ts, b, rest, walk, outcome⟩ := parse_walk host octets
  rcases outcome with ⟨ended, parsed⟩ | ⟨-, fault, -, parsed⟩ | ⟨what, parsed⟩
  · rw [returned] at parsed
    obtain ⟨rfl, rfl⟩ := Prod.mk.inj (Except.ok.inj parsed)
    exact ⟨ts, b, ⟨walk, ended⟩, rfl, rfl⟩
  · rw [returned] at parsed
    cases parsed
  · rw [returned] at parsed
    cases parsed

end BEncodeDecoder
end TorrentSync.Source
