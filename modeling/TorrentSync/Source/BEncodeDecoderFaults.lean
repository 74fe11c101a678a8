import TorrentSync.Source.BEncodeDecoderTokens

/-!
# How the decoder can fail

`BEncodeException` is not the only way for `parseMessage` to fail. A length in front of a
key is taken as an `int` and one more becomes the size of an array on the call stack; a
length in front of a value is handed to `reserve`; and the end of a list adds one to the number the list is
named by. `Faulty` says where one of these goes wrong, on the octets still unread and the
structure the decoder is in.
-/
namespace TorrentSync.Source.BEncodeDecoder

open Lib Decimal

/-- A length that fits an `int` but is negative, or has no successor, or whose successor the
call stack has no room for. -/
def LengthText.NoArray (host : Host) (p : LengthText) : Prop :=
  (p.minus = true ∧ 0 < p.magnitude ∧ p.magnitude ≤ 2 ^ 31) ∨
  (p.minus = false ∧ p.magnitude = 2 ^ 31 - 1) ∨
  (p.minus = false ∧ p.magnitude < 2 ^ 31 - 1 ∧ host.stackHolds (p.magnitude + 1) = false)

/-- A length that fits a `size_t` but that `reserve` has no room for. -/
def LengthText.NoRoom (host : Host) (p : LengthText) : Prop :=
  p.magnitude < 2 ^ 64 ∧ (maxSize < p.value ∨ host.grants p.value = false)

theorem LengthText.noArray_iff (host : Host) (p : LengthText) : p.NoArray host ↔
    ∃ length, Istream.acceptInt p.minus p.magnitude = some length ∧
      (length = 2 ^ 31 - 1 ∨ length < 0 ∨ host.stackHolds (length.toNat + 1) = false) := by
  unfold NoArray Istream.acceptInt
  cases p.minus with
  | true =>
    simp only [if_true, Int.ofNat_eq_natCast, Bool.true_eq_false, false_and, or_false, true_and]
    constructor
    · rintro ⟨positive, small⟩
      exact ⟨-p.magnitude, if_pos (by omega), .inr (.inl (by omega))⟩
    · rintro ⟨length, accepted, out⟩
      split at accepted
      · next range =>
        cases accepted
        rcases out with last | negative | noRoom
        · omega
        · omega
        · -- an array of one character always finds room, so the length is not minus zero
          have single : (-(p.magnitude : Int)).toNat + 1 = 1 := by omega
          rw [single, host.stackHoldsSmall 1 (by decide)] at noRoom
          cases noRoom
      · cases accepted
  | false =>
    simp only [Bool.false_eq_true, if_false, Int.ofNat_eq_natCast, false_and, false_or, true_and]
    constructor
    · rintro (last | ⟨small, noRoom⟩)
      · exact ⟨p.magnitude, if_pos (by omega), .inl (by omega)⟩
      · exact ⟨p.magnitude, if_pos (by omega), .inr (.inr (by rwa [Int.toNat_natCast]))⟩
    · rintro ⟨length, accepted, out⟩
      split at accepted
      · next range =>
        cases accepted
        rcases out with last | negative | noRoom
        · exact .inl (by omega)
        · omega
        · rw [Int.toNat_natCast] at noRoom
          by_cases last : p.magnitude = 2 ^ 31 - 1
          · exact .inl last
          · exact .inr ⟨by omega, noRoom⟩
      · cases accepted

theorem LengthText.noRoom_iff (host : Host) (p : LengthText) : p.NoRoom host ↔
    ∃ length, Istream.acceptSize p.minus p.magnitude = some length ∧
      (maxSize < length.toNat ∨ host.grants length.toNat = false) := by
  constructor
  · rintro ⟨small, out⟩
    obtain ⟨length, accepted⟩ : ∃ length, Istream.acceptSize p.minus p.magnitude = some length :=
      ⟨_, if_pos small⟩
    have value : length.toNat = p.value := by
      rw [← acceptSize_value accepted, Int.toNat_natCast]
    exact ⟨length, accepted, value ▸ out⟩
  · rintro ⟨length, accepted, out⟩
    have value : length.toNat = p.value := by
      rw [← acceptSize_value accepted, Int.toNat_natCast]
    refine ⟨?_, value ▸ out⟩
    unfold Istream.acceptSize at accepted
    split at accepted
    · next small => omega
    · cases accepted

/-- Other than by `BEncodeException`, `readElement` fails on such a length only. -/
theorem readElement_fault {host : Host} {octets : Buffer} {fault : Fault}
    (thrown : readElement host ⟨octets, false, false⟩ = .error fault) :
    (∃ what, fault = .bencode what) ∨
      ∃ (p : LengthText) (rest : Buffer), octets = p.text ++ rest ∧ p.NoArray host := by
  rcases lengthText_or octets with ⟨p, rest, rfl⟩ | missing
  · rw [readElement_text] at thrown
    cases accepted : Istream.acceptInt p.minus p.magnitude with
    | none =>
      rw [accepted] at thrown
      cases thrown
      exact .inl ⟨_, rfl⟩
    | some length =>
      simp only [accepted] at thrown
      refine .inr ⟨p, rest, rfl, (p.noArray_iff host).mpr ⟨length, accepted, ?_⟩⟩
      split at thrown
      · next last => exact .inl last
      · split at thrown
        · next negative => exact .inr (.inl negative)
        · split at thrown
          · next refused => exact .inr (.inr (by simpa using refused))
          · cases thrown
  · obtain ⟨what, exception⟩ := readElement_noLength host missing
    rw [exception] at thrown
    cases thrown
    exact .inl ⟨what, rfl⟩

theorem LengthText.NoArray.thrown {host : Host} {p : LengthText} (h : p.NoArray host) (rest : Buffer) :
    ∃ fault, readElement host ⟨p.text ++ rest, false, false⟩ = .error fault ∧
      ∀ what, fault ≠ .bencode what := by
  obtain ⟨length, accepted, out⟩ := (p.noArray_iff host).mp h
  rw [readElement_text, accepted]
  simp only
  split
  · exact ⟨_, rfl, fun _ => Fault.noConfusion⟩
  · next notLast =>
    split
    · exact ⟨_, rfl, fun _ => Fault.noConfusion⟩
    · next notNegative =>
      rw [if_pos (by simp [(out.resolve_left notLast).resolve_left notNegative])]
      exact ⟨_, rfl, fun _ => Fault.noConfusion⟩

theorem readValue_fault {host : Host} {octets : Buffer} {fault : Fault}
    (thrown : readValue host ⟨octets, false, false⟩ = .error fault) :
    (∃ what, fault = .bencode what) ∨
      ∃ (p : LengthText) (rest : Buffer), octets = p.text ++ rest ∧ p.NoRoom host := by
  rcases lengthText_or octets with ⟨p, rest, rfl⟩ | missing
  · rw [readValue_text] at thrown
    cases accepted : Istream.acceptSize p.minus p.magnitude with
    | none =>
      rw [accepted] at thrown
      cases thrown
      exact .inl ⟨_, rfl⟩
    | some length =>
      simp only [accepted] at thrown
      refine .inr ⟨p, rest, rfl, (p.noRoom_iff host).mpr ⟨length, accepted, ?_⟩⟩
      split at thrown
      · next large => exact .inl large
      · split at thrown
        · next refused => exact .inr (by simpa using refused)
        · cases thrown
  · obtain ⟨what, exception⟩ := readValue_noLength host missing
    rw [exception] at thrown
    cases thrown
    exact .inl ⟨what, rfl⟩

theorem LengthText.NoRoom.thrown {host : Host} {p : LengthText} (h : p.NoRoom host) (rest : Buffer) :
    ∃ fault, readValue host ⟨p.text ++ rest, false, false⟩ = .error fault ∧
      ∀ what, fault ≠ .bencode what := by
  obtain ⟨length, accepted, out⟩ := (p.noRoom_iff host).mp h
  rw [readValue_text, accepted]
  simp only
  split
  · exact ⟨_, rfl, fun _ => Fault.noConfusion⟩
  · next small =>
    rw [if_pos (by simp [out.resolve_left small])]
    exact ⟨_, rfl, fun _ => Fault.noConfusion⟩

/-! ## Iterations -/

/-- The name of a list whose end overflows the list counter. -/
def LastNumber (name : Buffer) : Prop := name.all isDigit = true ∧ ofDigits name = 2 ^ 31 - 1

/-- With these octets unread the next iteration fails other than by `BEncodeException`. -/
inductive Faulty (host : Host) (b : Book) (octets : Buffer) : Prop
  | key {p : LengthText} {name rest : Buffer}
      (top : b.structureStack.getLast? = some (name, .DICTIONARY))
      (split : octets = p.text ++ rest) (noArray : p.NoArray host)
  | value {key : StringText} {p : LengthText} {name rest : Buffer}
      (top : b.structureStack.getLast? = some (name, .DICTIONARY))
      (split : octets = key.text ++ (p.text ++ rest)) (readable : key.ReadAsKey host)
      (noRoom : p.NoRoom host)
  | item {p : LengthText} {name rest : Buffer}
      (top : b.structureStack.getLast? = some (name, .LIST))
      (split : octets = p.text ++ rest) (noRoom : p.NoRoom host)
  | ending {name rest : Buffer} (top : b.structureStack.getLast? = some (name, .LIST))
      (split : octets = 101 :: rest) (last : LastNumber name)

/-- What follows the octets does not matter. -/
theorem Faulty.append {host : Host} {b : Book} {octets : Buffer} (h : Faulty host b octets)
    (more : Buffer) : Faulty host b (octets ++ more) := by
  cases h with
  | @key p name rest top split noArray =>
    have split' : octets ++ more = p.text ++ (rest ++ more) := by simp [split]
    exact .key top split' noArray
  | @value key p name rest top split readable noRoom =>
    have split' : octets ++ more = key.text ++ (p.text ++ (rest ++ more)) := by simp [split]
    exact .value top split' readable noRoom
  | @item p name rest top split noRoom =>
    have split' : octets ++ more = p.text ++ (rest ++ more) := by simp [split]
    exact .item top split' noRoom
  | @ending name rest top split last =>
    have split' : octets ++ more = 101 :: (rest ++ more) := by simp [split]
    exact .ending top split' last

theorem counterAfter_last {name : Buffer} (h : LastNumber name) :
    counterAfter name .LIST = .error (.undefined "signed overflow of the list counter") := by
  obtain ⟨numeric, last⟩ := h
  have filled : name ≠ [] := by
    rintro rfl
    cases last
  simp [counterAfter, numeric, last, filled]

theorem counterAfter_fault {name : Buffer} {kind : Structure} {fault : Fault}
    (overflow : counterAfter name kind = .error fault) : kind = .LIST ∧ LastNumber name := by
  unfold counterAfter at overflow
  split at overflow
  · next numbered =>
    simp only [Bool.and_eq_true, decide_eq_true_eq] at numbered
    split at overflow
    · cases overflow
    · split at overflow
      · next last => exact ⟨numbered.1, numbered.2, last⟩
      · cases overflow
  · cases overflow

theorem Faulty.thrown {host : Host} {b : Book} {octets : Buffer} (h : Faulty host b octets) :
    ∃ fault, step host (b.reading octets) = .error fault ∧ ∀ what, fault ≠ .bencode what := by
  cases h with
  | @key p name rest top split noArray =>
    obtain ⟨c, tail, head, ne⟩ := p.text_cons rest
    obtain ⟨fault, thrown, differs⟩ := noArray.thrown rest
    refine ⟨fault, ?_, differs⟩
    rw [split, head, step_other host b ne, ← head, readEntry]
    simp only [Book.reading, top, thrown, error_bind]
  | @value key p name rest top split readable noRoom =>
    obtain ⟨c, tail, head, ne⟩ := p.text_cons rest
    obtain ⟨fault, thrown, differs⟩ := noRoom.thrown rest
    refine ⟨fault, ?_, differs⟩
    rw [split, step_text, head, readEntry_key_value host b readable tail ⟨ne.1, ne.2.2⟩ top, ← head,
      thrown, error_bind]
  | @item p name rest top split noRoom =>
    obtain ⟨c, tail, head, ne⟩ := p.text_cons rest
    obtain ⟨fault, thrown, differs⟩ := noRoom.thrown rest
    refine ⟨fault, ?_, differs⟩
    rw [split, head, step_other host b ne, ← head, readEntry]
    simp only [Book.reading, top, thrown, error_bind]
  | @ending name rest top split last =>
    refine ⟨.undefined "signed overflow of the list counter", ?_, fun _ => Fault.noConfusion⟩
    rw [split, step_closes, closeStructure]
    simp only [Book.reading, top, counterAfter_last last, error_bind]

private theorem afterKey_fault {host : Host} {b : Book} {key : StringText} {name unread : Buffer}
    {fault : Fault} (readable : key.ReadAsKey host)
    (top : b.structureStack.getLast? = some (name, .DICTIONARY))
    (thrown : readEntry host (b.reading (key.text ++ unread)) = .error fault) :
    (∃ what, fault = .bencode what) ∨ Faulty host b (key.text ++ unread) := by
  cases unread with
  | nil =>
    rw [readEntry_key_end host b readable top] at thrown
    cases thrown
    exact .inl ⟨_, rfl⟩
  | cons c tail =>
    by_cases letter : ∃ kind : Structure, c = kind.letter
    · obtain ⟨kind, rfl⟩ := letter
      rw [readEntry_key_letter host b readable kind tail top] at thrown
      cases thrown
    · have ne : c ≠ 100 ∧ c ≠ 108 :=
        ⟨fun same => letter ⟨.DICTIONARY, same⟩, fun same => letter ⟨.LIST, same⟩⟩
      rw [readEntry_key_value host b readable tail ne top] at thrown
      cases read : readValue host ⟨c :: tail, false, false⟩ with
      | error fault' =>
        rw [read, error_bind] at thrown
        cases thrown
        rcases readValue_fault read with exception | ⟨p, rest, split, noRoom⟩
        · exact .inl exception
        · exact .inr (.value top (by rw [split]) readable noRoom)
      | ok result =>
        rw [read, ok_bind] at thrown
        cases thrown

private theorem readEntry_fault {host : Host} {b : Book} {octets : Buffer} {fault : Fault}
    (thrown : readEntry host (b.reading octets) = .error fault) :
    (∃ what, fault = .bencode what) ∨ Faulty host b octets := by
  have whole := thrown
  unfold readEntry at thrown
  split at thrown
  · cases thrown
    exact .inl ⟨_, rfl⟩
  · next name top =>
    cases read : readElement host ⟨octets, false, false⟩ with
    | error fault' =>
      simp only [Book.reading, read, error_bind] at thrown
      cases thrown
      rcases readElement_fault read with exception | ⟨p, rest, split, noArray⟩
      · exact .inl exception
      · exact .inr (.key top split noArray)
    | ok result =>
      obtain ⟨key, stream⟩ := result
      cases good : stream.good with
      | false =>
        rw [readEntry_cut host b top read (.inl good)] at whole
        cases whole
        exact .inl ⟨_, rfl⟩
      | true =>
        obtain ⟨k, readable, rfl, split, -⟩ := StringText.of_readElement read good
        rw [split] at whole ⊢
        exact afterKey_fault readable top whole
  · next name top =>
    cases read : readValue host ⟨octets, false, false⟩ with
    | error fault' =>
      simp only [Book.reading, read, error_bind] at thrown
      cases thrown
      rcases readValue_fault read with exception | ⟨p, rest, split, noRoom⟩
      · exact .inl exception
      · exact .inr (.item top split noRoom)
    | ok result =>
      simp only [Book.reading, read, ok_bind] at thrown
      cases thrown

/-- Other than by `BEncodeException`, an iteration fails on such octets only. -/
theorem step_fault {host : Host} {b : Book} {octets : Buffer} {fault : Fault}
    (thrown : step host (b.reading octets) = .error fault) :
    (∃ what, fault = .bencode what) ∨ Faulty host b octets := by
  cases octets with
  | nil =>
    obtain ⟨what, exception⟩ := step_nil host b
    rw [exception] at thrown
    cases thrown
    exact .inl ⟨what, rfl⟩
  | cons c tail =>
    rcases Structure.letter_or c with ⟨kind, rfl⟩ | rfl | other
    · rw [step_letter] at thrown
      cases thrown
    · rw [step_closes] at thrown
      unfold closeStructure at thrown
      split at thrown
      · cases thrown
        exact .inl ⟨_, rfl⟩
      · next name kind top =>
        cases counted : counterAfter name kind with
        | ok listCounter =>
          rw [counted] at thrown
          cases thrown
        | error fault' =>
          obtain ⟨rfl, last⟩ := counterAfter_fault counted
          exact .inr (.ending top rfl last)
    · rw [step_other host b other] at thrown
      exact readEntry_fault thrown

/-! ## Inputs -/

/-- A failure is a `BEncodeException`. -/
abbrev OnlyBencode {α : Type} (x : Fallible α) : Prop := Raises (fun fault => ∃ what, fault = .bencode what) x

/-- The input leads the decoder to octets on which an iteration fails in another way. -/
def LeadsToFault (host : Host) (octets : Buffer) : Prop :=
  ∃ ts b rest, Walk host .start octets ts b rest ∧ b.parseEnded = false ∧ Faulty host b rest

theorem LeadsToFault.append {host : Host} {octets : Buffer} (h : LeadsToFault host octets)
    (more : Buffer) : LeadsToFault host (octets ++ more) := by
  obtain ⟨ts, b, rest, walk, running, faulty⟩ := h
  exact ⟨ts, b, rest ++ more, walk.append more, running, faulty.append more⟩

theorem LeadsToFault.thrown {host : Host} {octets : Buffer} (h : LeadsToFault host octets) :
    ∃ fault, parseMessage host (Istream.ofBuffer octets) = .error fault ∧
      ∀ what, fault ≠ .bencode what := by
  obtain ⟨ts, b, rest, walk, running, faulty⟩ := h
  obtain ⟨fault, stepped, differs⟩ := faulty.thrown
  obtain ⟨fuel, -, enough, same⟩ := walk.reaches.loop (octets.length + 1) (Nat.lt_succ_self _)
  obtain ⟨fuel, rfl⟩ : ∃ n, fuel = n + 1 := ⟨fuel - 1, by omega⟩
  have open_ : (!(b.reading rest).stream.eofbit && !(b.reading rest).parseEnded) = true := by
    simp [Book.reading, running]
  have looped : loop host ((Istream.ofBuffer octets).rest.length + 1)
      (BEncodeDecoder.start (Istream.ofBuffer octets)) = .error fault := by
    refine same.trans ?_
    rw [loop, if_pos open_, stepped, error_bind]
  exact ⟨fault, by rw [parseMessage, looped, error_bind], differs⟩

theorem onlyBencode_or (host : Host) (octets : Buffer) :
    OnlyBencode (parseMessage host (Istream.ofBuffer octets)) ∨ LeadsToFault host octets := by
  obtain ⟨ts, b, rest, walk, outcome⟩ := parse_walk host octets
  rcases outcome with ⟨-, parsed⟩ | ⟨running, fault, stepped, parsed⟩ | ⟨what, parsed⟩
  · rw [parsed]
    exact .inl (.ok _)
  · rw [parsed]
    rcases step_fault stepped with exception | faulty
    · exact .inl (.error exception)
    · exact .inr ⟨ts, b, rest, walk, running, faulty⟩
  · rw [parsed]
    exact .inl (.error ⟨what, rfl⟩)

/-- `parseMessage` throws nothing but `BEncodeException`, and has an array and stays inside it,
exactly on the inputs that do not lead to a faulty length or to the end of list number
2147483647. -/
theorem parseMessage_onlyBencode_iff (host : Host) (octets : Buffer) :
    OnlyBencode (parseMessage host (Istream.ofBuffer octets)) ↔ ¬ LeadsToFault host octets := by
  constructor
  · intro orderly leads
    obtain ⟨fault, parsed, differs⟩ := leads.thrown
    obtain ⟨what, same⟩ := orderly fault parsed
    exact differs what same
  · exact (onlyBencode_or host octets).resolve_right

/-- A key of length -1, a key of 8 MiB that the call stack has no room for, a value of length
-1, and a value the free store has no room for. -/
theorem negativeLength_fault :
    parseMessage .x86 (Istream.ofBuffer (ascii "d-1:")) =
      .error (.undefined "array of non-positive size") ∧
    parseMessage .x86 (Istream.ofBuffer (ascii "d8388608:")) = .error .stackOverflow ∧
    parseMessage .x86 (Istream.ofBuffer (ascii "l-1:")) = .error .lengthError ∧
    parseMessage .x86 (Istream.ofBuffer (ascii "l4294967295:")) = .error .badAlloc ∧
    ¬ OnlyBencode (parseMessage .x86 (Istream.ofBuffer (ascii "d-1:"))) := by
  have key : parseMessage .x86 (Istream.ofBuffer (ascii "d-1:")) =
      .error (.undefined "array of non-positive size") := rfl
  refine ⟨key, rfl, rfl, rfl, ?_⟩
  intro orderly
  obtain ⟨what, same⟩ := orderly _ key
  cases same

end TorrentSync.Source.BEncodeDecoder
