import TorrentSync.Source.AppFatal

/-!
# The program on different hosts

The code swaps octets by the byte order of its host, compares octets as plain `char`, and reads
variables it has not written. None of this shows in a run. What does show is for which lengths
`reserve` finds room in the free store, and the array of `readElement` on the call stack.
-/
namespace TorrentSync.Source

open Lib Decimal BEncodeDecoder

/-- Room for the same values in the free store, and for the same keys with their final NUL on
the call stack. -/
structure Host.SameRoom (host host' : Host) : Prop where
  store : ∀ n ≤ maxSize, host.grants n = host'.grants n
  stack : ∀ n < 2 ^ 31 - 1, host.stackHolds (n + 1) = host'.stackHolds (n + 1)

/-! ## The decoder -/

namespace BEncodeDecoder

theorem extractInt_lt {stream : Istream} {length : Int} (found : stream.extractInt.1 = some length) :
    length < 2 ^ 31 := by
  unfold Istream.extractInt Istream.extract at found
  split at found
  · split at found
    · cases found
    · simp only at found
      split at found
      · cases found
      · exact acceptInt_lt found
  · cases found

variable {host host' : Host}

/-- What `readElement` returns depends on the host only if it stopped short, and then the stream
has failed. -/
theorem readElement_hosts (h : host.SameRoom host') (stream : Istream) :
    readElement host stream = readElement host' stream ∨
      ∃ key key' after, readElement host stream = .ok (key, after) ∧
        readElement host' stream = .ok (key', after) ∧ after.good = false := by
  unfold readElement
  simp only
  split
  · next length buff good found _ =>
    split
    · exact .inl rfl
    · split
      · exact .inl rfl
      · next notLast =>
        have bound := extractInt_lt found
        rw [h.stack length.toNat (by omega)]
        split
        · exact .inl rfl
        · split
          · exact .inl rfl
          · unfold Istream.read
            rw [if_pos good]
            split
            · next fits =>
              refine .inl ?_
              rw [List.length_take, Nat.min_eq_left fits, Nat.sub_self]
              rfl
            · exact .inr ⟨_, _, _, rfl, rfl, rfl⟩
  · exact .inl rfl

theorem readValue_hosts (h : host.SameRoom host') (stream : Istream) :
    readValue host stream = readValue host' stream := by
  unfold readValue
  simp only
  split
  · split
    · rfl
    · split
      · rfl
      · next small => rw [h.store _ (Nat.le_of_not_lt small)]
  · rfl

/-- Without its value a key is not kept. -/
theorem readEntry_hosts (h : host.SameRoom host') (s : State) : readEntry host s = readEntry host' s := by
  unfold readEntry
  simp only [readValue_hosts h]
  split
  · rfl
  · rcases readElement_hosts h s.stream with same | ⟨key, key', after, read, read', failed⟩
    · rw [same]
    · have peeked : after.peek = (none, { after with failbit := true }) := by simp [Istream.peek, failed]
      have bad : ({ after with failbit := true } : Istream).good = false := by simp [Istream.good]
      simp only [read, read', ok_bind, peeked, reduceCtorEq, decide_false, Bool.or_false, Bool.false_eq_true,
        if_false, readValue_bad host' bad, error_bind]
  · rfl

theorem step_hosts (h : host.SameRoom host') (s : State) : step host s = step host' s := by
  simp only [step, readEntry_hosts h]

theorem parseMessage_hosts (h : host.SameRoom host') (stream : Istream) :
    parseMessage host stream = parseMessage host' stream := by
  have looped : ∀ fuel s, loop host fuel s = loop host' fuel s := by
    intro fuel
    induction fuel with
    | zero => exact fun _ => rfl
    | succ fuel ih =>
      intro s
      simp only [loop, step_hosts h, ih]
  simp only [parseMessage, looped]

end BEncodeDecoder

/-! ## Messages and runs -/

section Hosts

variable {host host' : Host}

theorem reaction_hosts (h : host.SameRoom host') (node : NodeData) (octets : Buffer) :
    reaction host node octets = reaction host' node octets := by
  have fields : ∀ data, Message.ofFields host data = Message.ofFields host' data := by
    intro data
    simp only [Message.ofFields, Message.bufferEq_query, Message.bufferEq_reply, Message.bufferEq_error,
      Message.bufferEq_ping, Message.bufferEq_findNode]
  have peer : ∀ m : Message, m.getID host = m.getID host' := by
    intro m
    simp only [Message.getID, Message.bufferEq_reply]
  have parsed : Message.parseMessage host octets = Message.parseMessage host' octets := by
    simp only [Message.parseMessage, BEncodeDecoder.parseMessage_hosts h, fields]
  simp only [reaction, parsed, peer]

theorem Responder.run_hosts (h : host.SameRoom host') (node : NodeData) (events : List AppEvent)
    (r : Responder) : r.run host node events = r.run host' node events := by
  have handled : ∀ event (r : Responder), r.handle host node event = r.handle host' node event := by
    intro event r
    unfold Responder.handle
    simp only [reaction_hosts h]
  induction events generalizing r with
  | nil => rfl
  | cons event events ih =>
    rw [Responder.run, Responder.run, Responder.step, Responder.step, handled event r]
    exact congrArg _ (funext ih)

end Hosts

/-! ## Lengths without room -/

/-- The length of a string that does not follow. -/
def lengthText (n : Nat) : LengthText := ⟨[], .none, digits n, by simp, digits_isDigit n, digits_ne_nil n⟩

/-- A structure that ends after the length of its first item or key. -/
def lengthOnly (kind : Structure) (n : Nat) : Buffer := kind.letter :: (lengthText n).text

theorem lengthOnly_length (kind : Structure) {n : Nat} (small : n ≤ maxSize) :
    (lengthOnly kind n).length ≤ MESSAGE_BUFFER_SIZE := by
  have short : (digits n).length ≤ 19 := by
    refine (digits_length_le n 19 (by decide)).mpr (small.trans_lt ?_)
    decide
  have size : (lengthOnly kind n).length = (digits n).length + 2 := by
    simp [lengthOnly, lengthText, LengthText.text, Sign.text]
  have room : 21 ≤ MESSAGE_BUFFER_SIZE := by decide
  omega

/-- The decoder inside of the structure. -/
private def opened (kind : Structure) : Book := Book.start.openStructure kind

private theorem opened_top (kind : Structure) :
    (opened kind).structureStack.getLast? = some ([], kind) := by
  cases kind <;> rfl

private theorem lengthText_acceptSize {n : Nat} (small : n ≤ maxSize) :
    Istream.acceptSize (lengthText n).minus (lengthText n).magnitude = some (n : Int) := by
  have magnitude : (lengthText n).magnitude = n := ofDigits_digits n
  have fits : n < 2 ^ 64 := small.trans_lt (by decide)
  rw [magnitude, Istream.acceptSize, if_pos fits]
  rfl

private theorem lengthText_acceptInt {n : Nat} (small : n < 2 ^ 31 - 1) :
    Istream.acceptInt (lengthText n).minus (lengthText n).magnitude = some (n : Int) := by
  have magnitude : (lengthText n).magnitude = n := ofDigits_digits n
  have minus : (lengthText n).minus = false := rfl
  rw [magnitude, minus]
  simp only [Istream.acceptInt, Bool.false_eq_true, if_false, Int.ofNat_eq_natCast]
  rw [if_pos (by omega)]

section LengthOnly

variable {host : Host} {kind : Structure} {n : Nat} (node : NodeData)

/-- A length that makes the next iteration fail ends the program. -/
private theorem lengthOnly_fatal (faulty : Faulty host (opened kind) (lengthText n).text) :
    reaction host node (lengthOnly kind n) = .fatal := by
  have walk : Walk host .start (lengthOnly kind n) [.opens kind] (opened kind) (lengthText n).text :=
    Walk.cons trivial (by cases kind <;> rfl) (by cases kind <;> rfl) (Walk.nil host (opened kind) _)
  have running : (opened kind).parseEnded = false := by cases kind <;> rfl
  exact (reaction_fatal host node _).mpr (.inl ⟨_, _, _, walk, running, faulty⟩)

/-- One that spoils the stream, or makes the next iteration throw `BEncodeException`, does not. -/
private theorem lengthOnly_ignored
    (outcome : (∃ what, step host ((opened kind).reading (lengthText n).text) = .error (.bencode what)) ∨
      ∃ s, step host ((opened kind).reading (lengthText n).text) = .ok s ∧ s.stream.good = false ∧
        s.parseEnded = false) :
    reaction host node (lengthOnly kind n) = .ignored := by
  have looped : ∀ fuel, loop host (fuel + 2) (BEncodeDecoder.start (Istream.ofBuffer (lengthOnly kind n))) =
      step host ((opened kind).reading (lengthText n).text) >>= loop host fuel := by
    intro fuel
    have first : step host (BEncodeDecoder.start (Istream.ofBuffer (lengthOnly kind n))) =
        .ok ((opened kind).reading (lengthText n).text) := step_letter host .start kind _
    have open_ : (!(BEncodeDecoder.start (Istream.ofBuffer (lengthOnly kind n))).stream.eofbit &&
        !(BEncodeDecoder.start (Istream.ofBuffer (lengthOnly kind n))).parseEnded) = true := rfl
    have open_' : (!((opened kind).reading (lengthText n).text).stream.eofbit &&
        !((opened kind).reading (lengthText n).text).parseEnded) = true := by
      cases kind <;> rfl
    rw [loop, first, if_pos open_, ok_bind, loop, if_pos open_']
  have exception : ∃ what, BEncodeDecoder.parseMessage host (Istream.ofBuffer (lengthOnly kind n)) =
      .error (.bencode what) := by
    obtain ⟨fuel, enough⟩ : ∃ fuel, (lengthOnly kind n).length + 1 = fuel + 2 :=
      ⟨(lengthText n).text.length, rfl⟩
    rw [BEncodeDecoder.parseMessage]
    rw [show (Istream.ofBuffer (lengthOnly kind n)).rest.length + 1 = fuel + 2 from enough, looped]
    rcases outcome with ⟨what, thrown⟩ | ⟨s, stepped, bad, running⟩
    · rw [thrown]
      exact ⟨what, rfl⟩
    · rw [stepped, ok_bind]
      rcases loop_bad fuel bad running with ⟨what, thrown⟩ | ⟨s', open_, ended⟩
      · rw [thrown]
        exact ⟨what, rfl⟩
      · rw [ended, ok_bind, open_]
        exact ⟨_, rfl⟩
  obtain ⟨what, thrown⟩ := exception
  simp only [reaction, Message.parseMessage, thrown]

theorem itemLength_fatal (small : n ≤ maxSize) (refused : host.grants n = false) :
    reaction host node (lengthOnly .LIST n) = .fatal := by
  have noRoom : (lengthText n).NoRoom host :=
    (LengthText.noRoom_iff host _).mpr ⟨n, lengthText_acceptSize small, .inr refused⟩
  exact lengthOnly_fatal node (.item (opened_top .LIST) (List.append_nil _).symm noRoom)

/-- With room for them, octets that are missing only spoil the stream. -/
theorem itemLength_ignored (small : n ≤ maxSize) (positive : 0 < n) (granted : host.grants n = true) :
    reaction host node (lengthOnly .LIST n) = .ignored := by
  have room : ¬ maxSize < n := Nat.not_lt.mpr small
  have read : readValue host ⟨(lengthText n).text, false, false⟩ =
      .ok (List.replicate n 255, ⟨[], true, true⟩) := by
    have value := readValue_text host (lengthText n) []
    rw [List.append_nil, lengthText_acceptSize small] at value
    simpa [room, granted, pushBack, positive.ne'] using value
  obtain ⟨c, tail, head, other⟩ := (lengthText n).text_cons []
  rw [List.append_nil] at head
  refine lengthOnly_ignored node (.inr ?_)
  rw [head, step_other host (opened .LIST) other, ← head, readEntry]
  simp only [Book.reading, opened_top, read, ok_bind]
  exact ⟨_, rfl, rfl, rfl⟩

theorem keyLength_fatal (small : n < 2 ^ 31 - 1) (refused : host.stackHolds (n + 1) = false) :
    reaction host node (lengthOnly .DICTIONARY n) = .fatal := by
  have noArray : (lengthText n).NoArray host :=
    (LengthText.noArray_iff host _).mpr ⟨n, lengthText_acceptInt small, .inr (.inr refused)⟩
  exact lengthOnly_fatal node (.key (opened_top .DICTIONARY) (List.append_nil _).symm noArray)

/-- Nine octets end the program where the call stack has 8 MiB. -/
example : reaction .x86 node (ascii "d8388608:") = .fatal := by
  have octets : ascii "d8388608:" = lengthOnly .DICTIONARY 8388608 := by decide
  rw [octets]
  exact keyLength_fatal node (by decide) (by decide)

/-- With room for its array, a key is read as far as it goes, and its value is missing. -/
theorem keyLength_ignored (small : n < 2 ^ 31 - 1) (holds : host.stackHolds (n + 1) = true) :
    reaction host node (lengthOnly .DICTIONARY n) = .ignored := by
  have read : readElement host ⟨(lengthText n).text, false, false⟩ = .ok (elementOf host n []) := by
    have element := readElement_array (lengthText_acceptInt small) small holds []
    rwa [List.append_nil] at element
  have exhausted : (elementOf host n []).2.rest = [] :=
    List.eq_nil_of_length_eq_zero (Nat.le_zero.mp (Istream.read_rest_le n ⟨[], false, false⟩))
  obtain ⟨c, tail, head, other⟩ := (lengthText n).text_cons []
  rw [List.append_nil] at head
  have thrown : step host ((opened .DICTIONARY).reading (lengthText n).text) = .error errorReading := by
    rw [head, step_other host (opened .DICTIONARY) other, ← head]
    exact readEntry_cut host (opened .DICTIONARY) (opened_top .DICTIONARY) read (.inr exhausted)
  exact lengthOnly_ignored node (.inl ⟨_, thrown⟩)

end LengthOnly

/-! ## Hosts that do not differ -/

namespace App

/-- Hosts on which the program does the same react alike to a datagram that fits the buffer. -/
private theorem react_alike {host host' : Host}
    (alike : ∀ node counter events, (startAndRun host node counter events).toOption.map seen =
      (startAndRun host' node counter events).toOption.map seen)
    (node : NodeData) {octets : Buffer} (short : octets.length ≤ MESSAGE_BUFFER_SIZE) :
    (Responder.start 0).react ⟨.v4 1, 6881⟩ (reaction host node octets) =
      (Responder.start 0).react ⟨.v4 1, 6881⟩ (reaction host' node octets) := by
  have outcome : ∀ h : Host,
      (startAndRun h node 0 [.received 0 false octets ⟨.v4 1, 6881⟩]).toOption.map seen =
        (Responder.start 0).react ⟨.v4 1, 6881⟩ (reaction h node octets) := by
    intro h
    rw [(startAndRun_matches h _ _ _).toOption_seen, Responder.run, Responder.step, Responder.handle,
      List.take_of_length_le short]
    cases (Responder.start 0).react ⟨.v4 1, 6881⟩ (reaction h node octets) <;> rfl
  rw [← outcome host, ← outcome host']
  exact alike node 0 _

/-- Two hosts run the program alike, whatever happens, exactly if they have room for the same
lengths. -/
theorem startAndRun_hosts_iff (host host' : Host) :
    (∀ node counter events, (startAndRun host node counter events).toOption.map seen =
      (startAndRun host' node counter events).toOption.map seen) ↔ host.SameRoom host' := by
  constructor
  · intro alike
    refine ⟨fun n small => ?_, fun n small => ?_⟩
    · rcases Nat.eq_zero_or_pos n with rfl | positive
      · exact (host.grantsSmall 0 (Nat.zero_le _)).trans (host'.grantsSmall 0 (Nat.zero_le _)).symm
      · have same := react_alike alike NodeData.minValue (lengthOnly_length .LIST small)
        cases granted : host.grants n <;> cases granted' : host'.grants n
        · rfl
        · rw [itemLength_fatal _ small granted, itemLength_ignored _ small positive granted'] at same
          cases same
        · rw [itemLength_ignored _ small positive granted, itemLength_fatal _ small granted'] at same
          cases same
        · rfl
    · have large : 2 ^ 31 - 1 ≤ maxSize := by decide
      have same := react_alike alike NodeData.minValue (lengthOnly_length .DICTIONARY (small.le.trans large))
      cases holds : host.stackHolds (n + 1) <;> cases holds' : host'.stackHolds (n + 1)
      · rfl
      · rw [keyLength_fatal _ small holds, keyLength_ignored _ small holds'] at same
        cases same
      · rw [keyLength_ignored _ small holds, keyLength_fatal _ small holds'] at same
        cases same
      · rfl
  · intro h node counter events
    rw [(startAndRun_matches host node counter events).toOption_seen,
      (startAndRun_matches host' node counter events).toOption_seen, Responder.run_hosts h]

end App
end TorrentSync.Source
