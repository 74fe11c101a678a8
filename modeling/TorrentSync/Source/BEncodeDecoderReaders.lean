import TorrentSync.Source.BEncodeDecoderTree

/-!
# The two string readers

Keys go through `readElement` and values through `readValue`. One takes its length as an
`int`, fills an array and converts it up to the first NUL; the other takes a `size_t` and
appends octet by octet. `ReadAlike` says on which streams this makes no difference.
-/
namespace TorrentSync.Source.BEncodeDecoder

open Lib Decimal

/-- Both readers throw a `BEncodeException`, or both return the same octets and leave the
stream at the same position. -/
def ReadersAgree (host : Host) (stream : Istream) : Prop :=
  (∃ what what', readElement host stream = .error (.bencode what) ∧
    readValue host stream = .error (.bencode what')) ∨
  (∃ octets after after', readElement host stream = .ok (octets, after) ∧
    readValue host stream = .ok (octets, after') ∧ after.rest = after'.rest)

/-- A length that both readers take for the same number, whose successor is an `int`, and for
which `readElement` finds room on the call stack and `readValue` in the free store. -/
structure LengthText.FitsBoth (host : Host) (p : LengthText) : Prop where
  small : p.magnitude < 2 ^ 31 - 1
  zero : p.minus = true → p.magnitude = 0
  stack : host.stackHolds (p.magnitude + 1) = true
  store : host.grants p.magnitude = true

/-- The stream is in a failed state, or does not start with a length; or the length is too
large for both readers; or it fits both, no NUL is among the octets it covers, and if the
stream has fewer, the rest of the array of `readElement` happens to hold the octet 255. -/
def ReadAlike (host : Host) (stream : Istream) : Prop :=
  stream.good = false ∨ NoLength stream.rest ∨
  ∃ (p : LengthText) (rest : Buffer), stream.rest = p.text ++ rest ∧
    (2 ^ 64 ≤ p.magnitude ∨
      p.FitsBoth host ∧ (∀ c ∈ rest.take p.magnitude, c ≠ 0) ∧
        ∀ i, rest.length ≤ i → i < p.magnitude → host.uninitChar i = 255)

/-! ## Lengths -/

theorem LengthText.value_eq_magnitude (p : LengthText) (zero : p.minus = true → p.magnitude = 0) :
    p.value = p.magnitude := by
  unfold value
  cases minus : p.minus with
  | false => rfl
  | true => simp [zero minus]

theorem LengthText.FitsBoth.acceptInt {host : Host} {p : LengthText} (h : p.FitsBoth host) :
    Istream.acceptInt p.minus p.magnitude = some (p.magnitude : Int) := by
  obtain ⟨small, zero, -, -⟩ := h
  unfold Istream.acceptInt
  cases minus : p.minus with
  | false =>
    simp only [Bool.false_eq_true, if_false, Int.ofNat_eq_natCast]
    rw [if_pos (by omega)]
  | true => simp [zero minus]

theorem LengthText.FitsBoth.acceptSize {host : Host} {p : LengthText} (h : p.FitsBoth host) :
    Istream.acceptSize p.minus p.magnitude = some (p.magnitude : Int) := by
  obtain ⟨small, zero, -, -⟩ := h
  unfold Istream.acceptSize
  rw [if_pos (by omega)]
  cases minus : p.minus with
  | false => rfl
  | true => simp [zero minus]

/-- `readValue` returns on a length only that finds room. -/
theorem readValue_returned {host : Host} {p : LengthText} {rest : Buffer} {result : Buffer × Istream}
    (returned : readValue host ⟨p.text ++ rest, false, false⟩ = .ok result) :
    host.grants p.value = true := by
  rw [readValue_text] at returned
  cases accepted : Istream.acceptSize p.minus p.magnitude with
  | none =>
    rw [accepted] at returned
    cases returned
  | some length =>
    simp only [accepted] at returned
    split at returned
    · cases returned
    · split at returned
      · cases returned
      · next granted =>
        rw [← acceptSize_value accepted, Int.toNat_natCast] at granted
        simpa using granted

theorem LengthText.FitsBoth.of_returned {host : Host} {p : LengthText} {rest : Buffer}
    {key value : Buffer × Istream} (element : readElement host ⟨p.text ++ rest, false, false⟩ = .ok key)
    (read : readValue host ⟨p.text ++ rest, false, false⟩ = .ok value) : p.FitsBoth host := by
  obtain ⟨accepted, small, stack, -⟩ := readElement_returned element
  have store := readValue_returned read
  have zero : p.minus = true → p.magnitude = 0 := by
    intro minus
    simp only [Istream.acceptInt, minus, if_true, Int.ofNat_eq_natCast] at accepted
    split at accepted
    · have negated := Option.some.inj accepted
      omega
    · cases accepted
  rw [p.value_eq_magnitude zero] at small stack store
  exact ⟨small, zero, stack, store⟩

/-- A length that is a `size_t` gets `readValue` past its own exceptions. -/
theorem readValue_size (host : Host) {p : LengthText} (small : p.magnitude < 2 ^ 64)
    (rest : Buffer) (what : String) :
    readValue host ⟨p.text ++ rest, false, false⟩ ≠ .error (.bencode what) := by
  obtain ⟨length, accepted⟩ : ∃ length, Istream.acceptSize p.minus p.magnitude = some length :=
    ⟨_, if_pos small⟩
  rw [readValue_text, accepted]
  simp only
  split
  · intro same
    cases same
  · split
    · intro same
      cases same
    · intro same
      cases same

/-! ## Octets -/

/-- `read` stores what there is and stops behind it. -/
theorem read_spec (length : Nat) (rest : Buffer) :
    ∃ after, Istream.read length ⟨rest, false, false⟩ = (rest.take length, after) ∧
      after.rest = rest.drop length := by
  unfold Istream.read
  rw [Istream.good_mk, if_pos rfl]
  split
  · exact ⟨_, rfl, rfl⟩
  · next beyond =>
    have short : rest.length ≤ length := Nat.le_of_not_le beyond
    exact ⟨_, by rw [List.take_of_length_le short], (List.drop_eq_nil_of_le short).symm⟩

/-- `readValue` appends what there is and an octet 255 for each one missing. -/
theorem pushBack_spec (length : Nat) (rest : Buffer) :
    ∃ after, pushBack length ⟨rest, false, false⟩ =
        (rest.take length ++ List.replicate (length - rest.length) 255, after) ∧
      after.rest = rest.drop length := by
  unfold pushBack
  split
  · next inside =>
    exact ⟨_, by rw [Nat.sub_eq_zero_of_le inside, List.replicate_zero, List.append_nil], rfl⟩
  · next beyond =>
    have short : rest.length ≤ length := Nat.le_of_not_le beyond
    exact ⟨_, by rw [List.take_of_length_le short], (List.drop_eq_nil_of_le short).symm⟩

/-- What `readElement` has in its array, except for the final NUL. -/
def filled (host : Host) (length : Nat) (rest : Buffer) : Buffer :=
  let stored := rest.take length
  stored ++ (List.range' stored.length (length - stored.length)).map host.uninitChar

theorem readElement_fits (host : Host) {p : LengthText} (fits : p.FitsBoth host) (rest : Buffer) :
    ∃ after, readElement host ⟨p.text ++ rest, false, false⟩ =
      .ok ((filled host p.magnitude rest).takeWhile (· ≠ 0), after) ∧
      after.rest = rest.drop p.magnitude := by
  obtain ⟨after, read, position⟩ := read_spec p.magnitude rest
  refine ⟨after, ?_, position⟩
  rw [readElement_array fits.acceptInt fits.small fits.stack]
  simp only [elementOf, read, filled]

theorem readValue_fits (host : Host) {p : LengthText} (fits : p.FitsBoth host) (rest : Buffer) :
    ∃ after, readValue host ⟨p.text ++ rest, false, false⟩ =
      .ok (rest.take p.magnitude ++ List.replicate (p.magnitude - rest.length) 255, after) ∧
      after.rest = rest.drop p.magnitude := by
  have short : ¬ maxSize < p.magnitude := by have small := fits.small; unfold maxSize; omega
  obtain ⟨after, pushed, position⟩ := pushBack_spec p.magnitude rest
  refine ⟨after, ?_, position⟩
  rw [readValue_text, fits.acceptSize]
  simp only [Int.toNat_natCast, short, fits.store, if_false, Bool.not_true, Bool.false_eq_true, pushed]

/-- A whole list is what an equally long list is cut down to only if nothing was cut. -/
theorem takeWhile_eq_iff {xs ys : Buffer} (p : UInt8 → Bool) (length : xs.length = ys.length) :
    xs.takeWhile p = ys ↔ xs = ys ∧ ∀ x ∈ xs, p x = true := by
  constructor
  · intro cut
    have whole : xs.takeWhile p = xs :=
      (List.takeWhile_prefix p).eq_of_length ((congrArg List.length cut).trans length.symm)
    exact ⟨whole.symm.trans cut, List.takeWhile_eq_self_iff.mp whole⟩
  · rintro ⟨rfl, all⟩
    exact List.takeWhile_eq_self_iff.mpr all

/-- The array up to its first NUL is what `readValue` appends exactly if no octet that was
read is NUL and every octet that was not is 255. -/
theorem filled_eq_iff (host : Host) (length : Nat) (rest : Buffer) :
    (filled host length rest).takeWhile (· ≠ 0) =
        rest.take length ++ List.replicate (length - rest.length) 255 ↔
      (∀ c ∈ rest.take length, c ≠ 0) ∧
        ∀ i, rest.length ≤ i → i < length → host.uninitChar i = 255 := by
  have unread : length - min length rest.length = length - rest.length := by omega
  unfold filled
  rw [takeWhile_eq_iff _ (by simp; omega), List.append_cancel_left_eq, List.eq_replicate_iff]
  simp only [List.length_map, List.length_range', unread, true_and, List.mem_append, List.mem_map,
    List.mem_range'_1, List.length_take]
  constructor
  · rintro ⟨garbage, whole⟩
    refine ⟨fun c member => by simpa using whole c (.inl member), fun i above below => ?_⟩
    exact garbage _ ⟨i, ⟨by omega, by omega⟩, rfl⟩
  · rintro ⟨whole, garbage⟩
    constructor
    · rintro c ⟨i, range, rfl⟩
      exact garbage i (by omega) (by omega)
    · rintro c (member | ⟨i, range, rfl⟩)
      · simpa using whole c member
      · rw [garbage i (by omega) (by omega)]
        rfl

/-! ## Agreement -/

theorem readElement_failed (host : Host) {stream : Istream} (failed : stream.good = false) :
    readElement host stream = .error errorReading := by
  simp [readElement, Istream.extractInt, Istream.extract, failed]

theorem readValue_failed (host : Host) {stream : Istream} (failed : stream.good = false) :
    readValue host stream = .error errorReading := by
  simp [readValue, Istream.extractSize, Istream.extract, failed]

/-- After a length text the readers agree exactly if the length is too large for both, or
fits both and the octets are alike. -/
theorem readers_text_iff (host : Host) (p : LengthText) (rest : Buffer) :
    ReadersAgree host ⟨p.text ++ rest, false, false⟩ ↔ 2 ^ 64 ≤ p.magnitude ∨
      p.FitsBoth host ∧ (∀ c ∈ rest.take p.magnitude, c ≠ 0) ∧
        ∀ i, rest.length ≤ i → i < p.magnitude → host.uninitChar i = 255 := by
  by_cases fits : p.FitsBoth host
  · obtain ⟨after, element, position⟩ := readElement_fits host fits rest
    obtain ⟨after', value, position'⟩ := readValue_fits host fits rest
    have small := fits.small
    rw [or_iff_right (by omega), and_iff_right fits, ← filled_eq_iff]
    constructor
    · rintro (⟨what, what', thrown, -⟩ | ⟨octets, _, _, read, read', -⟩)
      · rw [element] at thrown
        cases thrown
      · rw [element] at read
        rw [value] at read'
        exact (Prod.mk.inj (Except.ok.inj read)).1.trans (Prod.mk.inj (Except.ok.inj read')).1.symm
    · intro same
      rw [same] at element
      exact .inr ⟨_, after, after', element, value, position.trans position'.symm⟩
  · rw [or_iff_left fun within => fits within.1]
    constructor
    · rintro (⟨what, what', -, thrown⟩ | ⟨octets, after, after', element, value, -⟩)
      · exact Nat.le_of_not_lt fun small => readValue_size host small rest what' thrown
      · exact absurd (.of_returned element value) fits
    · intro large
      have noInt : Istream.acceptInt p.minus p.magnitude = none := by
        unfold Istream.acceptInt
        cases p.minus <;> exact if_neg (by simp; omega)
      have noSize : Istream.acceptSize p.minus p.magnitude = none := if_neg (by omega)
      have element : readElement host ⟨p.text ++ rest, false, false⟩ = .error errorReading := by
        rw [readElement_text, noInt]
      have value : readValue host ⟨p.text ++ rest, false, false⟩ = .error errorReading := by
        rw [readValue_text, noSize]
      exact .inl ⟨_, _, element, value⟩

theorem readersAgree_iff (host : Host) (stream : Istream) :
    ReadersAgree host stream ↔ ReadAlike host stream := by
  obtain ⟨octets, eofbit, failbit⟩ := stream
  by_cases good : (⟨octets, eofbit, failbit⟩ : Istream).good = true
  · obtain ⟨rfl, rfl⟩ : eofbit = false ∧ failbit = false := by simpa [Istream.good] using good
    rcases lengthText_or octets with ⟨p, rest, rfl⟩ | missing
    · rw [readers_text_iff]
      constructor
      · intro alike
        exact .inr (.inr ⟨p, rest, rfl, alike⟩)
      · rintro (failed | missing | ⟨q, rest', same, alike⟩)
        · cases failed
        · exact absurd rfl (missing p rest)
        · obtain ⟨rfl, rfl⟩ := LengthText.unique same
          exact alike
    · obtain ⟨what, element⟩ := readElement_noLength host missing
      obtain ⟨what', value⟩ := readValue_noLength host missing
      exact iff_of_true (.inl ⟨what, what', element, value⟩) (.inr (.inl missing))
  · have failed := (Bool.not_eq_true _).mp good
    exact iff_of_true (.inl ⟨_, _, readElement_failed host failed, readValue_failed host failed⟩) (.inl failed)

/-- Both readers return exactly the string, and leave the stream right behind it. -/
def ReadBoth (host : Host) (s rest : Buffer) : Prop :=
  readElement host (Istream.ofBuffer (Bencode.string s ++ rest)) = .ok (s, Istream.ofBuffer rest) ∧
  readValue host (Istream.ofBuffer (Bencode.string s ++ rest)) = .ok (s, Istream.ofBuffer rest)

theorem readBoth_iff (host : Host) {s : Buffer} (short : s.length < 2 ^ 31 - 1) (rest : Buffer) :
    ReadBoth host s rest ↔
      0 ∉ s ∧ host.stackHolds (s.length + 1) = true ∧ host.grants s.length = true := by
  have text : Istream.ofBuffer (Bencode.string s ++ rest) =
      ⟨(StringText.plain s).length.text ++ (s ++ rest), false, false⟩ := by
    rw [← List.append_assoc, ← StringText.plain_text]
    rfl
  constructor
  · rintro ⟨element, value⟩
    rw [text] at element value
    have fits := LengthText.FitsBoth.of_returned element value
    have magnitude : (StringText.plain s).length.magnitude = s.length := (StringText.plain s).exact
    have stack := magnitude ▸ fits.stack
    have store := magnitude ▸ fits.store
    refine ⟨fun zero => ?_, stack, store⟩
    have read := (StringText.plain_readAsKey ⟨short, stack⟩).run rest
    rw [StringText.text, List.append_assoc] at read
    have whole : s = (StringText.plain s).key :=
      (Prod.mk.inj (Except.ok.inj (element.symm.trans read))).1
    have kept := List.takeWhile_eq_self_iff.mp whole.symm 0 zero
    simp at kept
  · rintro ⟨whole, stack, store⟩
    have element := (StringText.plain_readAsKey ⟨short, stack⟩).run rest
    have large : 2 ^ 31 - 1 ≤ maxSize := by decide
    have readable : ReadableValue host s := ⟨short.le.trans large, store⟩
    have value := readable.readAsValue.run rest
    rw [StringText.plain_text] at element value
    rw [StringText.plain_key whole] at element
    exact ⟨element, value⟩

/-- The readers agree exactly on the streams on which they read alike; both return a short
enough string exactly if it has no NUL and finds room on the call stack and in the free
store. -/
theorem readers_agree_iff (host : Host) :
    (∀ stream : Istream, ReadersAgree host stream ↔ ReadAlike host stream) ∧
    (∀ s rest : Buffer, s.length < 2 ^ 31 - 1 → (ReadBoth host s rest ↔
      0 ∉ s ∧ host.stackHolds (s.length + 1) = true ∧ host.grants s.length = true)) :=
  ⟨readersAgree_iff host, fun _ rest short => readBoth_iff host short rest⟩

theorem readers_agree_iff_spam : ReadBoth Host.x86 (ascii "spam") (ascii "e") :=
  ((readers_agree_iff Host.x86).2 (ascii "spam") (ascii "e") (by decide)).mpr
    ⟨by decide, by decide, by decide⟩

/-- The key of one NUL octet is read as the empty key, the value as it is. -/
theorem readers_disagree :
    ¬ ReadersAgree Host.x86 (Istream.ofBuffer [49, 58, 0]) ∧ ¬ ReadBoth Host.x86 [0] [] := by
  have element : readElement Host.x86 (Istream.ofBuffer [49, 58, 0]) = .ok ([], Istream.ofBuffer []) := by
    decide
  have value : readValue Host.x86 (Istream.ofBuffer [49, 58, 0]) = .ok ([0], Istream.ofBuffer []) := by
    decide
  constructor
  · rintro (⟨what, what', thrown, -⟩ | ⟨octets, after, after', read, read', -⟩)
    · rw [element] at thrown
      cases thrown
    · rw [element] at read
      rw [value] at read'
      cases read
      cases read'
  · rintro ⟨read, -⟩
    exact absurd read (by decide)

end TorrentSync.Source.BEncodeDecoder
