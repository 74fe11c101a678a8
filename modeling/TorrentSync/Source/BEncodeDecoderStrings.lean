import TorrentSync.Source.BEncodeDecoderSpec

/-!
# Strings as the decoder reads them

Formatted extraction accepts more in front of a colon than digits: blanks and a sign.
`LengthText` is everything that is read as a length and its colon, `StringText` such a
text with as many octets after it. Both readers are described by the text in front of
them, and a text is read from given octets in one way only.
-/
namespace TorrentSync.Source.BEncodeDecoder

open Lib Decimal

inductive Sign where
  | none | plus | minus
  deriving DecidableEq

def Sign.text : Sign → Buffer
  | .none => []
  | .plus => [43]
  | .minus => [45]

/-- What the extraction of an integer and the following `get` take, when the latter finds
a colon. -/
structure LengthText where
  blanks : Buffer
  sign : Sign
  number : Buffer
  spaces : ∀ c ∈ blanks, Istream.isSpace c = true
  digits : ∀ c ∈ number, isDigit c = true
  nonempty : number ≠ []

namespace LengthText

def text (p : LengthText) : Buffer := p.blanks ++ (p.sign.text ++ (p.number ++ [58]))

def minus (p : LengthText) : Bool := p.sign = .minus

def magnitude (p : LengthText) : Nat := ofDigits p.number

/-- The value as `size_t`: a minus sign wraps around. -/
def value (p : LengthText) : Nat :=
  if p.minus then (2 ^ 64 - p.magnitude) % 2 ^ 64 else p.magnitude

/-- An unsigned decimal number without blanks. -/
def Plain (p : LengthText) : Prop := p.blanks = [] ∧ p.sign = .none

/-- The text after the blanks. -/
def afterBlanks (p : LengthText) (rest : Buffer) : Buffer :=
  p.sign.text ++ (p.number ++ 58 :: rest)

theorem text_append (p : LengthText) (rest : Buffer) :
    p.text ++ rest = p.blanks ++ p.afterBlanks rest := by
  simp [text, afterBlanks]

private theorem digit_range {c : UInt8} (digit : isDigit c = true) : 48 ≤ c.toNat ∧ c.toNat ≤ 57 := by
  simpa [isDigit] using digit

/-- A digit is not a blank, a sign, a colon or one of `d`, `e`, `l`. -/
theorem digit_ne {c : UInt8} (digit : isDigit c = true) :
    Istream.isSpace c = false ∧ c ≠ 43 ∧ c ≠ 45 ∧ c ≠ 100 ∧ c ≠ 101 ∧ c ≠ 108 := by
  have range := digit_range digit
  have apart : ∀ d : UInt8, d.toNat < 48 ∨ 57 < d.toNat → c ≠ d := by
    rintro d outside rfl
    omega
  refine ⟨?_, apart 43 (by decide), apart 45 (by decide), apart 100 (by decide),
    apart 101 (by decide), apart 108 (by decide)⟩
  rw [← Bool.not_eq_true]
  simp only [Istream.isSpace, Bool.or_eq_true, Bool.and_eq_true, beq_iff_eq, decide_eq_true_eq]
  omega

theorem number_cons (p : LengthText) : ∃ d ds, p.number = d :: ds ∧ isDigit d = true := by
  obtain ⟨d, ds, split⟩ := List.exists_cons_of_ne_nil p.nonempty
  exact ⟨d, ds, split, p.digits d (by simp [split])⟩

/-- After the blanks there is a sign or a digit. -/
theorem afterBlanks_cons (p : LengthText) (rest : Buffer) :
    ∃ c tail, p.afterBlanks rest = c :: tail ∧ Istream.isSpace c = false ∧
      (p.sign = .minus ↔ c = 45) ∧ (p.sign = .plus ↔ c = 43) ∧
      c ≠ 100 ∧ c ≠ 101 ∧ c ≠ 108 := by
  obtain ⟨d, ds, split, digit⟩ := p.number_cons
  have ne := digit_ne digit
  cases sign : p.sign with
  | none =>
    refine ⟨d, ds ++ 58 :: rest, by simp [afterBlanks, sign, Sign.text, split], ne.1, ?_, ?_, ne.2.2.2⟩
    · simp [ne.2.2.1]
    · simp [ne.2.1]
  | plus =>
    exact ⟨43, p.number ++ 58 :: rest, by simp [afterBlanks, sign, Sign.text], by decide, by simp,
      by simp, by decide⟩
  | minus =>
    exact ⟨45, p.number ++ 58 :: rest, by simp [afterBlanks, sign, Sign.text], by decide, by simp,
      by simp, by decide⟩

/-- The first octet of a length text is none of `d`, `e`, `l`. -/
theorem text_cons (p : LengthText) (rest : Buffer) :
    ∃ c tail, p.text ++ rest = c :: tail ∧ c ≠ 100 ∧ c ≠ 101 ∧ c ≠ 108 := by
  rw [text_append]
  cases blanks : p.blanks with
  | nil =>
    obtain ⟨c, tail, head, -, -, -, ne⟩ := p.afterBlanks_cons rest
    exact ⟨c, tail, head, ne⟩
  | cons c tail =>
    have space := p.spaces c (by simp [blanks])
    have apart : ∀ d : UInt8, Istream.isSpace d = false → c ≠ d := by
      rintro d notSpace rfl
      rw [space] at notSpace
      cases notSpace
    exact ⟨c, _, rfl, apart 100 (by decide), apart 101 (by decide), apart 108 (by decide)⟩

theorem skip_blanks (p : LengthText) (rest : Buffer) :
    (p.text ++ rest).takeWhile Istream.isSpace = p.blanks ∧
      (p.text ++ rest).dropWhile Istream.isSpace = p.afterBlanks rest := by
  obtain ⟨c, tail, head, notSpace, -⟩ := p.afterBlanks_cons rest
  rw [text_append, List.takeWhile_append_of_pos p.spaces, List.dropWhile_append_of_pos p.spaces, head]
  simp [notSpace]

theorem span_number (p : LengthText) (rest : Buffer) :
    (p.number ++ 58 :: rest).takeWhile isDigit = p.number ∧
      (p.number ++ 58 :: rest).dropWhile isDigit = 58 :: rest := by
  rw [List.takeWhile_append_of_pos p.digits, List.dropWhile_append_of_pos p.digits]
  have stop : isDigit 58 = false := by decide
  simp [stop]

theorem scanNumber_afterBlanks (p : LengthText) (rest : Buffer) :
    Istream.scanNumber (p.afterBlanks rest) = ⟨p.minus, p.number, 58 :: rest⟩ := by
  obtain ⟨taken, left⟩ := p.span_number rest
  obtain ⟨d, ds, split, digit⟩ := p.number_cons
  have ne := digit_ne digit
  unfold Istream.scanNumber minus afterBlanks
  cases p.sign with
  | none =>
    have head : p.number.head?.getD 58 = d := by simp [split]
    simp [Sign.text, head, ne.2.1, ne.2.2.1, taken, left]
  | plus => simp [Sign.text, taken, left]
  | minus => simp [Sign.text, taken, left]

/-- The extraction of an integer in front of a colon. -/
theorem extract_text (accept : Bool → Nat → Option Int) (p : LengthText) (rest : Buffer) :
    Istream.extract accept ⟨p.text ++ rest, false, false⟩ =
      (accept p.minus p.magnitude, ⟨58 :: rest, false, (accept p.minus p.magnitude).isNone⟩) := by
  obtain ⟨c, tail, head, -⟩ := p.afterBlanks_cons rest
  have trimmed := (p.skip_blanks rest).2
  have scanned := p.scanNumber_afterBlanks rest
  rw [head] at trimmed scanned
  simp only [Istream.extract, Istream.good_mk, if_true, trimmed, scanned]
  simp [p.nonempty, magnitude]

/-- The octets that were read before a number that a colon follows. -/
theorem of_extract {accept : Bool → Nat → Option Int} {octets rest : Buffer} {value : Int}
    {s : Istream} (extracted : Istream.extract accept ⟨octets, false, false⟩ = (some value, s))
    (colon : s.rest = 58 :: rest) : ∃ p : LengthText, octets = p.text ++ rest := by
  have split := List.takeWhile_append_dropWhile (p := Istream.isSpace) (l := octets)
  simp only [Istream.extract, Istream.good_mk, if_true] at extracted
  cases trimmed : octets.dropWhile Istream.isSpace with
  | nil => simp [trimmed] at extracted
  | cons c tail =>
    simp only [trimmed, Prod.mk.injEq] at extracted
    obtain ⟨found, rfl⟩ := extracted
    simp only at colon
    have filled : (Istream.scanNumber (c :: tail)).number ≠ [] := by
      intro empty
      simp [empty] at found
    have numeric : ∀ d ∈ (Istream.scanNumber (c :: tail)).number, isDigit d = true :=
      fun d member => List.mem_takeWhile_imp member
    obtain ⟨sign, signed⟩ : ∃ sign : Sign, c :: tail = sign.text ++
        ((Istream.scanNumber (c :: tail)).number ++ (Istream.scanNumber (c :: tail)).rest) := by
      unfold Istream.scanNumber
      simp only [List.takeWhile_append_dropWhile]
      by_cases minus : c = 45
      · exact ⟨.minus, by simp [minus, Sign.text]⟩
      · by_cases plus : c = 43
        · exact ⟨.plus, by simp [plus, Sign.text]⟩
        · exact ⟨.none, by simp [minus, plus, Sign.text]⟩
    generalize Istream.scanNumber (c :: tail) = scan at colon filled numeric signed
    refine ⟨⟨octets.takeWhile Istream.isSpace, sign, scan.number,
      fun d member => List.mem_takeWhile_imp member, numeric, filled⟩, ?_⟩
    rw [trimmed, signed, colon] at split
    simpa [text] using split.symm

/-- A length text is read from given octets in one way only. -/
theorem unique {p q : LengthText} {rest rest' : Buffer} (same : p.text ++ rest = q.text ++ rest') :
    p = q ∧ rest = rest' := by
  have blanks : p.blanks = q.blanks := by
    rw [← (p.skip_blanks rest).1, ← (q.skip_blanks rest').1, same]
  have after : p.afterBlanks rest = q.afterBlanks rest' := by
    rw [← (p.skip_blanks rest).2, ← (q.skip_blanks rest').2, same]
  have scanned := p.scanNumber_afterBlanks rest
  rw [after, q.scanNumber_afterBlanks rest'] at scanned
  simp only [Istream.Scan.mk.injEq, List.cons.injEq, true_and] at scanned
  obtain ⟨c, tail, head, -, isMinus, isPlus, -⟩ := p.afterBlanks_cons rest
  obtain ⟨c', tail', head', -, isMinus', isPlus', -⟩ := q.afterBlanks_cons rest'
  rw [head, head'] at after
  obtain ⟨rfl, -⟩ := List.cons.inj after
  have sign : p.sign = q.sign := by
    cases left : p.sign <;> cases right : q.sign <;> simp_all
  refine ⟨?_, scanned.2.2.symm⟩
  obtain ⟨pb, ps, pn, _, _, _⟩ := p
  obtain ⟨qb, qs, qn, _, _, _⟩ := q
  simp only at blanks sign scanned
  obtain ⟨rfl, rfl, -⟩ := And.intro blanks (And.intro sign trivial)
  obtain ⟨-, rfl, -⟩ := scanned
  rfl

end LengthText

/-- A length text with as many octets after it as it says. -/
structure StringText where
  length : LengthText
  body : Buffer
  exact : length.value = body.length

namespace StringText

def text (s : StringText) : Buffer := s.length.text ++ s.body

/-- A string as it is written in bencoding, though zeros may precede the length. -/
def Plain (s : StringText) : Prop := s.length.Plain

/-- A string is read from given octets in one way only. -/
theorem unique {s t : StringText} {rest rest' : Buffer} (same : s.text ++ rest = t.text ++ rest') :
    s = t ∧ rest = rest' := by
  unfold text at same
  rw [List.append_assoc, List.append_assoc] at same
  obtain ⟨length, after⟩ := LengthText.unique same
  have size : s.body.length = t.body.length := by rw [← s.exact, ← t.exact, length]
  obtain ⟨body, rests⟩ := List.append_inj after size
  refine ⟨?_, rests⟩
  obtain ⟨sl, sb, _⟩ := s
  obtain ⟨tl, tb, _⟩ := t
  simp only at length body
  subst length body
  rfl

/-- The first octet of a string is none of `d`, `e`, `l`. -/
theorem text_cons (s : StringText) (rest : Buffer) :
    ∃ c tail, s.text ++ rest = c :: tail ∧ c ≠ 100 ∧ c ≠ 101 ∧ c ≠ 108 := by
  unfold text
  rw [List.append_assoc]
  exact s.length.text_cons (s.body ++ rest)

/-- What `readElement` returns for the string: it stops at the first NUL. -/
def key (s : StringText) : Buffer := s.body.takeWhile (· ≠ 0)

/-- `readElement` accepts the length: it is an `int` and leaves room for the final NUL, and
there is room for the array. -/
def ReadAsKey (host : Host) (s : StringText) : Prop :=
  Istream.acceptInt s.length.minus s.length.magnitude = some (s.body.length : Int) ∧
    s.body.length < 2 ^ 31 - 1 ∧ host.stackHolds (s.body.length + 1) = true

/-- `readValue` accepts the length: it is a `size_t` and there is room for so many octets. -/
def ReadAsValue (host : Host) (s : StringText) : Prop :=
  Istream.acceptSize s.length.minus s.length.magnitude = some (s.body.length : Int) ∧
    s.body.length ≤ maxSize ∧ host.grants s.body.length = true

end StringText

/-! ## The readers -/

/-- A length as `readElement` takes it is the value of the text. -/
theorem acceptInt_value {p : LengthText} {length : Int} (nonnegative : 0 ≤ length)
    (accepted : Istream.acceptInt p.minus p.magnitude = some length) : (p.value : Int) = length := by
  unfold Istream.acceptInt at accepted
  unfold LengthText.value
  cases minus : p.minus with
  | false => simp_all
  | true =>
    simp only [minus, if_true] at accepted
    split at accepted
    · simp only [Option.some.injEq, Int.ofNat_eq_natCast] at accepted
      have zero : p.magnitude = 0 := by omega
      rw [zero] at accepted ⊢
      simpa using accepted
    · cases accepted

theorem acceptInt_lt {minus : Bool} {magnitude : Nat} {length : Int}
    (accepted : Istream.acceptInt minus magnitude = some length) : length < 2 ^ 31 := by
  have within : ∀ v : Int, (if -2 ^ 31 ≤ v ∧ v < 2 ^ 31 then some v else none) = some length →
      length < 2 ^ 31 := by
    intro v same
    split at same
    · next range =>
      rw [← Option.some.inj same]
      exact range.2
    · cases same
  exact within _ accepted

theorem acceptSize_value {p : LengthText} {length : Int}
    (accepted : Istream.acceptSize p.minus p.magnitude = some length) : (p.value : Int) = length := by
  unfold Istream.acceptSize at accepted
  unfold LengthText.value
  split at accepted
  · cases minus : p.minus <;> simp_all
  · cases accepted

/-- What `readElement` returns for a length that has its array. -/
def elementOf (host : Host) (length : Nat) (rest : Buffer) : Buffer × Istream :=
  let (stored, stream) := Istream.read length ⟨rest, false, false⟩
  ((stored ++ (List.range' stored.length (length - stored.length)).map host.uninitChar).takeWhile (· ≠ 0),
    stream)

theorem elementOf_whole (host : Host) (body rest : Buffer) :
    elementOf host body.length (body ++ rest) = (body.takeWhile (· ≠ 0), ⟨rest, false, false⟩) := by
  simp [elementOf, Istream.read]

theorem elementOf_cut (host : Host) {length : Nat} {rest : Buffer} (short : rest.length < length) :
    (elementOf host length rest).2.good = false := by
  simp [elementOf, Istream.read, Nat.not_le.mpr short, Istream.good]

/-- What `readElement` does after a length text. -/
theorem readElement_text (host : Host) (p : LengthText) (rest : Buffer) :
    readElement host ⟨p.text ++ rest, false, false⟩ =
      match Istream.acceptInt p.minus p.magnitude with
      | none => .error errorReading
      | some length =>
        if length = 2 ^ 31 - 1 then .error (.undefined "signed overflow of length+1")
        else if length < 0 then .error (.undefined "array of non-positive size")
        else if !host.stackHolds (length.toNat + 1) then .error .stackOverflow
        else .ok (elementOf host length.toNat rest) := by
  unfold readElement Istream.extractInt
  rw [p.extract_text]
  cases accepted : Istream.acceptInt p.minus p.magnitude <;> simp [Istream.get, Istream.good, elementOf]

/-- `readElement` returns on a length that is an `int` with a successor and finds room for its
array. -/
theorem readElement_array {host : Host} {p : LengthText} {length : Nat}
    (accepted : Istream.acceptInt p.minus p.magnitude = some (length : Int)) (short : length < 2 ^ 31 - 1)
    (holds : host.stackHolds (length + 1) = true) (rest : Buffer) :
    readElement host ⟨p.text ++ rest, false, false⟩ = .ok (elementOf host length rest) := by
  have notLast : ¬ ((length : Int) = 2 ^ 31 - 1) := by omega
  have notNegative : ¬ ((length : Int) < 0) := by omega
  rw [readElement_text, accepted]
  simp only [notLast, notNegative, if_false, Int.toNat_natCast, holds, Bool.not_true, Bool.false_eq_true]

/-- It returns on no other length. -/
theorem readElement_returned {host : Host} {p : LengthText} {rest : Buffer} {result : Buffer × Istream}
    (returned : readElement host ⟨p.text ++ rest, false, false⟩ = .ok result) :
    Istream.acceptInt p.minus p.magnitude = some (p.value : Int) ∧ p.value < 2 ^ 31 - 1 ∧
      host.stackHolds (p.value + 1) = true ∧ result = elementOf host p.value rest := by
  rw [readElement_text] at returned
  cases accepted : Istream.acceptInt p.minus p.magnitude with
  | none =>
    rw [accepted] at returned
    cases returned
  | some length =>
    simp only [accepted] at returned
    split at returned
    · cases returned
    · next notLast =>
      split at returned
      · cases returned
      · next notNegative =>
        split at returned
        · cases returned
        · next holds =>
          have bound := acceptInt_lt accepted
          have value := acceptInt_value (Int.not_lt.mp notNegative) accepted
          have natural : length.toNat = p.value := by omega
          rw [natural] at holds returned
          exact ⟨congrArg some value.symm, by omega, by simpa using holds, (Except.ok.inj returned).symm⟩

/-- What `readValue` does after a length text. -/
theorem readValue_text (host : Host) (p : LengthText) (rest : Buffer) :
    readValue host ⟨p.text ++ rest, false, false⟩ =
      match Istream.acceptSize p.minus p.magnitude with
      | none => .error errorReading
      | some length =>
        if maxSize < length.toNat then .error .lengthError
        else if !host.grants length.toNat then .error .badAlloc
        else .ok (pushBack length.toNat ⟨rest, false, false⟩) := by
  unfold readValue Istream.extractSize
  rw [p.extract_text]
  cases accepted : Istream.acceptSize p.minus p.magnitude <;> simp [Istream.get, Istream.good]

/-- Octets that do not start with a length text. -/
def NoLength (octets : Buffer) : Prop := ∀ (p : LengthText) (rest : Buffer), octets ≠ p.text ++ rest

private theorem noLength_get {accept : Bool → Nat → Option Int} {octets : Buffer}
    (missing : NoLength octets) {value : Int} {s : Istream}
    (extracted : Istream.extract accept ⟨octets, false, false⟩ = (some value, s)) :
    s.get.1 ≠ some 58 := by
  intro colon
  unfold Istream.get at colon
  split at colon
  · split at colon
    · cases colon
    · next c rest split =>
      simp only [Option.some.injEq] at colon
      obtain ⟨p, same⟩ := LengthText.of_extract extracted (split.trans (by rw [colon]))
      exact missing p rest same
  · cases colon

/-- Without a length text `readElement` throws. -/
theorem readElement_noLength (host : Host) {octets : Buffer} (missing : NoLength octets) :
    ∃ what, readElement host ⟨octets, false, false⟩ = .error (.bencode what) := by
  unfold readElement Istream.extractInt
  cases extracted : Istream.extract Istream.acceptInt ⟨octets, false, false⟩ with
  | mk value s =>
    simp only
    split
    · next length buff good buffEq =>
      have notColon : buff ≠ 58 := by
        rintro rfl
        exact noLength_get missing extracted buffEq
      rw [if_pos notColon]
      exact ⟨_, rfl⟩
    · exact ⟨_, rfl⟩

/-- Without a length text `readValue` throws. -/
theorem readValue_noLength (host : Host) {octets : Buffer} (missing : NoLength octets) :
    ∃ what, readValue host ⟨octets, false, false⟩ = .error (.bencode what) := by
  unfold readValue Istream.extractSize
  cases extracted : Istream.extract Istream.acceptSize ⟨octets, false, false⟩ with
  | mk value s =>
    cases value with
    | none =>
      simp only [Option.map_none]
      split
      · next contradictory _ => cases contradictory
      · exact ⟨_, rfl⟩
    | some value =>
      simp only [Option.map_some]
      split
      · next length separator good _ separatorEq =>
        have notColon : separator ≠ 58 := by
          rintro rfl
          exact noLength_get missing extracted separatorEq
        rw [if_pos notColon]
        exact ⟨_, rfl⟩
      · exact ⟨_, rfl⟩

theorem lengthText_or (octets : Buffer) :
    (∃ (p : LengthText) (rest : Buffer), octets = p.text ++ rest) ∨ NoLength octets := by
  by_cases found : ∃ (p : LengthText) (rest : Buffer), octets = p.text ++ rest
  · exact .inl found
  · exact .inr fun p rest same => found ⟨p, rest, same⟩

/-- The octets a length takes from those that follow it. -/
private theorem take_length {rest : Buffer} {length : Int} (nonnegative : 0 ≤ length)
    (inside : length.toNat ≤ rest.length) :
    ∃ body tail, rest = body ++ tail ∧ length = (body.length : Int) := by
  refine ⟨rest.take length.toNat, rest.drop length.toNat, (List.take_append_drop _ _).symm, ?_⟩
  rw [List.length_take, Nat.min_eq_left inside]
  omega

theorem pushBack_whole (body rest : Buffer) :
    pushBack body.length ⟨body ++ rest, false, false⟩ = (body, ⟨rest, false, false⟩) := by
  simp [pushBack]

namespace StringText

/-- `readElement` reads a string whose length it accepts. -/
theorem ReadAsKey.run {host : Host} {s : StringText} (h : s.ReadAsKey host) (rest : Buffer) :
    readElement host ⟨s.text ++ rest, false, false⟩ = .ok (s.key, ⟨rest, false, false⟩) := by
  obtain ⟨accepted, short, holds⟩ := h
  rw [text, List.append_assoc, readElement_array accepted short holds, elementOf_whole]
  rfl

theorem ReadAsValue.run {host : Host} {s : StringText} (h : s.ReadAsValue host) (rest : Buffer) :
    readValue host ⟨s.text ++ rest, false, false⟩ = .ok (s.body, ⟨rest, false, false⟩) := by
  obtain ⟨accepted, small, granted⟩ := h
  have inside : ¬ maxSize < s.body.length := Nat.not_lt.mpr small
  rw [text, List.append_assoc, readValue_text, accepted]
  simp only [Int.toNat_natCast, inside, granted, if_false, Bool.not_true, Bool.false_eq_true,
    pushBack_whole]

/-- When `readElement` returns and leaves the stream good, it has read a string. -/
theorem of_readElement {host : Host} {octets key : Buffer} {stream : Istream}
    (read : readElement host ⟨octets, false, false⟩ = .ok (key, stream)) (good : stream.good = true) :
    ∃ s : StringText, s.ReadAsKey host ∧ key = s.key ∧ octets = s.text ++ stream.rest ∧
      stream = ⟨stream.rest, false, false⟩ := by
  rcases lengthText_or octets with ⟨p, rest, rfl⟩ | missing
  · obtain ⟨accepted, short, holds, result⟩ := readElement_returned read
    by_cases inside : p.value ≤ rest.length
    · obtain ⟨body, tail, rfl, length⟩ := take_length (Int.natCast_nonneg p.value) inside
      have exact' : p.value = body.length := Int.ofNat.inj length
      rw [exact'] at accepted short holds result
      rw [elementOf_whole] at result
      cases result
      exact ⟨⟨p, body, exact'⟩, ⟨accepted, short, holds⟩, rfl, by simp [text], rfl⟩
    · have cut := elementOf_cut host (Nat.not_le.mp inside)
      rw [← result, good] at cut
      cases cut
  · obtain ⟨what, thrown⟩ := readElement_noLength host missing
    rw [thrown] at read
    cases read

/-- When `readValue` returns and leaves the stream good, it has read a string. -/
theorem of_readValue {host : Host} {octets value : Buffer} {stream : Istream}
    (read : readValue host ⟨octets, false, false⟩ = .ok (value, stream)) (good : stream.good = true) :
    ∃ s : StringText, s.ReadAsValue host ∧ value = s.body ∧ octets = s.text ++ stream.rest ∧
      stream = ⟨stream.rest, false, false⟩ := by
  rcases lengthText_or octets with ⟨p, rest, rfl⟩ | missing
  · rw [readValue_text] at read
    cases accepted : Istream.acceptSize p.minus p.magnitude with
    | none =>
      rw [accepted] at read
      cases read
    | some length =>
      simp only [accepted] at read
      have same := acceptSize_value accepted
      split at read
      · cases read
      · next small =>
        split at read
        · cases read
        · next granted =>
          by_cases inside : length.toNat ≤ rest.length
          · obtain ⟨body, tail, rfl, rfl⟩ := take_length (by omega) inside
            simp only [Int.toNat_natCast] at small granted read
            rw [pushBack_whole] at read
            obtain ⟨whole, rfl⟩ := Prod.mk.inj (Except.ok.inj read)
            exact ⟨⟨p, body, by omega⟩, ⟨accepted, Nat.not_lt.mp small, by simpa using granted⟩,
              whole.symm, by simp [text], rfl⟩
          · simp only [pushBack, inside, if_false] at read
            cases read
            cases good
  · obtain ⟨what, thrown⟩ := readValue_noLength host missing
    rw [thrown] at read
    cases read

end StringText
end TorrentSync.Source.BEncodeDecoder
