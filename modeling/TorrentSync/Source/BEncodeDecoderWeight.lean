import TorrentSync.Lib.ListParts
import TorrentSync.Source.BEncodeDecoderTree

/-!
# What the decoder reads for an entry

Every entry of the data map was read from octets of its own: its value in bencoding and, unless
it is numbered by its place in a list, at least the last name of its path.
-/
namespace TorrentSync.Source

open Lib Decimal Bencode ListParts

namespace DataMap

/-- The part of a path after its last '/'. -/
def lastName (path : Buffer) : Buffer := path.rtakeWhile (· ≠ 47)

/-- The octets an entry is known to take. -/
def entryWeight (e : Buffer × Buffer) : Nat :=
  (if (lastName e.1).all isDigit then 0 else (lastName e.1).length + 2) + (string e.2).length

def weight (data : DataMap) : Nat := (data.entries.map entryWeight).sum

theorem weight_insert_le (data : DataMap) (key value : Buffer) :
    (data.insert key value).weight ≤ data.weight + entryWeight (key, value) := by
  unfold insert
  split
  · exact Nat.le_add_right _ _
  · simp [weight]

end DataMap

namespace BEncodeDecoder

/-! ## Strings -/

theorem LengthText.number_length_le (p : LengthText) : p.number.length + 1 ≤ p.text.length := by
  simp only [text, List.length_append, List.length_singleton]
  omega

theorem StringText.key_length_le (s : StringText) : s.key.length + 2 ≤ s.text.length := by
  have size := s.length.number_length_le
  have positive := List.length_pos_iff.mpr s.length.nonempty
  have cut : s.key.length ≤ s.body.length := (List.takeWhile_prefix _).length_le
  rw [text, List.length_append]
  omega

/-- A negative number stands for a length only if it is far beyond it. -/
theorem StringText.ReadAsValue.le_magnitude {host : Host} {s : StringText} (h : s.ReadAsValue host) :
    s.body.length ≤ s.length.magnitude := by
  obtain ⟨accepted, small, -⟩ := h
  unfold Istream.acceptSize at accepted
  unfold maxSize at small
  split at accepted
  · cases minus : s.length.minus with
    | false =>
      simp only [minus, Bool.false_eq_true, if_false, Option.some.injEq, Int.ofNat_eq_natCast] at accepted
      omega
    | true =>
      simp only [minus, if_true, Option.some.injEq, Int.ofNat_eq_natCast] at accepted
      omega
  · cases accepted

theorem StringText.ReadAsValue.string_length_le {host : Host} {s : StringText} (h : s.ReadAsValue host) :
    (string s.body).length ≤ s.text.length := by
  have below : s.body.length < 10 ^ s.length.number.length :=
    h.le_magnitude.trans_lt (ofDigits_lt s.length.digits)
  have few := (digits_length_le s.body.length _ (List.length_pos_iff.mpr s.length.nonempty)).mpr below
  have size := s.length.number_length_le
  rw [string_length, text, List.length_append]
  omega

/-! ## Tokens -/

/-- A path ends with the separator. -/
theorem pathOf_ends (stack : List (Buffer × Structure)) :
    ∀ x ∈ (pathOf stack).getLast?, decide (x ≠ 47) = false := by
  cases stack using List.reverseRecOn with
  | nil => simp [pathOf]
  | append_singleton stack top =>
    obtain ⟨name, kind⟩ := top
    rw [pathOf_push, inside]
    split
    · intro x last
      have slash : ascii "/" = [47] := rfl
      rw [slash, List.getLast?_concat] at last
      cases last
      rfl
    · next empty =>
      rw [List.eq_nil_of_length_eq_zero (Nat.eq_zero_of_not_pos empty)]
      simp

theorem entryWeight_key_le (stack : List (Buffer × Structure)) (key value : Buffer) :
    DataMap.entryWeight (pathOf stack ++ key, value) ≤ key.length + 2 + (string value).length := by
  have short : (DataMap.lastName (pathOf stack ++ key)).length ≤ key.length :=
    (rtakeWhile_append_suffix (pathOf_ends stack) key).length_le
  simp only [DataMap.entryWeight]
  split <;> omega

theorem entryWeight_item (stack : List (Buffer × Structure)) (n : Nat) (value : Buffer) :
    DataMap.entryWeight (pathOf stack ++ digits n, value) = (string value).length := by
  have number : (DataMap.lastName (pathOf stack ++ digits n)).all isDigit = true := by
    rw [List.all_eq_true]
    intro b member
    exact digits_isDigit n b ((rtakeWhile_append_suffix (pathOf_ends stack) (digits n)).subset member)
  simp only [DataMap.entryWeight, number, if_true, Nat.zero_add]

/-- The octets that the structures of a book took: the letter of the first and its end. -/
def frameWeight (b : Book) : Nat := if b.parseEnded then 2 else if b.structureStack = [] then 0 else 1

/-- No token adds more than its octets. -/
theorem act_weight {host : Host} {b b' : Book} {t : Token} (readable : t.Readable host)
    (acts : b.act t = some b') :
    b'.data.weight + frameWeight b' ≤ b.data.weight + frameWeight b + t.text.length := by
  obtain ⟨running, acts⟩ := Book.act_iff.mp acts
  have opened : ∀ kind (c : Book), c.parseEnded = false →
      (c.openStructure kind).data = c.data ∧ frameWeight (c.openStructure kind) = 1 := by
    intro kind c running
    cases kind <;> simp [Book.openStructure, frameWeight, running]
  have inside : ∀ {name kind}, b.structureStack.getLast? = some (name, kind) → frameWeight b = 1 := by
    intro name kind top
    have nonempty : b.structureStack ≠ [] := by
      intro empty
      rw [empty] at top
      cases top
    simp [frameWeight, running, nonempty]
  cases acts with
  | @message kind outside =>
    obtain ⟨data, frame⟩ := opened kind b running
    rw [data, frame]
    simp only [Token.text, List.length_singleton]
    omega
  | @nested kind name top =>
    obtain ⟨data, frame⟩ := opened kind b running
    rw [data, frame, inside top]
    omega
  | @bare kind name top =>
    obtain ⟨data, frame⟩ := opened kind b running
    rw [data, frame, inside top]
    omega
  | @sub key kind name top =>
    obtain ⟨data, frame⟩ := opened kind { b with lastToken := key.key } running
    rw [data, frame, inside top]
    simp only
    omega
  | @entry key value name top =>
    have frame : frameWeight { b with data := b.data.insert (pathOf b.structureStack ++ key.key) value.body } =
      frameWeight b := rfl
    have added := DataMap.weight_insert_le b.data (pathOf b.structureStack ++ key.key) value.body
    have weight := entryWeight_key_le b.structureStack key.key value.body
    have named := key.key_length_le
    have size := readable.2.string_length_le
    rw [frame]
    simp only [Token.text, List.length_append]
    omega
  | @item value name top =>
    have added := DataMap.weight_insert_le b.data (pathOf b.structureStack ++ digits b.listCounter) value.body
    rw [entryWeight_item] at added
    have size := StringText.ReadAsValue.string_length_le readable
    have frame : frameWeight { b with
        listCounter := b.listCounter + 1
        data := b.data.insert (pathOf b.structureStack ++ digits b.listCounter) value.body } =
      frameWeight b := rfl
    rw [frame]
    simp only [Token.text]
    omega
  | @closes name kind listCounter top counted =>
    have frame : frameWeight { b with
        listCounter := listCounter
        structureStack := b.structureStack.dropLast
        parseEnded := b.structureStack.dropLast.isEmpty } ≤ 2 := by
      unfold frameWeight
      split
      · exact Nat.le_refl _
      · split <;> omega
    rw [inside top]
    simp only [Token.text, List.length_singleton]
    omega

theorem run_weight {host : Host} {ts : List Token} {b b' : Book} (readable : ∀ t ∈ ts, t.Readable host)
    (runs : Book.run ts b = some b') :
    b'.data.weight + frameWeight b' ≤ b.data.weight + frameWeight b + (texts ts).length := by
  induction ts generalizing b with
  | nil =>
    cases runs
    exact Nat.le_refl _
  | cons t ts ih =>
    obtain ⟨next, acts, later⟩ := Option.bind_eq_some_iff.mp runs
    have first := act_weight (readable t List.mem_cons_self) acts
    have rest := ih (fun u member => readable u (List.mem_cons_of_mem _ member)) later
    rw [texts_cons, List.length_append]
    omega

/-- The entries of an accepted message weigh no more than the octets between its two letters. -/
theorem parseMessage_weight {host : Host} {octets : Buffer} {data : DataMap} {stream : Istream}
    (returned : parseMessage host (Istream.ofBuffer octets) = .ok (data, stream)) :
    data.weight + 2 + stream.rest.length ≤ octets.length := by
  obtain ⟨ts, b, accepted, rfl, -⟩ := parse_accepted returned
  have total := run_weight accepted.readable accepted.runs
  have frame : frameWeight b = 2 := by simp [frameWeight, accepted.ended]
  have empty : (Book.start.data).weight + frameWeight .start = 0 := rfl
  rw [frame, empty] at total
  rw [accepted.split, List.length_append]
  omega

end BEncodeDecoder
end TorrentSync.Source
