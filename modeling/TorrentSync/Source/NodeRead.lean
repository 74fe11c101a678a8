import TorrentSync.Source.Node

/-!
# Reading a node octet by octet

Node.cpp:76-106 and NodeData.cpp:143-174 with every `*begin++` checked against the range.
`Node::read` compares the octets behind the identifier with PEERDATALENGTH only if there
are any, so a range that ends right behind the identifier is accepted and then read past
its end. No other range is.
-/
namespace TorrentSync.Source

/-- The fault of an iterator at or behind `end`. -/
def outsideRange : Fault := .undefined "*begin at or past end"

/-- `*begin++` with the iterator at octet `i` of the range. -/
def octetAt (range : Buffer) (i : Nat) : Fallible UInt8 :=
  match range[i]? with
  | some b => .ok b
  | none => .error outsideRange

theorem octetAt_inside {range : Buffer} {i : Nat} (inside : i < range.length) :
    octetAt range i = .ok range[i] := by
  rw [octetAt, List.getElem?_eq_getElem inside]

theorem octetAt_outside {range : Buffer} {i : Nat} (outside : range.length ≤ i) :
    octetAt range i = .error outsideRange := by
  rw [octetAt, List.getElem?_eq_none outside]

/-- A loop that shifts `count` octets into a word, the first of them at `i`. -/
def shiftFrom {w : Nat} (join : BitVec w → BitVec w → BitVec w) (range : Buffer) :
    Nat → Nat → BitVec w → Fallible (BitVec w × Nat)
  | 0, i, word => .ok (word, i)
  | count + 1, i, word => do
      let b ← octetAt range i
      shiftFrom join range count (i + 1) (join (word <<< 8) (b.toBitVec.setWidth w))

/-- Inside the range the loop folds the octets it passes. -/
theorem shiftFrom_inside {w : Nat} (join : BitVec w → BitVec w → BitVec w) (range : Buffer)
    (count i : Nat) (word : BitVec w) (inside : i + count ≤ range.length) :
    shiftFrom join range count i word =
      .ok (((range.drop i).take count).foldl
        (fun word (b : UInt8) => join (word <<< 8) (b.toBitVec.setWidth w)) word, i + count) := by
  induction count generalizing i word with
  | zero => rfl
  | succ count ih =>
    have here : i < range.length := by omega
    have next : (range.drop i).take (count + 1) = range[i] :: (range.drop (i + 1)).take count := by
      rw [List.drop_eq_getElem_cons here, List.take_succ_cons]
    rw [shiftFrom, octetAt_inside here, ok_bind, ih _ _ (by omega), next, List.foldl_cons,
      show i + 1 + count = i + (count + 1) by omega]

/-- A loop that starts at the end of the range leaves it. -/
theorem shiftFrom_outside {w : Nat} (join : BitVec w → BitVec w → BitVec w) {range : Buffer}
    (count i : Nat) (word : BitVec w) (outside : range.length ≤ i) :
    shiftFrom join range (count + 1) i word = .error outsideRange := by
  rw [shiftFrom, octetAt_outside outside, error_bind]

/-- `NodeData::read`, octet by octet. -/
def NodeData.readOctets (range : Buffer) : Fallible NodeData :=
  if range.length < addressDataLength then
    .error (.invalidArgument "Wrong amount of data to parse")
  else do
    let (p1, begin_) ← shiftFrom (fun p b => p ||| b) range 8 0 0
    let (p2, begin_) ← shiftFrom (fun p b => p ||| b) range 8 begin_ 0
    let (p3, _) ← shiftFrom (fun p b => p ||| b) range 4 begin_ 0
    .ok ⟨p1, p2, p3⟩

theorem NodeData.readOctets_eq (range : Buffer) : readOctets range = read range := by
  unfold readOctets read
  by_cases short : range.length < addressDataLength
  · rw [if_pos short, if_pos short]
  · have enough : 20 ≤ range.length := Nat.le_of_not_lt short
    rw [if_neg short, if_neg short, shiftFrom_inside _ _ 8 0 _ (by omega), ok_bind]
    simp only [shiftFrom_inside _ _ 8 (0 + 8) _ (show 0 + 8 + 8 ≤ range.length by omega), ok_bind,
      shiftFrom_inside _ _ 4 (0 + 8 + 8) _ (show 0 + 8 + 8 + 4 ≤ range.length by omega)]
    rfl

namespace Node

/-- `Node::read`, octet by octet. `NodeData::read` moves its own copy of `begin`. -/
def readOctets (host : Host) (range : Buffer) (n : Node) : Fallible Node := do
  let nodeData ← NodeData.readOctets range
  let begin_ := NodeData.addressDataLength
  if range.length > begin_ && range.length - begin_ < PEERDATALENGTH then
    .error (.invalidArgument "Not enough data to parse Peer contact information")
  else do
    let (address, begin_) ← shiftFrom (fun p b => p + b) range 4 begin_ host.uninitAddress
    let new_address := ntohl host address
    let b ← octetAt range begin_
    let port : BitVec 16 := b.toBitVec.setWidth 16
    let b ← octetAt range (begin_ + 1)
    let port := port <<< 8 + b.toBitVec.setWidth 16
    .ok { n with nodeData := nodeData, endpoint := some ⟨.v4 new_address, ntohs host port⟩ }

/-- Behind the identifier of a long enough range the address and the port are read. -/
private theorem readEndpoint_inside (host : Host) (range : Buffer) (enough : 26 ≤ range.length) :
    shiftFrom (fun p b => p + b) range 4 20 host.uninitAddress =
        .ok (readAddress host ((range.drop 20).take 4), 24) ∧
      ∃ b c, octetAt range 24 = .ok b ∧ octetAt range 25 = .ok c ∧
        readPort (((range.drop 20).drop 4).take 2) =
          b.toBitVec.setWidth 16 <<< 8 + c.toBitVec.setWidth 16 := by
  refine ⟨shiftFrom_inside _ range 4 20 _ (by omega), range[24], range[25],
    octetAt_inside (by omega), octetAt_inside (by omega), ?_⟩
  have two : ((range.drop 20).drop 4).take 2 = [range[24], range[25]] := by
    rw [List.drop_drop, List.drop_eq_getElem_cons (by omega), List.take_succ_cons,
      List.drop_eq_getElem_cons (by omega), List.take_succ_cons, List.take_zero]
  rw [two, readPort, List.foldl_cons, List.foldl_cons, List.foldl_nil]
  simp

theorem readOctets_eq (host : Host) (range : Buffer) (n : Node) :
    n.readOctets host range = n.read host range := by
  unfold readOctets read
  rw [NodeData.readOctets_eq]
  cases identifier : NodeData.read range with
  | error fault => rfl
  | ok nodeData =>
    have enough : 20 ≤ range.length := by
      by_contra short
      rw [NodeData.read_short (by omega)] at identifier
      cases identifier
    simp only [ok_bind, Bool.and_eq_true, decide_eq_true_eq]
    rw [show NodeData.addressDataLength = 20 from rfl, show PEERDATALENGTH = 6 from rfl,
      List.length_drop]
    have guards : range.length > 20 ∧ range.length - 20 < 6 ↔
        range.length - 20 > 0 ∧ range.length - 20 < 6 := by omega
    by_cases refused : range.length - 20 > 0 ∧ range.length - 20 < 6
    · rw [if_pos (guards.mpr refused), if_pos refused]
    · rw [if_neg (mt guards.mp refused), if_neg refused]
      by_cases boundary : range.length = 20
      · have ended : range.length - 20 < 6 := by omega
        rw [if_pos ended, shiftFrom_outside _ 3 20 _ boundary.le, error_bind]
        rfl
      · have further : ¬ range.length - 20 < 6 := by omega
        obtain ⟨address, b, c, first, second, port⟩ := readEndpoint_inside host range (by omega)
        rw [if_neg further, address, ok_bind]
        simp only [first, second, ok_bind, port]

/-- What reading a range of octets has to do: refuse it with std::invalid_argument exactly if
it is too short for a node, and touch no octet outside it. -/
def KeepsRange (size : Nat) (outcome : Fallible Node) : Prop :=
  ((∃ what, outcome = .error (.invalidArgument what)) ↔ size < PACKED_NODE_SIZE) ∧
    ∀ what, outcome ≠ .error (.undefined what)

/-- The three outcomes of reading a range. -/
theorem read_outcome (host : Host) (range : Buffer) (n : Node) :
    (range.length < 26 ∧ range.length ≠ 20 ∧
      ∃ what, n.read host range = .error (.invalidArgument what)) ∨
    (range.length = 20 ∧ n.read host range = .error outsideRange) ∨
    (26 ≤ range.length ∧ ∃ n', n.read host range = .ok n') := by
  by_cases short : range.length < 20
  · refine .inl ⟨by omega, by omega, "Wrong amount of data to parse", ?_⟩
    rw [read, NodeData.read_short short, error_bind]
  · obtain ⟨nodeData, identifier⟩ : ∃ nodeData, NodeData.read range = .ok nodeData := by
      have enough : ¬ range.length < NodeData.addressDataLength := short
      rw [NodeData.read, if_neg enough]
      exact ⟨_, rfl⟩
    simp only [read, identifier, ok_bind, NodeData.addressDataLength, PEERDATALENGTH,
      List.length_drop, Bool.and_eq_true, decide_eq_true_eq]
    by_cases refused : range.length - 20 > 0 ∧ range.length - 20 < 6
    · exact .inl ⟨by omega, by omega, _, if_pos refused⟩
    · rw [if_neg refused]
      by_cases boundary : range.length = 20
      · exact .inr (.inl ⟨boundary, if_pos (by omega)⟩)
      · exact .inr (.inr ⟨by omega, _, if_neg (by omega)⟩)

/-- Reading keeps to the range unless it ends right behind the identifier. -/
theorem readOctets_keepsRange_iff (host : Host) (range : Buffer) :
    (∀ n : Node, KeepsRange range.length (n.readOctets host range) ↔ range.length ≠ 20) ∧
    ∀ now, KeepsRange range.length (ofRange host now range) ↔ range.length ≠ 20 := by
  have all : ∀ n : Node, KeepsRange range.length (n.read host range) ↔ range.length ≠ 20 := by
    intro n
    rcases n.read_outcome host range with ⟨short, other, what, thrown⟩ | ⟨boundary, left⟩ |
      ⟨enough, n', returned⟩
    · refine iff_of_true ⟨iff_of_true ⟨what, thrown⟩ short, ?_⟩ other
      rw [thrown]
      intro what' same
      cases same
    · refine iff_of_false (fun kept => kept.2 _ left) (not_not.mpr boundary)
    · refine iff_of_true ⟨iff_of_false ?_ (Nat.not_lt.mpr enough), ?_⟩ (by omega)
      · rintro ⟨what, thrown⟩
        rw [returned] at thrown
        cases thrown
      · rw [returned]
        intro what same
        cases same
  refine ⟨fun n => ?_, fun now => all _⟩
  rw [readOctets_eq]
  exact all n

/-- Twenty octets are neither refused nor enough. -/
theorem readOctets_twenty :
    ofRange Host.x86 0 (List.replicate 20 1) = .error outsideRange ∧
      readOctets Host.x86 (List.replicate 20 1) ⟨NodeData.minValue, 0, 0, none⟩ =
        .error outsideRange ∧
      ¬ KeepsRange 20 (readOctets Host.x86 (List.replicate 20 1) ⟨NodeData.minValue, 0, 0, none⟩) := by
  have left : readOctets Host.x86 (List.replicate 20 1) ⟨NodeData.minValue, 0, 0, none⟩ =
      .error outsideRange := rfl
  exact ⟨rfl, left, fun kept => kept.2 _ left⟩

end Node
end TorrentSync.Source
