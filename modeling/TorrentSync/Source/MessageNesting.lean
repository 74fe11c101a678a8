import TorrentSync.Source.BEncodeDecoderGrammar
import TorrentSync.Source.BEncodeDecoderOrigin
import TorrentSync.Source.MessageFields

/-!
# Where the fields of a query come from

`Message::parseMessage` looks its fields up by joined paths. Where the keys of a message are
clean, an accepted query holds these fields where the protocol puts them; a key that holds a
'/' itself can stand for a nested field that is not there.
-/
namespace TorrentSync.Source

open Lib Decimal Bencode BEncodeDecoder

/-- A dictionary holds a string under a key. -/
def Holds (entries : List (Buffer × Value)) (key value : Buffer) : Prop := (key, .str value) ∈ entries

/-- It holds under one key a dictionary that holds a string under another. -/
def HoldsNested (entries : List (Buffer × Value)) (outer inner value : Buffer) : Prop :=
  ∃ arguments, (outer, .dict arguments) ∈ entries ∧ Holds arguments inner value

/-- A ping query whose fields are where they belong. -/
structure GenuinePing (host : Host) (entries : List (Buffer × Value)) (m : Message) : Prop where
  type : Holds entries Field.Type Type.Query
  name : Holds entries Field.Query Messages.Ping
  id : ∃ id, HoldsNested entries Field.Arguments Field.PeerID id ∧ m.getID host = .ok id

/-- A find_node query whose fields are where they belong. -/
structure GenuineFindNode (host : Host) (entries : List (Buffer × Value)) (m : Message) : Prop where
  type : Holds entries Field.Type Type.Query
  name : Holds entries Field.Query Messages.FindNode
  target : ∃ target, HoldsNested entries Field.Arguments Field.Target target ∧
    Query.FindNode.getTarget m = .ok target
  id : ∀ id, m.getID host = .ok id → HoldsNested entries Field.Arguments Field.PeerID id

theorem DataMap.mem_of_find {data : DataMap} {key value : Buffer} (found : data.find key = some value) :
    (key, value) ∈ data.entries := by
  obtain ⟨before, after, split, -⟩ := List.lookup_eq_some_iff.mp found
  simp [split]

theorem Field.nested_eq (outer inner : Buffer) : Field.nested outer inner = joined 47 [outer, inner] := by
  have slash : ascii "/" = [47] := rfl
  simp [Field.nested, joined, slash]

/-- A name with a letter is no position. -/
theorem ne_digits {name : Buffer} (letter : name.all isDigit = false) (i : Nat) : name ≠ digits i := by
  rintro rfl
  have numeric : (digits i).all isDigit = true := List.all_eq_true.mpr (digits_isDigit i)
  rw [numeric] at letter
  cases letter

/-- The data map holds nothing but leaves under the keys that lead to them. -/
structure Traced (entries : List (Buffer × Value)) (data : DataMap) : Prop where
  clean : ∀ e ∈ entries, CleanKey e.1
  origin : ∀ e ∈ data.entries, ∃ k v, (k, v) ∈ entries ∧ Origin [] k v e

namespace Traced

variable {entries : List (Buffer × Value)} {data : DataMap}

theorem holds (h : Traced entries data) {key value : Buffer} (plain : 47 ∉ key)
    (found : data.find key = some value) : Holds entries key value := by
  obtain ⟨k, v, member, origin⟩ := h.origin _ (DataMap.mem_of_find found)
  obtain ⟨rfl, rfl⟩ := origin.direct plain
  exact member

theorem holdsNested (h : Traced entries data) {outer inner value : Buffer} (plainOuter : 47 ∉ outer)
    (plainInner : 47 ∉ inner) (letter : inner.all isDigit = false)
    (found : data.find (Field.nested outer inner) = some value) :
    HoldsNested entries outer inner value := by
  rw [Field.nested_eq] at found
  obtain ⟨k, v, member, origin⟩ := h.origin _ (DataMap.mem_of_find found)
  obtain ⟨rfl, arguments, rfl, inside⟩ :=
    origin.nested (h.clean _ member) plainOuter plainInner (ne_digits letter)
  exact ⟨arguments, member, inside⟩

/-- The peer id is the nested field or missing. -/
theorem getID (h : Traced entries data) (host : Host) {dynamicType : MessageClass} {id : Buffer}
    (query : data.find Field.Type = some Type.Query)
    (returned : Message.getID host ⟨dynamicType, data⟩ = .ok id) :
    HoldsNested entries Field.Arguments Field.PeerID id := by
  have other : Type.Query ≠ Type.Reply := by decide
  rw [Message.getID_eq host (m := ⟨dynamicType, data⟩) query, if_neg other] at returned
  exact h.holdsNested (by decide) (by decide) rfl (Message.require_eq_ok.mp returned)

theorem genuine (h : Traced entries data) (host : Host) {m : Message}
    (created : Message.ofFields host data = .ok (some m)) :
    (m.dynamicType = .queryPing → GenuinePing host entries m) ∧
    (m.dynamicType = .queryFindNode → GenuineFindNode host entries m) := by
  rcases Message.ofFields_cases created with ⟨rfl, -⟩ | ⟨rfl, query, named, id, found⟩ |
    ⟨rfl, query, named, target, found⟩
  · exact ⟨nofun, nofun⟩
  · refine ⟨fun _ => ⟨h.holds (by decide) query, h.holds (by decide) named, id, ?_, ?_⟩, nofun⟩
    · exact h.holdsNested (by decide) (by decide) rfl found
    · exact Message.getID_query host query found
  · refine ⟨nofun, fun _ => ⟨h.holds (by decide) query,
      h.holds (by decide) named, ⟨target, ?_, ?_⟩, fun id => h.getID host query⟩⟩
    · exact h.holdsNested (by decide) (by decide) rfl found
    · have found' : Message.find (Field.nested Field.Arguments Field.Target) ⟨.queryFindNode, data⟩ =
        some target := found
      rw [Query.FindNode.getTarget, found']

end Traced

/-! ## Accepted messages -/

/-- Only the keys and values of a token matter to the decoder. -/
theorem act_canonical (b : Book) (t : Token) : b.act t.canonical = b.act t := by
  have body : ∀ s : StringText, (StringText.plain s.body).body = s.body := fun _ => rfl
  have key : ∀ s : StringText, (StringText.plain s.body).key = s.key := fun _ => rfl
  unfold Book.act
  cases b.parseEnded with
  | true => rfl
  | false =>
    cases b.structureStack.getLast? with
    | none => cases t <;> rfl
    | some last =>
      obtain ⟨name, kind⟩ := last
      cases kind <;> cases t <;> simp only [Token.canonical, body, key]

theorem run_canonical (ts : List Token) (b : Book) :
    Book.run (ts.map Token.canonical) b = Book.run ts b := by
  induction ts generalizing b with
  | nil => rfl
  | cons t ts ih =>
    rw [List.map_cons, Book.run, Book.run, act_canonical]
    cases b.act t with
    | none => rfl
    | some next => exact ih next

/-- What the decoder makes of a bencoded list or dictionary. -/
theorem decoded_value {host : Host} {v : Value} {octets rest : Buffer} {data : DataMap}
    {stream : Istream} (bencoded : IsBencoding v octets) (container : v.isContainer = true)
    (decoded : BEncodeDecoder.parseMessage host (Istream.ofBuffer (octets ++ rest)) = .ok (data, stream)) :
    ∃ b, Book.run (itemTokens v) .start = some b ∧ data = b.data := by
  rcases value_cases v with ⟨s, rfl⟩ | ⟨frame, rfl⟩
  · cases container
  · obtain ⟨ts, b, accepted, rfl, -⟩ := parse_accepted decoded
    obtain ⟨-, same, -⟩ := accepted.tokens bencoded
    exact ⟨b, by rw [← same, run_canonical, accepted.runs], rfl⟩

theorem wholeKeys_of_clean {v : Value} (clean : Clean v) : WholeKeys v :=
  clean.1.combine (fun _ clean _ => clean.2.2) (fun _ _ _ => trivial) clean.1

theorem Tracks.isContainer {v : Value} (tracks : Tracks v) : v.isContainer = true := by
  cases v with
  | str s => exact absurd tracks id
  | list items => rfl
  | dict entries => rfl

/-- Where the decoder keeps track, the data map is that of the tree. -/
theorem decoded_tracked {host : Host} {v : Value} {octets rest : Buffer} {data : DataMap}
    {stream : Istream} (bencoded : IsBencoding v octets) (clean : Clean v) (tracks : Tracks v)
    (decoded : BEncodeDecoder.parseMessage host (Istream.ofBuffer (octets ++ rest)) = .ok (data, stream)) :
    data.entries = joinedLeaves v := by
  obtain ⟨b, runs, rfl⟩ := decoded_value bencoded (Tracks.isContainer tracks) decoded
  obtain ⟨b', runs', -, inserted⟩ := run_message v (wholeKeys_of_clean clean) tracks
  obtain rfl : b = b' := Option.some.inj (runs.symm.trans runs')
  rw [inserted, insertAll_message clean tracks]

/-- A list has no field with a letter in front. -/
theorem list_noField {items : List Value} {data : DataMap} (same : data.entries = joinedLeaves (.list items))
    {c : UInt8} {key : Buffer} (letter : isDigit c = false) : data.find (c :: key) = none := by
  cases found : data.find (c :: key) with
  | none => rfl
  | some value =>
    have member := DataMap.mem_of_find found
    rw [same] at member
    obtain ⟨p, among, shape⟩ := List.mem_map.mp member
    obtain ⟨j, names, -, split⟩ := pathsAt_head among
    obtain ⟨d, ds, position⟩ := List.exists_cons_of_ne_nil (digits_ne_nil j)
    have digit : isDigit d = true := digits_isDigit j d (by simp [position])
    rw [split, position] at shape
    obtain ⟨rfl, -⟩ := List.cons.inj (Prod.mk.inj shape).1
    rw [digit] at letter
    cases letter

/-- With clean keys an accepted query is a dictionary and holds its fields where they belong,
and where the decoder keeps track of its position every leaf has a key of its own. -/
theorem parseMessage_genuine (host : Host) (v : Value) (octets rest : Buffer)
    (bencoded : IsBencoding v octets) (clean : Clean v) :
    ((∃ entries, v = .dict entries) ∨ Tracks v → ∀ m,
      Message.parseMessage host (octets ++ rest) = .ok (some m) →
      (m.dynamicType = .queryPing → ∃ entries, v = .dict entries ∧ GenuinePing host entries m) ∧
      (m.dynamicType = .queryFindNode →
        ∃ entries, v = .dict entries ∧ GenuineFindNode host entries m)) ∧
    (Tracks v → ∀ data stream,
      BEncodeDecoder.parseMessage host (Istream.ofBuffer (octets ++ rest)) = .ok (data, stream) →
      data.entries.length = (paths v).length) := by
  constructor
  · intro shape m parsed
    unfold Message.parseMessage at parsed
    split at parsed
    · next data stream decoded =>
      cases v with
      | str s =>
        rcases shape with ⟨entries, impossible⟩ | tracks
        · cases impossible
        · exact absurd tracks id
      | list items =>
        have tracks : Tracks (.list items) := shape.resolve_left (by rintro ⟨entries, same⟩; cases same)
        have missing : data.find Field.Type = none :=
          list_noField (decoded_tracked bencoded clean tracks decoded) rfl
        simp [Message.ofFields, missing] at parsed
      | dict entries =>
        obtain ⟨b, runs, rfl⟩ := decoded_value bencoded rfl decoded
        have traced : Traced entries b.data :=
          ⟨eachEntry_key clean.1, fun e member => origin_of_run clean.1 runs member⟩
        obtain ⟨ping, findNode⟩ := traced.genuine host parsed
        exact ⟨fun isPing => ⟨entries, rfl, ping isPing⟩,
          fun isFindNode => ⟨entries, rfl, findNode isFindNode⟩⟩
    · cases parsed
    · cases parsed
  · intro tracks data stream decoded
    rw [decoded_tracked bencoded clean tracks decoded, joinedLeaves, List.length_map]

/-- A ping query as the protocol writes it. -/
def samplePing : Value :=
  .dict [(Field.Arguments, .dict [(Field.PeerID, .str (ascii "abcdefghij0123456789"))]),
    (Field.Query, .str Messages.Ping), (Field.TransactionID, .str (ascii "aa")),
    (Field.Type, .str Type.Query)]

theorem parseMessage_genuine_ping :
    ∃ m data stream, Message.parseMessage .x86 (encode samplePing ++ []) = .ok (some m) ∧
      (∃ entries, samplePing = .dict entries ∧ GenuinePing .x86 entries m) ∧
      BEncodeDecoder.parseMessage .x86 (Istream.ofBuffer (encode samplePing ++ [])) = .ok (data, stream) ∧
      data.entries.length = (paths samplePing).length := by
  have clean : Clean samplePing := by
    refine ⟨?_, ?_⟩
    · simp only [samplePing, Each, EachEntry, CleanKey]
      decide
    · simp only [samplePing, DistinctKeys, DistinctKeysEntries]
      decide
  have tracks : Tracks samplePing := by
    simp [samplePing, Tracks, TracksEntries, TracksEntry]
  have genuine := parseMessage_genuine .x86 samplePing (encode samplePing) [] (isBencoding_encode _) clean
  exact ⟨⟨.queryPing, ⟨[(ascii "a/id", ascii "abcdefghij0123456789"), (ascii "q", ascii "ping"),
      (ascii "t", ascii "aa"), (ascii "y", ascii "q")], by decide⟩⟩, _, _, rfl,
    (genuine.1 (.inl ⟨_, rfl⟩) _ rfl).1 rfl, rfl, genuine.2 tracks _ _ rfl⟩

/-- A key `a/id` stands for the field of a dictionary `a` that is not there, and takes the
place of one that is. -/
theorem slashInKey_forged :
    (∃ m entries, Message.parseMessage .x86 (encode (.dict entries)) = .ok (some m) ∧
      encode (.dict entries) = ascii "d4:a/id20:abcdefghij01234567891:q4:ping1:t2:aa1:y1:qe" ∧
      m.dynamicType = .queryPing ∧ ∀ v, (Field.Arguments, v) ∉ entries) ∧
    ∃ data stream v, BEncodeDecoder.parseMessage .x86 (Istream.ofBuffer (encode v)) = .ok (data, stream) ∧
      encode v = ascii "d1:ad2:id1:xe4:a/id1:ye" ∧ (paths v).length = 2 ∧ data.entries.length = 1 := by
  refine ⟨⟨⟨.queryPing, ⟨[(ascii "a/id", ascii "abcdefghij0123456789"), (ascii "q", ascii "ping"),
      (ascii "t", ascii "aa"), (ascii "y", ascii "q")], by decide⟩⟩,
    [(ascii "a/id", .str (ascii "abcdefghij0123456789")), (ascii "q", .str (ascii "ping")),
      (ascii "t", .str (ascii "aa")), (ascii "y", .str (ascii "q"))], rfl, rfl, rfl, ?_⟩,
    ⟨[(ascii "a/id", ascii "x")], by decide⟩, ⟨[], false, false⟩,
    .dict [(ascii "a", .dict [(ascii "id", .str (ascii "x"))]), (ascii "a/id", .str (ascii "y"))],
    rfl, rfl, rfl, rfl⟩
  intro v
  simp [Field.Arguments, ascii]

end TorrentSync.Source
