import TorrentSync.Source.BEncodeDecoderTree

/-!
# Paths in the data map

The keys of the data map against the paths of a tree. Where keys are clean and distinct and
the decoder keeps track of its position, the data map holds every leaf under the names that
lead to it, joined by '/'. Without lists it always keeps track.
-/
namespace TorrentSync.Source.BEncodeDecoder

open Lib Decimal Bencode

/-- A key that a path can be read back from. -/
def CleanKey (k : Buffer) : Prop := k ≠ [] ∧ 47 ∉ k ∧ 0 ∉ k

/-- Clean keys, distinct in each dictionary. -/
def Clean (v : Value) : Prop := Each CleanKey (fun _ => True) v ∧ DistinctKeys v

/-- Keys of fewer than 2147483647 octets with room for their arrays on the call stack, and
leaves there is room for. -/
def Fits (host : Host) (v : Value) : Prop := Each (FittingKey host) (ReadableValue host) v

/-- What the data map should hold: the leaves under their joined paths. -/
def joinedLeaves (v : Value) : List (Buffer × Buffer) := (paths v).map fun p => (joined 47 p.1, p.2)

theorem Clean.readable {host : Host} {v : Value} (clean : Clean v) (fits : Fits host v) :
    Readable host v :=
  clean.1.combine (fun _ clean fitting => ⟨clean.2.2, fitting⟩) (fun _ _ readable => readable) fits

/-! ## Joined paths -/

theorem inside_of_ne_nil {path : Buffer} (named : path ≠ []) : inside path = path ++ [47] := by
  have slash : ascii "/" = [47] := rfl
  simp [inside, List.length_pos_iff.mpr named, slash]

/-- Below a name a path is that name, a separator and the joined names that follow. -/
private theorem joined_below (name : Buffer) {names : List Buffer} {first : Buffer} {rest : List Buffer}
    (split : names = first :: rest) : name ++ [47] ++ joined 47 names = joined 47 (name :: names) := by
  simp [split, joined]

mutual

/-- The leaves of a structure that stands at a path. -/
theorem leaves_joined (path : Buffer) (named : path ≠ []) (v : Value) :
    leaves path v = (paths v).map fun p => (joined 47 (path :: p.1), p.2) := by
  cases v with
  | str s => simp [leaves, paths, joined]
  | list items =>
    rw [leaves, inside_of_ne_nil named, leavesAt_joined, paths]
    apply List.map_congr_left
    intro p member
    obtain ⟨j, names, -, split⟩ := pathsAt_head member
    rw [joined_below path split]
  | dict entries =>
    rw [leaves, inside_of_ne_nil named, leavesIn_joined _ entries (by simp), paths]
    apply List.map_congr_left
    intro p member
    obtain ⟨k, names, -, split⟩ := pathsIn_head member
    rw [joined_below path split]

theorem leavesAt_joined (pre : Buffer) (i : Nat) (items : List Value) :
    leavesAt pre i items = (pathsAt i items).map fun p => (pre ++ joined 47 p.1, p.2) := by
  match items with
  | [] => rfl
  | v :: rest =>
    have named : pre ++ digits i ≠ [] := by simp [digits_ne_nil]
    rw [leavesAt, pathsAt, leaves_joined _ named v, leavesAt_joined pre (i + 1) rest, List.map_append,
      List.map_map]
    simp [joined, Function.comp_def]

theorem leavesIn_joined (pre : Buffer) (entries : List (Buffer × Value))
    (named : ∀ e ∈ entries, pre ++ e.1 ≠ []) :
    leavesIn pre entries = (pathsIn entries).map fun p => (pre ++ joined 47 p.1, p.2) := by
  match entries, named with
  | [], _ => rfl
  | (k, v) :: rest, named =>
    rw [List.forall_mem_cons] at named
    rw [leavesIn, pathsIn, leaves_joined _ named.1 v, leavesIn_joined pre rest named.2, List.map_append,
      List.map_map]
    simp [joined, Function.comp_def]

end

theorem eachEntry_key {onKey onLeaf : Buffer → Prop} {entries : List (Buffer × Value)}
    (h : EachEntry onKey onLeaf entries) : ∀ e ∈ entries, onKey e.1 := by
  induction entries with
  | nil => exact fun e member => absurd member List.not_mem_nil
  | cons entry rest ih => exact List.forall_mem_cons.mpr ⟨h.1, ih h.2.2⟩

/-- The leaves of a message under their joined paths. -/
theorem leaves_message {v : Value} (clean : Clean v) (tracks : Tracks v) :
    leaves [] v = joinedLeaves v := by
  cases v with
  | str s => exact absurd tracks id
  | list items => exact leavesAt_joined [] 0 items
  | dict entries =>
    exact leavesIn_joined [] entries fun e member => (eachEntry_key clean.1 e member).1

theorem cleanKey_digits (i : Nat) : CleanKey (digits i) := by
  refine ⟨digits_ne_nil i, ?_, ?_⟩
  · intro member
    cases digits_isDigit i _ member
  · intro member
    cases digits_isDigit i _ member

/-- Different leaves have different joined paths. -/
theorem joinedLeaves_nodup {v : Value} (clean : Clean v) : ((joinedLeaves v).map Prod.fst).Nodup := by
  have names := paths_names cleanKey_digits v clean.1
  have distinct := paths_nodup v clean.2
  have shape : (joinedLeaves v).map Prod.fst = ((paths v).map Prod.fst).map (joined 47) := by
    simp [joinedLeaves, List.map_map, Function.comp_def]
  have cleanNames : ∀ path ∈ (paths v).map Prod.fst, ∀ name ∈ path, name ≠ [] ∧ (47 : UInt8) ∉ name := by
    intro path member name among
    obtain ⟨p, found, rfl⟩ := List.mem_map.mp member
    exact ⟨(names p found name among).1, (names p found name among).2.1⟩
  rw [shape, List.Nodup, List.pairwise_map]
  apply distinct.imp_of_mem
  intro path path' member member' differs same
  exact differs (joined_inj (cleanNames path member) (cleanNames path' member') same)

/-- The data map after the leaves are inserted. -/
theorem insertAll_message {v : Value} (clean : Clean v) (tracks : Tracks v) :
    (insertAll (leaves [] v) .empty).entries = joinedLeaves v := by
  rw [leaves_message clean tracks]
  exact insertAll_entries (joinedLeaves v) .empty (joinedLeaves_nodup clean)

/-! ## Messages -/

/-- On a tree the decoder keeps track of, the data map holds each leaf under its joined path. -/
theorem parseMessage_tracked (host : Host) (v : Value) (clean : Clean v) (fits : Fits host v)
    (tracks : Tracks v) :
    ∃ data, parseMessage host (Istream.ofBuffer (encode v)) = .ok (data, ⟨[], false, false⟩) ∧
      data.entries = joinedLeaves v := by
  have parsed := parseMessage_encode host v [] (clean.readable fits) tracks
  rw [List.append_nil] at parsed
  exact ⟨_, parsed, insertAll_message clean tracks⟩

theorem parseMessage_tracked_list :
    ∃ data, parseMessage .x86 (Istream.ofBuffer (encode
        (.dict [(ascii "a", .str (ascii "bb")), (ascii "q", .list [.str (ascii "c"), .list [.str []]])]))) =
          .ok (data, ⟨[], false, false⟩) ∧
      data.entries = joinedLeaves
        (.dict [(ascii "a", .str (ascii "bb")), (ascii "q", .list [.str (ascii "c"), .list [.str []]])]) :=
  parseMessage_tracked .x86 _
    ⟨by simp [Each, EachEntry, EachItem, CleanKey, ascii], by
      simp [DistinctKeys, DistinctKeysEntries, DistinctKeysItems, ascii]⟩
    (by
      have key : ∀ k : Buffer, k.length ≤ 2 → FittingKey .x86 k := fun k short =>
        .of_small .x86 (short.trans (by decide))
      have small : ∀ v : Buffer, v.length ≤ 2 → ReadableValue .x86 v := fun v short =>
        .of_small .x86 (short.trans (by decide))
      simp [Fits, Each, EachEntry, EachItem, key, small, ascii])
    (by
      have closes : (counterAfter (ascii "q") .LIST).isOk = true := rfl
      simp [Tracks, TracksEntries, TracksEntry, TracksItems, TracksItem, counterPast, closes])

/-- Two dictionaries in a list are misnamed, and each takes the path of the other. -/
example :
    (∃ data, parseMessage .x86 (Istream.ofBuffer (ascii "d1:1ld1:0d1:b1:xeed1:0d1:b1:xeeee")) =
        .ok (data, ⟨[], false, false⟩) ∧
      data.entries = [(ascii "1/1/0/b", ascii "x"), (ascii "1/0/0/b", ascii "x")]) ∧
    ¬ Tracks (.dict [(ascii "1", .list [.dict [(ascii "0", .dict [(ascii "b", .str (ascii "x"))])],
      .dict [(ascii "0", .dict [(ascii "b", .str (ascii "x"))])]])]) :=
  ⟨⟨⟨[(ascii "1/1/0/b", ascii "x"), (ascii "1/0/0/b", ascii "x")], by decide⟩, rfl, rfl⟩,
    fun tracks => tracks.1.2.2.1⟩

/-- A dictionary in a list is not named by its position, and a list that is the first item of
the message gets no name and takes the place of the next item. -/
theorem nestedInList_misplaced :
    (∃ data, parseMessage .x86 (Istream.ofBuffer (ascii "ld1:a1:bee")) =
        .ok (data, ⟨[], false, false⟩) ∧ data.entries = [(ascii "a", ascii "b")]) ∧
    encode (.list [.dict [(ascii "a", .str (ascii "b"))]]) = ascii "ld1:a1:bee" ∧
    joinedLeaves (.list [.dict [(ascii "a", .str (ascii "b"))]]) = [(ascii "0/a", ascii "b")] ∧
    (∃ data, parseMessage .x86 (Istream.ofBuffer (ascii "ll1:ae1:be")) =
        .ok (data, ⟨[], false, false⟩) ∧ data.entries = [(ascii "0", ascii "a")]) ∧
    encode (.list [.list [.str (ascii "a")], .str (ascii "b")]) = ascii "ll1:ae1:be" ∧
    joinedLeaves (.list [.list [.str (ascii "a")], .str (ascii "b")]) =
      [(ascii "0/0", ascii "a"), (ascii "1", ascii "b")] :=
  ⟨⟨⟨[(ascii "a", ascii "b")], by decide⟩, rfl, rfl⟩, rfl, rfl,
    ⟨⟨[(ascii "0", ascii "a")], by decide⟩, rfl, rfl⟩, rfl, rfl⟩

/-- The members of the object do not matter. -/
theorem Decoder.parseMessage_eq (host : Host) (decoder : Decoder) (stream : Istream) :
    decoder.parseMessage host stream =
      (BEncodeDecoder.parseMessage host stream).map fun (data, stream) => (⟨data, []⟩, stream) := by
  unfold Decoder.parseMessage BEncodeDecoder.parseMessage
  cases looped : loop host (stream.rest.length + 1) (start stream) with
  | error fault =>
    simp only [start] at looped
    simp only [looped, error_bind]
    rfl
  | ok s =>
    simp only [start] at looped
    simp only [looped, ok_bind]
    cases s.parseEnded <;> rfl

/-- A dictionary without lists, whose keys and leaves are short enough and find room, is
decoded to its leaves under their joined paths, by a fresh object and by a used one. -/
theorem parseMessage_listFree (host : Host) (entries : List (Buffer × Value))
    (clean : Clean (.dict entries)) (listFree : ListFree (.dict entries))
    (short : Each (fun k => k.length < 2 ^ 31 - 1) (fun s => s.length < 2 ^ 31 - 1) (.dict entries))
    (room : Each (fun k => host.stackHolds (k.length + 1) = true) (fun s => host.grants s.length = true)
      (.dict entries))
    (decoder : Decoder) :
    (∃ decoder', Decoder.fresh.parseMessage host (Istream.ofBuffer (encode (.dict entries))) =
        .ok (decoder', ⟨[], false, false⟩) ∧
      decoder'.getData.entries = joinedLeaves (.dict entries)) ∧
    ∀ stream, decoder.parseMessage host stream = Decoder.fresh.parseMessage host stream := by
  have fits : Fits host (.dict entries) := by
    refine short.combine (fun k short holds => ⟨short, holds⟩) (fun s short granted => ?_) room
    have large : 2 ^ 31 - 1 ≤ maxSize := by decide
    exact ⟨short.le.trans large, granted⟩
  have tracks : Tracks (.dict entries) := tracks_of_listFree listFree 0
  have parsed := parseMessage_encode host (.dict entries) [] (clean.readable fits) tracks
  rw [List.append_nil] at parsed
  refine ⟨⟨⟨insertAll (leaves [] (.dict entries)) .empty, []⟩, ?_, insertAll_message clean tracks⟩, ?_⟩
  · rw [Decoder.parseMessage_eq, parsed]
    rfl
  · intro stream
    rw [Decoder.parseMessage_eq, Decoder.parseMessage_eq]

theorem parseMessage_listFree_nested :
    (∃ decoder', Decoder.fresh.parseMessage .x86 (Istream.ofBuffer (encode
        (.dict [(ascii "q", .dict [(ascii "a", .str (ascii "1:e"))]), (ascii "r", .str [])]))) =
        .ok (decoder', ⟨[], false, false⟩) ∧
      decoder'.getData.entries = joinedLeaves
        (.dict [(ascii "q", .dict [(ascii "a", .str (ascii "1:e"))]), (ascii "r", .str [])])) ∧
    ∀ stream, Decoder.parseMessage .x86 ⟨.empty, [(ascii "x", .LIST)]⟩ stream =
      Decoder.fresh.parseMessage .x86 stream :=
  parseMessage_listFree .x86 _
    ⟨by simp [Each, EachEntry, CleanKey, ascii], by simp [DistinctKeys, DistinctKeysEntries, ascii]⟩
    (by simp [ListFree, ListFreeEntries]) (by simp [Each, EachEntry, ascii])
    (by simp [Each, EachEntry, ascii, Host.x86]) _

end TorrentSync.Source.BEncodeDecoder
