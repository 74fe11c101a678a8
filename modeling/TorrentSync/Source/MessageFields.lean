import TorrentSync.Source.Message

/-!
# Fields of parsed messages

`Message::parseMessage` looks at a few fields of the decoded map before it builds a
message, and the accessors look at others afterwards. `FieldsComplete` is the
condition under which the two agree: what is accepted has a type, a transaction id
and a peer id, and everything else is refused by a `MalformedMessageException`.
-/
namespace TorrentSync.Source.Message

open Lib

/-- A field or name constant, all of whose characters are 7-bit. -/
private theorem eq_constant (host : Host) (b : Buffer) {constant : Buffer}
    (plain : constant.all (fun c => c.toNat < 128) = true) :
    bufferEq host b constant = decide (b = constant) := by
  have same := bufferEq_ascii host b constant (by simpa using plain)
  by_cases equal : b = constant
  · rw [same.mpr equal, decide_eq_true equal]
  · rw [decide_eq_false equal, ← Bool.not_eq_true, same]
    exact equal

@[simp] theorem bufferEq_query (host : Host) (b : Buffer) :
    bufferEq host b Type.Query = decide (b = Type.Query) := eq_constant host b (by decide)

@[simp] theorem bufferEq_reply (host : Host) (b : Buffer) :
    bufferEq host b Type.Reply = decide (b = Type.Reply) := eq_constant host b (by decide)

@[simp] theorem bufferEq_error (host : Host) (b : Buffer) :
    bufferEq host b Type.Error = decide (b = Type.Error) := eq_constant host b (by decide)

@[simp] theorem bufferEq_ping (host : Host) (b : Buffer) :
    bufferEq host b Messages.Ping = decide (b = Messages.Ping) := eq_constant host b (by decide)

@[simp] theorem bufferEq_findNode (host : Host) (b : Buffer) :
    bufferEq host b Messages.FindNode = decide (b = Messages.FindNode) := eq_constant host b (by decide)

theorem require_eq_ok {m : Message} {key value : Buffer} {what : String} :
    m.require key what = .ok value ↔ m.find key = some value := by
  unfold require
  cases m.find key <;> simp

theorem require_ok_iff (m : Message) (key : Buffer) (what : String) :
    (∃ value, m.require key what = .ok value) ↔ (m.find key).isSome = true := by
  simp only [require_eq_ok, Option.isSome_iff_exists]

theorem getID_eq (host : Host) {m : Message} {type : Buffer} (typed : m.find Field.Type = some type) :
    m.getID host = m.require (Field.nested (if type = Type.Reply then Field.Reply else Field.Arguments)
      Field.PeerID) "Couldn't find peer id" := by
  have getType : m.getType = .ok type := require_eq_ok.mpr typed
  simp only [getID, getType, ok_bind, bufferEq_reply, decide_eq_true_eq]

theorem getID_query (host : Host) {m : Message} {id : Buffer}
    (typed : m.find Field.Type = some Type.Query)
    (found : m.find (Field.nested Field.Arguments Field.PeerID) = some id) : m.getID host = .ok id := by
  have other : Type.Query ≠ Type.Reply := by decide
  rw [getID_eq host typed, if_neg other]
  exact require_eq_ok.mpr found

theorem getID_reply (host : Host) {m : Message} {id : Buffer}
    (typed : m.find Field.Type = some Type.Reply)
    (found : m.find (Field.nested Field.Reply Field.PeerID) = some id) : m.getID host = .ok id := by
  rw [getID_eq host typed, if_pos rfl]
  exact require_eq_ok.mpr found

theorem ofFields_query (host : Host) {data : DataMap} {name : Buffer}
    (typed : data.find Field.Type = some Type.Query) (named : data.find Field.Query = some name) :
    ofFields host data =
      if name = Messages.Ping then do
        let message ← Query.Ping.ofDataMap data
        .ok (some message)
      else if name = Messages.FindNode then do
        let message ← Query.FindNode.ofDataMap data
        .ok (some message)
      else .error (.malformed "Unknown message name") := by
  simp only [ofFields, typed, named, bufferEq_query, bufferEq_ping, bufferEq_findNode, decide_true,
    if_true, decide_eq_true_eq]

theorem ofFields_reply (host : Host) {data : DataMap}
    (typed : data.find Field.Type = some Type.Reply) :
    ofFields host data = .ok (some ⟨.message, data⟩) := by
  have other : Type.Reply ≠ Type.Query := by decide
  simp only [ofFields, typed, bufferEq_query, bufferEq_reply, other, decide_true, decide_false,
    Bool.false_eq_true, if_true, if_false]

/-- A message that is created has the type of a query or of a reply. -/
theorem ofFields_type {host : Host} {data : DataMap} {m : Message}
    (created : ofFields host data = .ok (some m)) :
    data.find Field.Type = some Type.Reply ∨
      data.find Field.Type = some Type.Query ∧ ∃ name, data.find Field.Query = some name := by
  unfold ofFields at created
  cases typed : data.find Field.Type with
  | none => simp [typed] at created
  | some type =>
    simp only [typed, bufferEq_query, bufferEq_reply, decide_eq_true_eq] at created
    split at created
    · next query =>
      subst query
      cases named : data.find Field.Query with
      | none => simp [named] at created
      | some name => exact .inr ⟨rfl, name, rfl⟩
    · split at created
      · next reply =>
        subst reply
        exact .inl rfl
      · obtain ⟨-, -, null⟩ := bind_eq_ok.mp created
        cases null

/-- The three ways in which a message is created. -/
theorem ofFields_cases {host : Host} {data : DataMap} {m : Message}
    (created : ofFields host data = .ok (some m)) :
    (m = ⟨.message, data⟩ ∧ data.find Field.Type = some Type.Reply) ∨
    (m = ⟨.queryPing, data⟩ ∧ data.find Field.Type = some Type.Query ∧
      data.find Field.Query = some Messages.Ping ∧
      ∃ id, data.find (Field.nested Field.Arguments Field.PeerID) = some id) ∨
    (m = ⟨.queryFindNode, data⟩ ∧ data.find Field.Type = some Type.Query ∧
      data.find Field.Query = some Messages.FindNode ∧
      ∃ target, data.find (Field.nested Field.Arguments Field.Target) = some target) := by
  rcases ofFields_type created with reply | ⟨query, name, named⟩
  · rw [ofFields_reply host reply] at created
    cases created
    exact .inl ⟨rfl, reply⟩
  · rw [ofFields_query host query named] at created
    split at created
    · next ping =>
      subst ping
      obtain ⟨m', made, same⟩ := bind_eq_ok.mp created
      cases same
      unfold Query.Ping.ofDataMap at made
      split at made
      · cases made
      · next present =>
        cases made
        exact .inr (.inl ⟨rfl, query, named, Option.ne_none_iff_exists'.mp (by simpa using present)⟩)
    · split at created
      · next findNode =>
        subst findNode
        obtain ⟨m', made, same⟩ := bind_eq_ok.mp created
        cases same
        unfold Query.FindNode.ofDataMap at made
        split at made
        · cases made
        · next present =>
          cases made
          exact .inr (.inr ⟨rfl, query, named, Option.ne_none_iff_exists'.mp (by simpa using present)⟩)
      · cases created

/-- The three kinds of messages `parseMessage` creates. -/
inductive Kind where
  | ping | findNode | reply
  deriving DecidableEq, Repr

/-- The class, type and query name of each kind. -/
structure IsKind (m : Message) (kind : Kind) : Prop where
  dynamicType : m.dynamicType =
    match kind with | .ping => .queryPing | .findNode => .queryFindNode | .reply => .message
  type : m.getType = .ok (if kind = .reply then Type.Reply else Type.Query)
  name : kind ≠ .reply → Query.getMessageType m =
    .ok (if kind = .ping then Messages.Ping else Messages.FindNode)

theorem IsKind.type_reply_iff {m : Message} {kind : Kind} (isKind : m.IsKind kind) :
    m.getType = .ok Type.Reply ↔ kind = .reply := by
  have other : Type.Query ≠ Type.Reply := by decide
  rw [isKind.type, Except.ok.injEq]
  cases kind <;> simp [other]

theorem IsKind.type_query_iff {m : Message} {kind : Kind} (isKind : m.IsKind kind) :
    m.getType = .ok Type.Query ↔ kind ≠ .reply := by
  have other : Type.Reply ≠ Type.Query := by decide
  rw [isKind.type, Except.ok.injEq]
  cases kind <;> simp [other]

/-- No message that is parsed is of class reply::FindNode. -/
theorem IsKind.not_replyFindNode {m : Message} {kind : Kind} (isKind : m.IsKind kind) :
    m.dynamicType ≠ .replyFindNode := by
  rw [isKind.dynamicType]
  cases kind <;> decide

/-- Every message that is parsed is of one of the three kinds. -/
theorem parseMessage_kind {host : Host} {buffer : Buffer} {m : Message}
    (parsed : parseMessage host buffer = .ok (some m)) : ∃ kind, m.IsKind kind := by
  unfold parseMessage at parsed
  split at parsed
  · rcases ofFields_cases parsed with ⟨rfl, reply⟩ | ⟨rfl, query, named, -⟩ | ⟨rfl, query, named, -⟩
    · exact ⟨.reply, rfl, require_eq_ok.mpr reply, fun isQuery => absurd rfl isQuery⟩
    · exact ⟨.ping, rfl, require_eq_ok.mpr query, fun _ => require_eq_ok.mpr named⟩
    · exact ⟨.findNode, rfl, require_eq_ok.mpr query, fun _ => require_eq_ok.mpr named⟩
  · cases parsed
  · cases parsed

/-- The fields of an accepted message that its accessors need are there. -/
def FieldsComplete (data : DataMap) : Prop :=
  match data.find Field.Type with
  | none => True
  | some type =>
      if type = Type.Query then
        match data.find Field.Query with
        | none => True
        | some name =>
            if name = Messages.Ping then
              (data.find (Field.nested Field.Arguments Field.PeerID)).isSome →
                (data.find Field.TransactionID).isSome
            else if name = Messages.FindNode then
              (data.find (Field.nested Field.Arguments Field.Target)).isSome →
                (data.find (Field.nested Field.Arguments Field.PeerID)).isSome ∧
                  (data.find Field.TransactionID).isSome
            else True
      else
        type = Type.Reply ∧ (data.find (Field.nested Field.Reply Field.PeerID)).isSome ∧
          (data.find Field.TransactionID).isSome

/-- A parse that throws `MalformedMessageException` or gives a message with a type, a
transaction id and a peer id. -/
def Usable (host : Host) (parsed : Fallible (Option Message)) : Prop :=
  (∃ what, parsed = .error (.malformed what)) ∨
  ∃ m, parsed = .ok (some m) ∧ (∃ type, m.getType = .ok type) ∧
    (∃ transactionID, m.getTransactionID = .ok transactionID) ∧ ∃ id, m.getID host = .ok id

theorem usable_malformed (host : Host) (what : String) :
    Usable host (.error (.malformed what)) := .inl ⟨what, rfl⟩

/-- An accepted message is usable exactly when its accessors find their fields. -/
theorem usable_some (host : Host) {m : Message} {type : Buffer}
    (typed : m.find Field.Type = some type) :
    Usable host (.ok (some m)) ↔
      (m.find (Field.nested (if type = Type.Reply then Field.Reply else Field.Arguments)
        Field.PeerID)).isSome ∧ (m.find Field.TransactionID).isSome := by
  have hasType : ∃ type, m.getType = .ok type := ⟨type, require_eq_ok.mpr typed⟩
  constructor
  · rintro (⟨what, thrown⟩ | ⟨m', same, -, transaction, id⟩)
    · cases thrown
    · cases same
      rw [getID_eq host typed, require_ok_iff] at id
      exact ⟨id, (require_ok_iff m _ _).mp transaction⟩
  · rintro ⟨id, transaction⟩
    refine .inr ⟨m, rfl, hasType, (require_ok_iff m _ _).mpr transaction, ?_⟩
    rw [getID_eq host typed, require_ok_iff]
    exact id

theorem ofFields_usable_iff (host : Host) (data : DataMap) :
    Usable host (ofFields host data) ↔ FieldsComplete data := by
  unfold ofFields FieldsComplete
  cases typed : data.find Field.Type with
  | none => exact iff_of_true (usable_malformed host _) trivial
  | some type =>
    simp only [bufferEq_query, bufferEq_reply, bufferEq_error, bufferEq_ping, bufferEq_findNode,
      decide_eq_true_eq]
    by_cases query : type = Type.Query
    · have notReply : type ≠ Type.Reply := by
        rw [query]
        decide
      rw [if_pos query, if_pos query]
      cases data.find Field.Query with
      | none => exact iff_of_true (usable_malformed host _) trivial
      | some name =>
        by_cases ping : name = Messages.Ping
        · simp only [if_pos ping, Query.Ping.ofDataMap]
          cases id : data.find (Field.nested Field.Arguments Field.PeerID) with
          | none => exact iff_of_true (usable_malformed host _) (by simp)
          | some id' =>
            have usable := usable_some host (m := ⟨.queryPing, data⟩) typed
            simp only [Message.find, if_neg notReply, id] at usable
            simpa using usable
        · by_cases findNode : name = Messages.FindNode
          · simp only [if_neg ping, if_pos findNode, Query.FindNode.ofDataMap]
            cases target : data.find (Field.nested Field.Arguments Field.Target) with
            | none => exact iff_of_true (usable_malformed host _) (by simp)
            | some target' =>
              have usable := usable_some host (m := ⟨.queryFindNode, data⟩) typed
              simp only [Message.find, if_neg notReply] at usable
              simpa using usable
          · simp only [if_neg ping, if_neg findNode]
            exact iff_of_true (usable_malformed host _) trivial
    · rw [if_neg query, if_neg query]
      by_cases reply : type = Type.Reply
      · have usable := usable_some host (m := ⟨.message, data⟩) typed
        simp only [Message.find, if_pos reply] at usable
        simpa [reply] using usable
      · rw [if_neg reply]
        refine iff_of_false ?_ (fun complete => reply complete.1)
        by_cases error : type = Type.Error
        · rintro (⟨what, thrown⟩ | ⟨m, same, -⟩)
          · simp [error] at thrown
          · simp [error] at same
        · rintro (⟨what, thrown⟩ | ⟨m, same, -⟩)
          · simp [error] at thrown
          · simp [error] at same

/-- On every input the decoder accepts, the outcome of `parseMessage` is usable exactly
when the fields are complete. -/
theorem parseMessage_usable_iff (host : Host) (buffer : Buffer) (data : DataMap) (stream : Istream)
    (decoded : BEncodeDecoder.parseMessage host (Istream.ofBuffer buffer) = .ok (data, stream)) :
    Usable host (parseMessage host buffer) ↔ FieldsComplete data := by
  rw [parseMessage, decoded]
  exact ofFields_usable_iff host data

/-- An error message is a null pointer, and a message of any other type fails the
assertion that it is one. -/
theorem parseMessage_errorType :
    (∃ data stream, BEncodeDecoder.parseMessage Host.x86 (Istream.ofBuffer (ascii "d1:y1:ee")) =
      .ok (data, stream)) ∧
    parseMessage Host.x86 (ascii "d1:y1:ee") = .ok none ∧
    ¬ Usable Host.x86 (parseMessage Host.x86 (ascii "d1:y1:ee")) ∧
    parseMessage Host.x86 (ascii "d1:y1:xe") = .error (.assertion "*type == Type::Error") := by
  have null : parseMessage Host.x86 (ascii "d1:y1:ee") = .ok none := rfl
  refine ⟨⟨_, _, rfl⟩, null, ?_, rfl⟩
  rw [null]
  rintro (⟨what, thrown⟩ | ⟨m, same, -⟩)
  · cases thrown
  · cases same

theorem parseMessage_usable_iff_errorType :
    Usable Host.x86 (parseMessage Host.x86 (ascii "d1:y1:ee")) ↔
      FieldsComplete ⟨[(ascii "y", ascii "e")], by decide⟩ :=
  parseMessage_usable_iff Host.x86 (ascii "d1:y1:ee") ⟨[(ascii "y", ascii "e")], by decide⟩
    ⟨[], false, false⟩ rfl

end TorrentSync.Source.Message
