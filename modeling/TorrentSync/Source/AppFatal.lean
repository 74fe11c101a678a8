import TorrentSync.Source.AppRun
import TorrentSync.Source.BEncodeDecoderFaults

/-!
# Datagrams that end the program

Anyone can send a datagram, of any octets. Whether the program survives it depends on these
octets alone, not on what happened before: on where they lead the decoder, and on a few fields of
what it reads.
-/
namespace TorrentSync.Source

open Lib BEncodeDecoder

/-- The fields of a message that ends the program: of a query or reply without a peer id of 20
octets, of a ping with a transaction id that does not fit a reply, of a find_node query with a
transaction id, and of everything that is neither query nor reply. Queries that
`Message::parseMessage` refuses do no harm. -/
def fatalFields (data : DataMap) : Bool :=
  match data.find Field.Type with
  | none => false
  | some type =>
      if type = Type.Query then
        match data.find Field.Query with
        | none => false
        | some name =>
            if name = Messages.Ping then
              (data.find (Field.nested Field.Arguments Field.PeerID)).any fun id =>
                id.length != 20 || (data.find Field.TransactionID).any fun t => !decide (Reply.Ping.Fits t)
            else if name = Messages.FindNode then
              (data.find (Field.nested Field.Arguments Field.Target)).isSome &&
                (data.find (Field.nested Field.Arguments Field.PeerID)).all fun id =>
                  id.length != 20 || (data.find Field.TransactionID).isSome
            else false
      else if type = Type.Reply then
        (data.find (Field.nested Field.Reply Field.PeerID)).all fun id => id.length != 20
      else true

/-- The reaction to a message. -/
private theorem reaction_message {host : Host} {node : NodeData} {octets : Buffer} {m : Message}
    (parsed : Message.parseMessage host octets = .ok (some m)) {type : Buffer}
    (typed : m.find Field.Type = some type) :
    reaction host node octets = .fatal ↔
      (m.find (Field.nested (if type = Type.Reply then Field.Reply else Field.Arguments) Field.PeerID)).all
        (fun id => id.length != 20 || (m.find Field.TransactionID).any fun t =>
          reactionToQuery node t m.dynamicType == .fatal) = true := by
  simp only [reaction, parsed, Message.getID_eq host typed, Message.getTransactionID, Message.require]
  cases m.find (Field.nested (if type = Type.Reply then Field.Reply else Field.Arguments) Field.PeerID) with
  | none => simp
  | some id =>
    by_cases length : id.length = 20
    · have width : ¬ id.length ≠ NodeData.addressDataLength := not_not.mpr length
      simp only [if_neg width]
      cases m.find Field.TransactionID with
      | none => simp [length]
      | some t => simp [length]
    · have width : id.length ≠ NodeData.addressDataLength := length
      simp [if_pos width, length]

private theorem ping_fatal (node : NodeData) (t : Buffer) :
    (reactionToQuery node t .queryPing == .fatal) = !decide (Reply.Ping.Fits t) := by
  unfold reactionToQuery
  by_cases fits : Reply.Ping.Fits t
  · rw [if_pos fits, decide_eq_true fits]
    rfl
  · rw [if_neg fits, decide_eq_false fits]
    rfl

/-- What the decoder reads decides. -/
theorem reaction_fatal_decoded (host : Host) (node : NodeData) {octets : Buffer} {data : DataMap}
    {stream : Istream}
    (decoded : BEncodeDecoder.parseMessage host (Istream.ofBuffer octets) = .ok (data, stream)) :
    reaction host node octets = .fatal ↔ fatalFields data = true := by
  have shape : Message.parseMessage host octets = Message.ofFields host data := by
    rw [Message.parseMessage, decoded]
  have ignored : ∀ {what}, Message.ofFields host data = .error (.malformed what) →
      reaction host node octets ≠ .fatal := by
    intro what refused
    simp [reaction, shape, refused]
  unfold fatalFields
  cases typed : data.find Field.Type with
  | none =>
    have untyped : Message.ofFields host data = .error (.malformed "Couldn't find message type") := by
      rw [Message.ofFields, typed]
    exact iff_of_false (ignored untyped) (by simp)
  | some type =>
    by_cases query : type = Type.Query
    · subst query
      have other : Type.Query ≠ Type.Reply := by decide
      cases named : data.find Field.Query with
      | none =>
        have unnamed : Message.ofFields host data = .error (.malformed "Couldn't find message name") := by
          simp only [Message.ofFields, typed, named, Message.bufferEq_query, decide_true, if_true]
        exact iff_of_false (ignored unnamed) (by simp)
      | some name =>
        have fields := Message.ofFields_query host typed named
        by_cases ping : name = Messages.Ping
        · rw [if_pos ping, Query.Ping.ofDataMap] at fields
          cases peer : data.find (Field.nested Field.Arguments Field.PeerID) with
          | none =>
            rw [peer] at fields
            exact iff_of_false (ignored fields) (by simp [ping])
          | some id =>
            rw [peer] at fields
            rw [reaction_message (m := ⟨.queryPing, data⟩) (shape.trans fields) typed]
            simp only [Message.find, if_neg other, peer, ping, if_true, Option.all_some, Option.any_some,
              ping_fatal]
        · by_cases findNode : name = Messages.FindNode
          · rw [if_neg ping, if_pos findNode, Query.FindNode.ofDataMap] at fields
            cases target : data.find (Field.nested Field.Arguments Field.Target) with
            | none =>
              rw [target] at fields
              exact iff_of_false (ignored fields) (by simp [if_neg ping])
            | some asked =>
              rw [target] at fields
              rw [reaction_message (m := ⟨.queryFindNode, data⟩) (shape.trans fields) typed]
              simp only [Message.find, if_neg other, if_neg ping, if_pos findNode, Option.isSome_some,
                Bool.true_and, if_true]
              have always : ∀ t, (reactionToQuery node t .queryFindNode == Reaction.fatal) = true := fun _ => rfl
              simp only [always, Option.any_true]
          · rw [if_neg ping, if_neg findNode] at fields
            exact iff_of_false (ignored fields) (by simp [ping, findNode])
    · by_cases reply : type = Type.Reply
      · subst reply
        have fields := Message.ofFields_reply host typed
        rw [reaction_message (m := ⟨.message, data⟩) (shape.trans fields) typed]
        have never : ∀ t, (reactionToQuery node t .message == Reaction.fatal) = false := fun _ => rfl
        simp only [Message.find, never, Option.any_false, Bool.or_false, if_true, if_neg query]
      · refine iff_of_true ?_ (by simp [query, reply])
        simp only [reaction, shape, Message.ofFields, typed, Message.bufferEq_query, Message.bufferEq_reply,
          Message.bufferEq_error, query, reply, decide_false, Bool.false_eq_true, if_false]
        by_cases error : type = Type.Error
        · rw [decide_eq_true error]
          rfl
        · rw [decide_eq_false error]
          rfl

/-! ## The decoder's own failures -/

/-- The decoder does not know `MalformedMessageException`. -/
abbrev NotMalformed {α : Type} (x : Fallible α) : Prop := Raises (fun fault => ∀ what, fault ≠ .malformed what) x

theorem readElement_notMalformed (host : Host) (stream : Istream) :
    NotMalformed (readElement host stream) := by
  unfold readElement
  simp only
  split
  · split
    · exact Raises.error fun _ => by simp [expectingSeparator]
    · split
      · exact Raises.error fun _ => by simp
      · split
        · exact Raises.error fun _ => by simp
        · split
          · exact Raises.error fun _ => by simp
          · exact Raises.ok _
  · exact Raises.error fun _ => by simp [errorReading]

theorem readValue_notMalformed (host : Host) (stream : Istream) :
    NotMalformed (readValue host stream) := by
  unfold readValue
  simp only
  split
  · split
    · exact Raises.error fun _ => by simp [expectingSeparator]
    · split
      · exact Raises.error fun _ => by simp
      · split
        · exact Raises.error fun _ => by simp
        · exact Raises.ok _
  · exact Raises.error fun _ => by simp [errorReading]

theorem closeStructure_notMalformed (s : State) : NotMalformed (closeStructure s) := by
  unfold closeStructure
  split
  · exact Raises.error fun _ => by simp
  · refine Raises.bind ?_ fun _ _ => Raises.ok _
    unfold counterAfter
    split
    · split
      · exact Raises.ok _
      · split
        · exact Raises.error fun _ => by simp
        · exact Raises.ok _
    · exact Raises.ok _

theorem readEntry_notMalformed (host : Host) (s : State) : NotMalformed (readEntry host s) := by
  unfold readEntry
  split
  · exact Raises.error fun _ => by simp
  · refine (readElement_notMalformed host s.stream).bind fun read _ => ?_
    simp only
    split
    · exact Raises.ok _
    · exact (readValue_notMalformed host _).bind fun _ _ => Raises.ok _
  · exact (readValue_notMalformed host s.stream).bind fun _ _ => Raises.ok _

theorem step_notMalformed (host : Host) (s : State) : NotMalformed (BEncodeDecoder.step host s) := by
  unfold BEncodeDecoder.step
  split
  · exact Raises.error fun _ => by simp
  · simp only
    split
    · exact Raises.ok _
    · split
      · exact Raises.ok _
      · split
        · exact closeStructure_notMalformed _
        · exact readEntry_notMalformed host _

theorem decoder_notMalformed (host : Host) (stream : Istream) :
    NotMalformed (BEncodeDecoder.parseMessage host stream) := by
  have looped : ∀ fuel s, NotMalformed (loop host fuel s) := by
    intro fuel
    induction fuel with
    | zero => exact fun s => Raises.ok s
    | succ fuel ih =>
      intro s
      rw [loop]
      split
      · exact (step_notMalformed host s).bind fun s' _ => ih s'
      · exact Raises.ok s
  refine (looped _ _).bind fun s _ => ?_
  split
  · exact Raises.error fun _ => by simp
  · exact Raises.ok _

/-! ## Fatal octets -/

/-- The octets on which the decoder fails with anything but a `BEncodeException`, or reads fatal
fields. -/
def Fatal (host : Host) (octets : Buffer) : Prop :=
  LeadsToFault host octets ∨ ∃ data stream,
    BEncodeDecoder.parseMessage host (Istream.ofBuffer octets) = .ok (data, stream) ∧
      fatalFields data = true

theorem reaction_fatal (host : Host) (node : NodeData) (octets : Buffer) :
    reaction host node octets = .fatal ↔ Fatal host octets := by
  cases decoded : BEncodeDecoder.parseMessage host (Istream.ofBuffer octets) with
  | ok read =>
    obtain ⟨data, stream⟩ := read
    rw [reaction_fatal_decoded host node decoded]
    constructor
    · exact fun fatal => .inr ⟨data, stream, decoded, fatal⟩
    · rintro (leads | ⟨data', stream', decoded', fatal⟩)
      · obtain ⟨fault, thrown, -⟩ := leads.thrown
        rw [decoded] at thrown
        cases thrown
      · rw [decoded] at decoded'
        cases decoded'
        exact fatal
  | error fault =>
    have fails : Fatal host octets ↔ LeadsToFault host octets := by
      refine or_iff_left ?_
      rintro ⟨data, stream, decoded', -⟩
      rw [decoded] at decoded'
      cases decoded'
    rw [fails]
    constructor
    · intro fatal
      refine (onlyBencode_or host octets).resolve_left fun orderly => ?_
      obtain ⟨what, rfl⟩ := orderly fault decoded
      simp [reaction, Message.parseMessage, decoded] at fatal
    · intro leads
      obtain ⟨fault', thrown, differs⟩ := leads.thrown
      rw [decoded] at thrown
      cases thrown
      have parsed : Message.parseMessage host octets = .error fault := by
        rw [Message.parseMessage, decoded]
        cases fault with
        | bencode what => exact absurd rfl (differs what)
        | _ => rfl
      have other : ∀ what, fault ≠ .malformed what := decoder_notMalformed host _ fault decoded
      cases fault with
      | malformed what => exact absurd rfl (other what)
      | _ => simp only [reaction, parsed]

theorem Responder.run_append (host : Host) (node : NodeData) (xs ys : List AppEvent) (r : Responder) :
    Responder.run host node (xs ++ ys) r =
      (Responder.run host node xs r).bind (Responder.run host node ys) := by
  induction xs generalizing r with
  | nil => rfl
  | cons event xs ih =>
    rw [List.cons_append, Responder.run, Responder.run, Option.bind_assoc]
    exact congrArg _ (funext ih)

namespace App

/-- In every state that a run can reach, the datagrams that end the program are the same. -/
theorem startAndRun_fatal_iff (host : Host) (node : NodeData) (counter : BitVec 16)
    (events : List AppEvent) {app : App} (ran : startAndRun host node counter events = .ok app)
    (running : app.stopped = false) (now : Int) (octets : Buffer) (sender : Endpoint) :
    (∃ fault, startAndRun host node counter (events ++ [.received now false octets sender]) = .error fault) ↔
      Fatal host (octets.take MESSAGE_BUFFER_SIZE) := by
  have before := startAndRun_matches host node counter events
  rw [ran] at before
  have after := startAndRun_matches host node counter (events ++ [.received now false octets sender])
  have goes : app.seen.stopped = false := running
  rw [Responder.run_append, before.2, Option.bind_some] at after
  have step : Responder.run host node [.received now false octets sender] app.seen =
      app.seen.react sender (reaction host node (octets.take MESSAGE_BUFFER_SIZE)) := by
    rw [Responder.run, Responder.step, goes, if_neg (by simp), Responder.handle]
    cases app.seen.react sender (reaction host node (octets.take MESSAGE_BUFFER_SIZE)) <;> rfl
  rw [step] at after
  rw [← reaction_fatal host node]
  cases outcome : startAndRun host node counter (events ++ [.received now false octets sender]) with
  | ok app' =>
    rw [outcome] at after
    refine iff_of_false (by simp) fun fatal => ?_
    rw [fatal] at after
    cases after.2
  | error fault =>
    rw [outcome] at after
    refine iff_of_true ⟨fault, rfl⟩ ?_
    cases reacted : reaction host node (octets.take MESSAGE_BUFFER_SIZE) with
    | fatal => rfl
    | ignored =>
      rw [reacted] at after
      cases after
    | answered reply =>
      rw [reacted] at after
      cases after

/-- After a batch of addresses, an error message of two fields ends the program. -/
theorem startAndRun_fatal_iff_errorMessage :
    ∃ fault, startAndRun Host.x86 NodeData.minValue 65535
      ([.timer false fun _ => [⟨.v4 1, 6881⟩]] ++ [.received 0 false (ascii "d1:y1:ee") ⟨.v4 2, 6881⟩]) =
        .error fault := by
  have alive : (startAndRun Host.x86 NodeData.minValue 65535
      [.timer false fun _ => [⟨.v4 1, 6881⟩]]).toOption.any (fun app => !app.stopped) = true := by
    decide +kernel
  cases ran : startAndRun Host.x86 NodeData.minValue 65535 [.timer false fun _ => [⟨.v4 1, 6881⟩]] with
  | error fault =>
    rw [ran] at alive
    cases alive
  | ok app =>
    rw [ran] at alive
    have running : app.stopped = false := by simpa [Except.toOption] using alive
    refine (startAndRun_fatal_iff Host.x86 NodeData.minValue 65535 _ ran running 0 (ascii "d1:y1:ee")
      ⟨.v4 2, 6881⟩).mpr (.inr ⟨⟨[(ascii "y", ascii "e")], by decide⟩, ⟨[], false, false⟩, rfl, rfl⟩)

end App
end TorrentSync.Source
