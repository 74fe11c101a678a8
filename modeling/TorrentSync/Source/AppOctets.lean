import TorrentSync.Source.AppRun
import TorrentSync.Source.BEncodeDecoderWeight
import TorrentSync.Source.MessageNesting

/-!
# Octets received and sent

A reply is shorter than the datagram it answers, whatever form that has, so that nobody gets more
octets from the program in replies than were sent in his name.
-/
namespace TorrentSync.Source

open Lib Bencode BEncodeDecoder ListParts InitializingTable App

/-! ## One datagram -/

theorem Reply.Ping.dictionary_length (t : Buffer) (node : NodeData) :
    (encode (Reply.Ping.dictionary t node)).length = 43 + (string t).length := by
  have id : node.write.length = 20 := NodeData.write_length node
  have reply : string Field.Reply = ascii "1:r" := by decide
  have peerId : string Field.PeerID = ascii "2:id" := by decide
  have transaction : string Field.TransactionID = ascii "1:t" := by decide
  have type : string Field.Type = ascii "1:y" := by decide
  have typeReply : string Type.Reply = ascii "1:r" := by decide
  have twenty : (Decimal.digits 20).length = 2 := by decide
  have lengths : (ascii "1:r").length = 3 ∧ (ascii "2:id").length = 4 ∧ (ascii "1:t").length = 3 ∧
    (ascii "1:y").length = 3 := ⟨rfl, rfl, rfl, rfl⟩
  simp only [Reply.Ping.dictionary, krpc, leaf, encode, encodeEntries, List.map_cons, List.map_nil, reply, peerId,
    transaction, type, typeReply, List.length_append, List.length_cons, List.length_nil, lengths,
    string_length node.write, id, twenty]
  omega

/-- The fields of what is answered. -/
theorem answered_fields {host : Host} {node : NodeData} {octets reply : Buffer}
    (answered : reaction host node octets = .answered reply) :
    ∃ data stream t id, BEncodeDecoder.parseMessage host (Istream.ofBuffer octets) = .ok (data, stream) ∧
      data.find Field.Type = some Type.Query ∧ data.find Field.Query = some Messages.Ping ∧
      data.find Field.TransactionID = some t ∧
      data.find (Field.nested Field.Arguments Field.PeerID) = some id ∧ id.length = 20 ∧
      reply = encode (Reply.Ping.dictionary t node) := by
  obtain ⟨m, id, t, parsed, ping, peer, length, carried, -, made⟩ := reaction_answered answered
  unfold Message.parseMessage at parsed
  split at parsed
  · rename_i data stream decoded
    rcases Message.ofFields_cases parsed with ⟨rfl, -⟩ | ⟨rfl, typed, named, -⟩ | ⟨rfl, -⟩
    · cases ping
    · have other : ¬ Type.Query = Type.Reply := by decide
      rw [Message.getID_eq host (m := ⟨.queryPing, data⟩) typed, if_neg other] at peer
      exact ⟨data, stream, t, id, decoded, typed, named, Message.require_eq_ok.mp carried,
        Message.require_eq_ok.mp peer, length, made⟩
    · cases ping
  · cases parsed
  · cases parsed

/-- A reply has four octets less, at least. -/
theorem reply_shorter {host : Host} {node : NodeData} {octets reply : Buffer}
    (answered : reaction host node octets = .answered reply) : reply.length + 4 ≤ octets.length := by
  obtain ⟨data, stream, t, id, decoded, typed, named, carried, peer, length, rfl⟩ := answered_fields answered
  have fields : [(Field.Type, Type.Query), (Field.Query, Messages.Ping), (Field.TransactionID, t),
      (Field.nested Field.Arguments Field.PeerID, id)] ⊆ data.entries := by
    simp [DataMap.mem_of_find typed, DataMap.mem_of_find named, DataMap.mem_of_find carried,
      DataMap.mem_of_find peer]
  have distinct : [(Field.Type, Type.Query), (Field.Query, Messages.Ping), (Field.TransactionID, t),
      (Field.nested Field.Arguments Field.PeerID, id)].Nodup := by
    have keys : [Field.Type, Field.Query, Field.TransactionID,
      Field.nested Field.Arguments Field.PeerID].Nodup := by decide
    exact List.Nodup.of_map Prod.fst keys
  have twenty : (Decimal.digits 20).length = 2 := by decide
  have weights : DataMap.entryWeight (Field.Type, Type.Query) = 6 ∧
      DataMap.entryWeight (Field.Query, Messages.Ping) = 9 ∧
      DataMap.entryWeight (Field.TransactionID, t) = 3 + (string t).length ∧
      DataMap.entryWeight (Field.nested Field.Arguments Field.PeerID, id) = 27 := by
    refine ⟨by decide, by decide, rfl, ?_⟩
    have name : DataMap.lastName (Field.nested Field.Arguments Field.PeerID) = ascii "id" := by decide
    have letters : (ascii "id").all Decimal.isDigit = false := by decide
    have two : (ascii "id").length = 2 := rfl
    simp [DataMap.entryWeight, name, letters, two, string_length, length, twenty]
  obtain ⟨type, query, transaction, peerId⟩ := weights
  have covered := sum_map_le_of_subset DataMap.entryWeight distinct fields
  simp only [List.map_cons, List.map_nil, List.sum_cons, List.sum_nil, type, query, transaction, peerId]
    at covered
  have read := parseMessage_weight decoded
  unfold DataMap.weight at read
  rw [Reply.Ping.dictionary_length]
  omega

/-! ## Runs -/

/-- The octets of a datagram with this sender's address. -/
def AppEvent.octetsFrom (e : Endpoint) : AppEvent → Nat
  | .received _ false octets sender => if sender = e then octets.length else 0
  | _ => 0

/-- The octets of the replies to an address, and four for each. -/
def repliedTo (host : Host) (e : Endpoint) (handed : List Datagram) : Nat :=
  ((handed.filter fun d => d.addr = e && (queryTransaction host d).isNone).map
    fun d => d.buffer.length + 4).sum

theorem repliedTo_append (host : Host) (e : Endpoint) (ds ds' : List Datagram) :
    repliedTo host e (ds ++ ds') = repliedTo host e ds + repliedTo host e ds' := by
  simp [repliedTo]

theorem repliedTo_queries {host : Host} (e : Endpoint) {ds : List Datagram}
    (queries : ∀ d ∈ ds, (queryTransaction host d).isSome = true) : repliedTo host e ds = 0 := by
  have none : (ds.filter fun d => d.addr = e && (queryTransaction host d).isNone) = [] := by
    refine List.filter_eq_nil_iff.mpr fun d member => ?_
    simp [Option.isSome_iff_ne_none.mp (queries d member)]
  rw [repliedTo, none]
  rfl

theorem repliedTo_one_le (host : Host) (e : Endpoint) (d : Datagram) :
    repliedTo host e [d] ≤ if d.addr = e then d.buffer.length + 4 else 0 := by
  by_cases same : d.addr = e
  · cases asked : (queryTransaction host d).isNone <;> simp [repliedTo, same, asked]
  · simp [repliedTo, same]

/-- The messages of a batch are queries. -/
private theorem contacted_queries (host : Host) (node : NodeData) (endpoints : List Endpoint)
    (counter : BitVec 16) :
    ∀ d ∈ List.zipWith (fun t endpoint => (⟨query node t, endpoint⟩ : Datagram))
      (transactions counter endpoints.length) endpoints, (queryTransaction host d).isSome = true := by
  induction endpoints generalizing counter with
  | nil => simp
  | cons endpoint rest ih =>
    rw [List.length_cons, transactions_cons, List.zipWith_cons_cons]
    refine List.forall_mem_cons.mpr ⟨?_, ih (counter + 1)⟩
    obtain ⟨m, parsed, carries⟩ := query_carries host node counter
    rw [queryTransaction_query parsed carries endpoint]
    rfl

/-- One event adds no more than its octets. -/
theorem Responder.handle_octets {host : Host} {node : NodeData} {event : AppEvent} {r r' : Responder}
    (handled : r.handle host node event = some r') (e : Endpoint) :
    repliedTo host e r'.handed ≤ repliedTo host e r.handed + event.octetsFrom e := by
  cases event with
  | timer error resolve =>
    cases error with
    | true =>
      cases handled
      exact Nat.le_add_right _ _
    | false =>
      cases handled
      simp only [contact, repliedTo_append, repliedTo_queries e (contacted_queries host node _ _)]
      exact Nat.le_refl _
  | received now error octets sender =>
    cases error with
    | true =>
      cases handled
      exact Nat.le_add_right _ _
    | false =>
      simp only [handle] at handled
      cases answered : reaction host node (octets.take MESSAGE_BUFFER_SIZE) with
      | ignored =>
        rw [answered] at handled
        cases handled
        exact Nat.le_add_right _ _
      | fatal =>
        rw [answered] at handled
        cases handled
      | answered reply =>
        rw [answered] at handled
        cases handled
        have shorter : reply.length + 4 ≤ octets.length :=
          (reply_shorter answered).trans (List.length_take_le' _ _)
        rw [repliedTo_append]
        refine Nat.add_le_add_left ((repliedTo_one_le host e ⟨reply, sender⟩).trans ?_) _
        simp only [AppEvent.octetsFrom]
        split
        · exact shorter
        · exact Nat.le_refl _
  | sent completed =>
    cases handled
    exact Nat.le_add_right _ _
  | signal error =>
    simp only [handle] at handled
    split at handled <;> cases handled <;> exact Nat.le_add_right _ _
  | doPing destination =>
    simp only [handle] at handled
    obtain ⟨endpoint, -, rfl⟩ := Option.map_eq_some_iff.mp handled
    have short : (transactionOctets r.transactionId).length ≤ grantedSize := by
      rw [transactionOctets_length]
      decide
    obtain ⟨m, parsed, carries, -⟩ := Query.Ping.parse_dictionary host node short
    have asked : ∀ d ∈ [(⟨encode (Query.Ping.dictionary (transactionOctets r.transactionId) node),
        endpoint⟩ : Datagram)], (queryTransaction host d).isSome = true := by
      simp [queryTransaction_query parsed carries endpoint]
    simp only [repliedTo_append, repliedTo_queries e asked]
    exact Nat.le_refl _

theorem Responder.run_octets {host : Host} {node : NodeData} {events : List AppEvent} {r r' : Responder}
    (ran : r.run host node events = some r') (e : Endpoint) :
    repliedTo host e r'.handed ≤ repliedTo host e r.handed + (events.map fun event => event.octetsFrom e).sum := by
  induction events generalizing r with
  | nil =>
    cases ran
    exact Nat.le_refl _
  | cons event events ih =>
    obtain ⟨next, stepped, later⟩ := Option.bind_eq_some_iff.mp ran
    have rest := ih later
    have first : repliedTo host e next.handed ≤ repliedTo host e r.handed + event.octetsFrom e := by
      unfold step at stepped
      split at stepped
      · cases stepped
        exact Nat.le_add_right _ _
      · exact handle_octets stepped e
    rw [List.map_cons, List.sum_cons]
    omega

namespace App

/-- In every run, the replies to an address have fewer octets than the datagrams sent in its name. -/
theorem startAndRun_octets (host : Host) (node : NodeData) (counter : BitVec 16) (events : List AppEvent)
    {app : App} (ran : startAndRun host node counter events = .ok app) (e : Endpoint) :
    ((app.handed.filter fun d => d.addr = e && (queryTransaction host d).isNone).map
      fun d => d.buffer.length + 4).sum ≤ (events.map fun event => event.octetsFrom e).sum := by
  have seen := (startAndRun_matches host node counter events).toOption_seen
  rw [ran] at seen
  have total := Responder.run_octets seen.symm e
  have none : repliedTo host e (Responder.start counter).handed = 0 := rfl
  rw [none, Nat.zero_add] at total
  exact total

/-- A ping whose peer id is given under the joined path, as the shortest pings are. -/
def shortPing : Buffer := ascii "d4:a/id20:aaaaaaaaaaaaaaaaaaaa1:q4:ping1:t1:x1:y1:qe"

theorem startAndRun_octets_shortPing :
    ∃ app, startAndRun Host.x86 NodeData.minValue 0 [.received 0 false shortPing ⟨.v4 2, 6881⟩] = .ok app ∧
      ((app.handed.filter fun d => d.addr = ⟨.v4 2, 6881⟩ && (queryTransaction Host.x86 d).isNone).map
        fun d => d.buffer.length + 4).sum ≤
          (([.received 0 false shortPing ⟨.v4 2, 6881⟩] : List AppEvent).map
            fun event => event.octetsFrom ⟨.v4 2, 6881⟩).sum := by
  have alive : (startAndRun Host.x86 NodeData.minValue 0
      [.received 0 false shortPing ⟨.v4 2, 6881⟩]).toOption.isSome = true := by
    decide +kernel
  cases ran : startAndRun Host.x86 NodeData.minValue 0 [.received 0 false shortPing ⟨.v4 2, 6881⟩] with
  | error fault =>
    rw [ran] at alive
    cases alive
  | ok app => exact ⟨app, rfl, startAndRun_octets Host.x86 NodeData.minValue 0 _ ran ⟨.v4 2, 6881⟩⟩

/-- It is answered, with six octets less. -/
example : reaction Host.x86 NodeData.minValue shortPing =
    .answered (encode (Reply.Ping.dictionary (ascii "x") NodeData.minValue)) ∧
      (encode (Reply.Ping.dictionary (ascii "x") NodeData.minValue)).length + 6 = shortPing.length := by
  decide +kernel

end App
end TorrentSync.Source
