import TorrentSync.Source.AppResponder

/-!
# Runs of the program

Every run is a run of the responder of AppResponder, up to the event that ends both. Until then
the program waits for one datagram and one timer, and holds the callback of every query it sent.
-/
namespace TorrentSync.Source.App

open Lib Bencode OrderedContainers InitializingTable RoutingTable

/-- What a peer can tell of a state. -/
def seen (app : App) : Responder :=
  ⟨app.initialAddresses, app.transactionId, app.handed, app.stopSignal, app.stopped⟩

/-- The transaction id of a message that is a query. -/
def queryTransaction (host : Host) (message : Datagram) : Option Buffer :=
  match Message.parseMessage host message.buffer with
  | .ok (some m) => if m.find Field.Type = some Type.Query then m.find Field.TransactionID else none
  | _ => none

/-- Transaction ids count up from the first, with a callback for each query. -/
structure Accounted (host : Host) (counter : BitVec 16) (st : InitializingTable) : Prop where
  transactionId : st.transactionId = counter + BitVec.ofNat 16 st.callbacks.length
  awaited : (st.callbacks.map fun e => e.2.transactionID).Perm
    (transactions counter st.callbacks.length)
  queried : st.handed.filterMap (queryTransaction host) = transactions counter st.callbacks.length

/-- What holds in every state of a program with this node id and first transaction id. -/
structure Inert (host : Host) (node : NodeData) (counter : BitVec 16) (app : App) : Prop where
  untouched : Untouched node app.toRoutingTable
  called : app.called = []
  receives : app.receives = 1
  timers : app.timers = 1
  closeNodesCount : app.closeNodesCount = 0
  accounted : Accounted host counter app.toInitializingTable

/-- The program and its responder both end, or both go on, in states that correspond. -/
def Matches (host : Host) (node : NodeData) (counter : BitVec 16) (outcome : Fallible App)
    (next : Option Responder) : Prop :=
  match outcome with
  | .ok app => app.Inert host node counter ∧ next = some app.seen
  | .error _ => next = none

/-! ## Queries -/

/-- Messages are their buffers with their addresses. -/
private theorem zipWith_fields (ds : List Datagram) :
    List.zipWith Datagram.mk (ds.map Datagram.buffer) (ds.map Datagram.addr) = ds := by
  induction ds with
  | nil => rfl
  | cons d ds ih => rw [List.map_cons, List.map_cons, List.zipWith_cons_cons, ih]

/-- The messages of a batch, from their buffers and addresses. -/
private theorem contacted_handed {endpoints : List Endpoint} {st st' : InitializingTable}
    (contacted : Contacted endpoints st st') :
    st'.handed = st.handed ++ List.zipWith (fun t endpoint => ⟨query st.getTableNode t, endpoint⟩)
      (transactions st.transactionId endpoints.length) endpoints := by
  have whole := zipWith_fields st'.handed
  rw [contacted.buffers, contacted.addresses, List.zipWith_append (by simp), zipWith_fields,
    List.zipWith_map_left] at whole
  exact whole.symm

theorem queryTransaction_query {host : Host} {buffer : Buffer} {m : Message} {t : Buffer} {source : NodeData}
    (parsed : Message.parseMessage host buffer = .ok (some m))
    (carries : m.Carries host Type.Query t source) (addr : Endpoint) :
    queryTransaction host ⟨buffer, addr⟩ = some t := by
  have typed := Message.require_eq_ok.mp carries.type
  have named := Message.require_eq_ok.mp carries.transactionID
  simp only [queryTransaction, parsed, typed, named, if_true]

theorem queryTransaction_reply {host : Host} {buffer : Buffer} {m : Message} {t : Buffer} {source : NodeData}
    (parsed : Message.parseMessage host buffer = .ok (some m))
    (carries : m.Carries host Type.Reply t source) (addr : Endpoint) :
    queryTransaction host ⟨buffer, addr⟩ = none := by
  have typed := Message.require_eq_ok.mp carries.type
  have other : ¬ some Type.Reply = some Type.Query := by decide
  simp only [queryTransaction, parsed, typed, if_neg other]

/-- The queries of a batch carry its transaction ids. -/
private theorem contacted_queried (host : Host) (node : NodeData) (endpoints : List Endpoint)
    (counter : BitVec 16) :
    (List.zipWith (fun t endpoint => (⟨query node t, endpoint⟩ : Datagram))
      (transactions counter endpoints.length) endpoints).filterMap (queryTransaction host) =
        transactions counter endpoints.length := by
  induction endpoints generalizing counter with
  | nil => rfl
  | cons endpoint rest ih =>
    obtain ⟨m, parsed, carries⟩ := query_carries host node counter
    have first := queryTransaction_query parsed carries endpoint
    rw [List.length_cons, transactions_cons, List.zipWith_cons_cons, List.filterMap_cons, first, ih]

private theorem pinged_queried (host : Host) (node : NodeData) (endpoint : Endpoint) (counter : BitVec 16) :
    [(⟨encode (Query.Ping.dictionary (transactionOctets counter) node), endpoint⟩ : Datagram)].filterMap
      (queryTransaction host) = transactions counter 1 := by
  have short : (transactionOctets counter).length ≤ grantedSize := by
    rw [transactionOctets_length]
    decide
  obtain ⟨m, parsed, carries, -⟩ := Query.Ping.parse_dictionary host node short
  rw [List.filterMap_cons, queryTransaction_query parsed carries endpoint, transactions_one, List.filterMap_nil]

/-- A ping reply counts as no query. -/
private theorem answered_queried (host : Host) (node : NodeData) (endpoint : Endpoint)
    {transactionID : Buffer} (fits : Reply.Ping.Fits transactionID) :
    [(⟨encode (Reply.Ping.dictionary transactionID node), endpoint⟩ : Datagram)].filterMap
      (queryTransaction host) = [] := by
  have short : transactionID.length ≤ grantedSize := by
    have room := fits.2
    have large : 2048 ≤ grantedSize := by decide
    rw [string_length] at room
    omega
  obtain ⟨m, parsed, carries⟩ := Reply.Ping.parse_dictionary host node short
  rw [List.filterMap_cons, queryTransaction_reply parsed carries endpoint, List.filterMap_nil]

theorem Accounted.congr {host : Host} {counter : BitVec 16} {st st' : InitializingTable}
    (h : Accounted host counter st) (transactionId : st'.transactionId = st.transactionId)
    (callbacks : st'.callbacks = st.callbacks)
    (handed : st'.handed.filterMap (queryTransaction host) = st.handed.filterMap (queryTransaction host)) :
    Accounted host counter st' := by
  refine ⟨?_, ?_, ?_⟩
  · rw [transactionId, callbacks, h.transactionId]
  · rw [callbacks]
    exact h.awaited
  · rw [handed, callbacks, h.queried]

/-- New callbacks, stored under the transaction ids of new queries, keep the account. -/
private theorem Accounted.more {host : Host} {counter : BitVec 16} {st st' : InitializingTable}
    (h : Accounted host counter st) {n : Nat} {new : Callbacks} {queries : List Datagram}
    (transactionId : st'.transactionId = st.transactionId + BitVec.ofNat 16 n)
    (perm : st'.callbacks.Perm (new ++ st.callbacks))
    (handed : st'.handed = st.handed ++ queries)
    (awaited : (new.map fun e => e.2.transactionID) = transactions st.transactionId n)
    (queried : queries.filterMap (queryTransaction host) = transactions st.transactionId n) :
    Accounted host counter st' := by
  have size : new.length = n := by
    have lengths := congrArg List.length awaited
    simpa [transactions] using lengths
  have total : st'.callbacks.length = st.callbacks.length + n := by
    rw [perm.length_eq, List.length_append, size, Nat.add_comm]
  refine ⟨?_, ?_, ?_⟩
  · rw [transactionId, h.transactionId, total]
    bv_omega
  · rw [total, transactions_add, ← h.transactionId, ← awaited]
    refine (perm.map _).trans ?_
    rw [List.map_append]
    exact List.perm_append_comm.trans (h.awaited.append_right _)
  · rw [handed, List.filterMap_append, h.queried, queried, total, transactions_add, ← h.transactionId]

/-- A batch of queries leaves the table alone and adds a callback for each of them. -/
private theorem untouched_more {node : NodeData} {rt rt' : RoutingTable} (h : Untouched node rt)
    (table : rt'.table = rt.table) (valid : rt'.callbacks.Valid) {new : Callbacks}
    (perm : rt'.callbacks.Perm (new ++ rt.callbacks)) (keys : ∀ e ∈ new, e.1.length = 2) :
    Untouched node rt' := by
  refine ⟨table.trans h.table, valid, ?_⟩
  intro e member
  rcases List.mem_append.mp (perm.mem_iff.mp member) with fresh | old
  · exact keys e fresh
  · exact h.keys e old

section Handlers

variable {host : Host} {node : NodeData} {counter : BitVec 16} {app : App}

theorem Inert.getTableNode (h : app.Inert host node counter) : app.getTableNode = node := by
  rw [RoutingTable.getTableNode, h.untouched.table]
  rfl

theorem Inert.timer (h : app.Inert host node counter) (error : Bool) (resolve : Resolver) :
    Matches host node counter (app.handle host (.timer error resolve))
      (app.seen.handle host node (.timer error resolve)) := by
  have pending : ¬ app.timers = 0 := by
    rw [h.timers]
    decide
  simp only [handle, InitializingTable.step, if_neg pending]
  cases error with
  | true =>
    simp only [tick, if_true, ok_bind]
    exact ⟨{ h with
      timers := congrArg (· - 1 + 1) h.timers
      accounted := h.accounted.congr rfl rfl rfl }, rfl⟩
  | false =>
    have fired : ({ app.toInitializingTable with timers := app.timers - 1 } : InitializingTable).Valid :=
      ⟨h.untouched.valid.table, h.untouched.callbacks⟩
    have below : ({ app.toInitializingTable with timers := app.timers - 1 } :
        InitializingTable).closeNodesCount < DHT_CLOSE_ENOUGH := by
      rw [h.closeNodesCount]
      decide
    obtain ⟨st', ticked, remaining, waits, contacted⟩ := tick_spec host resolve fired below
    have ids : ∀ n, (((transactions app.transactionId n).map fun t => (t, awaitingReply t)).map
        fun e => e.2.transactionID) = transactions app.transactionId n := by
      intro n
      rw [List.map_map]
      exact List.map_id _
    have handed := contacted_handed contacted
    have accounted : Accounted host counter
        ({ app.toInitializingTable with timers := app.timers - 1 } : InitializingTable) := { h.accounted with }
    have own : ({ app.toInitializingTable with timers := app.timers - 1 } :
      InitializingTable).getTableNode = node := h.getTableNode
    rw [own] at handed
    simp only [ticked, ok_bind]
    refine ⟨⟨untouched_more h.untouched contacted.table contacted.valid.callbacks contacted.callbacks ?_,
      contacted.called.trans h.called, h.receives, waits.trans (congrArg (· - 1 + 1) h.timers),
      contacted.closeNodesCount.trans h.closeNodesCount,
      accounted.more contacted.transactionId contacted.callbacks handed (ids _)
        (contacted_queried host node _ _)⟩, ?_⟩
    · intro e member
      obtain ⟨t, listed, rfl⟩ := List.mem_map.mp member
      obtain ⟨i, -, rfl⟩ := List.mem_map.mp listed
      rfl
    · simp only [Responder.handle, Responder.contact, seen, Option.some.injEq, Responder.mk.injEq, and_true]
      exact ⟨remaining.symm, contacted.transactionId.symm, handed.symm⟩

theorem Inert.doPing (h : app.Inert host node counter) (destination : Node) :
    Matches host node counter (app.handle host (.doPing destination))
      (app.seen.handle host node (.doPing destination)) := by
  simp only [handle, Responder.handle, InitializingTable.doPing]
  cases reached : destination.endpoint with
  | none =>
    simp only [Option.isSome_none, check_false, error_bind]
    rfl
  | some endpoint =>
    have own : ({ app.toInitializingTable with transactionId := app.transactionId + 1 } :
        InitializingTable).getTableNode = node := h.getTableNode
    have made : Query.Ping.make host (transactionOctets app.transactionId) node =
        .ok (encode (Query.Ping.dictionary (transactionOctets app.transactionId) node)) := by
      refine (pingQuery_make_iff host _ _ _).mpr ⟨by simp [transactionOctets], ?_, rfl⟩
      rw [string_length, transactionOctets_length]
      decide
    have perm : (app.registerCallback .doPing (transactionOctets app.transactionId)
        (some destination.nodeData)).callbacks.Perm
          ([(transactionOctets app.transactionId,
            ⟨.doPing, some destination.nodeData, transactionOctets app.transactionId⟩)] ++ app.callbacks) :=
      insertMulti_perm _ _ _ _
    have valid := h.untouched.callbacks.registerCallback .doPing (transactionOctets app.transactionId)
      (some destination.nodeData)
    simp only [Option.isSome_some, check_true, newTransaction, own, made, ok_bind, Option.map_some]
    refine ⟨⟨untouched_more h.untouched rfl valid perm ?_, h.called, h.receives, h.timers,
      h.closeNodesCount, h.accounted.more rfl perm rfl (transactions_one app.transactionId).symm
        (pinged_queried host node endpoint app.transactionId)⟩, rfl⟩
    intro e member
    rw [List.mem_singleton.mp member]
    rfl

/-- What `recvMessage` does with the buffer of a receive. -/
theorem Inert.recvMessage_shows (h : app.Inert host node counter) (now : Int) (octets : Buffer)
    (sender : Endpoint) :
    app.toRoutingTable.Shows sender
      (app.recvMessage host now false (resize MESSAGE_BUFFER_SIZE (octets.take MESSAGE_BUFFER_SIZE))
        (octets.take MESSAGE_BUFFER_SIZE).length sender)
      (reaction host node (octets.take MESSAGE_BUFFER_SIZE)) := by
  have fits : (octets.take MESSAGE_BUFFER_SIZE).length ≤ MESSAGE_BUFFER_SIZE := List.length_take_le _ _
  have whole : resize (octets.take MESSAGE_BUFFER_SIZE).length
      (resize MESSAGE_BUFFER_SIZE (octets.take MESSAGE_BUFFER_SIZE)) = octets.take MESSAGE_BUFFER_SIZE := by
    rw [resize_of_le (by rwa [resize_length]), resize, List.take_of_length_le fits, List.take_left]
  have shows := h.untouched.recvMessage_shows host now
    (resize MESSAGE_BUFFER_SIZE (octets.take MESSAGE_BUFFER_SIZE))
    (octets.take MESSAGE_BUFFER_SIZE).length sender
  rwa [whole] at shows

theorem Inert.received (h : app.Inert host node counter) (now : Int) (error : Bool)
    (octets : Buffer) (sender : Endpoint) :
    Matches host node counter (app.handle host (.received now error octets sender))
      (app.seen.handle host node (.received now error octets sender)) := by
  have pending : ¬ app.receives = 0 := by
    rw [h.receives]
    decide
  have again : app.receives - 1 + 1 = 1 := by rw [h.receives]
  simp only [handle, if_neg pending, handleReceive, scheduleNextReceive]
  cases error with
  | true =>
    simp only [recvMessage, if_true, ok_bind]
    exact ⟨{ h with receives := again }, rfl⟩
  | false =>
    have shows := h.recvMessage_shows now octets sender
    simp only [Responder.handle]
    cases reacted : reaction host node (octets.take MESSAGE_BUFFER_SIZE) with
    | ignored =>
      rw [reacted] at shows
      rw [show _ = Except.ok app.toRoutingTable from shows]
      exact ⟨{ h with receives := again }, rfl⟩
    | answered reply =>
      rw [reacted] at shows
      rw [show _ = Except.ok (app.sendMessage reply sender) from shows]
      obtain ⟨-, -, transactionID, -, -, -, -, -, fits, made⟩ := reaction_answered reacted
      have quiet : (app.handed ++ [(⟨reply, sender⟩ : Datagram)]).filterMap (queryTransaction host) =
          app.handed.filterMap (queryTransaction host) := by
        rw [List.filterMap_append, made, answered_queried host node sender fits, List.append_nil]
      exact ⟨{ h with
        untouched := ⟨h.untouched.table, h.untouched.callbacks, h.untouched.keys⟩
        receives := again
        accounted := h.accounted.congr rfl rfl quiet }, rfl⟩
    | fatal =>
      rw [reacted] at shows
      obtain ⟨fault, ended⟩ := shows
      rw [ended]
      rfl

/-- Every handler does what the responder does. -/
theorem Inert.handle (h : app.Inert host node counter) (event : AppEvent) :
    Matches host node counter (app.handle host event) (app.seen.handle host node event) := by
  cases event with
  | timer error resolve => exact h.timer error resolve
  | received now error octets sender => exact h.received now error octets sender
  | doPing destination => exact h.doPing destination
  | sent completed =>
    exact ⟨{ h with
      untouched := ⟨h.untouched.table, h.untouched.callbacks, h.untouched.keys⟩
      accounted := h.accounted.congr rfl rfl rfl }, rfl⟩
  | signal error =>
    by_cases waits : app.stopSignal = true
    · have waits' : app.seen.stopSignal = true := waits
      simp only [App.handle, Responder.handle, if_pos waits, if_pos waits']
      exact ⟨{ h with }, rfl⟩
    · have waits' : ¬ app.seen.stopSignal = true := waits
      simp only [App.handle, Responder.handle, if_neg waits, if_neg waits']
      exact ⟨h, rfl⟩

theorem Inert.step (h : app.Inert host node counter) (event : AppEvent) :
    Matches host node counter (app.step host event) (app.seen.step host node event) := by
  by_cases stopped : app.stopped = true
  · have ended : app.seen.stopped = true := stopped
    rw [App.step, if_pos stopped, Responder.step, if_pos ended]
    exact ⟨h, rfl⟩
  · have waiting : ¬ app.seen.stopped = true := stopped
    rw [App.step, if_neg stopped, Responder.step, if_neg waiting]
    exact h.handle event

/-- Every run is a run of the responder. -/
theorem Inert.run (h : app.Inert host node counter) (events : List AppEvent) :
    Matches host node counter (run host events app) (app.seen.run host node events) := by
  induction events generalizing app with
  | nil => exact ⟨h, rfl⟩
  | cons event events ih =>
    have first := h.step event
    rw [App.run, Responder.run]
    cases stepped : app.step host event with
    | error fault =>
      rw [stepped] at first
      rw [show app.seen.step host node event = none from first]
      rfl
    | ok app' =>
      rw [stepped] at first
      obtain ⟨inert, next⟩ := first
      rw [next]
      exact ih inert

end Handlers

theorem start_inert (host : Host) (node : NodeData) (counter : BitVec 16) :
    ∃ app, start node counter = .ok app ∧ app.Inert host node counter ∧
      app.seen = Responder.start counter :=
  ⟨_, rfl, ⟨⟨rfl, Callbacks.empty_valid, fun _ member => (List.not_mem_nil member).elim⟩, rfl, rfl, rfl, rfl,
    ⟨(BitVec.add_zero _).symm, List.Perm.refl _, rfl⟩⟩, rfl⟩

/-- The program started and its run. -/
def startAndRun (host : Host) (node : NodeData) (counter : BitVec 16) (events : List AppEvent) :
    Fallible App := do
  let app ← start node counter
  run host events app

theorem startAndRun_matches (host : Host) (node : NodeData) (counter : BitVec 16)
    (events : List AppEvent) :
    Matches host node counter (startAndRun host node counter events)
      ((Responder.start counter).run host node events) := by
  obtain ⟨app, started, inert, seen⟩ := start_inert host node counter
  rw [startAndRun, started, ok_bind, ← seen]
  exact inert.run events

theorem Matches.toOption_seen {host : Host} {node : NodeData} {counter : BitVec 16} {outcome : Fallible App}
    {next : Option Responder} (matched : Matches host node counter outcome next) :
    outcome.toOption.map seen = next := by
  cases outcome with
  | error fault => exact Eq.symm matched
  | ok app => exact matched.2.symm

/-- The program behaves as the responder for its node id, whatever happens in whatever order. -/
theorem startAndRun_seen (host : Host) (node : NodeData) (counter : BitVec 16) (events : List AppEvent) :
    (startAndRun host node counter events).toOption.map seen =
      (Responder.start counter).run host node events :=
  (startAndRun_matches host node counter events).toOption_seen

/-- As long as the program runs it stores no node, calls no callback, waits for one datagram and
one timer, and keeps a callback for every query it has sent. -/
theorem startAndRun_inert (host : Host) (node : NodeData) (counter : BitVec 16) (events : List AppEvent)
    {app : App} (ran : startAndRun host node counter events = .ok app) :
    app.table = NodeTree.new node ∧ app.called = [] ∧ app.receives = 1 ∧ app.timers = 1 ∧
      (app.callbacks.map fun e => e.2.transactionID).Perm (app.handed.filterMap (queryTransaction host)) ∧
      app.handed.filterMap (queryTransaction host) = transactions counter app.callbacks.length := by
  have matched := startAndRun_matches host node counter events
  rw [ran] at matched
  obtain ⟨inert, -⟩ := matched
  refine ⟨inert.untouched.table, inert.called, inert.receives, inert.timers, ?_, inert.accounted.queried⟩
  rw [inert.accounted.queried]
  exact inert.accounted.awaited

/-- A batch of two addresses, a ping, a datagram that is no message, and SIGINT. -/
theorem startAndRun_inert_stopped :
    ∃ app, startAndRun Host.x86 NodeData.minValue 65535
        [.timer false fun _ => [⟨.v4 1, 6881⟩], .doPing ⟨NodeData.maxValue, 0, 0, some ⟨.v4 2, 6881⟩⟩,
          .received 0 false [0] ⟨.v4 3, 6881⟩, .sent 0, .signal false] = .ok app ∧
      app.table = NodeTree.new NodeData.minValue ∧ app.called = [] ∧ app.receives = 1 ∧ app.timers = 1 ∧
      (app.callbacks.map fun e => e.2.transactionID).Perm
        (app.handed.filterMap (queryTransaction Host.x86)) ∧
      app.handed.filterMap (queryTransaction Host.x86) = transactions 65535 app.callbacks.length := by
  have alive : (startAndRun Host.x86 NodeData.minValue 65535
      [.timer false fun _ => [⟨.v4 1, 6881⟩], .doPing ⟨NodeData.maxValue, 0, 0, some ⟨.v4 2, 6881⟩⟩,
        .received 0 false [0] ⟨.v4 3, 6881⟩, .sent 0, .signal false]).toOption.isSome = true := by
    decide +kernel
  cases ran : startAndRun Host.x86 NodeData.minValue 65535
      [.timer false fun _ => [⟨.v4 1, 6881⟩], .doPing ⟨NodeData.maxValue, 0, 0, some ⟨.v4 2, 6881⟩⟩,
        .received 0 false [0] ⟨.v4 3, 6881⟩, .sent 0, .signal false] with
  | error fault =>
    rw [ran] at alive
    cases alive
  | ok app => exact ⟨app, rfl, startAndRun_inert Host.x86 NodeData.minValue 65535 _ ran⟩

end TorrentSync.Source.App
