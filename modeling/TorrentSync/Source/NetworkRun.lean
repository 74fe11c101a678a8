import TorrentSync.Lib.ListParts
import TorrentSync.Source.Network

/-!
# Runs of a network

Every message between the programs is a query of its sender or the reply to a ping of its
addressee. The first find_node query that arrives ends a program, and no program learns that its
ping was answered.
-/
namespace TorrentSync.Source

open Lib Bencode InitializingTable ListParts

/-! ## One program -/

/-- Without a datagram a program sends queries only, and ends only by a ping to a node without
an endpoint. -/
theorem Responder.handle_local (host : Host) (node : NodeData) {event : AppEvent}
    (isLocal : event.isLocal = true) (r : Responder) :
    match r.handle host node event with
    | none => ∃ destination, event = .doPing destination ∧ destination.endpoint = none
    | some r' => ∃ new : List Datagram, r'.handed = r.handed ++ new ∧
        ∀ d ∈ new, ∃ sent value, sent ≠ .pingReply ∧ d.buffer = Sent.buffer node value sent := by
  have nothing : ∃ new : List Datagram, r.handed = r.handed ++ new ∧
      ∀ d ∈ new, ∃ sent value, sent ≠ .pingReply ∧ d.buffer = Sent.buffer node value sent :=
    ⟨[], (List.append_nil _).symm, fun d none => (List.not_mem_nil none).elim⟩
  cases event with
  | timer error resolve =>
    cases error with
    | true => exact nothing
    | false =>
      refine ⟨_, rfl, ?_⟩
      intro d member
      rw [← List.map_uncurry_zip_eq_zipWith] at member
      obtain ⟨⟨t, endpoint⟩, paired, rfl⟩ := List.mem_map.mp member
      obtain ⟨i, -, rfl⟩ := List.mem_map.mp (List.of_mem_zip paired).1
      exact ⟨.findNode, r.transactionId + BitVec.ofNat 16 i, by decide, rfl⟩
  | received now error octets sender =>
    cases isLocal
    exact nothing
  | sent completed => exact nothing
  | signal error =>
    by_cases waits : r.stopSignal = true
    · simp only [handle, if_pos waits]
      exact nothing
    · simp only [handle, if_neg waits]
      exact nothing
  | doPing destination =>
    simp only [handle]
    cases reached : destination.endpoint with
    | none => exact ⟨destination, rfl, reached⟩
    | some endpoint =>
      refine ⟨_, rfl, ?_⟩
      intro d member
      cases List.mem_singleton.mp member
      exact ⟨.ping, r.transactionId, by decide, rfl⟩

/-- What a program does with a message of another. -/
theorem Responder.handle_sent (host : Host) (node peer : NodeData) (now : Int) (value : BitVec 16)
    (sent : Sent) (sender : Endpoint) (r : Responder) :
    r.handle host node (.received now false (sent.buffer peer value) sender) =
      match sent with
      | .findNode => none
      | .ping => some { r with handed := r.handed ++ [⟨Sent.pingReply.buffer node value, sender⟩] }
      | .pingReply => some r := by
  simp only [handle, sent.reaction_buffer]
  cases sent <;> rfl

namespace App

variable {host : Host} {node : NodeData} {counter : BitVec 16} {app : App}

theorem Matches.error {outcome : Fallible App} (h : Matches host node counter outcome none) :
    ∃ fault, outcome = .error fault := by
  cases outcome with
  | error fault => exact ⟨fault, rfl⟩
  | ok app' => cases h.2

/-- A datagram that is ignored changes nothing. -/
theorem Inert.ignores (h : app.Inert host node counter) {octets : Buffer}
    (ignored : reaction host node (octets.take MESSAGE_BUFFER_SIZE) = .ignored) (now : Int)
    (sender : Endpoint) : app.step host (.received now false octets sender) = .ok app := by
  by_cases stopped : app.stopped = true
  · rw [App.step, if_pos stopped]
  · have pending : ¬ app.receives = 0 := by
      rw [h.receives]
      decide
    have again : app.receives - 1 + 1 = app.receives := by rw [h.receives]
    have shows := h.recvMessage_shows now octets sender
    rw [ignored] at shows
    rw [App.step, if_neg stopped]
    simp only [App.handle, if_neg pending, handleReceive, scheduleNextReceive, again]
    rw [show _ = Except.ok app.toRoutingTable from shows]
    rfl

end App

/-! ## One step -/

namespace Network

variable {ι : Type} [DecidableEq ι] {peers : ι → Peer} {net : Network ι}

/-- A query of its sender, or the reply to a ping of its addressee. -/
def Genuine (peers : ι → Peer) (packets : List (Packet ι)) (p : Packet ι) : Prop :=
  ∃ sent value, p.datagram.buffer = Sent.buffer (peers p.source).node value sent ∧
    (sent = .pingReply → ∃ q ∈ packets, (peers q.source).endpoint = p.datagram.addr ∧
      q.datagram = ⟨Sent.ping.buffer (peers q.source).node value, (peers p.source).endpoint⟩)

/-- What holds in every state of a network. -/
structure Sound (peers : ι → Peer) (net : Network ι) : Prop where
  inert : ∀ i app, net.programs i = some app →
    app.Inert (peers i).host (peers i).node (peers i).counter
  handed : ∀ i app, net.programs i = some app →
    (net.packets.filter fun p => p.source = i).map Packet.datagram = app.handed
  genuine : ∀ p ∈ net.packets, Genuine peers net.packets p

/-- What a step can do. -/
inductive Effect (peers : ι → Peer) (net : Network ι) : NetworkEvent ι → Network ι → Prop
  | quiet (event : NetworkEvent ι) : Effect peers net event net
  | queried (i : ι) (event : AppEvent) (app app' : App) (new : List Datagram)
      (runs : net.programs i = some app)
      (inert : app'.Inert (peers i).host (peers i).node (peers i).counter)
      (handed : app'.handed = app.handed ++ new)
      (queries : ∀ d ∈ new, ∃ sent value, sent ≠ .pingReply ∧
        d.buffer = Sent.buffer (peers i).node value sent) :
      Effect peers net (.handles i event)
        ⟨Function.update net.programs i (some app'), net.packets ++ new.map fun d => ⟨i, d⟩⟩
  | failed (i : ι) (destination : Node) (unreachable : destination.endpoint = none) :
      Effect peers net (.handles i (.doPing destination))
        ⟨Function.update net.programs i none, net.packets⟩
  | fatal (packet : Nat) (i : ι) (now : Int) (p : Packet ι) (value : BitVec 16)
      (found : net.packets[packet]? = some p)
      (asked : p.datagram = ⟨Sent.findNode.buffer (peers p.source).node value, (peers i).endpoint⟩) :
      Effect peers net (.deliver packet i now) ⟨Function.update net.programs i none, net.packets⟩
  | answered (packet : Nat) (i : ι) (now : Int) (p : Packet ι) (value : BitVec 16) (app app' : App)
      (found : net.packets[packet]? = some p)
      (pinged : p.datagram = ⟨Sent.ping.buffer (peers p.source).node value, (peers i).endpoint⟩)
      (runs : net.programs i = some app)
      (inert : app'.Inert (peers i).host (peers i).node (peers i).counter)
      (handed : app'.handed = app.handed ++
        [⟨Sent.pingReply.buffer (peers i).node value, (peers p.source).endpoint⟩]) :
      Effect peers net (.deliver packet i now)
        ⟨Function.update net.programs i (some app'), net.packets ++
          [⟨i, ⟨Sent.pingReply.buffer (peers i).node value, (peers p.source).endpoint⟩⟩]⟩

section Handle

variable {i : ι} {app app' : App} {event : AppEvent}

theorem handle_none (ended : net.programs i = none) : net.handle peers i event = net := by
  simp only [handle, ended]

theorem handle_error (runs : net.programs i = some app) {fault : Fault}
    (stepped : app.step (peers i).host event = .error fault) :
    net.handle peers i event = ⟨Function.update net.programs i none, net.packets⟩ := by
  simp only [handle, runs, stepped]

theorem handle_ok (runs : net.programs i = some app)
    (stepped : app.step (peers i).host event = .ok app') {new : List Datagram}
    (handed : app'.handed = app.handed ++ new) :
    net.handle peers i event =
      ⟨Function.update net.programs i (some app'), net.packets ++ new.map fun d => ⟨i, d⟩⟩ := by
  simp only [handle, runs, stepped, handed, List.drop_left]

theorem handle_same (runs : net.programs i = some app)
    (stepped : app.step (peers i).host event = .ok app) : net.handle peers i event = net := by
  rw [handle_ok runs stepped (List.append_nil _).symm, ← runs, Function.update_eq_self]
  simp

end Handle

/-- A step without a datagram. -/
theorem Sound.handles (h : Sound peers net) (i : ι) (event : AppEvent) :
    Effect peers net (.handles i event) (net.step peers (.handles i event)) := by
  rw [step]
  by_cases isLocal : event.isLocal = true
  · rw [if_pos isLocal]
    cases runs : net.programs i with
    | none =>
      rw [handle_none runs]
      exact .quiet _
    | some app =>
      by_cases stopped : app.stopped = true
      · rw [handle_same runs (if_pos stopped)]
        exact .quiet _
      · have inert := h.inert i app runs
        have matched := inert.handle event
        have local' := Responder.handle_local (peers i).host (peers i).node isLocal app.seen
        have same : app.step (peers i).host event = app.handle (peers i).host event := if_neg stopped
        cases handled : app.handle (peers i).host event with
        | error fault =>
          rw [handled] at matched
          rw [show _ = none from matched] at local'
          obtain ⟨destination, rfl, unreachable⟩ := local'
          rw [handle_error runs (same.trans handled)]
          exact .failed i destination unreachable
        | ok app' =>
          rw [handled] at matched
          obtain ⟨inert', seen⟩ := matched
          rw [seen] at local'
          obtain ⟨new, handed, queries⟩ := local'
          rw [handle_ok runs (same.trans handled) handed]
          exact .queried i event app app' new runs inert' handed queries
  · rw [if_neg isLocal]
    exact .quiet _

/-- The arrival of a message between programs. -/
theorem Sound.delivers (h : Sound peers net) (packet : Nat) (i : ι) (now : Int) :
    Effect peers net (.deliver packet i now) (net.step peers (.deliver packet i now)) := by
  simp only [step]
  cases found : net.packets[packet]? with
  | none => exact .quiet _
  | some p =>
    simp only
    by_cases addressed : p.datagram.addr = (peers i).endpoint
    · rw [if_pos addressed]
      cases runs : net.programs i with
      | none =>
        rw [handle_none runs]
        exact .quiet _
      | some app =>
        by_cases stopped : app.stopped = true
        · rw [handle_same runs (if_pos stopped)]
          exact .quiet _
        · have inert := h.inert i app runs
          obtain ⟨sent, value, buffer, -⟩ := h.genuine p (List.mem_of_getElem? found)
          have matched := inert.handle (.received now false p.datagram.buffer (peers p.source).endpoint)
          have same : app.step (peers i).host
              (.received now false p.datagram.buffer (peers p.source).endpoint) =
            app.handle (peers i).host
              (.received now false p.datagram.buffer (peers p.source).endpoint) := if_neg stopped
          have whole : p.datagram = ⟨sent.buffer (peers p.source).node value, (peers i).endpoint⟩ := by
            rw [← buffer, ← addressed]
          have reacts := Responder.handle_sent (peers i).host (peers i).node (peers p.source).node now
            value sent (peers p.source).endpoint app.seen
          rw [buffer] at same matched ⊢
          rw [reacts] at matched
          cases sent with
          | findNode =>
            cases handled : app.handle (peers i).host
                (.received now false (Sent.findNode.buffer (peers p.source).node value)
                  (peers p.source).endpoint) with
            | error fault =>
              rw [handle_error runs (same.trans handled)]
              exact .fatal packet i now p value found whole
            | ok app' =>
              rw [handled] at matched
              cases matched.2
          | ping =>
            cases handled : app.handle (peers i).host
                (.received now false (Sent.ping.buffer (peers p.source).node value)
                  (peers p.source).endpoint) with
            | error fault =>
              rw [handled] at matched
              cases matched
            | ok app' =>
              rw [handled] at matched
              obtain ⟨inert', seen⟩ := matched
              have handed := (congrArg Responder.handed (Option.some.inj seen)).symm
              rw [handle_ok runs (same.trans handled) handed]
              exact .answered packet i now p value app app' found whole runs inert' handed
          | pingReply =>
            rw [handle_same runs (inert.ignores
              (Sent.reaction_buffer (peers i).host (peers i).node (peers p.source).node value .pingReply)
              now (peers p.source).endpoint)]
            exact .quiet _
    · rw [if_neg addressed]
      exact .quiet _

theorem Sound.effect (h : Sound peers net) (event : NetworkEvent ι) :
    Effect peers net event (net.step peers event) := by
  cases event with
  | handles i event => exact h.handles i event
  | deliver packet i now => exact h.delivers packet i now

/-! ## Runs -/

omit [DecidableEq ι] in
theorem Genuine.more {packets : List (Packet ι)} {p : Packet ι} (h : Genuine peers packets p)
    (new : List (Packet ι)) : Genuine peers (packets ++ new) p := by
  obtain ⟨sent, value, buffer, answers⟩ := h
  refine ⟨sent, value, buffer, fun reply => ?_⟩
  obtain ⟨q, member, pinged⟩ := answers reply
  exact ⟨q, List.mem_append_left _ member, pinged⟩

/-- The programs after one of them has changed. -/
theorem programs_update {i j : ι} {changed : Option App} {app : App}
    (runs : Function.update net.programs i changed j = some app) :
    (j = i ∧ changed = some app) ∨ (j ≠ i ∧ net.programs j = some app) := by
  by_cases same : j = i
  · subst same
    rw [Function.update_self] at runs
    exact .inl ⟨rfl, runs⟩
  · rw [Function.update_of_ne same] at runs
    exact .inr ⟨same, runs⟩

/-- A program ends. -/
theorem Sound.ended (h : Sound peers net) (i : ι) :
    Sound peers ⟨Function.update net.programs i none, net.packets⟩ := by
  refine ⟨?_, ?_, h.genuine⟩
  all_goals
    intro j app runs
    rcases programs_update runs with ⟨-, none⟩ | ⟨-, runs⟩
    · cases none
  · exact h.inert j app runs
  · exact h.handed j app runs

/-- A program goes on and sends messages. -/
theorem Sound.sends (h : Sound peers net) {i : ι} {app app' : App} {new : List Datagram}
    (runs : net.programs i = some app)
    (inert : app'.Inert (peers i).host (peers i).node (peers i).counter)
    (handed : app'.handed = app.handed ++ new)
    (genuine : ∀ d ∈ new, Genuine peers net.packets ⟨i, d⟩) :
    Sound peers
      ⟨Function.update net.programs i (some app'), net.packets ++ new.map fun d => ⟨i, d⟩⟩ := by
  have own : ((new.map fun d => (⟨i, d⟩ : Packet ι)).filter fun p => p.source = i).map
      Packet.datagram = new := by
    rw [List.filter_eq_self.mpr (by simp), List.map_map]
    exact List.map_id _
  have others : ∀ j, j ≠ i → (new.map fun d => (⟨i, d⟩ : Packet ι)).filter (fun p => p.source = j) = [] := by
    intro j other
    rw [List.filter_eq_nil_iff]
    intro p member
    obtain ⟨d, -, rfl⟩ := List.mem_map.mp member
    simpa using Ne.symm other
  refine ⟨?_, ?_, ?_⟩
  · intro j app₁ runs₁
    rcases programs_update runs₁ with ⟨rfl, same⟩ | ⟨-, runs₁⟩
    · cases same
      exact inert
    · exact h.inert j app₁ runs₁
  · intro j app₁ runs₁
    rw [List.filter_append, List.map_append]
    rcases programs_update runs₁ with ⟨rfl, same⟩ | ⟨other, runs₁⟩
    · cases same
      rw [h.handed j app runs, own, handed]
    · rw [h.handed j app₁ runs₁, others j other, List.map_nil, List.append_nil]
  · intro p member
    rcases List.mem_append.mp member with old | fresh
    · exact (h.genuine p old).more _
    · obtain ⟨d, listed, rfl⟩ := List.mem_map.mp fresh
      exact (genuine d listed).more _

/-- Every step keeps the invariant. -/
theorem Effect.sound (h : Sound peers net) {event : NetworkEvent ι} {net' : Network ι}
    (effect : Effect peers net event net') : Sound peers net' := by
  cases effect with
  | quiet => exact h
  | queried i event app app' new runs inert handed queries =>
    refine h.sends runs inert handed fun d member => ?_
    obtain ⟨sent, value, query, buffer⟩ := queries d member
    exact ⟨sent, value, buffer, fun reply => absurd reply query⟩
  | failed i => exact h.ended i
  | fatal packet i => exact h.ended i
  | answered packet i now p value app app' found pinged runs inert handed =>
    refine h.sends runs inert handed fun d member => ?_
    cases List.mem_singleton.mp member
    exact ⟨.pingReply, value, rfl, fun _ => ⟨p, List.mem_of_getElem? found, rfl, pinged⟩⟩

theorem start_sound (peers : ι → Peer) : Sound peers (start peers) := by
  have first : ∀ i app, (start peers).programs i = some app →
      app.Inert (peers i).host (peers i).node (peers i).counter ∧ app.handed = [] := by
    intro i app runs
    obtain ⟨app₁, started, inert, seen⟩ :=
      App.start_inert (peers i).host (peers i).node (peers i).counter
    have same : (start peers).programs i = some app₁ := congrArg Except.toOption started
    cases runs.symm.trans same
    exact ⟨inert, congrArg Responder.handed seen⟩
  refine ⟨fun i app runs => (first i app runs).1, fun i app runs => ?_,
    fun p member => (List.not_mem_nil member).elim⟩
  rw [(first i app runs).2]
  rfl

theorem Sound.run (h : Sound peers net) (events : List (NetworkEvent ι)) :
    Sound peers (net.run peers events) := by
  induction events generalizing net with
  | nil => exact h
  | cons event events ih => exact ih ((h.effect event).sound h)

/-! ## Messages -/

/-- The addressee sent a ping with this transaction id. As long as it runs it has a callback for
the reply, and the reply changes nothing. -/
def AnswersUnnoticed (peers : ι → Peer) (net : Network ι) (p : Packet ι) (value : BitVec 16) : Prop :=
  ∃ q ∈ net.packets, (peers q.source).endpoint = p.datagram.addr ∧
    q.datagram = ⟨Sent.ping.buffer (peers q.source).node value, (peers p.source).endpoint⟩ ∧
    ∀ app, net.programs q.source = some app →
      (∃ e ∈ app.callbacks, e.2.transactionID = transactionOctets value) ∧
      ∀ now, app.step (peers q.source).host
        (.received now false p.datagram.buffer (peers p.source).endpoint) = .ok app

/-- Every message is a query of its sender, or the unnoticed reply to a ping of its addressee. -/
theorem run_genuine (peers : ι → Peer) (events : List (NetworkEvent ι)) {p : Packet ι}
    (member : p ∈ ((start peers).run peers events).packets) :
    ∃ sent value, p.datagram.buffer = Sent.buffer (peers p.source).node value sent ∧
      (sent = .pingReply → AnswersUnnoticed peers ((start peers).run peers events) p value) := by
  have sound := (start_sound peers).run events
  obtain ⟨sent, value, buffer, answers⟩ := sound.genuine p member
  refine ⟨sent, value, buffer, ?_⟩
  rintro rfl
  obtain ⟨q, pinged, addressed, ping⟩ := answers rfl
  refine ⟨q, pinged, addressed, ping, fun app runs => ⟨?_, fun now => ?_⟩⟩
  · have inert := sound.inert q.source app runs
    have own : q.datagram ∈ app.handed := by
      rw [← sound.handed q.source app runs]
      exact List.mem_map_of_mem (List.mem_filter.mpr ⟨pinged, by simp⟩)
    obtain ⟨m, parsed, isKind, transaction, -⟩ :=
      Sent.ping.parse_buffer (peers q.source).host (peers q.source).node value
    have carried : App.queryTransaction (peers q.source).host q.datagram =
        some (transactionOctets value) := by
      have typed := Message.require_eq_ok.mp isKind.type
      have named := Message.require_eq_ok.mp transaction
      simp only [App.queryTransaction, ping, parsed, typed, named]
      rfl
    have listed : transactionOctets value ∈ app.callbacks.map fun e => e.2.transactionID := by
      rw [inert.accounted.awaited.mem_iff, ← inert.accounted.queried]
      exact List.mem_filterMap.mpr ⟨q.datagram, own, carried⟩
    obtain ⟨e, registered, same⟩ := List.mem_map.mp listed
    exact ⟨e, registered, same⟩
  · rw [buffer]
    exact (sound.inert q.source app runs).ignores
      (Sent.reaction_buffer (peers q.source).host (peers q.source).node (peers p.source).node value
        .pingReply) now (peers p.source).endpoint

/-- Two programs at neighbouring endpoints. -/
def twoPeers (i : Bool) : Peer :=
  ⟨Host.x86, if i then NodeData.maxValue else NodeData.minValue, 65535, ⟨.v4 (if i then 2 else 1), 6881⟩⟩

/-- The first pings the second, which answers. -/
def pingAndAnswer : List (NetworkEvent Bool) :=
  [.handles false (.doPing ⟨NodeData.maxValue, 0, 0, some ⟨.v4 2, 6881⟩⟩), .deliver 0 true 0]

theorem run_genuine_answered :
    ∃ p, p.reads Host.x86 .pingReply = true ∧
      ∃ sent value, p.datagram.buffer = Sent.buffer (twoPeers p.source).node value sent ∧
        (sent = .pingReply →
          AnswersUnnoticed twoPeers ((start twoPeers).run twoPeers pingAndAnswer) p value) := by
  have answered : ((start twoPeers).run twoPeers pingAndAnswer).packets.any
      (Packet.reads Host.x86 .pingReply) = true := by
    decide +kernel
  obtain ⟨p, member, reply⟩ := List.any_eq_true.mp answered
  exact ⟨p, reply, run_genuine twoPeers pingAndAnswer member⟩

/-! ## Ends -/

/-- A running program ends by a fault exactly if a find_node query arrives at it or it pings a
node without an endpoint. -/
theorem run_ends_iff (peers : ι → Peer) (events : List (NetworkEvent ι)) (event : NetworkEvent ι) (i : ι)
    {app : App} (runs : ((start peers).run peers events).programs i = some app)
    (running : app.stopped = false) :
    (((start peers).run peers events).step peers event).programs i = none ↔
      (∃ destination, event = .handles i (.doPing destination) ∧ destination.endpoint = none) ∨
        ∃ packet now p value, event = .deliver packet i now ∧
          ((start peers).run peers events).packets[packet]? = some p ∧
          p.datagram = ⟨Sent.findNode.buffer (peers p.source).node value, (peers i).endpoint⟩ := by
  have sound := (start_sound peers).run events
  generalize (start peers).run peers events = net at runs sound ⊢
  have inert := sound.inert i app runs
  have going : ¬ app.stopped = true := by simp [running]
  constructor
  · intro ended
    have effect := sound.effect event
    generalize net.step peers event = net' at ended effect
    have alive : ∀ j changed, Function.update net.programs j changed i = none → j = i := by
      intro j changed ends
      by_contra other
      rw [Function.update_of_ne (Ne.symm other), runs] at ends
      cases ends
    cases effect with
    | quiet =>
      rw [runs] at ended
      cases ended
    | queried j =>
      cases alive j _ ended
      simp at ended
    | failed j destination unreachable =>
      cases alive j _ ended
      exact .inl ⟨destination, rfl, unreachable⟩
    | fatal packet j now p value found asked =>
      cases alive j _ ended
      exact .inr ⟨packet, now, p, value, rfl, found, asked⟩
    | answered packet j =>
      cases alive j _ ended
      simp at ended
  · have ends : ∀ event', app.seen.handle (peers i).host (peers i).node event' = none →
        (net.handle peers i event').programs i = none := by
      intro event' ends
      have matched := inert.handle event'
      rw [ends] at matched
      obtain ⟨fault, handled⟩ := matched.error
      have stepped : app.step (peers i).host event' = .error fault := (if_neg going).trans handled
      rw [handle_error runs stepped]
      exact Function.update_self i none net.programs
    rintro (⟨destination, rfl, unreachable⟩ | ⟨packet, now, p, value, rfl, found, asked⟩)
    · refine ends _ ?_
      simp only [Responder.handle, unreachable, Option.map_none]
    · simp only [step, found, asked, if_true]
      exact ends _ (Responder.handle_sent _ _ _ _ _ .findNode _ _)

/-- The second gets a find_node query. -/
theorem run_ends_iff_queried :
    (((start twoPeers).run twoPeers [.handles false (.timer false fun _ => [⟨.v4 2, 6881⟩])]).step twoPeers
      (.deliver 0 true 0)).programs true = none := by
  have alive : (((start twoPeers).run twoPeers
      [.handles false (.timer false fun _ => [⟨.v4 2, 6881⟩])]).programs true).any
        (fun app => !app.stopped) = true := by
    decide +kernel
  obtain ⟨app, runs, running⟩ := (Option.any_eq_true _ _).mp alive
  refine (run_ends_iff twoPeers _ (.deliver 0 true 0) true runs (by simpa using running)).mpr
    (.inr ⟨0, 0, ⟨false, ⟨Sent.findNode.buffer NodeData.minValue 65535, ⟨.v4 2, 6881⟩⟩⟩, 65535, rfl, ?_, rfl⟩)
  decide +kernel

/-! ## Replies -/

/-- There is a delivered ping for every reply. -/
def Answered (host : Host) (delivered : List Nat) (net : Network ι) : Prop :=
  net.packets.countP (Packet.reads host .pingReply) ≤
    (delivered.filter fun k => (net.packets[k]?).any (Packet.reads host .ping)).length

omit [DecidableEq ι] in
theorem reads_sent {host : Host} (p : Packet ι) {sent : Sent} (node : NodeData) (value : BitVec 16)
    (buffer : p.datagram.buffer = sent.buffer node value) (sent' : Sent) :
    p.reads host sent' = decide (sent = sent') := by
  simp only [Packet.reads, buffer, Sent.ofBuffer_buffer, Option.some.injEq]

omit [DecidableEq ι] in
/-- More messages and more deliveries. -/
theorem delivered_mono (packets new : List (Packet ι)) (q : Packet ι → Bool) (delivered later : List Nat) :
    (delivered.filter fun k => (packets[k]?).any q).length +
        (later.filter fun k => (packets[k]?).any q).length ≤
      ((delivered ++ later).filter fun k => ((packets ++ new)[k]?).any q).length := by
  rw [← List.length_append, ← List.filter_append]
  refine (List.monotone_filter_right (delivered ++ later) fun k found => ?_).length_le
  cases entry : packets[k]? with
  | none =>
    rw [entry] at found
    cases found
  | some p =>
    rw [entry] at found
    rw [List.getElem?_append_left (List.getElem?_eq_some_iff.mp entry).1, entry]
    exact found

theorem Answered.effect {host : Host} {delivered : List Nat} (h : Answered host delivered net)
    {event : NetworkEvent ι} {net' : Network ι} (effect : Effect peers net event net') :
    Answered host (delivered ++ event.packet.toList) net' := by
  have more := fun new => delivered_mono net.packets new (Packet.reads host .ping) delivered
    event.packet.toList
  have same := (Nat.le_add_right _ _).trans (more [])
  rw [List.append_nil] at same
  unfold Answered at h ⊢
  cases effect with
  | quiet => exact h.trans same
  | queried i event app app' new runs inert handed queries =>
    have quiet : (new.map fun d => (⟨i, d⟩ : Packet ι)).countP (Packet.reads host .pingReply) = 0 := by
      rw [List.countP_eq_zero]
      intro p member
      obtain ⟨d, listed, rfl⟩ := List.mem_map.mp member
      obtain ⟨sent, value, query, buffer⟩ := queries d listed
      rw [reads_sent ⟨i, d⟩ _ _ buffer]
      simpa using query
    rw [List.countP_append, quiet, Nat.add_zero]
    exact h.trans ((Nat.le_add_right _ _).trans (more _))
  | failed => exact h.trans same
  | fatal => exact h.trans same
  | answered packet i now p value app app' found pinged =>
    have ping : p.reads host .ping = true := by
      have buffer : p.datagram.buffer = Sent.ping.buffer (peers p.source).node value := by rw [pinged]
      rw [reads_sent p _ value buffer]
      rfl
    have delivery : ([packet].filter fun k => (net.packets[k]?).any (Packet.reads host .ping)).length = 1 := by
      simp [found, ping]
    have grown := more
      [⟨i, ⟨Sent.pingReply.buffer (peers i).node value, (peers p.source).endpoint⟩⟩]
    simp only [NetworkEvent.packet, Option.toList_some] at grown ⊢
    rw [delivery] at grown
    rw [List.countP_append]
    have one := List.countP_le_length (p := Packet.reads host .pingReply)
      (l := [(⟨i, ⟨Sent.pingReply.buffer (peers i).node value, (peers p.source).endpoint⟩⟩ : Packet ι)])
    exact (Nat.add_le_add h one).trans grown

theorem Answered.run {host : Host} {delivered : List Nat} (h : Answered host delivered net)
    (sound : Sound peers net) (events : List (NetworkEvent ι)) :
    Answered host (delivered ++ events.filterMap NetworkEvent.packet) (net.run peers events) := by
  induction events generalizing net delivered with
  | nil => rwa [List.filterMap_nil, List.append_nil]
  | cons event events ih =>
    have effect := sound.effect event
    have later := ih (h.effect effect) (effect.sound sound)
    rw [List.append_assoc] at later
    cases packet : event.packet with
    | none =>
      rw [List.filterMap_cons_none packet]
      rwa [packet] at later
    | some k =>
      rw [List.filterMap_cons_some packet]
      rwa [packet] at later

/-- Replies are no more than pings, if no message arrives twice. -/
theorem run_replies_le (peers : ι → Peer) (host : Host) (events : List (NetworkEvent ι))
    (once : (events.filterMap NetworkEvent.packet).Nodup) :
    ((start peers).run peers events).packets.countP (Packet.reads host .pingReply) ≤
      ((start peers).run peers events).packets.countP (Packet.reads host .ping) := by
  have none : Answered host [] (start peers) := Nat.zero_le _
  have answered := none.run (start_sound peers) events
  rw [List.nil_append] at answered
  exact answered.trans (filter_getElem?_length_le _ _ once)

theorem run_replies_le_answered :
    ((start twoPeers).run twoPeers pingAndAnswer).packets.countP (Packet.reads Host.x86 .pingReply) ≤
      ((start twoPeers).run twoPeers pingAndAnswer).packets.countP (Packet.reads Host.x86 .ping) :=
  run_replies_le twoPeers Host.x86 pingAndAnswer (by decide)

end Network
end TorrentSync.Source
