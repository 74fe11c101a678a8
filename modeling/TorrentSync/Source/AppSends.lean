import TorrentSync.Source.AppRun
import TorrentSync.Source.SendQueueProgress

/-!
# The sends of the program

The program calls `sendMessage` from one thread, so that the calls come one after the other with
completions between them. Its runs are runs of the send queue of SendQueue, in which each message
it has handed over is in flight, completed, or dropped at a full queue.
-/
namespace TorrentSync.Source

/-- What a call of `sendMessage` does to the sends in flight. -/
def enqueue (sending : List Datagram) (d : Datagram) : List Datagram :=
  if sending.length < MAX_SEND_QUEUE then sending ++ [d] else sending

/-! ## Calls one after the other -/

namespace SendQueue

def invoked : SendEvent → Option Datagram
  | .invoke message => some message
  | _ => none

def completes : SendEvent → Bool
  | .complete _ => true
  | _ => false

theorem invokedBy_sum (steps : List SendEvent) :
    (steps.map invokedBy).sum = ↑(steps.filterMap invoked) := by
  induction steps with
  | nil => rfl
  | cons event steps ih =>
    rw [List.map_cons, List.sum_cons, ih]
    cases event with
    | invoke message => rfl
    | _ => exact zero_add _

/-- No call is under way, and these sends are in flight. -/
structure Between (s : SendQueue) (sending : List Datagram) : Prop where
  counts : s.Counts
  waiting : s.waiting = []
  holder : s.holder = none
  inFlight : s.inFlight = sending

variable {s : SendQueue} {sending : List Datagram}

/-- A whole call. -/
theorem Between.call (h : s.Between sending) (d : Datagram) :
    ∃ steps s', run steps s = some s' ∧ s'.Between (enqueue sending d) ∧ steps.filterMap invoked = [d] ∧
      steps.countP completes = 0 := by
  have waits : s.step (.invoke d) = some { s with waiting := [d] } := by simp [step, h.waiting]
  have counts : ({ s with waiting := [d] } : SendQueue).Counts := h.counts.acts (step_acts waits)
  have found : ({ s with waiting := [d] } : SendQueue).waiting[0]? = some d := rfl
  have same : ({ RoutingTable.new NodeData.minValue with sending := sending } : RoutingTable).sending =
      ({ s with waiting := [d] } : SendQueue).inFlight := h.inFlight.symm
  obtain ⟨decision, s', called, free, left, sent⟩ := call_uninterrupted counts h.holder found same
  have whole : run [.invoke d, .lock 0, .fetchAdd, decision, .unlock] s = some s' := by
    rw [run, waits]
    exact called
  -- the lock is held, so that no other call begins and nothing but the decision lets it go
  have decides : invoked decision = none ∧ completes decision = false := by
    cases decision with
    | invoke message => simp [run, step, h.holder] at called
    | complete send =>
      by_cases inside : send < s.inFlight.length <;> simp [run, step, h.holder, inside] at called
    | _ => exact ⟨rfl, rfl⟩
  refine ⟨_, s', whole, ⟨h.counts.run _ whole, left, free, sent⟩, ?_, ?_⟩
  · simp only [List.filterMap, decides.1]
    rfl
  · simp only [List.countP_cons, decides.2]
    rfl

theorem Between.calls (h : s.Between sending) (ds : List Datagram) :
    ∃ steps s', run steps s = some s' ∧ s'.Between (ds.foldl enqueue sending) ∧
      steps.filterMap invoked = ds ∧ steps.countP completes = 0 := by
  induction ds generalizing s sending with
  | nil => exact ⟨[], s, rfl, h, rfl, rfl⟩
  | cons d ds ih =>
    obtain ⟨steps, s₁, called, between, calls, completions⟩ := h.call d
    obtain ⟨later, s', called', between', calls', completions'⟩ := ih between
    refine ⟨steps ++ later, s', ?_, between', ?_, ?_⟩
    · rw [run_append, called, Option.bind_some, called']
    · rw [List.filterMap_append, calls, calls', List.singleton_append]
    · rw [List.countP_append, completions, completions']

/-- The handler of a send, or of none. -/
theorem Between.completed (h : s.Between sending) (i : Nat) :
    ∃ steps s', run steps s = some s' ∧ s'.Between (sending.eraseIdx i) ∧
      steps.filterMap invoked = [] ∧ steps.countP completes ≤ 1 := by
  by_cases inside : i < sending.length
  · have stepped : s.step (.complete i) = some { s with
        inFlight := s.inFlight.eraseIdx i
        send_queue_counter := s.send_queue_counter - 1 } := by simp [step, h.inFlight, inside]
    refine ⟨[.complete i], _, by rw [run, stepped]; rfl, ⟨h.counts.acts (step_acts stepped), h.waiting,
      h.holder, by rw [h.inFlight]⟩, rfl, le_refl _⟩
  · rw [List.eraseIdx_of_length_le (by omega)]
    exact ⟨[], s, rfl, h, rfl, Nat.zero_le _⟩

end SendQueue

/-! ## Messages handed over -/

namespace RoutingTable

/-- From the one state to the other these messages were handed to `sendMessage`. -/
structure HandsOver (ds : List Datagram) (rt rt' : RoutingTable) : Prop where
  handed : rt'.handed = rt.handed ++ ds
  sending : rt'.sending = ds.foldl enqueue rt.sending

theorem HandsOver.refl (rt : RoutingTable) : HandsOver [] rt rt := ⟨(List.append_nil _).symm, rfl⟩

theorem HandsOver.trans {ds ds' : List Datagram} {rt rt₁ rt' : RoutingTable} (h : HandsOver ds rt rt₁)
    (h' : HandsOver ds' rt₁ rt') : HandsOver (ds ++ ds') rt rt' := by
  refine ⟨?_, ?_⟩
  · rw [h'.handed, h.handed, List.append_assoc]
  · rw [h'.sending, h.sending, List.foldl_append]

theorem sendMessage_handsOver (buff : Buffer) (addr : Endpoint) (rt : RoutingTable) :
    HandsOver [⟨buff, addr⟩] rt (rt.sendMessage buff addr) :=
  ⟨rfl, rfl⟩

end RoutingTable

namespace InitializingTable

open RoutingTable

variable {host : Host} {st st' : InitializingTable}

theorem contact_handsOver {endpoint : Endpoint} (contacted : st.contact host endpoint = .ok st') :
    ∃ d, HandsOver [d] st.toRoutingTable st'.toRoutingTable := by
  obtain ⟨msg, -, contacted⟩ := bind_eq_ok.mp contacted
  cases contacted
  exact ⟨⟨msg, endpoint⟩, { sendMessage_handsOver msg endpoint _ with }⟩

theorem contactBatch_handsOver {count : Nat} (contacted : st.contactBatch host count = .ok st') :
    ∃ ds, HandsOver ds st.toRoutingTable st'.toRoutingTable := by
  induction count generalizing st with
  | zero =>
    cases contacted
    exact ⟨[], .refl _⟩
  | succ count ih =>
    unfold contactBatch at contacted
    split at contacted
    · cases contacted
      exact ⟨[], .refl _⟩
    · obtain ⟨st₁, first, later⟩ := bind_eq_ok.mp contacted
      obtain ⟨d, one⟩ := contact_handsOver first
      obtain ⟨ds, rest⟩ := ih later
      exact ⟨d :: ds, { HandsOver.trans one rest with }⟩

theorem tick_handsOver {error : Bool} {resolve : Resolver} (ticked : st.tick host error resolve = .ok st') :
    ∃ ds, HandsOver ds st.toRoutingTable st'.toRoutingTable := by
  unfold tick at ticked
  split at ticked
  · cases ticked
    exact ⟨[], .refl _⟩
  · obtain ⟨st₁, contacted, ticked⟩ := bind_eq_ok.mp ticked
    obtain ⟨ds, batch⟩ := contactBatch_handsOver contacted
    have first : HandsOver ds st.toRoutingTable st₁.toRoutingTable := by
      split at batch
      · unfold bootstrap at batch
        split at batch
        · exact batch
        · exact { batch with }
      · exact batch
    split at ticked
    · cases ticked
      exact ⟨ds, { first with }⟩
    · cases ticked
      exact ⟨ds, { first with }⟩

theorem doPing_handsOver {destination : Node} (pinged : st.doPing host destination = .ok st') :
    ∃ d, HandsOver [d] st.toRoutingTable st'.toRoutingTable := by
  obtain ⟨-, -, pinged⟩ := bind_eq_ok.mp pinged
  obtain ⟨ping, -, pinged⟩ := bind_eq_ok.mp pinged
  split at pinged
  · rename_i endpoint known
    cases pinged
    exact ⟨⟨ping, endpoint⟩, { sendMessage_handsOver ping endpoint _ with }⟩
  · cases pinged

end InitializingTable

/-! ## Runs -/

namespace App

open RoutingTable SendQueue

variable {host : Host} {node : NodeData} {counter : BitVec 16} {app app' : App}

theorem Inert.received_handsOver (h : app.Inert host node counter) {now : Int} {error : Bool}
    {octets : Buffer} {sender : Endpoint}
    (handled : app.handle host (.received now error octets sender) = .ok app') :
    ∃ ds, HandsOver ds app.toRoutingTable app'.toRoutingTable := by
  simp only [App.handle] at handled
  split at handled
  · cases handled
    exact ⟨[], .refl _⟩
  · obtain ⟨rt, received, handled⟩ := bind_eq_ok.mp handled
    cases handled
    cases error with
    | true =>
      cases received
      exact ⟨[], .refl _⟩
    | false =>
      have shows := h.recvMessage_shows now octets sender
      have got : app.recvMessage host now false
          (resize MESSAGE_BUFFER_SIZE (octets.take MESSAGE_BUFFER_SIZE))
          (octets.take MESSAGE_BUFFER_SIZE).length sender = .ok rt := received
      rw [got] at shows
      cases reacted : reaction host node (octets.take MESSAGE_BUFFER_SIZE) with
      | ignored =>
        rw [reacted] at shows
        cases shows
        exact ⟨[], .refl _⟩
      | answered reply =>
        rw [reacted] at shows
        cases shows
        exact ⟨[⟨reply, sender⟩], sendMessage_handsOver reply sender _⟩
      | fatal =>
        rw [reacted] at shows
        obtain ⟨fault, ended⟩ := shows
        cases ended

/-- Whether an event is the handler of a send. -/
def isSent : AppEvent → Bool
  | .sent _ => true
  | _ => false

/-- An event is some calls of the send queue, or a completion. -/
theorem Inert.handle_between (h : app.Inert host node counter) {event : AppEvent}
    (handled : app.handle host event = .ok app') {s : SendQueue} (between : s.Between app.sending) :
    ∃ steps s', SendQueue.run steps s = some s' ∧ s'.Between app'.sending ∧
      app'.handed = app.handed ++ steps.filterMap invoked ∧ steps.countP completes ≤ [event].countP isSent := by
  have calling : ∀ {ds}, HandsOver ds app.toRoutingTable app'.toRoutingTable →
      ∃ steps s', SendQueue.run steps s = some s' ∧ s'.Between app'.sending ∧
        app'.handed = app.handed ++ steps.filterMap invoked ∧
        steps.countP completes ≤ [event].countP isSent := by
    intro ds hands
    obtain ⟨steps, s', called, after, calls, completions⟩ := between.calls ds
    exact ⟨steps, s', called, hands.sending ▸ after, calls ▸ hands.handed, completions ▸ Nat.zero_le _⟩
  cases event with
  | timer error resolve =>
    obtain ⟨st, stepped, handled⟩ := bind_eq_ok.mp handled
    cases handled
    simp only [InitializingTable.step] at stepped
    split at stepped
    · cases stepped
      exact calling (.refl _)
    · obtain ⟨ds, hands⟩ := InitializingTable.tick_handsOver stepped
      exact calling { hands with }
  | received now error octets sender =>
    obtain ⟨ds, hands⟩ := h.received_handsOver handled
    exact calling hands
  | sent completed =>
    cases handled
    obtain ⟨steps, s', ran, after, calls, completions⟩ := between.completed completed
    exact ⟨steps, s', ran, after, by rw [calls, List.append_nil], completions⟩
  | signal error =>
    simp only [App.handle] at handled
    split at handled <;> cases handled <;> exact calling (.refl _)
  | doPing destination =>
    obtain ⟨st, pinged, handled⟩ := bind_eq_ok.mp handled
    cases handled
    obtain ⟨d, hands⟩ := InitializingTable.doPing_handsOver pinged
    exact calling hands

theorem Inert.step_between (h : app.Inert host node counter) {event : AppEvent}
    (stepped : app.step host event = .ok app') {s : SendQueue} (between : s.Between app.sending) :
    ∃ steps s', SendQueue.run steps s = some s' ∧ s'.Between app'.sending ∧
      app'.handed = app.handed ++ steps.filterMap invoked ∧ steps.countP completes ≤ [event].countP isSent := by
  unfold App.step at stepped
  split at stepped
  · cases stepped
    exact ⟨[], s, rfl, between, (List.append_nil _).symm, Nat.zero_le _⟩
  · exact h.handle_between stepped between

theorem Inert.run_between (h : app.Inert host node counter) {events : List AppEvent}
    (reached : app.run host events = .ok app') {s : SendQueue} (between : s.Between app.sending) :
    ∃ steps s', SendQueue.run steps s = some s' ∧ s'.Between app'.sending ∧
      app'.handed = app.handed ++ steps.filterMap invoked ∧ steps.countP completes ≤ events.countP isSent := by
  induction events generalizing app s with
  | nil =>
    cases reached
    exact ⟨[], s, rfl, between, (List.append_nil _).symm, Nat.zero_le _⟩
  | cons event events ih =>
    obtain ⟨app₁, stepped, reached⟩ := bind_eq_ok.mp reached
    have next := h.step event
    rw [stepped] at next
    obtain ⟨steps, s₁, ran, between₁, calls, completions⟩ := h.step_between stepped between
    obtain ⟨later, s', ran', between', calls', completions'⟩ := ih next.1 reached between₁
    refine ⟨steps ++ later, s', ?_, between', ?_, ?_⟩
    · rw [run_append, ran, Option.bind_some, ran']
    · rw [calls', calls, List.append_assoc, List.filterMap_append]
    · rw [List.countP_append, ← List.singleton_append, List.countP_append]
      exact Nat.add_le_add completions completions'

/-- A run of the program is a run of the send queue up to between two calls, with the same sends in
flight: every message it has handed over is in flight, completed, or dropped at a full queue. -/
theorem startAndRun_between (host : Host) (node : NodeData) (counter : BitVec 16) (events : List AppEvent)
    {app : App} (ran : startAndRun host node counter events = .ok app) :
    ∃ steps s, SendQueue.run steps SendQueue.start = some s ∧ s.Between app.sending ∧
      steps.filterMap invoked = app.handed ∧ steps.countP completes ≤ events.countP isSent ∧
      (↑app.handed : Multiset Datagram) =
        ↑app.sending + everCompleted steps SendQueue.start + ↑(s.dropped.map Dropped.message) := by
  obtain ⟨first, started, inert, seen⟩ := start_inert host node counter
  rw [startAndRun, started, ok_bind] at ran
  have quiet : first.sending = [] ∧ first.handed = [] := by
    cases started
    exact ⟨rfl, rfl⟩
  have between : SendQueue.start.Between first.sending := by
    rw [quiet.1]
    exact ⟨start_counts, rfl, rfl, rfl⟩
  obtain ⟨steps, s, reached, after, calls, completions⟩ := inert.run_between ran between
  rw [quiet.2, List.nil_append] at calls
  refine ⟨steps, s, reached, after, calls.symm, completions, ?_⟩
  have total := account_run steps reached
  have empty : SendQueue.start.account = 0 := rfl
  rw [invokedBy_sum, ← calls, empty, zero_add, account, undecided, after.holder, after.waiting, after.inFlight,
    Multiset.coe_nil, zero_add, zero_add] at total
  rw [← total, add_right_comm]

/-- Three queries, of which the first is completed. -/
theorem startAndRun_between_completed :
    ∃ app, startAndRun Host.x86 NodeData.minValue 0
        [.timer false fun _ => [⟨.v4 1, 6881⟩], .sent 0, .sent 5] = .ok app ∧
      ∃ steps s, SendQueue.run steps SendQueue.start = some s ∧ s.Between app.sending ∧
        steps.filterMap invoked = app.handed ∧ steps.countP completes ≤ 2 ∧
        (↑app.handed : Multiset Datagram) =
          ↑app.sending + everCompleted steps SendQueue.start + ↑(s.dropped.map Dropped.message) := by
  have alive : (startAndRun Host.x86 NodeData.minValue 0
      [.timer false fun _ => [⟨.v4 1, 6881⟩], .sent 0, .sent 5]).toOption.isSome = true := by
    decide +kernel
  cases ran : startAndRun Host.x86 NodeData.minValue 0
      [.timer false fun _ => [⟨.v4 1, 6881⟩], .sent 0, .sent 5] with
  | error fault =>
    rw [ran] at alive
    cases alive
  | ok app => exact ⟨app, rfl, startAndRun_between Host.x86 NodeData.minValue 0 _ ran⟩

end App
end TorrentSync.Source
