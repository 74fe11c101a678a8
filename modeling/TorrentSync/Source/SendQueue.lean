import TorrentSync.Source.RoutingTable

/-!
# The send queue

`RoutingTable::sendMessage` of dht/RoutingTable.cpp as calls from any number of threads run it:
atomic steps in any order with the completion handlers of earlier sends. `_send_mutex` lets one
call at a time past `lock`; each send runs its handler once.
-/
namespace TorrentSync.Source

/-- How far the call that holds `_send_mutex` has come. `count` is what `fetch_add` returned;
`inFlight` is the number of sends in flight at that moment, which no step reads. -/
inductive SendPhase where
  | locked
  | counted (count : BitVec 64) (inFlight : Nat)
  | done
  deriving DecidableEq, Repr

/-- A dropped message, with the number of sends in flight when its call had counted itself. -/
structure Dropped where
  message : Datagram
  inFlight : Nat
  deriving DecidableEq, Repr

/-- The calls before their lock, the call that holds `_send_mutex`, `send_queue_counter`, the
sends whose handler has not run, and the dropped messages, oldest first. -/
structure SendQueue where
  waiting : List Datagram
  holder : Option (Datagram × SendPhase)
  send_queue_counter : BitVec 64
  inFlight : List Datagram
  dropped : List Dropped
  deriving DecidableEq, Repr

/-- The atomic steps. `complete` is the handler of one of the sends in flight. -/
inductive SendEvent where
  | invoke (message : Datagram)
  | lock (call : Nat)
  | fetchAdd
  | asyncSendTo
  | drop
  | unlock
  | complete (send : Nat)
  deriving DecidableEq, Repr

namespace SendQueue

def start : SendQueue := ⟨[], none, 0, [], []⟩

/-- A step that is not enabled has no result. -/
def step (s : SendQueue) : SendEvent → Option SendQueue
  | .invoke message => some { s with waiting := s.waiting ++ [message] }
  | .lock call =>
      match s.holder, s.waiting[call]? with
      | none, some message => some { s with
          waiting := s.waiting.eraseIdx call
          holder := some (message, .locked) }
      | _, _ => none
  | .fetchAdd =>
      match s.holder with
      | some (message, .locked) => some { s with
          holder := some (message, .counted s.send_queue_counter s.inFlight.length)
          send_queue_counter := s.send_queue_counter + 1 }
      | _ => none
  | .asyncSendTo =>
      match s.holder with
      | some (message, .counted count _) =>
          if count.toNat < MAX_SEND_QUEUE then some { s with
            holder := some (message, .done)
            inFlight := s.inFlight ++ [message] }
          else none
      | _ => none
  | .drop =>
      match s.holder with
      | some (message, .counted count inFlight) =>
          if count.toNat < MAX_SEND_QUEUE then none
          else some { s with
            holder := some (message, .done)
            send_queue_counter := s.send_queue_counter - 1
            dropped := s.dropped ++ [⟨message, inFlight⟩] }
      | _ => none
  | .unlock =>
      match s.holder with
      | some (_, .done) => some { s with holder := none }
      | _ => none
  | .complete send =>
      if send < s.inFlight.length then some { s with
        inFlight := s.inFlight.eraseIdx send
        send_queue_counter := s.send_queue_counter - 1 }
      else none

def run : List SendEvent → SendQueue → Option SendQueue
  | [], s => some s
  | event :: events, s => (s.step event).bind (run events)

/-- The enabled steps, one constructor for each. -/
inductive Acts (s : SendQueue) : SendEvent → SendQueue → Prop
  | invoke (message : Datagram) : Acts s (.invoke message) { s with waiting := s.waiting ++ [message] }
  | lock (call : Nat) (message : Datagram) (free : s.holder = none)
      (waits : s.waiting[call]? = some message) :
      Acts s (.lock call)
        { s with waiting := s.waiting.eraseIdx call, holder := some (message, .locked) }
  | fetchAdd (message : Datagram) (held : s.holder = some (message, .locked)) :
      Acts s .fetchAdd { s with
        holder := some (message, .counted s.send_queue_counter s.inFlight.length)
        send_queue_counter := s.send_queue_counter + 1 }
  | asyncSendTo (message : Datagram) (count : BitVec 64) (inFlight : Nat)
      (held : s.holder = some (message, .counted count inFlight)) (room : count.toNat < MAX_SEND_QUEUE) :
      Acts s .asyncSendTo
        { s with holder := some (message, .done), inFlight := s.inFlight ++ [message] }
  | drop (message : Datagram) (count : BitVec 64) (inFlight : Nat)
      (held : s.holder = some (message, .counted count inFlight)) (full : MAX_SEND_QUEUE ≤ count.toNat) :
      Acts s .drop { s with
        holder := some (message, .done)
        send_queue_counter := s.send_queue_counter - 1
        dropped := s.dropped ++ [⟨message, inFlight⟩] }
  | unlock (message : Datagram) (held : s.holder = some (message, .done)) :
      Acts s .unlock { s with holder := none }
  | complete (send : Nat) (sent : send < s.inFlight.length) :
      Acts s (.complete send) { s with
        inFlight := s.inFlight.eraseIdx send
        send_queue_counter := s.send_queue_counter - 1 }

theorem step_acts {s s' : SendQueue} {event : SendEvent} (stepped : s.step event = some s') :
    s.Acts event s' := by
  cases event with
  | invoke message =>
    cases stepped
    exact .invoke message
  | lock call =>
    simp only [step] at stepped
    split at stepped
    · rename_i message free waits
      cases stepped
      exact .lock call message free waits
    · cases stepped
  | fetchAdd =>
    simp only [step] at stepped
    split at stepped
    · rename_i message held
      cases stepped
      exact .fetchAdd message held
    · cases stepped
  | asyncSendTo =>
    simp only [step] at stepped
    split at stepped
    · rename_i message count inFlight held
      obtain ⟨room, same⟩ := Option.ite_none_right_eq_some.mp stepped
      cases same
      exact .asyncSendTo message count inFlight held room
    · cases stepped
  | drop =>
    simp only [step] at stepped
    split at stepped
    · rename_i message count inFlight held
      obtain ⟨full, same⟩ := Option.ite_none_left_eq_some.mp stepped
      cases same
      exact .drop message count inFlight held (not_lt.mp full)
    · cases stepped
  | unlock =>
    simp only [step] at stepped
    split at stepped
    · rename_i message held
      cases stepped
      exact .unlock message held
    · cases stepped
  | complete send =>
    obtain ⟨sent, same⟩ := Option.ite_none_right_eq_some.mp stepped
    cases same
    exact .complete send sent

/-! ## The invariant -/

/-- One while a call has counted itself and has neither sent nor dropped. -/
def counting (s : SendQueue) : Nat :=
  match s.holder with
  | some (_, .counted _ _) => 1
  | _ => 0

theorem counting_counted {s : SendQueue} {message : Datagram} {count : BitVec 64} {inFlight : Nat}
    (held : s.holder = some (message, .counted count inFlight)) : s.counting = 1 := by
  rw [counting, held]

/-- Since the holder has counted itself, sends have only completed. -/
structure Counts (s : SendQueue) : Prop where
  counter : s.send_queue_counter.toNat = s.inFlight.length + s.counting
  bounded : s.inFlight.length ≤ MAX_SEND_QUEUE
  counted : ∀ message count inFlight, s.holder = some (message, .counted count inFlight) →
    count.toNat = inFlight ∧ s.inFlight.length ≤ inFlight ∧ inFlight ≤ MAX_SEND_QUEUE
  dropped : ∀ d ∈ s.dropped, d.inFlight = MAX_SEND_QUEUE

theorem start_counts : start.Counts where
  counter := rfl
  bounded := Nat.zero_le _
  counted := by
    intro message count inFlight held
    cases held
  dropped := by simp [start]

section Arithmetic

variable {counter : BitVec 64}

private theorem increment_toNat (small : counter.toNat ≤ MAX_SEND_QUEUE) :
    (counter + 1).toNat = counter.toNat + 1 := by
  unfold MAX_SEND_QUEUE at small
  bv_omega

private theorem decrement_toNat (positive : 0 < counter.toNat) :
    (counter - 1).toNat = counter.toNat - 1 := by
  bv_omega

end Arithmetic

/-- A holder that is not between counting itself and its decision. -/
private theorem notCounted {message message' : Datagram} {phase : SendPhase} {count : BitVec 64}
    {inFlight : Nat} (other : ∀ count inFlight, phase ≠ .counted count inFlight)
    (same : some (message, phase) = some (message', SendPhase.counted count inFlight)) : False :=
  other count inFlight (Prod.mk.inj (Option.some.inj same)).2

/-- Every step keeps the invariant, and the counter is positive before it is decremented. -/
theorem Counts.acts {s s' : SendQueue} {event : SendEvent} (h : s.Counts) (acts : s.Acts event s') :
    s'.Counts := by
  have counter := h.counter
  cases acts with
  | invoke message => exact ⟨counter, h.bounded, h.counted, h.dropped⟩
  | lock call message free waits =>
    rw [counting, free] at counter
    exact ⟨counter, h.bounded, fun _ _ _ same => (notCounted (by simp) same).elim, h.dropped⟩
  | fetchAdd message held =>
    rw [counting, held] at counter
    refine ⟨?_, h.bounded, ?_, h.dropped⟩
    · rw [increment_toNat (counter ▸ h.bounded), counter]
      rfl
    · intro message' count inFlight same
      cases same
      exact ⟨counter, le_refl _, h.bounded⟩
  | asyncSendTo message count inFlight held room =>
    rw [counting, held] at counter
    obtain ⟨counted, fewer, -⟩ := h.counted message count inFlight held
    refine ⟨?_, ?_, fun _ _ _ same => (notCounted (by simp) same).elim, h.dropped⟩
    · rw [counter, List.length_append, List.length_singleton]
      rfl
    · rw [List.length_append, List.length_singleton]
      omega
  | drop message count inFlight held full =>
    rw [counting_counted held] at counter
    obtain ⟨counted, -, atMost⟩ := h.counted message count inFlight held
    refine ⟨?_, h.bounded, fun _ _ _ same => (notCounted (by simp) same).elim, ?_⟩
    · rw [decrement_toNat (by omega), counter]
      rfl
    · have most : inFlight = MAX_SEND_QUEUE := by omega
      simp only [List.forall_mem_append, List.forall_mem_singleton]
      exact ⟨h.dropped, most⟩
  | unlock message held =>
    rw [counting, held] at counter
    refine ⟨counter, h.bounded, ?_, h.dropped⟩
    intro message' count inFlight same
    cases same
  | complete send sent =>
    have fewer := List.length_eraseIdx_of_lt sent
    refine ⟨?_, ?_, ?_, h.dropped⟩
    · rw [decrement_toNat (by omega), counter, fewer]
      change _ = s.inFlight.length - 1 + s.counting
      omega
    · rw [fewer]
      have bounded := h.bounded
      omega
    · intro message count inFlight held
      obtain ⟨counted, atMost, most⟩ := h.counted message count inFlight held
      exact ⟨counted, by rw [fewer]; omega, most⟩

theorem Counts.run {s s' : SendQueue} (h : s.Counts) (events : List SendEvent)
    (reached : s.run events = some s') : s'.Counts := by
  induction events generalizing s with
  | nil =>
    cases reached
    exact h
  | cons event events ih =>
    obtain ⟨s₁, stepped, later⟩ := Option.bind_eq_some_iff.mp reached
    exact ih (h.acts (step_acts stepped)) later

/-- The steps that execute `send_queue_counter--`. -/
def Decrements : SendEvent → Prop
  | .drop | .complete _ => True
  | _ => False

/-- A decrement finds a positive counter. -/
theorem Counts.positive {s s' : SendQueue} {event : SendEvent} (h : s.Counts) (acts : s.Acts event s')
    (decrements : Decrements event) : 0 < s.send_queue_counter.toNat := by
  have counter := h.counter
  cases acts with
  | drop message count inFlight held full =>
    rw [counting_counted held] at counter
    omega
  | complete send sent => omega
  | invoke | lock | fetchAdd | asyncSendTo | unlock => exact decrements.elim

/-- A call that is not interrupted does to the sends in flight what `RoutingTable.sendMessage`
does to them. -/
theorem call_uninterrupted {s : SendQueue} (h : s.Counts) (free : s.holder = none) {call : Nat}
    {message : Datagram} (waits : s.waiting[call]? = some message) {rt : RoutingTable}
    (same : rt.sending = s.inFlight) :
    ∃ decision s', run [.lock call, .fetchAdd, decision, .unlock] s = some s' ∧ s'.holder = none ∧
      s'.waiting = s.waiting.eraseIdx call ∧
      s'.inFlight = (rt.sendMessage message.buffer message.addr).sending := by
  have counter := h.counter
  rw [counting, free] at counter
  have count : s.send_queue_counter.toNat = rt.sending.length := by rw [counter, same]; rfl
  by_cases room : s.send_queue_counter.toNat < MAX_SEND_QUEUE
  · refine ⟨.asyncSendTo, { s with
      waiting := s.waiting.eraseIdx call
      holder := none
      send_queue_counter := s.send_queue_counter + 1
      inFlight := s.inFlight ++ [message] }, ?_, rfl, rfl, ?_⟩
    · simp [run, step, free, waits, room]
    · rw [RoutingTable.sendMessage, if_pos (count ▸ room), same]
  · refine ⟨.drop, { s with
      waiting := s.waiting.eraseIdx call
      holder := none
      send_queue_counter := s.send_queue_counter + 1 - 1
      dropped := s.dropped ++ [⟨message, s.inFlight.length⟩] }, ?_, rfl, rfl, ?_⟩
    · simp [run, step, free, waits, room]
    · rw [RoutingTable.sendMessage, if_neg (count ▸ room), same]

/-- The counter is the number of sends in flight, and one more while a call has counted itself
and neither sent nor dropped. It is never decremented at zero, at most MAX_SEND_QUEUE sends are
in flight, and a dropped message met MAX_SEND_QUEUE of them when its call counted itself. -/
theorem run_counts (events : List SendEvent) {s : SendQueue} (reached : run events start = some s) :
    s.send_queue_counter.toNat = s.inFlight.length + s.counting ∧
    (∀ event s', s.step event = some s' → Decrements event → 0 < s.send_queue_counter.toNat) ∧
    s.inFlight.length ≤ MAX_SEND_QUEUE ∧
    ∀ d ∈ s.dropped, d.inFlight = MAX_SEND_QUEUE := by
  have counts := start_counts.run events reached
  exact ⟨counts.counter, fun event s' stepped => counts.positive (step_acts stepped), counts.bounded,
    counts.dropped⟩

/-- An uninterrupted call. -/
def sendEvents (message : Datagram) : List SendEvent :=
  [.invoke message, .lock 0, .fetchAdd, .asyncSendTo, .unlock]

/-- As many sends as may be in flight. -/
def fullQueue : List SendEvent :=
  (List.range MAX_SEND_QUEUE).flatMap fun i => sendEvents ⟨[], ⟨.v4 (BitVec.ofNat 32 i), 6881⟩⟩

/-- A call that finds the queue full and is overtaken by a completion. -/
def overtaken : List SendEvent := [.invoke ⟨[1], ⟨.v4 0, 6881⟩⟩, .lock 0, .fetchAdd, .complete 0]

theorem run_append (xs ys : List SendEvent) (s : SendQueue) :
    run (xs ++ ys) s = (run xs s).bind (run ys) := by
  induction xs generalizing s with
  | nil => rfl
  | cons event xs ih =>
    rw [List.cons_append, run, run, Option.bind_assoc]
    exact congrArg _ (funext ih)

private theorem overtaken_drop :
    ((run (fullQueue ++ overtaken) start).bind fun s =>
      (s.step .drop).map fun s' => (s.inFlight.length, s'.inFlight.length, s'.dropped.length)) =
        some (99, 99, 1) := by
  decide +kernel

theorem run_counts_overtaken :
    ∃ s, run (fullQueue ++ overtaken ++ [.drop]) start = some s ∧
      s.send_queue_counter.toNat = s.inFlight.length + s.counting ∧ s.inFlight.length ≤ MAX_SEND_QUEUE ∧
      ∀ d ∈ s.dropped, d.inFlight = MAX_SEND_QUEUE := by
  obtain ⟨s, before, stepped⟩ := Option.bind_eq_some_iff.mp overtaken_drop
  obtain ⟨s', dropped, -⟩ := Option.map_eq_some_iff.mp stepped
  have reached : run (fullQueue ++ overtaken ++ [.drop]) start = some s' := by
    rw [run_append, before, Option.bind_some, run, dropped]
    rfl
  obtain ⟨counter, -, bounded, full⟩ := run_counts _ reached
  exact ⟨s', reached, counter, bounded, full⟩

/-- A message is dropped while 99 sends are in flight: one of the 100 that its call counted has
completed in the meantime. -/
theorem drop_overtaken :
    ∃ s s', run (fullQueue ++ overtaken) start = some s ∧ s.step .drop = some s' ∧
      s.inFlight.length = 99 ∧ s'.inFlight.length = 99 ∧ s'.dropped.length = 1 := by
  obtain ⟨s, reached, stepped⟩ := Option.bind_eq_some_iff.mp overtaken_drop
  obtain ⟨s', dropped, lengths⟩ := Option.map_eq_some_iff.mp stepped
  obtain ⟨before, after, logged⟩ : s.inFlight.length = 99 ∧ s'.inFlight.length = 99 ∧
      s'.dropped.length = 1 := by simpa using lengths
  exact ⟨s, s', reached, dropped, before, after, logged⟩

end SendQueue
end TorrentSync.Source
