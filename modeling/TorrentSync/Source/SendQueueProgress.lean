import Mathlib.Tactic.Abel
import TorrentSync.Source.SendQueue

/-!
# The send queue drains

Every message handed to `sendMessage` is in one place: before the lock, with the call that holds
it, in flight, completed or dropped. Without new calls the steps come to an end in every order,
and they end with nothing waiting, nothing in flight and the counter at zero.
-/
namespace TorrentSync.Source.SendQueue

/-! ## Where a message is -/

/-- The message of the call that holds the lock and has not decided about it. -/
def undecided (s : SendQueue) : Multiset Datagram :=
  match s.holder with
  | some (message, .locked) => {message}
  | some (message, .counted _ _) => {message}
  | _ => 0

/-- The messages not completed. -/
def account (s : SendQueue) : Multiset Datagram :=
  ↑s.waiting + s.undecided + ↑s.inFlight + ↑(s.dropped.map Dropped.message)

def invokedBy : SendEvent → Multiset Datagram
  | .invoke message => {message}
  | _ => 0

def completedBy (s : SendQueue) : SendEvent → Multiset Datagram
  | .complete send => ↑s.inFlight[send]?.toList
  | _ => 0

/-- The messages completed in a run. -/
def everCompleted : List SendEvent → SendQueue → Multiset Datagram
  | [], _ => 0
  | event :: events, s =>
      match s.step event with
      | some s' => s.completedBy event + everCompleted events s'
      | none => 0

/-- Taking out one element of a list. -/
theorem eraseIdx_account {xs : List Datagram} {i : Nat} {x : Datagram} (found : xs[i]? = some x) :
    (↑xs : Multiset Datagram) = {x} + ↑(xs.eraseIdx i) := by
  obtain ⟨inside, rfl⟩ := List.getElem?_eq_some_iff.mp found
  rw [Multiset.singleton_add, Multiset.cons_coe, Multiset.coe_eq_coe]
  exact (List.getElem_cons_eraseIdx_perm inside).symm

/-- No step loses a message or makes one. -/
theorem Acts.account {s s' : SendQueue} {event : SendEvent} (acts : s.Acts event s') :
    s'.account + s.completedBy event = s.account + invokedBy event := by
  cases acts with
  | invoke message =>
    simp only [SendQueue.account, undecided, completedBy, invokedBy, ← Multiset.coe_add,
      Multiset.coe_singleton]
    abel
  | lock call message free waits =>
    simp only [SendQueue.account, undecided, completedBy, invokedBy, free, eraseIdx_account waits]
    abel
  | fetchAdd message held => simp only [SendQueue.account, undecided, completedBy, invokedBy, held]
  | asyncSendTo message count inFlight held room =>
    simp only [SendQueue.account, undecided, completedBy, invokedBy, held, ← Multiset.coe_add,
      Multiset.coe_singleton]
    abel
  | drop message count inFlight held full =>
    simp only [SendQueue.account, undecided, completedBy, invokedBy, held, List.map_append, List.map_cons,
      List.map_nil, ← Multiset.coe_add, Multiset.coe_singleton]
    abel
  | unlock message held => simp only [SendQueue.account, undecided, completedBy, invokedBy, held]
  | complete send sent =>
    have found : s.inFlight[send]? = some s.inFlight[send] := List.getElem?_eq_getElem sent
    simp only [SendQueue.account, undecided, completedBy, invokedBy, found, Option.toList_some,
      Multiset.coe_singleton, eraseIdx_account found]
    abel

theorem account_run {s s' : SendQueue} (events : List SendEvent) (reached : run events s = some s') :
    s'.account + everCompleted events s = s.account + (events.map invokedBy).sum := by
  induction events generalizing s with
  | nil =>
    cases reached
    rfl
  | cons event events ih =>
    obtain ⟨s₁, stepped, later⟩ := Option.bind_eq_some_iff.mp reached
    have first := (step_acts stepped).account
    rw [everCompleted, stepped, List.map_cons, List.sum_cons]
    calc s'.account + (s.completedBy event + everCompleted events s₁)
        = s'.account + everCompleted events s₁ + s.completedBy event := by abel
      _ = s₁.account + s.completedBy event + (events.map invokedBy).sum := by
        rw [ih later]
        abel
      _ = s.account + (invokedBy event + (events.map invokedBy).sum) := by rw [first, add_assoc]

/-! ## Progress -/

/-- A step that is no new call. -/
def Internal : SendEvent → Prop
  | .invoke _ => False
  | _ => True

/-- The steps that are left to do, at most. -/
def work (s : SendQueue) : Nat :=
  5 * s.waiting.length + s.inFlight.length +
    match s.holder with
    | some (_, .locked) => 4
    | some (_, .counted _ _) => 3
    | some (_, .done) => 1
    | none => 0

theorem Acts.work_lt {s s' : SendQueue} {event : SendEvent} (acts : s.Acts event s')
    (isInternal : Internal event) : s'.work < s.work := by
  cases acts with
  | invoke message => exact isInternal.elim
  | lock call message free waits =>
    have fewer := List.length_eraseIdx_of_lt (List.getElem?_eq_some_iff.mp waits).1
    have inside := (List.getElem?_eq_some_iff.mp waits).1
    simp only [work, free, fewer]
    omega
  | fetchAdd message held =>
    simp only [work, held]
    omega
  | asyncSendTo message count inFlight held room =>
    simp only [work, held, List.length_append, List.length_singleton]
    omega
  | drop message count inFlight held full =>
    simp only [work, held]
    omega
  | unlock message held =>
    simp only [work, held]
    omega
  | complete send sent =>
    simp only [work, List.length_eraseIdx_of_lt sent]
    omega

/-- Nothing is left to do. -/
structure Idle (s : SendQueue) : Prop where
  waiting : s.waiting = []
  holder : s.holder = none
  inFlight : s.inFlight = []

/-- In every other state some step can be taken. -/
theorem idle_or_enabled (s : SendQueue) : s.Idle ∨ ∃ event s', Internal event ∧ s.step event = some s' := by
  cases held : s.holder with
  | none =>
    cases waits : s.waiting with
    | nil =>
      cases sent : s.inFlight with
      | nil => exact .inl ⟨waits, held, sent⟩
      | cons message rest =>
        right
        exact ⟨.complete 0, _, trivial, by simp only [step, sent, List.length_cons]; rfl⟩
    | cons message rest =>
      right
      exact ⟨.lock 0, _, trivial, by simp only [step, held, waits]; rfl⟩
  | some call =>
    right
    obtain ⟨message, phase⟩ := call
    cases phase with
    | locked => exact ⟨.fetchAdd, _, trivial, by simp only [step, held]; rfl⟩
    | counted count inFlight =>
      by_cases room : count.toNat < MAX_SEND_QUEUE
      · exact ⟨.asyncSendTo, _, trivial, by simp only [step, held, if_pos room]; rfl⟩
      · exact ⟨.drop, _, trivial, by simp only [step, held, if_neg room]; rfl⟩
    | done => exact ⟨.unlock, _, trivial, by simp only [step, held]; rfl⟩

theorem work_run {s s' : SendQueue} (events : List SendEvent)
    (isInternal : ∀ event ∈ events, Internal event) (reached : run events s = some s') :
    events.length + s'.work ≤ s.work := by
  induction events generalizing s with
  | nil =>
    cases reached
    simp
  | cons event events ih =>
    obtain ⟨s₁, stepped, later⟩ := Option.bind_eq_some_iff.mp reached
    have less := (step_acts stepped).work_lt (isInternal event List.mem_cons_self)
    have rest := ih (fun e member => isInternal e (List.mem_cons_of_mem _ member)) later
    rw [List.length_cons]
    omega

/-- Without new calls every order of steps ends, after no more than the work that was left, and
where it ends every message has been sent and completed, or dropped, once. -/
theorem run_drains (events later : List SendEvent) {s s' : SendQueue} (reached : run events start = some s)
    (isInternal : ∀ event ∈ later, Internal event) (reached' : run later s = some s') :
    later.length ≤ s.work ∧
      ((∀ event, Internal event → s'.step event = none) →
        s'.Idle ∧ s'.send_queue_counter = 0 ∧
          everCompleted (events ++ later) start + ↑(s'.dropped.map Dropped.message) =
            (events.map invokedBy).sum) := by
  refine ⟨?_, fun stuck => ?_⟩
  · have total := work_run later isInternal reached'
    omega
  · have whole : run (events ++ later) start = some s' := by
      rw [run_append, reached, Option.bind_some, reached']
    have idle : s'.Idle := by
      rcases s'.idle_or_enabled with idle | ⟨event, s'', internal, enabled⟩
      · exact idle
      · rw [stuck event internal] at enabled
        cases enabled
    have counts := start_counts.run _ whole
    refine ⟨idle, ?_, ?_⟩
    · apply BitVec.eq_of_toNat_eq
      rw [counts.counter, counting, idle.holder, idle.inFlight]
      rfl
    · have none : (later.map invokedBy).sum = 0 := by
        refine List.sum_eq_zero fun x member => ?_
        obtain ⟨event, listed, rfl⟩ := List.mem_map.mp member
        have own := isInternal event listed
        cases event with
        | invoke message => exact own.elim
        | _ => rfl
      have total := account_run _ whole
      rw [List.map_append, List.sum_append, none, add_zero, account, undecided, idle.holder, idle.waiting,
        idle.inFlight] at total
      have empty : start.account = 0 := rfl
      rw [empty, zero_add] at total
      rw [← total, Multiset.coe_nil, zero_add, zero_add, zero_add, add_comm]

/-- Two calls, of which the second waits for the lock. -/
def twoCalls : List SendEvent :=
  [.invoke ⟨[1], ⟨.v4 0, 6881⟩⟩, .lock 0, .invoke ⟨[2], ⟨.v4 1, 6881⟩⟩, .fetchAdd]

/-- The rest of the two calls, the first completion before the first unlock. -/
def twoCallsRest : List SendEvent :=
  [.asyncSendTo, .complete 0, .unlock, .lock 0, .fetchAdd, .asyncSendTo, .unlock, .complete 0]

theorem run_drains_twoCalls :
    ∃ s', run (twoCalls ++ twoCallsRest) start = some s' ∧ s'.Idle ∧ s'.send_queue_counter = 0 ∧
      everCompleted (twoCalls ++ twoCallsRest) start =
        ({⟨[1], ⟨.v4 0, 6881⟩⟩, ⟨[2], ⟨.v4 1, 6881⟩⟩} : Multiset Datagram) := by
  have internal : ∀ event ∈ twoCallsRest, Internal event := by simp [twoCallsRest, Internal]
  obtain ⟨-, drained⟩ := run_drains twoCalls twoCallsRest rfl internal (rfl : _ = some start)
  have stuck : ∀ event, Internal event → start.step event = none := by
    intro event isInternal
    cases event with
    | invoke message => exact isInternal.elim
    | _ => rfl
  obtain ⟨idle, counter, all⟩ := drained stuck
  refine ⟨start, rfl, idle, counter, ?_⟩
  simpa [start, twoCalls, invokedBy] using all

end TorrentSync.Source.SendQueue
