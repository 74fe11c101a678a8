import TorrentSync.Lib.ListParts
import TorrentSync.Source.Logger

/-!
# What the sinks receive

However the threads take turns, a stream that belongs to one sink holds whole messages, but for
the one that is being written, and each thread's messages in their order. Messages below the
level of the logger are not left out but raised to it, so that a sink at or below that level
receives every message.
-/
namespace TorrentSync.Source.Logging

open Lib ListParts

variable {ι : Type} [DecidableEq ι]

/-! ## Steps -/

/-- The enabled steps, one constructor for each. -/
inductive Acts (logger : Logger) (s : Logging ι) : LogEvent ι → Logging ι → Prop
  | log (t : ι) (level : Level) (timestamp : Buffer) (at_ : s.phase t = .idle) :
      Acts logger s (.log t level timestamp)
        (s.moved t (.writing (logger.raised level) (header timestamp (logger.raised level))))
  | put (t : ι) (octets : Buffer) (level : Level) (text : Buffer) (at_ : s.phase t = .writing level text) :
      Acts logger s (.put t octets) (s.moved t (.writing level (text ++ octets)))
  | logend (t : ι) (level : Level) (text : Buffer) (at_ : s.phase t = .writing level text) :
      Acts logger s (.logend t)
        ((s.moved t (.delivering ⟨t, level, text ++ ascii "\n"⟩ 0 none)).completed
          ⟨t, level, text ++ ascii "\n"⟩)
  | skip (t : ι) (message : LogMessage ι) (i : Nat) (sink : Sink)
      (at_ : s.phase t = .delivering message i none) (place : logger.sinks[i]? = some sink)
      (above : sink.takes message = false) :
      Acts logger s (.skip t) (s.moved t (.delivering message (i + 1) none))
  | lock (t : ι) (message : LogMessage ι) (i : Nat) (sink : Sink)
      (at_ : s.phase t = .delivering message i none) (place : logger.sinks[i]? = some sink)
      (free : s.holder i = none) (takes : sink.takes message = true) :
      Acts logger s (.lock t)
        ((s.moved t (.delivering message i (some 0))).setHolder i (some t))
  | write (t : ι) (message : LogMessage ι) (i n : Nat) (sink : Sink) (octet : UInt8)
      (at_ : s.phase t = .delivering message i (some n)) (place : logger.sinks[i]? = some sink)
      (next : message.text[n]? = some octet) :
      Acts logger s (.write t)
        ((s.moved t (.delivering message i (some (n + 1)))).writeOctet sink.stream octet)
  | unlock (t : ι) (message : LogMessage ι) (i : Nat)
      (at_ : s.phase t = .delivering message i (some message.text.length)) :
      Acts logger s (.unlock t)
        ((s.moved t (.delivering message (i + 1) none)).setHolder i none)
  | finish (t : ι) (message : LogMessage ι) (i : Nat) (at_ : s.phase t = .delivering message i none)
      (last : logger.sinks[i]? = none) :
      Acts logger s (.finish t) (s.moved t .idle)

theorem step_acts {logger : Logger} {s s' : Logging ι} {event : LogEvent ι}
    (stepped : s.step logger event = some s') : Acts logger s event s' := by
  cases event with
  | log t level timestamp =>
    simp only [step] at stepped
    split at stepped
    · rename_i at_
      cases stepped
      exact .log t level timestamp at_
    · cases stepped
  | put t octets =>
    simp only [step] at stepped
    split at stepped
    · rename_i level text at_
      cases stepped
      exact .put t octets level text at_
    · cases stepped
  | logend t =>
    simp only [step] at stepped
    split at stepped
    · rename_i level text at_
      cases stepped
      exact .logend t level text at_
    · cases stepped
  | skip t =>
    simp only [step] at stepped
    split at stepped
    · rename_i message i at_
      split at stepped
      · rename_i sink place
        obtain ⟨above, same⟩ := Option.ite_none_left_eq_some.mp stepped
        cases same
        exact .skip t message i sink at_ place (Bool.not_eq_true _ ▸ above)
      · cases stepped
    · cases stepped
  | lock t =>
    simp only [step] at stepped
    split at stepped
    · rename_i message i at_
      split at stepped
      · rename_i sink place free
        obtain ⟨takes, same⟩ := Option.ite_none_right_eq_some.mp stepped
        cases same
        exact .lock t message i sink at_ place free takes
      · cases stepped
    · cases stepped
  | write t =>
    simp only [step] at stepped
    split at stepped
    · rename_i message i n at_
      split at stepped
      · rename_i sink octet place next
        cases stepped
        exact .write t message i n sink octet at_ place next
      · cases stepped
    · cases stepped
  | unlock t =>
    simp only [step] at stepped
    split at stepped
    · rename_i message i n at_
      obtain ⟨rfl, same⟩ := Option.ite_none_right_eq_some.mp stepped
      cases same
      exact .unlock t message i at_
    · cases stepped
  | finish t =>
    simp only [step] at stepped
    split at stepped
    · rename_i message i at_
      split at stepped
      · cases stepped
      · rename_i last
        cases stepped
        exact .finish t message i at_ last
    · cases stepped

/-! ## The invariant -/

/-- The sink whose mutex a thread holds. -/
def holding : LogPhase ι → Option Nat
  | .delivering _ i (some _) => some i
  | _ => none

/-- What a thread has written of its message to this sink. -/
def progress : LogPhase ι → Buffer
  | .delivering message _ (some n) => message.text.take n
  | _ => []

/-- The message that a thread has still to write to a sink, or is writing to it. -/
def pending (sink : Sink) (i : Nat) : LogPhase ι → List (LogMessage ι)
  | .delivering message j _ => if j ≤ i ∧ sink.takes message = true then [message] else []
  | _ => []

/-- The part of the message that is being written to a sink. -/
def unfinished (s : Logging ι) (i : Nat) : Buffer :=
  match s.holder i with
  | some t => progress (s.phase t)
  | none => []

def Sound (logger : Logger) (t : ι) : LogPhase ι → Prop
  | .idle => True
  | .writing level _ => logger.level.value ≤ level.value
  | .delivering message i written =>
      message.thread = t ∧ ∀ n ∈ written, n ≤ message.text.length ∧
        ∃ sink, logger.sinks[i]? = some sink ∧ sink.takes message = true

/-- The messages written to a sink, in their order. -/
structure Delivered (s : Logging ι) (i : Nat) (sink : Sink) (order : List (LogMessage ι)) : Prop where
  text : s.streams sink.stream = order.flatMap LogMessage.text ++ s.unfinished i
  threads : ∀ t, order.filter (fun m => m.thread = t) ++ pending sink i (s.phase t) =
    s.ended.filter fun m => m.thread = t && sink.takes m

structure Invariant (logger : Logger) (s : Logging ι) : Prop where
  mutex : ∀ i t, s.holder i = some t ↔ holding (s.phase t) = some i
  phases : ∀ t, Sound logger t (s.phase t)
  raised : ∀ m ∈ s.ended, logger.level.value ≤ m.level.value
  delivered : ∀ i sink, logger.sinks[i]? = some sink → ∃ order, Delivered s i sink order

theorem start_invariant (logger : Logger) : Invariant logger (start : Logging ι) where
  mutex := by simp [start, holding]
  phases := fun _ => trivial
  raised := by simp [start]
  delivered := fun i sink _ => ⟨[], by simp [start, unfinished], by simp [start, pending]⟩

variable {logger : Logger} {s : Logging ι} {t : ι}

theorem Invariant.phases_moved (h : Invariant logger s) {p : LogPhase ι} (sound : Sound logger t p)
    (t' : ι) : Sound logger t' ((s.moved t p).phase t') := by
  by_cases same : t' = t
  · subst same
    rwa [moved_same]
  · rw [moved_other s t p same]
    exact h.phases t'

/-- What another thread is writing to a sink does not depend on this one. -/
theorem Invariant.unfinished_other (h : Invariant logger s) (p : LogPhase ι) {i : Nat}
    (apart : holding (s.phase t) ≠ some i) : (s.moved t p).unfinished i = s.unfinished i := by
  unfold unfinished
  rw [moved_holder]
  cases held : s.holder i with
  | none => rfl
  | some t' =>
    have other : t' ≠ t := by
      rintro rfl
      exact apart ((h.mutex i t').mp held)
    simp only [moved_other s t p other]

omit [DecidableEq ι] in
theorem unfinished_setHolder {i k : Nat} (other : k ≠ i) (holder : Option ι) :
    (s.setHolder i holder).unfinished k = s.unfinished k := by
  simp only [unfinished, setHolder_other s i holder other, setHolder_phase]

/-- A thread that holds no mutex goes on without one, with the messages it has completed. -/
theorem Invariant.quiet (h : Invariant logger s) {p : LogPhase ι} (completed : List (LogMessage ι))
    (before : holding (s.phase t) = none) (after : holding p = none) (sound : Sound logger t p)
    (own : ∀ m ∈ completed, m.thread = t ∧ logger.level.value ≤ m.level.value)
    (pends : ∀ i sink, logger.sinks[i]? = some sink →
      pending sink i p = pending sink i (s.phase t) ++ completed.filter sink.takes) {s' : Logging ι}
    (same : s' = { s.moved t p with ended := s.ended ++ completed }) : Invariant logger s' := by
  subst same
  refine ⟨fun i t' => ?_, h.phases_moved sound,
    List.forall_mem_append.mpr ⟨h.raised, fun m member => (own m member).2⟩, fun i sink place => ?_⟩
  · by_cases same : t' = t
    · subst same
      have none : s.holder i ≠ some t' := by
        intro held
        rw [h.mutex, before] at held
        cases held
      refine iff_of_false none ?_
      simp only [moved_same, after]
      simp
    · simp only [moved_other s t p same]
      exact h.mutex i t'
  · obtain ⟨order, text, threads⟩ := h.delivered i sink place
    refine ⟨order, ?_, fun t' => ?_⟩
    · have kept := h.unfinished_other p (t := t) (i := i) (by rw [before]; simp)
      exact text.trans (congrArg _ kept.symm)
    · simp only [List.filter_append, ← threads t']
      by_cases same : t' = t
      · subst same
        have all : completed.filter (fun m => m.thread = t' && sink.takes m) = completed.filter sink.takes :=
          List.filter_congr fun m member => by simp [(own m member).1]
        rw [moved_same, pends i sink place, all, List.append_assoc]
      · have none : completed.filter (fun m => m.thread = t' && sink.takes m) = [] :=
          List.filter_eq_nil_iff.mpr fun m member => by simp [(own m member).1, Ne.symm same]
        rw [moved_other s t p same, none, List.append_nil]

theorem Invariant.lock (h : Invariant logger s) {message : LogMessage ι} {i : Nat} {sink : Sink}
    (at_ : s.phase t = .delivering message i none) (place : logger.sinks[i]? = some sink)
    (free : s.holder i = none) (takes : sink.takes message = true) :
    Invariant logger ((s.moved t (.delivering message i (some 0))).setHolder i (some t)) := by
  have own : message.thread = t := by
    have sound := h.phases t
    rw [at_] at sound
    exact sound.1
  have apart : ∀ k, holding (s.phase t) ≠ some k := by simp [at_, holding]
  refine ⟨fun k t' => ?_, h.phases_moved ⟨own, ?_⟩, h.raised, fun k sink' place' => ?_⟩
  · rw [setHolder_phase]
    by_cases here : k = i
    · subst here
      rw [setHolder_same]
      by_cases same : t' = t
      · subst same
        simp [holding]
      · rw [moved_other s t _ same, ← h.mutex, free]
        simp [Ne.symm same]
    · rw [setHolder_other _ _ _ here, moved_holder]
      by_cases same : t' = t
      · subst same
        rw [moved_same]
        refine iff_of_false (fun held => apart k ((h.mutex k t').mp held)) ?_
        simp [holding, Ne.symm here]
      · rw [moved_other s t _ same]
        exact h.mutex k t'
  · rintro n ⟨⟩
    exact ⟨Nat.zero_le _, sink, place, takes⟩
  · obtain ⟨order, text, threads⟩ := h.delivered k sink' place'
    refine ⟨order, text.trans (congrArg _ ?_), fun t' => ?_⟩
    · by_cases here : k = i
      · subst here
        simp [unfinished, free, progress]
      · rw [unfinished_setHolder here, h.unfinished_other _ (apart k)]
    · rw [setHolder_phase, setHolder_ended, moved_ended, ← threads t']
      by_cases same : t' = t
      · subst same
        simp only [moved_same, at_, pending]
      · rw [moved_other s t _ same]

/-- The octet goes to a stream of this sink alone. -/
theorem Invariant.write (h : Invariant logger s) (distinct : (logger.sinks.map Sink.stream).Nodup)
    {message : LogMessage ι} {i n : Nat} {sink : Sink} {octet : UInt8}
    (at_ : s.phase t = .delivering message i (some n)) (place : logger.sinks[i]? = some sink)
    (next : message.text[n]? = some octet) :
    Invariant logger ((s.moved t (.delivering message i (some (n + 1)))).writeOctet sink.stream octet) := by
  have sound := h.phases t
  rw [at_] at sound
  obtain ⟨own, within⟩ := sound
  obtain ⟨-, takes⟩ := within n rfl
  have more : n + 1 ≤ message.text.length := (List.getElem?_eq_some_iff.mp next).1
  have held : s.holder i = some t := (h.mutex i t).mpr (by rw [at_]; rfl)
  refine ⟨fun k t' => ?_, h.phases_moved ⟨own, ?_⟩, h.raised, fun k sink' place' => ?_⟩
  · rw [writeOctet_phase, writeOctet_holder, moved_holder, h.mutex]
    by_cases same : t' = t
    · subst same
      simp only [moved_same, at_, holding]
    · rw [moved_other s t _ same]
  · rintro m ⟨⟩
    exact ⟨more, takes⟩
  · obtain ⟨order, text, threads⟩ := h.delivered k sink' place'
    refine ⟨order, ?_, fun t' => ?_⟩
    · by_cases here : k = i
      · subst here
        rw [place] at place'
        cases place'
        have written : s.unfinished k = message.text.take n := by
          simp only [unfinished, held, at_, progress]
        have writing : ((s.moved t (.delivering message k (some (n + 1)))).writeOctet
            sink.stream octet).unfinished k = message.text.take n ++ [octet] := by
          simp only [unfinished, writeOctet_holder, writeOctet_phase, moved_holder, held, moved_same, progress,
            List.take_add_one, next, Option.toList_some]
        rw [writing, writeOctet_same, moved_streams, text, written, List.append_assoc]
      · have apart : sink'.stream ≠ sink.stream := by
          intro same
          refine here ((List.getElem?_inj ?_ distinct).mp ?_)
          · rw [List.length_map]
            exact (List.getElem?_eq_some_iff.mp place').1
          · rw [List.getElem?_map, List.getElem?_map, place, place', Option.map_some, Option.map_some, same]
        have others := h.unfinished_other (t := t) (i := k) (.delivering message i (some (n + 1)))
          (by simp [at_, holding, Ne.symm here])
        have kept : ((s.moved t (.delivering message i (some (n + 1)))).writeOctet
            sink.stream octet).unfinished k = s.unfinished k := others
        rw [kept, writeOctet_other _ _ _ apart]
        exact text
    · rw [writeOctet_phase, writeOctet_ended, moved_ended, ← threads t']
      by_cases same : t' = t
      · subst same
        simp only [moved_same, at_, pending]
      · rw [moved_other s t _ same]

/-- The message is written to this sink. -/
theorem Invariant.unlock (h : Invariant logger s) {message : LogMessage ι} {i : Nat}
    (at_ : s.phase t = .delivering message i (some message.text.length)) :
    Invariant logger ((s.moved t (.delivering message (i + 1) none)).setHolder i none) := by
  have sound := h.phases t
  rw [at_] at sound
  obtain ⟨own, within⟩ := sound
  obtain ⟨-, sink, place, takes⟩ := within _ rfl
  have held : s.holder i = some t := (h.mutex i t).mpr (by rw [at_]; rfl)
  refine ⟨fun k t' => ?_, h.phases_moved ⟨own, by simp⟩, h.raised, fun k sink' place' => ?_⟩
  · rw [setHolder_phase]
    by_cases here : k = i
    · subst here
      rw [setHolder_same]
      refine iff_of_false (by simp) ?_
      by_cases same : t' = t
      · subst same
        simp [holding]
      · rw [moved_other s t _ same, ← h.mutex, held]
        simp [Ne.symm same]
    · rw [setHolder_other _ _ _ here, moved_holder]
      by_cases same : t' = t
      · subst same
        rw [moved_same, h.mutex, at_]
        simp [holding, Ne.symm here]
      · rw [moved_other s t _ same]
        exact h.mutex k t'
  · obtain ⟨order, text, threads⟩ := h.delivered k sink' place'
    by_cases here : k = i
    · subst here
      rw [place] at place'
      cases place'
      refine ⟨order ++ [message], ?_, fun t' => ?_⟩
      · have written : s.unfinished k = message.text := by
          simp only [unfinished, held, at_, progress, List.take_length]
        have nothing : ((s.moved t (.delivering message (k + 1) none)).setHolder k none).unfinished k = [] := by
          simp [unfinished]
        rw [nothing, setHolder_streams, moved_streams, text, written, List.append_nil, List.flatMap_append,
          List.flatMap_singleton]
      · rw [setHolder_phase, setHolder_ended, moved_ended, ← threads t', List.filter_append]
        by_cases same : t' = t
        · subst same
          simp [at_, pending, takes, own]
        · have others : message.thread ≠ t' := by
            rw [own]
            exact Ne.symm same
          simp [moved_other s t _ same, others]
    · refine ⟨order, text.trans (congrArg _ ?_), fun t' => ?_⟩
      · rw [unfinished_setHolder here, h.unfinished_other _ (by simp [at_, holding, Ne.symm here])]
      · rw [setHolder_phase, setHolder_ended, moved_ended, ← threads t']
        by_cases same : t' = t
        · subst same
          have after : i + 1 ≤ k ↔ i ≤ k := by omega
          simp only [moved_same, at_, pending, after]
        · rw [moved_other s t _ same]

/-- A thread that holds no mutex goes on without one, and completes nothing. -/
theorem Invariant.silent (h : Invariant logger s) {p : LogPhase ι} (before : holding (s.phase t) = none)
    (after : holding p = none) (sound : Sound logger t p)
    (pends : ∀ i sink, logger.sinks[i]? = some sink → pending sink i p = pending sink i (s.phase t)) :
    Invariant logger (s.moved t p) := by
  refine h.quiet [] before after sound (by simp) (fun i sink place => ?_) ?_
  · rw [pends i sink place, List.filter_nil, List.append_nil]
  · rw [List.append_nil]
    rfl

theorem value_raised (logger : Logger) (level : Level) : logger.level.value ≤ (logger.raised level).value := by
  unfold Logger.raised
  split <;> omega

/-- Every step keeps the invariant. -/
theorem Invariant.acts (h : Invariant logger s) (distinct : (logger.sinks.map Sink.stream).Nodup)
    {event : LogEvent ι} {s' : Logging ι} (acts : Acts logger s event s') : Invariant logger s' := by
  cases acts with
  | log t level timestamp at_ =>
    exact h.silent (by rw [at_]; rfl) rfl (value_raised logger level) fun _ _ _ => by rw [at_]; rfl
  | put t octets level text at_ =>
    have sound : Sound logger t (.writing level text) := at_ ▸ h.phases t
    exact h.silent (by rw [at_]; rfl) rfl sound fun _ _ _ => by rw [at_]; rfl
  | logend t level text at_ =>
    have sound : Sound logger t (.writing level text) := at_ ▸ h.phases t
    have begun : Sound logger t (.delivering ⟨t, level, text ++ ascii "\n"⟩ 0 none) := ⟨rfl, by simp⟩
    refine h.quiet [⟨t, level, text ++ ascii "\n"⟩] (by rw [at_]; rfl) rfl begun ?_ (fun i sink _ => ?_) rfl
    · rintro m member
      cases List.mem_singleton.mp member
      exact ⟨rfl, sound⟩
    · simp only [at_, pending, Nat.zero_le, true_and, List.nil_append, List.filter_cons, List.filter_nil]
  | skip t message i sink at_ place above =>
    have sound : Sound logger t (.delivering message i none) := at_ ▸ h.phases t
    refine h.silent (by rw [at_]; rfl) rfl ⟨sound.1, by simp⟩ fun k sink' place' => ?_
    simp only [at_, pending]
    by_cases here : k = i
    · subst here
      rw [place] at place'
      cases place'
      simp [above]
    · have after : i + 1 ≤ k ↔ i ≤ k := by omega
      simp only [after]
  | lock t message i sink at_ place free takes => exact h.lock at_ place free takes
  | write t message i n sink octet at_ place next => exact h.write distinct at_ place next
  | unlock t message i at_ => exact h.unlock at_
  | finish t message i at_ last =>
    refine h.silent (by rw [at_]; rfl) rfl trivial fun k sink place => ?_
    have before : ¬ i ≤ k := by
      have inside := (List.getElem?_eq_some_iff.mp place).1
      have past := List.getElem?_eq_none_iff.mp last
      omega
    simp [at_, pending, before]

theorem Invariant.run (distinct : (logger.sinks.map Sink.stream).Nodup) {events : List (LogEvent ι)} :
    ∀ {s s' : Logging ι}, Invariant logger s → run logger events s = some s' → Invariant logger s' := by
  induction events with
  | nil =>
    intro s s' h reached
    cases reached
    exact h
  | cons event events ih =>
    intro s s' h reached
    obtain ⟨next, stepped, rest⟩ := Option.bind_eq_some_iff.mp reached
    exact ih (h.acts distinct (step_acts stepped)) rest

/-! ## Every order of steps -/

/-- A stream of one sink holds the messages at or above its level, one after the other, each thread's
in their order and without any that is still to be written. A sink at or below the level of the
logger takes every message. -/
theorem run_delivers (distinct : (logger.sinks.map Sink.stream).Nodup) {events : List (LogEvent ι)}
    (reached : run logger events start = some s) {i : Nat} {sink : Sink}
    (place : logger.sinks[i]? = some sink) :
    ∃ order : List (LogMessage ι),
      s.streams sink.stream = order.flatMap LogMessage.text ++ s.unfinished i ∧
      (∀ t, order.filter (fun m => m.thread = t) ++ pending sink i (s.phase t) =
        s.ended.filter fun m => m.thread = t && sink.takes m) ∧
      (sink.level.value ≤ logger.level.value → (∀ t, pending sink i (s.phase t) = []) →
        order.Perm s.ended) := by
  have h := (start_invariant logger).run distinct reached
  obtain ⟨order, text, threads⟩ := h.delivered i sink place
  refine ⟨order, text, threads, fun low done => perm_of_filter_key LogMessage.thread fun t => ?_⟩
  have written := threads t
  rw [done t, List.append_nil] at written
  rw [written]
  refine List.filter_congr fun m member => ?_
  have takes : sink.takes m = true := decide_eq_true (low.trans (h.raised m member))
  rw [takes, Bool.and_true]

def sinkAtWarn : Logger := ⟨.WARN, [⟨0, .WARN⟩]⟩

/-- The second thread overtakes the first, whose message has a level below that of the logger. -/
def twoThreads : List (LogEvent Bool) :=
  [.log false .INFO [], .log true .ERROR [], .logend false, .logend true, .lock true] ++
    List.replicate 10 (.write true) ++ [.unlock true, .lock false] ++ List.replicate 4 (.write false)

theorem run_delivers_twoThreads :
    ∃ s, run sinkAtWarn twoThreads start = some s ∧
      ∃ order : List (LogMessage Bool),
        s.streams 0 = order.flatMap LogMessage.text ++ s.unfinished 0 ∧
        (∀ t, order.filter (fun m => m.thread = t) ++ pending ⟨0, .WARN⟩ 0 (s.phase t) =
          s.ended.filter fun m => m.thread = t && Sink.takes ⟨0, .WARN⟩ m) ∧
        (Level.WARN.value ≤ Level.WARN.value → (∀ t, pending ⟨0, .WARN⟩ 0 (s.phase t) = []) →
          order.Perm s.ended) := by
  have runs : (run sinkAtWarn twoThreads start).isSome = true := by decide
  obtain ⟨s, reached⟩ := Option.isSome_iff_exists.mp runs
  have place : sinkAtWarn.sinks[0]? = some ⟨0, .WARN⟩ := rfl
  exact ⟨s, reached, run_delivers (by decide) reached place⟩

/-- A stream that was added twice has two mutexes, and messages mix. -/
example :
    (run ⟨.WARN, [⟨0, .WARN⟩, ⟨0, .WARN⟩]⟩
      ([.log false .WARN [], .log true .WARN [], .logend false, .logend true, .lock false] ++
        List.replicate 9 (.write false) ++
        [.unlock false, .lock false, .lock true, .write false, .write true]) start).map
      (fun s => s.streams 0) = some (ascii "[ WARN] \n[[") := by
  decide

end TorrentSync.Source.Logging
