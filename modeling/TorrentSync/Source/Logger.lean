import TorrentSync.Source.Host

/-!
# The logger

utils/log: the `LOG` macro as any number of threads run it, a step for each access to what they
share. Each sink has its own mutex, so only octets that go to one sink are kept apart. The sinks
and the level are set before, as `main` does. Flushing changes nothing that is written and is left
out.
-/
namespace TorrentSync.Source

inductive Level where
  | DEBUG | INFO | WARN | ERROR
  deriving DecidableEq, Repr

namespace Level

def value : Level → Nat
  | .DEBUG => 0
  | .INFO => 1
  | .WARN => 2
  | .ERROR => 3

end Level

def levelToString : Level → Buffer
  | .DEBUG => ascii "DEBUG"
  | .INFO => ascii "INFO"
  | .WARN => ascii "WARN"
  | .ERROR => ascii "ERROR"

/-- A `std::ostream` and the least level it takes. Its mutex is known by its position. -/
structure Sink where
  stream : Nat
  level : Level
  deriving DecidableEq, Repr

structure Logger where
  level : Level
  sinks : List Sink

/-- What the constructor of `LogStream` makes of the level of a message: messages below the level
of the logger are raised to it. -/
def Logger.raised (logger : Logger) (level : Level) : Level :=
  if level.value < logger.level.value then logger.level else level

/-- The front of the buffer of a new `LogStream`. -/
def header (timestamp : Buffer) (level : Level) : Buffer :=
  ascii "[" ++ timestamp ++ ascii " " ++ levelToString level ++ ascii "] "

variable {ι : Type}

/-- The buffer of a thread's `LogStream` when `logend` has completed it. -/
structure LogMessage (ι : Type) where
  thread : ι
  level : Level
  text : Buffer

def Sink.takes (sink : Sink) (message : LogMessage ι) : Bool := sink.level.value ≤ message.level.value

/-- Where a thread is: outside of `LOG`, before `logend`, or in the loop over the sinks, at a sink
whose mutex it holds after so many octets, or does not hold. -/
inductive LogPhase (ι : Type) where
  | idle
  | writing (level : Level) (text : Buffer)
  | delivering (message : LogMessage ι) (sink : Nat) (written : Option Nat)

/-- The threads, the mutexes, the streams, and the completed messages, oldest first. -/
structure Logging (ι : Type) where
  phase : ι → LogPhase ι
  holder : Nat → Option ι
  streams : Nat → Buffer
  ended : List (LogMessage ι)

inductive LogEvent (ι : Type) where
  | log (thread : ι) (level : Level) (timestamp : Buffer)
  | put (thread : ι) (octets : Buffer)
  | logend (thread : ι)
  | skip (thread : ι)
  | lock (thread : ι)
  | write (thread : ι)
  | unlock (thread : ι)
  | finish (thread : ι)

namespace Logging

def start : Logging ι := ⟨fun _ => .idle, fun _ => none, fun _ => [], []⟩

/-- The mutex of a sink is locked by a thread or unlocked. -/
def setHolder (s : Logging ι) (sink : Nat) (holder : Option ι) : Logging ι :=
  { s with holder := Function.update s.holder sink holder }

def writeOctet (s : Logging ι) (stream : Nat) (octet : UInt8) : Logging ι :=
  { s with streams := Function.update s.streams stream (s.streams stream ++ [octet]) }

def completed (s : Logging ι) (message : LogMessage ι) : Logging ι :=
  { s with ended := s.ended ++ [message] }

section Fields

variable (s : Logging ι) (i : Nat) (holder : Option ι) (octet : UInt8)

@[simp] theorem setHolder_phase : (s.setHolder i holder).phase = s.phase := rfl

@[simp] theorem setHolder_streams : (s.setHolder i holder).streams = s.streams := rfl

@[simp] theorem setHolder_ended : (s.setHolder i holder).ended = s.ended := rfl

@[simp] theorem setHolder_same : (s.setHolder i holder).holder i = holder := by
  simp only [setHolder, Function.update_self]

theorem setHolder_other {k : Nat} (other : k ≠ i) : (s.setHolder i holder).holder k = s.holder k := by
  simp only [setHolder, Function.update_of_ne other]

@[simp] theorem writeOctet_phase : (s.writeOctet i octet).phase = s.phase := rfl

@[simp] theorem writeOctet_holder : (s.writeOctet i octet).holder = s.holder := rfl

@[simp] theorem writeOctet_ended : (s.writeOctet i octet).ended = s.ended := rfl

@[simp] theorem writeOctet_same : (s.writeOctet i octet).streams i = s.streams i ++ [octet] := by
  simp only [writeOctet, Function.update_self]

theorem writeOctet_other {k : Nat} (other : k ≠ i) : (s.writeOctet i octet).streams k = s.streams k := by
  simp only [writeOctet, Function.update_of_ne other]

end Fields

variable [DecidableEq ι]

def moved (s : Logging ι) (thread : ι) (phase : LogPhase ι) : Logging ι :=
  { s with phase := Function.update s.phase thread phase }

section Fields

variable (s : Logging ι) (t : ι) (p : LogPhase ι)

@[simp] theorem moved_same : (s.moved t p).phase t = p := by
  simp only [moved, Function.update_self]

theorem moved_other {t' : ι} (other : t' ≠ t) : (s.moved t p).phase t' = s.phase t' := by
  simp only [moved, Function.update_of_ne other]

@[simp] theorem moved_holder : (s.moved t p).holder = s.holder := rfl

@[simp] theorem moved_streams : (s.moved t p).streams = s.streams := rfl

@[simp] theorem moved_ended : (s.moved t p).ended = s.ended := rfl

end Fields

/-- A step that is not enabled has no result. -/
def step (logger : Logger) (s : Logging ι) : LogEvent ι → Option (Logging ι)
  | .log thread level timestamp =>
      match s.phase thread with
      | .idle =>
          let level := logger.raised level
          some (s.moved thread (.writing level (header timestamp level)))
      | _ => none
  | .put thread octets =>
      match s.phase thread with
      | .writing level text => some (s.moved thread (.writing level (text ++ octets)))
      | _ => none
  | .logend thread =>
      match s.phase thread with
      | .writing level text =>
          let message := ⟨thread, level, text ++ ascii "\n"⟩
          some ((s.moved thread (.delivering message 0 none)).completed message)
      | _ => none
  | .skip thread =>
      match s.phase thread with
      | .delivering message i none =>
          match logger.sinks[i]? with
          | some sink =>
              if sink.takes message then none
              else some (s.moved thread (.delivering message (i + 1) none))
          | none => none
      | _ => none
  | .lock thread =>
      match s.phase thread with
      | .delivering message i none =>
          match logger.sinks[i]?, s.holder i with
          | some sink, none =>
              if sink.takes message then
                some ((s.moved thread (.delivering message i (some 0))).setHolder i (some thread))
              else none
          | _, _ => none
      | _ => none
  | .write thread =>
      match s.phase thread with
      | .delivering message i (some n) =>
          match logger.sinks[i]?, message.text[n]? with
          | some sink, some octet =>
              some ((s.moved thread (.delivering message i (some (n + 1)))).writeOctet sink.stream octet)
          | _, _ => none
      | _ => none
  | .unlock thread =>
      match s.phase thread with
      | .delivering message i (some n) =>
          if n = message.text.length then
            some ((s.moved thread (.delivering message (i + 1) none)).setHolder i none)
          else none
      | _ => none
  | .finish thread =>
      match s.phase thread with
      | .delivering _ i none =>
          match logger.sinks[i]? with
          | some _ => none
          | none => some (s.moved thread .idle)
      | _ => none

def run (logger : Logger) : List (LogEvent ι) → Logging ι → Option (Logging ι)
  | [], s => some s
  | event :: events, s => (s.step logger event).bind (run logger events)

end Logging
end TorrentSync.Source
