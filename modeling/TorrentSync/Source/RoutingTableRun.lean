import Mathlib.Tactic.Abel
import TorrentSync.Source.RoutingTableSpec

/-!
# Runs of a RoutingTable

Callbacks are registered, datagrams arrive and sends complete in any order. Every state
reached satisfies the invariant of RoutingTableSpec, and every callback ever registered
is either still in the table or has been called, once.
-/
namespace TorrentSync.Source

open Lib OrderedContainers

/-- What can happen to a routing table. -/
inductive RoutingTableEvent where
  | registerCallback (func : CallbackFunction) (transactionID : Buffer) (source : Option NodeData)
  | recvMessage (now : Int) (error : Bool) (buffer : Buffer) (bytes_transferred : Nat)
      (sender : Endpoint)
  | sent (completed : Nat)

namespace RoutingTable

def step (host : Host) (event : RoutingTableEvent) (rt : RoutingTable) : Fallible RoutingTable :=
  match event with
  | .registerCallback func transactionID source => .ok (rt.registerCallback func transactionID source)
  | .recvMessage now error buffer bytes_transferred sender =>
      rt.recvMessage host now error buffer bytes_transferred sender
  | .sent completed => .ok { rt with sending := rt.sending.eraseIdx completed }

/-- A run, which a fault ends. -/
def run (host : Host) : List RoutingTableEvent → RoutingTable → Fallible RoutingTable
  | [], rt => .ok rt
  | event :: events, rt => do
      let rt ← rt.step host event
      run host events rt

open Callbacks

/-! ## The callbacks of a run -/

/-- The callbacks still in the table. -/
def outstanding (rt : RoutingTable) : Multiset Callback := ↑(rt.callbacks.map Prod.snd)

/-- The callbacks an event registers. -/
def registeredBy : RoutingTableEvent → Multiset Callback
  | .registerCallback func transactionID source => {⟨func, source, transactionID⟩}
  | _ => 0

/-- Invariant and callbacks after an event. -/
structure Conserves (event : RoutingTableEvent) (rt rt' : RoutingTable) : Prop where
  valid : rt'.Valid
  callbacks : rt'.outstanding + ↑rt'.called = rt.outstanding + ↑rt.called + registeredBy event

private theorem called_conserves {pre post : Callbacks} {e : Buffer × Callback}
    {rt rt' : RoutingTable} (split : rt.callbacks = pre ++ e :: post)
    (effect : Called e.2 { rt with callbacks := pre ++ post } rt') :
    rt'.outstanding + ↑rt'.called = rt.outstanding + ↑rt.called := by
  have entries : rt'.callbacks = pre ++ post := effect.callbacks
  have log : rt'.called = rt.called ++ [e.2] := effect.called
  have first : (↑(e.2 :: post.map Prod.snd) : Multiset Callback) = {e.2} + ↑(post.map Prod.snd) := by
    rw [← Multiset.cons_coe, Multiset.singleton_add]
  rw [outstanding, outstanding, entries, log, split, List.map_append, List.map_append, List.map_cons,
    ← Multiset.coe_add, ← Multiset.coe_add, ← Multiset.coe_add, first, Multiset.coe_singleton]
  abel

/-- A message that was received is dropped, answered by a message, or given to one callback
that leaves the table. -/
theorem receive_conserves {host : Host} {now : Int} {m : Message} {kind : Message.Kind}
    (isKind : m.IsKind kind) {sender : Endpoint} {rt rt' : RoutingTable} (h : rt.Valid)
    (returned : rt.receive host now m sender = .ok rt') :
    rt'.Valid ∧ rt'.outstanding + ↑rt'.called = rt.outstanding + ↑rt.called := by
  have dispatched : ∀ node known,
      rt.dispatch host now (if kind = .reply then Type.Reply else Type.Query) m node known = .ok rt' →
      rt'.Valid ∧ rt'.outstanding + ↑rt'.called = rt.outstanding + ↑rt.called := by
    intro node known run
    obtain ⟨⟨callback, callbacks⟩, got, run⟩ := bind_eq_ok.mp run
    rcases getCallback_ok got with ⟨rfl, rfl⟩ | ⟨pre, e, post, split, rfl, rfl⟩
    · rcases handle_ok isKind run with rfl | ⟨b, endpoint, rfl⟩
      · exact ⟨h, rfl⟩
      · exact ⟨⟨h.table, h.callbacks⟩, rfl⟩
    · have fewer : (pre ++ post).Sublist rt.callbacks := by
        rw [split]
        exact List.Sublist.append_left (List.sublist_cons_self e post) pre
      have valid : ({ rt with callbacks := pre ++ post } : RoutingTable).Valid :=
        ⟨h.table, h.callbacks.sublist fewer⟩
      obtain ⟨rt'', called, effect⟩ := call_spec host now isKind node.nodeData known e.2 valid
      obtain rfl := Except.ok.inj (called.symm.trans run)
      exact ⟨effect.valid, called_conserves split effect⟩
  obtain ⟨type, typed, returned⟩ := bind_eq_ok.mp returned
  rw [isKind.type] at typed
  cases typed
  obtain ⟨id, -, returned⟩ := bind_eq_ok.mp returned
  obtain ⟨s, -, returned⟩ := bind_eq_ok.mp returned
  obtain ⟨found, -, returned⟩ := bind_eq_ok.mp returned
  cases found with
  | none =>
    obtain ⟨node, -, returned⟩ := bind_eq_ok.mp returned
    exact dispatched node false returned
  | some node =>
    simp only at returned
    split at returned
    · cases returned
      exact ⟨h, rfl⟩
    · exact dispatched node true returned

theorem step_conserves {host : Host} {event : RoutingTableEvent} {rt rt' : RoutingTable}
    (h : rt.Valid) (stepped : rt.step host event = .ok rt') : Conserves event rt rt' := by
  cases event with
  | registerCallback func transactionID source =>
    cases stepped
    have entries := Multiset.coe_eq_coe.mpr ((insertMulti_perm less transactionID
      ⟨func, source, transactionID⟩ rt.callbacks).map Prod.snd)
    have total : (rt.registerCallback func transactionID source).outstanding =
        {⟨func, source, transactionID⟩} + rt.outstanding := by
      rw [outstanding, registerCallback, Callbacks.registerCallback, entries, List.map_cons,
        ← Multiset.cons_coe, Multiset.singleton_add, outstanding]
    refine ⟨⟨h.table, h.callbacks.registerCallback func transactionID source⟩, ?_⟩
    rw [total, registeredBy, registerCallback]
    abel
  | recvMessage now error buffer bytes_transferred sender =>
    have same : Conserves (.recvMessage now error buffer bytes_transferred sender) rt rt :=
      ⟨h, (add_zero _).symm⟩
    cases error with
    | true =>
      cases stepped
      exact same
    | false =>
      cases parsed : Message.parseMessage host (resize bytes_transferred buffer) with
      | error fault =>
        simp only [step, recvMessage, parsed, Bool.false_eq_true, if_false] at stepped
        cases fault <;> cases stepped
        exact same
      | ok message =>
        cases message with
        | none => simp [step, recvMessage, parsed] at stepped
        | some m =>
          obtain ⟨kind, isKind⟩ := Message.parseMessage_kind parsed
          rw [step, recvMessage_parsed now parsed] at stepped
          obtain ⟨valid, callbacks⟩ := receive_conserves isKind h stepped
          exact ⟨valid, callbacks.trans (add_zero _).symm⟩
  | sent completed =>
    cases stepped
    exact ⟨⟨h.table, h.callbacks⟩, (add_zero _).symm⟩

/-- All callbacks registered in a run are outstanding or have been called. -/
theorem run_conserves (host : Host) (events : List RoutingTableEvent) {rt rt' : RoutingTable}
    (h : rt.Valid) (reached : run host events rt = .ok rt') :
    rt'.Valid ∧ rt'.outstanding + ↑rt'.called =
      rt.outstanding + ↑rt.called + (events.map registeredBy).sum := by
  induction events generalizing rt with
  | nil =>
    cases reached
    exact ⟨h, (add_zero _).symm⟩
  | cons event events ih =>
    obtain ⟨rt'', stepped, reached⟩ := bind_eq_ok.mp reached
    have first := step_conserves h stepped
    obtain ⟨valid, later⟩ := ih first.valid reached
    refine ⟨valid, ?_⟩
    rw [later, first.callbacks, List.map_cons, List.sum_cons, add_assoc]

/-! ## Replies -/

/-- A message goes to one awaiting callback, which leaves the table, if there is one. -/
def Delivers (t : Buffer) (s : NodeData) (rt rt' : RoutingTable) : Prop :=
  (∃ pre e post, rt.callbacks = pre ++ e :: post ∧ Awaits t s e.2 ∧ rt'.callbacks = pre ++ post ∧
    rt'.called = rt.called ++ [e.2]) ∨
  ((∀ e ∈ rt.callbacks, ¬ Awaits t s e.2) ∧ rt'.callbacks = rt.callbacks ∧ rt'.called = rt.called)

/-- A reply is delivered unless an awaiting callback is stored under a transaction id that
is not the sender's id. -/
theorem receive_delivers_iff {host : Host} (now : Int) {m : Message} (isReply : m.IsKind .reply)
    {t id : Buffer} {s : NodeData} (sent : Sent host m t id s) {sender : Endpoint}
    {rt : RoutingTable} (h : rt.Valid) {found : Option Node}
    (search : rt.table.getNode s = .ok found) (fresh : stale sender found = false) :
    ∃ rt', rt.receive host now m sender = .ok rt' ∧
      (Delivers t s rt rt' ↔ t = id ∨ ∀ e ∈ rt.callbacks, ¬ Awaits t s e.2) := by
  rcases receive_spec now isReply sent sender h search with
    ⟨old, -⟩ | ⟨-, same, pre, e, post, rt', split, awaits, run, effect⟩ | ⟨-, absent, run⟩
  · rw [fresh] at old
    cases old
  · exact ⟨rt', run, iff_of_true
      (.inl ⟨pre, e, post, split, awaits, effect.callbacks, effect.called⟩) (.inl same)⟩
  · rw [handle_eq host isReply] at run
    refine ⟨rt, run, ?_, ?_⟩
    · rintro (⟨pre, e, post, -, -, -, log⟩ | ⟨none, -, -⟩)
      · exact absurd (congrArg List.length log) (by simp)
      · exact .inr none
    · intro condition
      refine .inr ⟨?_, rfl, rfl⟩
      intro e member awaits
      rcases condition with same | none
      · exact absent ⟨same, e, member, awaits⟩
      · exact none e member awaits

/-- In every state of a run: whether `getCallback` finds what the message is for, whether
`recvMessage` delivers a reply, and that no callback is called twice. -/
theorem run_dispatches_iff (host : Host) (node : NodeData) (events : List RoutingTableEvent)
    {rt : RoutingTable} (reached : run host events (new node) = .ok rt) :
    (∀ m t id s, Sent host m t id s →
      ∃ found rest, rt.callbacks.getCallback host m = .ok (found, rest) ∧
        (Dispatches t s rt.callbacks found rest ↔ t = id ∨ ∀ e ∈ rt.callbacks, ¬ Awaits t s e.2)) ∧
    (∀ now buffer bytes_transferred sender m t id s found,
      Message.parseMessage host (resize bytes_transferred buffer) = .ok (some m) →
      m.getType = .ok Type.Reply → Sent host m t id s → rt.table.getNode s = .ok found →
      stale sender found = false →
      ∃ rt', rt.recvMessage host now false buffer bytes_transferred sender = .ok rt' ∧
        (Delivers t s rt rt' ↔ t = id ∨ ∀ e ∈ rt.callbacks, ¬ Awaits t s e.2)) ∧
    rt.outstanding + ↑rt.called = (events.map registeredBy).sum := by
  obtain ⟨valid, callbacks⟩ := run_conserves host events (new_valid node) reached
  refine ⟨fun m t id s sent => getCallback_dispatches_iff sent valid.callbacks, ?_, ?_⟩
  · intro now buffer bytes_transferred sender m t id s found parsed typed sent search fresh
    obtain ⟨kind, isKind⟩ := Message.parseMessage_kind parsed
    obtain rfl := isKind.type_reply_iff.mp typed
    rw [recvMessage_parsed now parsed]
    exact receive_delivers_iff now isKind sent valid search fresh
  · rw [callbacks]
    exact zero_add _

/-- A table that awaits transaction `aa` from any node. -/
def awaiting : RoutingTable :=
  (new NodeData.minValue).registerCallback .initializeTable (ascii "aa") none

/-- A reply to transaction `aa`. -/
def replyToAwaited : Buffer := ascii "d1:rd2:id20:abcdefghij0123456789e1:t2:aa1:y1:re"

private theorem replyToAwaited_sent :
    ∃ m s, Message.parseMessage Host.x86 (resize 47 replyToAwaited) = .ok (some m) ∧
      m.getType = .ok Type.Reply ∧
      Sent Host.x86 m (ascii "aa") (ascii "abcdefghij0123456789") s := by
  obtain ⟨m, parsed, typed, transaction, peer⟩ :
      ∃ m, Message.parseMessage Host.x86 (resize 47 replyToAwaited) = .ok (some m) ∧
        m.getType = .ok Type.Reply ∧ m.getTransactionID = .ok (ascii "aa") ∧
        m.getID Host.x86 = .ok (ascii "abcdefghij0123456789") := ⟨_, rfl, rfl, rfl, rfl⟩
  obtain ⟨s, sender, -⟩ := NodeData.ofBuffer_spec Host.x86
    (show (ascii "abcdefghij0123456789").length = 20 by decide)
  exact ⟨m, s, parsed, typed, transaction, peer, sender⟩

theorem replyToAwaited_lost :
    ∃ m s, Message.parseMessage Host.x86 (resize 47 replyToAwaited) = .ok (some m) ∧
      m.getType = .ok Type.Reply ∧
      Sent Host.x86 m (ascii "aa") (ascii "abcdefghij0123456789") s ∧
      (∃ e ∈ awaiting.callbacks, Awaits (ascii "aa") s e.2) ∧
      awaiting.callbacks.getCallback Host.x86 m = .ok (none, awaiting.callbacks) ∧
      ¬ Dispatches (ascii "aa") s awaiting.callbacks none awaiting.callbacks := by
  obtain ⟨m, s, parsed, typed, sent⟩ := replyToAwaited_sent
  have entry : (ascii "aa", (⟨.initializeTable, none, ascii "aa"⟩ : Callback)) ∈ awaiting.callbacks :=
    List.mem_singleton.mpr rfl
  have awaits : Awaits (ascii "aa") s ⟨.initializeTable, none, ascii "aa"⟩ := ⟨rfl, .inl rfl⟩
  have valid : awaiting.callbacks.Valid := empty_valid.registerCallback _ _ _
  refine ⟨m, s, parsed, typed, sent, ⟨_, entry, awaits⟩, ?_, ?_⟩
  · rcases getCallback_cases sent valid with ⟨same, -⟩ | ⟨-, got⟩
    · exact absurd same (by decide)
    · exact got
  · rintro (⟨pre, e, post, -, -, found, -⟩ | ⟨none, -, -⟩)
    · cases found
    · exact none _ entry awaits

theorem run_dispatches_iff_awaiting :
    ∃ m s, Sent Host.x86 m (ascii "aa") (ascii "abcdefghij0123456789") s ∧
      (∃ found rest, awaiting.callbacks.getCallback Host.x86 m = .ok (found, rest) ∧
        (Dispatches (ascii "aa") s awaiting.callbacks found rest ↔
          ascii "aa" = ascii "abcdefghij0123456789" ∨
            ∀ e ∈ awaiting.callbacks, ¬ Awaits (ascii "aa") s e.2)) ∧
      (∃ rt', awaiting.recvMessage Host.x86 0 false replyToAwaited 47 ⟨.v4 1, 6881⟩ = .ok rt' ∧
        (Delivers (ascii "aa") s awaiting rt' ↔ ascii "aa" = ascii "abcdefghij0123456789" ∨
          ∀ e ∈ awaiting.callbacks, ¬ Awaits (ascii "aa") s e.2)) ∧
      awaiting.outstanding + ↑awaiting.called =
        ([.registerCallback .initializeTable (ascii "aa") none].map registeredBy).sum := by
  have reached : run Host.x86 [.registerCallback .initializeTable (ascii "aa") none]
      (new NodeData.minValue) = .ok awaiting := rfl
  obtain ⟨dispatches, delivers, callbacks⟩ := run_dispatches_iff Host.x86 NodeData.minValue _ reached
  obtain ⟨m, s, parsed, typed, sent⟩ := replyToAwaited_sent
  have search := new_getNode NodeData.minValue s
  exact ⟨m, s, sent, dispatches m _ _ s sent,
    delivers 0 _ _ ⟨.v4 1, 6881⟩ m _ _ s none parsed typed sent search rfl, callbacks⟩

end RoutingTable
end TorrentSync.Source
