import TorrentSync.Source.MessageFields

/-!
# Callbacks

dht/Callback.cpp and the callback table of dht/RoutingTable.cpp, a multimap from
transaction ids. A callback's function is one of the two closures the routing table
registers; its creation time, which only the unused `isOld` reads, is left out.
-/
namespace TorrentSync.Source

open Lib OrderedContainers

/-- The closures passed to `registerCallback`. -/
inductive CallbackFunction where
  | initializeTable | doPing
  deriving DecidableEq, Repr

structure Callback where
  callback : CallbackFunction
  source : Option NodeData
  transactionID : Buffer
  deriving DecidableEq, Repr

namespace Callback

/-- `!!_source && *_source != message.getID()`, which converts the id to a NodeData. -/
def otherSource (host : Host) (message : Message) (c : Callback) : Fallible Bool :=
  match c.source with
  | none => .ok false
  | some source => do
      let id ← message.getID host
      let data ← NodeData.ofBuffer host id
      .ok (source.ne data)

def verifyConstraints (host : Host) (message : Message) (c : Callback) : Fallible Bool := do
  let otherSource ← c.otherSource host message
  if otherSource then .ok false
  else do
    let transactionID ← message.getTransactionID
    .ok (c.transactionID == transactionID)

end Callback

/-- `std::multimap<utils::Buffer, dht::Callback>` in iteration order. -/
abbrev Callbacks := List (Buffer × Callback)

namespace Callbacks

/-- `std::less<utils::Buffer>`. -/
def less (a b : Buffer) : Bool := lexCompare octetValue octetValue a b

def registerCallback (func : CallbackFunction) (transactionID : Buffer) (source : Option NodeData)
    (callbacks : Callbacks) : Callbacks :=
  insertMulti less transactionID ⟨func, source, transactionID⟩ callbacks

/-- The loop of `getCallback` over `count` entries from `it`. -/
def firstVerified (host : Host) (message : Message) (callbacks : Callbacks) :
    Nat → Nat → Fallible (Option Callback × Callbacks)
  | 0, _ => .ok (none, callbacks)
  | count + 1, it =>
      match callbacks[it]? with
      | none => .error (.undefined "it->second")
      | some entry => do
          let verified ← entry.2.verifyConstraints host message
          if verified then .ok (some entry.2, callbacks.eraseIdx it)
          else firstVerified host message callbacks count (it + 1)

/-- `getCallback` looks its entries up by the message's id. -/
def getCallback (host : Host) (message : Message) (callbacks : Callbacks) :
    Fallible (Option Callback × Callbacks) := do
  let id ← message.getID host
  let its := equalRange less callbacks id
  firstVerified host message callbacks (its.2 - its.1) its.1

/-! ## The table -/

/-- What every table built by `registerCallback` and `getCallback` satisfies: entries
are sorted and stored under their own transaction id. -/
structure Valid (callbacks : Callbacks) : Prop where
  sorted : SortedByKey less callbacks
  keyed : ∀ e ∈ callbacks, e.1 = e.2.transactionID

theorem less_strictTotal : StrictTotal less :=
  lexCompare_strictTotal octetValue fun _ _ same => UInt8.toNat_inj.mp (Int.ofNat.inj same)

theorem empty_valid : Valid [] := ⟨List.Pairwise.nil, by simp⟩

theorem Valid.registerCallback {callbacks : Callbacks} (h : callbacks.Valid) (func : CallbackFunction)
    (transactionID : Buffer) (source : Option NodeData) :
    (callbacks.registerCallback func transactionID source).Valid := by
  refine ⟨insertMulti_sorted less_strictTotal _ _ _ h.sorted, ?_⟩
  intro e member
  rcases List.mem_cons.mp ((insertMulti_perm less _ _ callbacks).mem_iff.mp member) with rfl | old
  · rfl
  · exact h.keyed e old

theorem Valid.sublist {callbacks rest : Callbacks} (h : callbacks.Valid)
    (fewer : rest.Sublist callbacks) : rest.Valid :=
  ⟨h.sorted.sublist fewer, fun e member => h.keyed e (fewer.subset member)⟩

/-- The callback waits for transaction `t` and for any sender or for `s`. -/
def Awaits (t : Buffer) (s : NodeData) (c : Callback) : Prop :=
  c.transactionID = t ∧ (c.source = none ∨ c.source = some s)

instance (t : Buffer) (s : NodeData) (c : Callback) : Decidable (Awaits t s c) :=
  inferInstanceAs (Decidable (_ ∧ _))

/-- What the accessors give on a message that `getCallback` can handle. -/
structure Sent (host : Host) (m : Message) (t id : Buffer) (s : NodeData) : Prop where
  transaction : m.getTransactionID = .ok t
  peer : m.getID host = .ok id
  sender : NodeData.ofBuffer host id = .ok s

/-- Verification succeeds exactly on the callbacks that await the message. -/
theorem verifyConstraints_eq {host : Host} {m : Message} {t id : Buffer} {s : NodeData}
    (sent : Sent host m t id s) (c : Callback) :
    c.verifyConstraints host m = .ok (decide (Awaits t s c)) := by
  have other : c.otherSource host m = .ok (decide (¬ (c.source = none ∨ c.source = some s))) := by
    unfold Callback.otherSource
    cases c.source with
    | none => simp
    | some source =>
      have compare : source.ne s = decide (source ≠ s) := by
        rw [Bool.eq_iff_iff, NodeData.ne_iff, decide_eq_true_iff]
      simp [sent.peer, sent.sender, compare]
  simp only [Callback.verifyConstraints, other, sent.transaction, ok_bind, Awaits]
  by_cases source : c.source = none ∨ c.source = some s
  · simp [source, beq_eq_decide]
  · simp [source]

/-- The loop over a block of entries takes the first that awaits the message. -/
theorem firstVerified_spec {host : Host} {m : Message} {t id : Buffer} {s : NodeData}
    (sent : Sent host m t id s) (pre mid post : Callbacks) :
    firstVerified host m (pre ++ mid ++ post) mid.length pre.length =
      .ok ((mid.find? fun e => decide (Awaits t s e.2)).map Prod.snd,
        pre ++ mid.eraseP (fun e => decide (Awaits t s e.2)) ++ post) := by
  induction mid generalizing pre with
  | nil => simp [firstVerified]
  | cons e mid ih =>
    have here : (pre ++ (e :: mid) ++ post)[pre.length]? = some e := by simp
    have verified := verifyConstraints_eq sent e.2
    rw [List.length_cons, firstVerified, here]
    simp only [verified, ok_bind]
    by_cases awaits : Awaits t s e.2
    · simp [awaits, List.eraseIdx_append_of_length_le]
    · have rest := ih (pre ++ [e])
      rw [List.length_append, List.length_singleton] at rest
      simpa [awaits] using rest

/-- The loop removes the entry it returns, and only that. -/
theorem firstVerified_ok {host : Host} {m : Message} {callbacks rest : Callbacks}
    {found : Option Callback} {count it : Nat}
    (returned : firstVerified host m callbacks count it = .ok (found, rest)) :
    (found = none ∧ rest = callbacks) ∨
    ∃ pre e post, callbacks = pre ++ e :: post ∧ found = some e.2 ∧ rest = pre ++ post := by
  induction count generalizing it with
  | zero =>
    cases returned
    exact .inl ⟨rfl, rfl⟩
  | succ count ih =>
    unfold firstVerified at returned
    cases here : callbacks[it]? with
    | none => simp [here] at returned
    | some e =>
      simp only [here] at returned
      obtain ⟨verified, -, returned⟩ := bind_eq_ok.mp returned
      cases verified with
      | false => exact ih returned
      | true =>
        cases returned
        obtain ⟨inside, value⟩ := List.getElem?_eq_some_iff.mp here
        refine .inr ⟨callbacks.take it, e, callbacks.drop (it + 1), ?_, rfl, ?_⟩
        · rw [← value, List.getElem_cons_drop, List.take_append_drop]
        · exact List.eraseIdx_eq_take_drop_succ callbacks it

theorem getCallback_ok {host : Host} {m : Message} {callbacks rest : Callbacks}
    {found : Option Callback} (returned : callbacks.getCallback host m = .ok (found, rest)) :
    (found = none ∧ rest = callbacks) ∨
    ∃ pre e post, callbacks = pre ++ e :: post ∧ found = some e.2 ∧ rest = pre ++ post := by
  obtain ⟨id, -, returned⟩ := bind_eq_ok.mp returned
  exact firstVerified_ok returned

/-- Searching a list whose only hits are in one block is searching the block. -/
private theorem find_in_block {β : Type} {p q : β → Bool} {pre mid post : List β}
    (before : ∀ e ∈ pre, p e = false) (inside : ∀ e ∈ mid, p e = q e)
    (after : ∀ e ∈ post, p e = false) :
    (pre ++ mid ++ post).find? p = mid.find? q ∧
      (pre ++ mid ++ post).eraseP p = pre ++ mid.eraseP q ++ post := by
  have noneBefore : pre.find? p = none := List.find?_eq_none.mpr (by simpa using before)
  have noneAfter : post.find? p = none := List.find?_eq_none.mpr (by simpa using after)
  have found : mid.find? p = mid.find? q := by
    induction mid with
    | nil => rfl
    | cons e mid ih =>
      rw [List.find?_cons, List.find?_cons, inside e List.mem_cons_self,
        ih fun x member => inside x (List.mem_cons_of_mem _ member)]
  have erased : (mid ++ post).eraseP p = mid.eraseP q ++ post := by
    clear found
    induction mid with
    | nil => exact List.eraseP_of_forall_not (by simpa using after)
    | cons e mid ih =>
      have rest := ih fun x member => inside x (List.mem_cons_of_mem _ member)
      rw [List.cons_append, List.eraseP_cons, List.eraseP_cons, inside e List.mem_cons_self, rest]
      cases q e <;> rfl
  rw [List.append_assoc, List.find?_append, List.find?_append, noneBefore, noneAfter, found,
    Option.none_or, Option.or_none, List.eraseP_append_right _ (by simpa using before), erased,
    List.append_assoc]
  exact ⟨rfl, rfl⟩

/-- On a valid table `getCallback` takes the first callback that awaits the message
under a transaction id equal to the sender's id. -/
theorem getCallback_eq {host : Host} {m : Message} {t id : Buffer} {s : NodeData}
    (sent : Sent host m t id s) {callbacks : Callbacks} (h : callbacks.Valid) :
    callbacks.getCallback host m =
      .ok ((callbacks.find? fun e => decide (t = id ∧ Awaits t s e.2)).map Prod.snd,
        callbacks.eraseP fun e => decide (t = id ∧ Awaits t s e.2)) := by
  obtain ⟨pre, mid, post, split, bounds, equal, before, after⟩ :=
    equalRange_split less_strictTotal id callbacks h.sorted
  have keyed : ∀ e ∈ callbacks, t = id ∧ Awaits t s e.2 → e.1 = id := by
    rintro e member ⟨same, awaits, -⟩
    rw [h.keyed e member, awaits, same]
  have inside : ∀ e ∈ mid, decide (t = id ∧ Awaits t s e.2) = decide (Awaits t s e.2) := by
    intro e member
    have key := h.keyed e (by simp [split, member])
    rw [equal e member] at key
    have implied : Awaits t s e.2 → t = id := fun awaits => by rw [key, awaits.1]
    simp only [decide_eq_decide]
    exact ⟨fun both => both.2, fun awaits => ⟨implied awaits, awaits⟩⟩
  have outsideBefore : ∀ e ∈ pre, decide (t = id ∧ Awaits t s e.2) = false := by
    intro e member
    exact decide_eq_false fun both => before e member (keyed e (by simp [split, member]) both)
  have outsideAfter : ∀ e ∈ post, decide (t = id ∧ Awaits t s e.2) = false := by
    intro e member
    exact decide_eq_false fun both => after e member (keyed e (by simp [split, member]) both)
  obtain ⟨found, erased⟩ := find_in_block outsideBefore inside outsideAfter
  have loop := firstVerified_spec sent pre mid post
  have width : pre.length + mid.length - pre.length = mid.length := by omega
  simp only [getCallback, sent.peer, ok_bind, bounds, width]
  rw [split, found, erased, loop]

/-- `getCallback` removes and returns one callback that awaits the message, or finds none
and leaves the table as it is; the first needs a transaction id equal to the sender's id. -/
theorem getCallback_cases {host : Host} {m : Message} {t id : Buffer} {s : NodeData}
    (sent : Sent host m t id s) {callbacks : Callbacks} (h : callbacks.Valid) :
    (t = id ∧ ∃ pre e post, callbacks = pre ++ e :: post ∧ Awaits t s e.2 ∧
      callbacks.getCallback host m = .ok (some e.2, pre ++ post)) ∨
    (¬ (t = id ∧ ∃ e ∈ callbacks, Awaits t s e.2) ∧
      callbacks.getCallback host m = .ok (none, callbacks)) := by
  rw [getCallback_eq sent h]
  by_cases present : t = id ∧ ∃ e ∈ callbacks, Awaits t s e.2
  · obtain ⟨same, e, member, awaits⟩ := present
    obtain ⟨e', pre, post, first, hit, split, erased⟩ := List.exists_of_eraseP
      (p := fun e => decide (t = id ∧ Awaits t s e.2)) member (decide_eq_true ⟨same, awaits⟩)
    refine .inl ⟨same, pre, e', post, split, (of_decide_eq_true hit).2, ?_⟩
    have found : callbacks.find? (fun e => decide (t = id ∧ Awaits t s e.2)) = some e' := by
      have none : pre.find? (fun e => decide (t = id ∧ Awaits t s e.2)) = none :=
        List.find?_eq_none.mpr first
      rw [split, List.find?_append, none, Option.none_or, List.find?_cons, hit]
    rw [found, erased]
    rfl
  · have misses : ∀ e ∈ callbacks, ¬ decide (t = id ∧ Awaits t s e.2) = true := by
      intro e member hit
      obtain ⟨same, awaits⟩ := of_decide_eq_true hit
      exact present ⟨same, e, member, awaits⟩
    refine .inr ⟨present, ?_⟩
    rw [List.find?_eq_none.mpr misses, List.eraseP_of_forall_not misses]
    rfl

/-- What the comments of RoutingTable.h ask of `getCallback`: one awaiting callback is
returned and removed if there is one, and else nothing happens. -/
def Dispatches (t : Buffer) (s : NodeData) (callbacks : Callbacks) (found : Option Callback)
    (rest : Callbacks) : Prop :=
  (∃ pre e post, callbacks = pre ++ e :: post ∧ Awaits t s e.2 ∧ found = some e.2 ∧
    rest = pre ++ post) ∨
  ((∀ e ∈ callbacks, ¬ Awaits t s e.2) ∧ found = none ∧ rest = callbacks)

/-- `getCallback` does so unless an awaiting callback is stored under a transaction id
that is not the sender's id. -/
theorem getCallback_dispatches_iff {host : Host} {m : Message} {t id : Buffer} {s : NodeData}
    (sent : Sent host m t id s) {callbacks : Callbacks} (h : callbacks.Valid) :
    ∃ found rest, callbacks.getCallback host m = .ok (found, rest) ∧
      (Dispatches t s callbacks found rest ↔ t = id ∨ ∀ e ∈ callbacks, ¬ Awaits t s e.2) := by
  rcases getCallback_cases sent h with ⟨same, pre, e, post, split, awaits, got⟩ | ⟨absent, got⟩
  · exact ⟨_, _, got, iff_of_true (.inl ⟨pre, e, post, split, awaits, rfl, rfl⟩) (.inl same)⟩
  · refine ⟨_, _, got, ?_, ?_⟩
    · rintro (⟨pre, e, post, -, -, found, -⟩ | ⟨none, -, -⟩)
      · cases found
      · exact .inr none
    · intro condition
      refine .inr ⟨?_, rfl, rfl⟩
      intro e member awaits
      rcases condition with same | none
      · exact absent ⟨same, e, member, awaits⟩
      · exact none e member awaits

end Callbacks
end TorrentSync.Source
