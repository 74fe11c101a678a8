import TorrentSync.Source.InitializeTable

/-!
# Runs of initializeTable

The timer, the deliveries to its callbacks and the bootstrap in any order. No address is
lost or contacted twice, and every contact has one callback and a transaction id of its own.
-/
namespace TorrentSync.Source

open Lib Bencode OrderedContainers

namespace InitializingTable

open RoutingTable

/-- The query for a table's own neighbours. -/
def query (node : NodeData) (transaction : Buffer) : Buffer :=
  encode (Query.FindNode.dictionary transaction node node)

/-- The callback that awaits the reply to a query. -/
def awaitingReply (transaction : Buffer) : Callback := ⟨.initializeTable, none, transaction⟩

/-- A query carries its transaction id. -/
theorem query_carries (host : Host) (node : NodeData) (value : BitVec 16) :
    ∃ m, Message.parseMessage host (query node (transactionOctets value)) = .ok (some m) ∧
      m.Carries host Type.Query (transactionOctets value) node := by
  obtain ⟨m, parsed, carries, -⟩ := Query.FindNode.parse_dictionary host node node
    (show (transactionOctets value).length ≤ grantedSize by
      rw [transactionOctets_length]
      decide)
  exact ⟨m, parsed, carries⟩

/-! ## Contacts -/

/-- One query has been sent to each endpoint, in order, with consecutive transaction ids, and
one callback registered under each of them. -/
structure Contacted (endpoints : List Endpoint) (st st' : InitializingTable) : Prop where
  valid : st'.Valid
  table : st'.table = st.table
  transactionId : st'.transactionId = st.transactionId + BitVec.ofNat 16 endpoints.length
  addresses : st'.handed.map Datagram.addr = st.handed.map Datagram.addr ++ endpoints
  buffers : st'.handed.map Datagram.buffer = st.handed.map Datagram.buffer ++
    (transactions st.transactionId endpoints.length).map (query st.getTableNode)
  callbacks : st'.callbacks.Perm
    ((transactions st.transactionId endpoints.length).map (fun t => (t, awaitingReply t)) ++ st.callbacks)
  called : st'.called = st.called
  closeNodesCount : st'.closeNodesCount = st.closeNodesCount

theorem contact_spec (host : Host) (endpoint : Endpoint) {st : InitializingTable} (h : st.Valid) :
    ∃ st', st.contact host endpoint = .ok st' ∧ st'.initialAddresses = st.initialAddresses ∧
      st'.timers = st.timers ∧ Contacted [endpoint] st st' := by
  have made : Query.FindNode.make host (transactionOctets st.transactionId) st.getTableNode
      st.getTableNode = .ok (query st.getTableNode (transactionOctets st.transactionId)) := by
    refine (findNodeQuery_make_iff host _ _ _ _).mpr ⟨by simp [transactionOctets], ?_, rfl⟩
    rw [string_length, transactionOctets_length]
    decide
  have single : transactions st.transactionId [endpoint].length = [transactionOctets st.transactionId] :=
    transactions_one _
  refine ⟨{ st with
    toRoutingTable := (st.registerCallback .initializeTable (transactionOctets st.transactionId)
      none).sendMessage (query st.getTableNode (transactionOctets st.transactionId)) endpoint
    transactionId := st.transactionId + 1 }, ?_, rfl, rfl, ?_⟩
  · simp only [contact, newTransaction, made, ok_bind]
  · refine ⟨⟨h.table, h.callbacks.registerCallback _ _ _⟩, rfl, rfl, ?_, ?_, ?_, rfl, rfl⟩
    · simp [sendMessage, registerCallback]
    · rw [single]
      simp [sendMessage, registerCallback]
    · rw [single]
      exact insertMulti_perm _ _ _ _

theorem Contacted.none {st : InitializingTable} (h : st.Valid) : Contacted [] st st :=
  ⟨h, rfl, (BitVec.add_zero _).symm, (List.append_nil _).symm, (List.append_nil _).symm,
    List.Perm.refl _, rfl, rfl⟩

/-- Contacting one endpoint and then others. -/
theorem Contacted.cons {endpoint : Endpoint} {rest : List Endpoint} {st st₁ st' : InitializingTable}
    (first : Contacted [endpoint] st st₁) (later : Contacted rest st₁ st') :
    Contacted (endpoint :: rest) st st' := by
  have next : st₁.transactionId = st.transactionId + 1 := first.transactionId
  have own : st₁.getTableNode = st.getTableNode := by rw [getTableNode, getTableNode, first.table]
  have ids : transactions st.transactionId (endpoint :: rest).length =
      transactionOctets st.transactionId :: transactions st₁.transactionId rest.length := by
    rw [List.length_cons, transactions_cons, next]
  have single : transactions st.transactionId [endpoint].length = [transactionOctets st.transactionId] :=
    transactions_one _
  refine ⟨later.valid, later.table.trans first.table, ?_, ?_, ?_, ?_, later.called.trans first.called,
    later.closeNodesCount.trans first.closeNodesCount⟩
  · rw [later.transactionId, next, List.length_cons]
    bv_omega
  · rw [later.addresses, first.addresses, List.append_assoc, List.singleton_append]
  · rw [later.buffers, first.buffers, own, single, ids]
    simp
  · refine later.callbacks.trans ?_
    refine (List.Perm.append_left _ first.callbacks).trans ?_
    rw [single, ids]
    simp only [List.map_cons, List.map_nil, List.cons_append, List.nil_append]
    exact List.perm_middle

theorem contactBatch_spec (host : Host) (count : Nat) {st : InitializingTable} (h : st.Valid) :
    ∃ st', contactBatch host count st = .ok st' ∧
      st'.initialAddresses = st.initialAddresses.drop count ∧ st'.timers = st.timers ∧
      Contacted (st.initialAddresses.take count) st st' := by
  induction count generalizing st with
  | zero => exact ⟨st, rfl, rfl, rfl, Contacted.none h⟩
  | succ count ih =>
    cases addresses : st.initialAddresses with
    | nil => exact ⟨st, by simp only [contactBatch, addresses], addresses, rfl, Contacted.none h⟩
    | cons endpoint rest =>
      have popped : ({ st with initialAddresses := rest } : InitializingTable).Valid :=
        ⟨h.table, h.callbacks⟩
      obtain ⟨st₁, ran, same, waits, contacted⟩ := contact_spec host endpoint popped
      obtain ⟨st', later, remaining, waits', others⟩ := ih contacted.valid
      have head : Contacted [endpoint] st st₁ := { contacted with }
      rw [same] at remaining others
      refine ⟨st', ?_, remaining, waits'.trans waits, head.cons others⟩
      simp only [contactBatch, addresses, ran, ok_bind, later]

/-! ## Ticks -/

/-- The list a tick works on: refilled if it is empty. -/
def queue (resolve : Resolver) (st : InitializingTable) : List Endpoint :=
  if st.initialAddresses.isEmpty then BOOTSTRAP_ADDRESSES.flatMap resolve else st.initialAddresses

theorem bootstrap_eq (resolve : Resolver) (st : InitializingTable) :
    st.bootstrap resolve = { st with initialAddresses := st.queue resolve } := by
  unfold bootstrap queue
  cases empty : st.initialAddresses.isEmpty with
  | true => simp [List.isEmpty_iff.mp empty]
  | false => simp

/-- A tick without error contacts the first endpoints of its list and starts the next timer. -/
theorem tick_spec (host : Host) (resolve : Resolver) {st : InitializingTable} (h : st.Valid)
    (below : st.closeNodesCount < DHT_CLOSE_ENOUGH) :
    ∃ st', st.tick host false resolve = .ok st' ∧
      st'.initialAddresses = (st.queue resolve).drop INITIALIZE_PING_BATCH_SIZE ∧
      st'.timers = st.timers + 1 ∧
      Contacted ((st.queue resolve).take INITIALIZE_PING_BATCH_SIZE) st st' := by
  have refilled : (if st.initialAddresses.isEmpty then st.bootstrap resolve else st) =
      { st with initialAddresses := st.queue resolve } := by
    cases empty : st.initialAddresses.isEmpty with
    | true => rw [if_pos rfl, bootstrap_eq]
    | false => simp [queue, empty]
  have valid : ({ st with initialAddresses := st.queue resolve } : InitializingTable).Valid :=
    ⟨h.table, h.callbacks⟩
  obtain ⟨st', ran, remaining, waits, contacted⟩ :=
    contactBatch_spec host INITIALIZE_PING_BATCH_SIZE valid
  have still : st'.closeNodesCount < DHT_CLOSE_ENOUGH := contacted.closeNodesCount ▸ below
  refine ⟨st'.initializeTable, ?_, remaining, congrArg (· + 1) waits, { contacted with }⟩
  simp only [tick, Bool.false_eq_true, if_false, refilled, ran, ok_bind, if_pos still]

/-! ## Deliveries -/

/-- The endpoints in a message that the closure takes for a find_node reply. -/
def replyEndpoints (host : Host) (delivery : Delivery) : List Endpoint :=
  if delivery.message.dynamicType = .replyFindNode then
    match Reply.FindNode.getNodes host delivery.now delivery.message with
    | .ok nodes => nodes.filterMap Node.endpoint
    | .error _ => []
  else []

/-- The endpoints of the reply are at the front of the list and one callback has been called. -/
structure Delivered (pushed : List Endpoint) (st st' : InitializingTable) : Prop where
  valid : st'.Valid
  node : st'.getTableNode = st.getTableNode
  initialAddresses : st'.initialAddresses = pushed.reverse ++ st.initialAddresses
  callbacks : st'.outstanding + ↑st'.called = st.outstanding + ↑st.called
  handed : st'.handed = st.handed
  transactionId : st'.transactionId = st.transactionId
  closeNodesCount : st'.closeNodesCount = st.closeNodesCount
  timers : st'.timers = st.timers

/-- Offering nodes touches the table and the addresses only. -/
theorem offerNodes_frame {now : Int} {nodes : List Node} {rt rt' : RoutingTable}
    (offered : rt.offerNodes now nodes = .ok rt') :
    rt'.callbacks = rt.callbacks ∧ rt'.called = rt.called ∧ rt'.handed = rt.handed := by
  induction nodes generalizing rt with
  | nil =>
    cases offered
    exact ⟨rfl, rfl, rfl⟩
  | cons n rest ih =>
    obtain ⟨⟨table, isAdded⟩, -, later⟩ := bind_eq_ok.mp offered
    have others := ih later
    cases endpoint : n.endpoint with
    | none => simpa only [endpoint] using others
    | some address => simpa only [endpoint] using others

/-- A message of class `reply::FindNode` lists its nodes. -/
theorem Delivery.getNodes_ok (host : Host) (delivery : Delivery)
    (class' : delivery.message.dynamicType = .replyFindNode) :
    ∃ nodes, Reply.FindNode.getNodes host delivery.now delivery.message = .ok nodes := by
  obtain ⟨m, converted⟩ := delivery.built class'
  unfold Reply.FindNode.ofMessage at converted
  split at converted
  · cases converted
  · split at converted
    · cases converted
    · rename_i listed
      obtain ⟨buff, found⟩ := Option.ne_none_iff_exists'.mp (by simpa using listed)
      have same := Except.ok.inj converted
      have stored : delivery.message.find (Field.nested Field.Reply Field.Nodes) = some buff := by
        rw [← same]
        exact found
      obtain ⟨nodes, run, -⟩ := Reply.FindNode.readNodes_spec host delivery.now
        (buff.length / PACKED_NODE_SIZE) buff (Nat.mul_div_le _ _)
      exact ⟨nodes, by simp only [Reply.FindNode.getNodes, stored, run]⟩

/-- What the closure of `initializeTable` does with a delivery. -/
theorem call_delivery (host : Host) (delivery : Delivery) {rt : RoutingTable} (h : rt.Valid)
    {callback : Callback} (registered : callback.callback = .initializeTable) :
    ∃ rt', rt.call host delivery.now delivery.message delivery.data delivery.known callback = .ok rt' ∧
      rt'.Valid ∧ rt'.getTableNode = rt.getTableNode ∧
      rt'.initialAddresses = (replyEndpoints host delivery).reverse ++ rt.initialAddresses ∧
      rt'.callbacks = rt.callbacks ∧ rt'.called = rt.called ++ [callback] ∧ rt'.handed = rt.handed := by
  have logged : ({ rt with called := rt.called ++ [callback] } : RoutingTable).Valid :=
    ⟨h.table, h.callbacks⟩
  by_cases class' : delivery.message.dynamicType = .replyFindNode
  · obtain ⟨nodes, listed⟩ := delivery.getNodes_ok host class'
    obtain ⟨rt', run, valid, offered⟩ := offerNodes_spec delivery.now nodes logged
    obtain ⟨callbacks, called, handed⟩ := offerNodes_frame run
    obtain ⟨d, tree⟩ := h.table
    obtain ⟨table, d', ran, -, node⟩ := tree.run
      (nodes.map fun n => .addNode (Node.isBad delivery.now) (some n))
    have same : rt'.table = table := Except.ok.inj (offered.table.symm.trans ran)
    refine ⟨rt', ?_, valid, ?_, ?_, callbacks, called, handed⟩
    · simp only [call, registered, initializeTableReply, if_pos class', listed, ok_bind, run]
    · rw [getTableNode, same, node, getTableNode]
    · rw [offered.initialAddresses, replyEndpoints, if_pos class', listed]
  · refine ⟨_, ?_, logged, rfl, ?_, rfl, rfl, rfl⟩
    · simp only [call, registered, initializeTableReply, if_neg class']
    · rw [replyEndpoints, if_neg class']
      rfl

/-- The endpoints a delivery to the callback at an index puts into the list. -/
def pushedBy (host : Host) (index : Nat) (delivery : Delivery) (st : InitializingTable) : List Endpoint :=
  if index < st.callbacks.length then replyEndpoints host delivery else []

theorem deliver_spec (host : Host) (index : Nat) (delivery : Delivery) {st : InitializingTable}
    (h : st.Valid) (own : ∀ e ∈ st.callbacks, e.2.callback = .initializeTable) :
    ∃ st', st.deliver host index delivery = .ok st' ∧
      Delivered (st.pushedBy host index delivery) st st' := by
  unfold pushedBy
  by_cases inside : index < st.callbacks.length
  · have entry : st.callbacks[index]? = some st.callbacks[index] := List.getElem?_eq_getElem inside
    have fewer : (st.callbacks.eraseIdx index).Sublist st.callbacks := List.eraseIdx_sublist _ _
    have valid : ({ st.toRoutingTable with callbacks := st.callbacks.eraseIdx index } : RoutingTable).Valid :=
      ⟨h.table, h.callbacks.sublist fewer⟩
    obtain ⟨rt', run, valid', node, addresses, callbacks, called, handed⟩ :=
      call_delivery host delivery valid (own _ (List.getElem_mem inside))
    refine ⟨{ st with toRoutingTable := rt' }, ?_, valid', node, ?_, ?_, handed, rfl, rfl, rfl⟩
    · simp only [deliver, entry, run, ok_bind]
    · rw [if_pos inside]
      exact addresses
    · have entries := Multiset.coe_eq_coe.mpr ((List.getElem_cons_eraseIdx_perm inside).map Prod.snd)
      rw [outstanding, outstanding, callbacks, called, ← entries, List.map_cons, ← Multiset.cons_coe,
        ← Multiset.singleton_add, ← Multiset.coe_add, Multiset.coe_singleton]
      abel
  · have missing : st.callbacks[index]? = none := List.getElem?_eq_none (by omega)
    refine ⟨st, by simp only [deliver, missing], h, rfl, ?_, rfl, rfl, rfl, rfl, rfl⟩
    rw [if_neg inside]
    rfl

/-- A message that was parsed and finds its callback in `recvMessage` is delivered to it. -/
theorem dispatch_eq_deliver {host : Host} (now : Int) {m : Message} {kind : Message.Kind}
    (isKind : m.IsKind kind) (type : Buffer) (node : Node) (known : Bool) {st : InitializingTable}
    {callback : Callback} {rest : Callbacks}
    (got : st.callbacks.getCallback host m = .ok (some callback, rest)) :
    ∃ index delivery, delivery.message = m ∧
      (st.toRoutingTable.dispatch host now type m node known).map
        (fun rt => ({ st with toRoutingTable := rt } : InitializingTable)) =
        st.deliver host index delivery := by
  rcases Callbacks.getCallback_ok got with ⟨none, -⟩ | ⟨pre, e, post, split, found, rfl⟩
  · cases none
  · cases found
    refine ⟨pre.length, ⟨now, m, node.nodeData, known, fun class' => absurd class' isKind.not_replyFindNode⟩,
      rfl, ?_⟩
    have entry : st.callbacks[pre.length]? = some e := by simp [split]
    have erased : st.callbacks.eraseIdx pre.length = pre ++ post := by
      simp [split, List.eraseIdx_append_of_length_le]
    simp only [dispatch, got, ok_bind, deliver, entry, erased]
    cases RoutingTable.call host now m node.nodeData known e.2
      { st.toRoutingTable with callbacks := pre ++ post } <;> rfl

/-! ## Runs -/

/-- What can happen while the table is initialized. -/
inductive Event where
  | timer (error : Bool) (resolve : Resolver)
  | deliver (index : Nat) (delivery : Delivery)
  | bootstrap (resolve : Resolver)

/-- A timer needs a pending wait. -/
def step (host : Host) (event : Event) (st : InitializingTable) : Fallible InitializingTable :=
  match event with
  | .timer error resolve =>
      if st.timers = 0 then .ok st else { st with timers := st.timers - 1 }.tick host error resolve
  | .deliver index delivery => st.deliver host index delivery
  | .bootstrap resolve => .ok (st.bootstrap resolve)

def run (host : Host) : List Event → InitializingTable → Fallible InitializingTable
  | [], st => .ok st
  | event :: events, st => do
      let st ← st.step host event
      run host events st

/-- The endpoints a refill of an empty list puts into it. -/
def refill (resolve : Resolver) (st : InitializingTable) : List Endpoint :=
  if st.initialAddresses.isEmpty then BOOTSTRAP_ADDRESSES.flatMap resolve else []

/-- The endpoints an event puts into the list. -/
def putBy (host : Host) (st : InitializingTable) : Event → List Endpoint
  | .timer error resolve => if st.timers = 0 ∨ error = true then [] else st.refill resolve
  | .deliver index delivery => st.pushedBy host index delivery
  | .bootstrap resolve => st.refill resolve

/-- All endpoints a run puts into the list. -/
def everPut (host : Host) : List Event → InitializingTable → List Endpoint
  | [], _ => []
  | event :: events, st =>
      st.putBy host event ++ match st.step host event with
        | .ok st' => everPut host events st'
        | .error _ => []

/-- What holds in every state of a run that has put so many endpoints into the list. -/
structure Bootstrapped (node : NodeData) (counter : BitVec 16) (put : List Endpoint)
    (st : InitializingTable) : Prop where
  valid : st.Valid
  tableNode : st.getTableNode = node
  timers : st.timers = 1
  closeNodesCount : st.closeNodesCount < DHT_CLOSE_ENOUGH
  transactionId : st.transactionId = counter + BitVec.ofNat 16 st.handed.length
  addresses : (↑(st.handed.map Datagram.addr) + ↑st.initialAddresses : Multiset Endpoint) = ↑put
  buffers : st.handed.map Datagram.buffer = (transactions counter st.handed.length).map (query node)
  callbacks : st.outstanding + ↑st.called =
    ↑((transactions counter st.handed.length).map awaitingReply)

section Invariant

variable {node : NodeData} {counter : BitVec 16} {put : List Endpoint} {st st' : InitializingTable}

/-- Every registered callback awaits the reply to a query. -/
theorem Bootstrapped.own (h : Bootstrapped node counter put st) :
    ∀ e ∈ st.callbacks, e.2.callback = .initializeTable := by
  intro e member
  have registered : e.2 ∈ st.outstanding + ↑st.called :=
    Multiset.mem_add.mpr (.inl (Multiset.mem_coe.mpr (List.mem_map_of_mem member)))
  rw [h.callbacks, Multiset.mem_coe] at registered
  obtain ⟨t, -, same⟩ := List.mem_map.mp registered
  rw [← same]
  rfl

/-- The list a refill leaves. -/
theorem queue_eq (resolve : Resolver) (st : InitializingTable) :
    st.queue resolve = st.initialAddresses ++ st.refill resolve := by
  unfold queue refill
  cases addresses : st.initialAddresses with
  | nil => rfl
  | cons endpoint rest => simp

/-- Contacting endpoints of the list keeps the invariant. -/
theorem Bootstrapped.contacted (h : Bootstrapped node counter put st) {endpoints added : List Endpoint}
    (contacted : Contacted endpoints st st') (waits : st'.timers = 1)
    (split : endpoints ++ st'.initialAddresses = st.initialAddresses ++ added) :
    Bootstrapped node counter (put ++ added) st' := by
  have total : st'.handed.length = st.handed.length + endpoints.length := by
    have lengths := congrArg List.length contacted.addresses
    simpa using lengths
  have ids : transactions counter st'.handed.length = transactions counter st.handed.length ++
      transactions st.transactionId endpoints.length := by
    rw [total, transactions_add, h.transactionId]
  refine ⟨contacted.valid, ?_, waits, contacted.closeNodesCount ▸ h.closeNodesCount, ?_, ?_, ?_, ?_⟩
  · rw [getTableNode, contacted.table]
    exact h.tableNode
  · rw [contacted.transactionId, h.transactionId, total]
    bv_omega
  · rw [contacted.addresses, ← Multiset.coe_add, add_assoc, Multiset.coe_add, split, ← Multiset.coe_add,
      ← add_assoc, h.addresses, Multiset.coe_add]
  · rw [contacted.buffers, h.buffers, ids, List.map_append, h.tableNode]
  · have entries := Multiset.coe_eq_coe.mpr (contacted.callbacks.map Prod.snd)
    have registered : ((transactions st.transactionId endpoints.length).map
        fun t => (t, awaitingReply t)).map Prod.snd =
          (transactions st.transactionId endpoints.length).map awaitingReply := by
      simp [Function.comp_def]
    rw [List.map_append, registered, ← Multiset.coe_add] at entries
    rw [outstanding, entries, contacted.called, ids, List.map_append, ← Multiset.coe_add, ← h.callbacks,
      outstanding]
    abel

/-- A delivery keeps the invariant. -/
theorem Bootstrapped.delivered (h : Bootstrapped node counter put st) {pushed : List Endpoint}
    (delivered : Delivered pushed st st') : Bootstrapped node counter (put ++ pushed) st' := by
  have reversed : (↑pushed.reverse : Multiset Endpoint) = ↑pushed :=
    Multiset.coe_eq_coe.mpr (List.reverse_perm pushed)
  refine ⟨delivered.valid, delivered.node.trans h.tableNode, delivered.timers.trans h.timers,
    delivered.closeNodesCount ▸ h.closeNodesCount, ?_, ?_, ?_, ?_⟩
  · rw [delivered.transactionId, delivered.handed]
    exact h.transactionId
  · rw [delivered.handed, delivered.initialAddresses, ← Multiset.coe_add, ← Multiset.coe_add, reversed,
      ← h.addresses]
    abel
  · rw [delivered.handed]
    exact h.buffers
  · rw [delivered.callbacks, delivered.handed]
    exact h.callbacks

/-- The next tick without error contacts the first endpoints of its list. -/
theorem Bootstrapped.tick (host : Host) (resolve : Resolver) (h : Bootstrapped node counter put st) :
    ∃ st', st.step host (.timer false resolve) = .ok st' ∧
      st'.initialAddresses = (st.queue resolve).drop INITIALIZE_PING_BATCH_SIZE ∧ st'.timers = 1 ∧
      Contacted ((st.queue resolve).take INITIALIZE_PING_BATCH_SIZE) st st' := by
  have pending : ¬ st.timers = 0 := by
    rw [h.timers]
    decide
  have fired : ({ st with timers := st.timers - 1 } : InitializingTable).Valid :=
    ⟨h.valid.table, h.valid.callbacks⟩
  obtain ⟨st', ticked, remaining, waits, contacted⟩ := tick_spec host resolve fired h.closeNodesCount
  rw [InitializingTable.step, if_neg pending]
  exact ⟨st', ticked, remaining, waits.trans (congrArg (· - 1 + 1) h.timers), { contacted with }⟩

/-- Every event keeps the invariant. -/
theorem Bootstrapped.step (host : Host) (event : Event) (h : Bootstrapped node counter put st) :
    ∃ st', st.step host event = .ok st' ∧ Bootstrapped node counter (put ++ st.putBy host event) st' := by
  cases event with
  | timer error resolve =>
    have pending : ¬ st.timers = 0 := by
      rw [h.timers]
      decide
    cases error with
    | true =>
      rw [InitializingTable.step, if_neg pending, putBy, if_pos (.inr rfl), List.append_nil]
      exact ⟨_, rfl, { h with timers := congrArg (· - 1 + 1) h.timers }⟩
    | false =>
      obtain ⟨st', ticked, remaining, waits, contacted⟩ := h.tick host resolve
      refine ⟨st', ticked, h.contacted contacted waits ?_⟩
      rw [remaining, List.take_append_drop, putBy, if_neg (by simp [pending])]
      exact queue_eq resolve st
  | deliver index delivery =>
    obtain ⟨st', run, delivered⟩ := deliver_spec host index delivery h.valid h.own
    exact ⟨st', run, h.delivered delivered⟩
  | bootstrap resolve =>
    refine ⟨_, rfl, ?_⟩
    rw [bootstrap_eq]
    refine { h with addresses := ?_, valid := ⟨h.valid.table, h.valid.callbacks⟩ }
    rw [queue_eq, ← Multiset.coe_add, ← add_assoc, h.addresses, Multiset.coe_add, putBy]

theorem Bootstrapped.run (host : Host) (events : List Event) (h : Bootstrapped node counter put st) :
    ∃ st', st.run host events = .ok st' ∧
      Bootstrapped node counter (put ++ everPut host events st) st' := by
  induction events generalizing st put with
  | nil => exact ⟨st, rfl, by rwa [everPut, List.append_nil]⟩
  | cons event events ih =>
    obtain ⟨st₁, stepped, first⟩ := h.step host event
    obtain ⟨st', ran, later⟩ := ih first
    refine ⟨st', by simp only [InitializingTable.run, stepped, ok_bind, ran], ?_⟩
    rw [everPut, stepped, ← List.append_assoc]
    exact later

end Invariant

theorem start_bootstrapped (node : NodeData) (initialAddresses : List Endpoint) (counter : BitVec 16)
    {closeNodesCount : Nat} (below : closeNodesCount < DHT_CLOSE_ENOUGH) :
    Bootstrapped node counter initialAddresses (start node initialAddresses counter closeNodesCount) where
  valid := ⟨(new_valid node).table, Callbacks.empty_valid⟩
  tableNode := rfl
  timers := rfl
  closeNodesCount := below
  transactionId := (BitVec.add_zero _).symm
  addresses := zero_add _
  buffers := rfl
  callbacks := rfl

/-- No address is lost or contacted twice. A tick without error contacts the first endpoints of
its list, in order. Every query has one callback, registered or called, under the transaction id
it carries, and up to 65536 queries have different ids. -/
theorem run_bootstraps (host : Host) (node : NodeData) (initialAddresses : List Endpoint)
    (counter : BitVec 16) {closeNodesCount : Nat} (below : closeNodesCount < DHT_CLOSE_ENOUGH)
    (events : List Event) :
    ∃ st, run host events (start node initialAddresses counter closeNodesCount) = .ok st ∧
      (↑(st.handed.map Datagram.addr) + ↑st.initialAddresses : Multiset Endpoint) =
        ↑(initialAddresses ++
          everPut host events (start node initialAddresses counter closeNodesCount)) ∧
      (∀ resolve, ∃ st', st.step host (.timer false resolve) = .ok st' ∧
        st'.initialAddresses = (st.queue resolve).drop INITIALIZE_PING_BATCH_SIZE ∧
        Contacted ((st.queue resolve).take INITIALIZE_PING_BATCH_SIZE) st st') ∧
      ∃ ids : List Buffer, st.handed.map Datagram.buffer = ids.map (query node) ∧
        (∀ t ∈ ids, ∃ m, Message.parseMessage host (query node t) = .ok (some m) ∧
          m.Carries host Type.Query t node) ∧
        st.outstanding + ↑st.called = ↑(ids.map awaitingReply) ∧
        (st.handed.length ≤ 65536 → ids.Nodup) := by
  obtain ⟨st, ran, reached⟩ := (start_bootstrapped node initialAddresses counter below).run host events
  refine ⟨st, ran, reached.addresses, ?_, transactions counter st.handed.length, reached.buffers, ?_,
    reached.callbacks, transactions_nodup counter⟩
  · intro resolve
    obtain ⟨st', ticked, remaining, -, contacted⟩ := reached.tick host resolve
    exact ⟨st', ticked, remaining, contacted⟩
  · intro t member
    obtain ⟨i, -, rfl⟩ := List.mem_map.mp member
    exact query_carries host node _

/-- The fields of a find_node reply with the node at the loopback address. -/
def loopbackReply : DataMap :=
  ⟨[(Field.nested Field.Reply Field.PeerID, NodeData.maxValue.write),
    (Field.nested Field.Reply Field.Nodes, packedNodes Host.x86 [loopbackNode])], by decide⟩

/-- The reply as a message of class `reply::FindNode`, from an unknown node. -/
def loopbackDelivery : Delivery :=
  ⟨42, ⟨.replyFindNode, loopbackReply⟩, NodeData.maxValue, false, fun _ => ⟨⟨.message, loopbackReply⟩, rfl⟩⟩

/-- A failed tick, a tick that finds one address, the reply to its query with another one, a tick
that finds that one, and a tick that has to bootstrap. -/
def threeTicks : List Event :=
  [.timer true fun _ => [], .timer false fun _ => [], .deliver 0 loopbackDelivery,
    .timer false fun _ => [], .timer false fun _ => [⟨.v4 2, 6881⟩]]

theorem run_bootstraps_three :
    ∃ st, run Host.x86 threeTicks (start NodeData.minValue [⟨.v4 1, 6881⟩] 65535 0) = .ok st ∧
      st.called = [awaitingReply (transactionOctets 65535)] ∧
      (↑(st.handed.map Datagram.addr) + ↑st.initialAddresses : Multiset Endpoint) =
        ↑[(⟨.v4 1, 6881⟩ : Endpoint), ⟨.v4 0x7F000001, 6881⟩, ⟨.v4 2, 6881⟩, ⟨.v4 2, 6881⟩, ⟨.v4 2, 6881⟩] := by
  obtain ⟨st, ran, addresses, -⟩ := run_bootstraps Host.x86 NodeData.minValue [⟨.v4 1, 6881⟩] 65535
    (show 0 < DHT_CLOSE_ENOUGH by decide) threeTicks
  have put : everPut Host.x86 threeTicks (start NodeData.minValue [⟨.v4 1, 6881⟩] 65535 0) =
      [(⟨.v4 0x7F000001, 6881⟩ : Endpoint), ⟨.v4 2, 6881⟩, ⟨.v4 2, 6881⟩, ⟨.v4 2, 6881⟩] := by
    decide +kernel
  have called : (run Host.x86 threeTicks (start NodeData.minValue [⟨.v4 1, 6881⟩] 65535 0)).toOption.map
      (fun st => st.called) = some [awaitingReply (transactionOctets 65535)] := by
    decide +kernel
  rw [put] at addresses
  rw [ran] at called
  exact ⟨st, ran, Option.some.inj called, addresses⟩

end InitializingTable
end TorrentSync.Source
