import TorrentSync.Source.Node
import TorrentSync.Source.NodeTreeClosest
import TorrentSync.Source.NodeTreeRefusal

/-!
# The tree over time

The objects of dht/Node.cpp with the clock, in the NodeTree as the routing table uses it: nodes
are offered, marked as good, removed. Nothing counts unanswered queries, so that no node is ever
bad, whatever its age, and a full bucket away from the table's own id keeps its nodes.
-/
namespace TorrentSync.Source

open Lib PrefixRange

/-! ## Nodes -/

namespace Node

/-- The copy constructor: the copy counts as good. -/
def copy (now : Int) (addr : Node) : Node := addr.setGood now

def setEndpoint (endpoint : Endpoint) (n : Node) : Node := { n with endpoint := some endpoint }

/-- What the constructors and the member functions make. -/
inductive Built (host : Host) : Node → Prop
  | ofBuffer (now : Int) (data : Buffer) (endpoint : Option Endpoint) (n : Node)
      (made : Node.ofBuffer host now data endpoint = .ok n) : Built host n
  | ofRange (now : Int) (range : Buffer) (n : Node) (made : Node.ofRange host now range = .ok n) :
      Built host n
  | copy (now : Int) (n : Node) (built : Built host n) : Built host (n.copy now)
  | setGood (now : Int) (n : Node) (built : Built host n) : Built host (n.setGood now)
  | setEndpoint (endpoint : Endpoint) (n : Node) (built : Built host n) :
      Built host (n.setEndpoint endpoint)
  | read (range : Buffer) (n n' : Node) (built : Built host n) (run : n.read host range = .ok n') :
      Built host n'

/-- Reading changes the id and the endpoint only. -/
theorem read_frame {host : Host} {range : Buffer} {n n' : Node} (run : n.read host range = .ok n') :
    n'.lastTimeGood = n.lastTimeGood ∧ n'.lastUnansweredQueries = n.lastUnansweredQueries := by
  obtain ⟨nodeData, -, run⟩ := bind_eq_ok.mp run
  simp only at run
  split at run
  · cases run
  · split at run
    · cases run
    · cases run
      exact ⟨rfl, rfl⟩

theorem Built.lastUnansweredQueries {host : Host} {n : Node} (built : Built host n) :
    n.lastUnansweredQueries = 0 := by
  induction built with
  | ofBuffer now data endpoint n made =>
    obtain ⟨nodeData, -, made⟩ := bind_eq_ok.mp made
    cases made
    rfl
  | ofRange now range n made => exact (read_frame made).2
  | copy now n built ih => rfl
  | setGood now n built ih => rfl
  | setEndpoint endpoint n built ih => exact ih
  | read range n n' built run ih => exact (read_frame run).2.trans ih

theorem built_fresh (host : Host) (now : Int) (nodeData : NodeData) (endpoint : Option Endpoint) :
    Built host ⟨nodeData, now, 0, endpoint⟩ :=
  .ofBuffer now nodeData.write endpoint _ (by simp only [Node.ofBuffer, NodeData.ofBuffer_write, ok_bind])

theorem isBad_of_answered {n : Node} (answered : n.lastUnansweredQueries = 0) (now : Int) :
    n.isBad now = false := by
  rw [isBad, answered]
  simp

end Node

/-! ## Writing to a stored node -/

section Update

variable {α : Type} [IsNode α]

/-- What the write leaves alone is the same for every element. -/
theorem updateFirst_map {β : Type} (g : α → β) (f : α → α) (keeps : ∀ x, g (f x) = g x)
    (addr : NodeData) (xs : List α) : (updateFirst f addr xs).map g = xs.map g := by
  nth_rewrite 2 [← List.takeWhile_append_dropWhile (p := fun x => !(nodeData x).eq addr) (l := xs)]
  rw [updateFirst, List.map_append, List.map_append]
  cases xs.dropWhile (fun x => !(nodeData x).eq addr) with
  | nil => rfl
  | cons x rest => rw [List.map_cons, List.map_cons, keeps]

theorem mem_updateFirst {f : α → α} {addr : NodeData} {xs : List α} {y : α}
    (member : y ∈ updateFirst f addr xs) : y ∈ xs ∨ ∃ x ∈ xs, y = f x := by
  rw [← List.takeWhile_append_dropWhile (p := fun x => !(nodeData x).eq addr) (l := xs)]
  rw [updateFirst] at member
  cases tail : xs.dropWhile (fun x => !(nodeData x).eq addr) with
  | nil =>
    rw [tail, List.append_nil] at member
    exact .inl (List.mem_append_left _ member)
  | cons x rest =>
    rw [tail] at member
    rcases List.mem_append.mp member with front | back
    · exact .inl (List.mem_append_left _ front)
    · rcases List.mem_cons.mp back with rfl | back
      · exact .inr ⟨x, by simp, rfl⟩
      · exact .inl (by simp [back])

/-- Writing to a found node replaces one bucket. -/
theorem NodeTree.Valid.update_parts (f : α → α) (keeps : ∀ x, nodeData (f x) = nodeData x)
    (data : NodeData) {t : NodeTree α} {d : Nat} (h : t.Valid d) :
    ∃ pre b post b', t.buckets = pre ++ b :: post ∧
      t.update f data = .ok { t with buckets := pre ++ b' :: post } ∧
      ({ t with buckets := pre ++ b' :: post } : NodeTree α).Valid d ∧ b'.low = b.low ∧
      b'.high = b.high ∧ b'.contents = updateFirst f data b.contents := by
  obtain ⟨pre, b, post, parts, found, bucket, -, -, -⟩ := locate h.tiles data
  obtain ⟨b', run, holds, low, high⟩ :=
    b.update_spec f data (h.buckets b (by simp [parts])).holds
  have updated : t.update f data = .ok { t with buckets := pre ++ b' :: post } := by
    simp only [NodeTree.update, found, bucket, run, ok_bind, store_at b' parts]
  obtain ⟨t', same, valid, -⟩ := h.update_spec f keeps data
  rw [updated] at same
  cases same
  exact ⟨pre, b, post, b', parts, updated, valid, low, high, holds.contents_eq⟩

end Update

/-! ## Calls -/

/-- The calls on a tree, with the time of those that look at the clock. `setGood` is the write
through the pointer `getNode` returned. -/
inductive TimedCall where
  | addNode (now : Int) (address : Node)
  | setGood (now : Int) (data : NodeData)
  | removeNode (address : Node)
  | clear

/-- The nodes offered are objects of the program. -/
def TimedCall.Built (host : Host) : TimedCall → Prop
  | .addNode _ address => Node.Built host address
  | _ => True

/-- A call that removes nothing. -/
def TimedCall.Keeps : TimedCall → Prop
  | .addNode _ _ | .setGood _ _ => True
  | _ => False

namespace NodeTree

def timedStep (call : TimedCall) (t : NodeTree Node) : Fallible (NodeTree Node) :=
  match call with
  | .addNode now address => do
      let (t, _) ← t.addNode (Node.isBad now) (some address)
      .ok t
  | .setGood now data => t.update (Node.setGood now) data
  | .removeNode address => t.removeNode (some address)
  | .clear => .ok t.clear

def timedRun : List TimedCall → NodeTree Node → Fallible (NodeTree Node)
  | [], t => .ok t
  | call :: calls, t => do
      let t ← timedStep call t
      timedRun calls t

/-- What every call of a kind keeps holds after a run of such calls. -/
theorem timedRun_keeps {P : NodeTree Node → Prop} {Q : TimedCall → Prop}
    (step : ∀ t call, P t → Q call → ∃ t', timedStep call t = .ok t' ∧ P t') {calls : List TimedCall}
    (kind : ∀ call ∈ calls, Q call) {t : NodeTree Node} (start : P t) :
    ∃ t', timedRun calls t = .ok t' ∧ P t' := by
  induction calls generalizing t with
  | nil => exact ⟨t, rfl, start⟩
  | cons call calls ih =>
    obtain ⟨t₁, stepped, kept⟩ := step t call start (kind call List.mem_cons_self)
    obtain ⟨t', later, kept'⟩ := ih (fun c member => kind c (List.mem_cons_of_mem _ member)) kept
    exact ⟨t', by simp only [timedRun, stepped, ok_bind, later], kept'⟩

/-- A valid tree whose nodes have no unanswered queries. -/
structure Answering (t : NodeTree Node) (d : Nat) : Prop where
  valid : t.Valid d
  answered : ∀ x ∈ t.nodes, x.lastUnansweredQueries = 0

variable {t : NodeTree Node} {d : Nat}

theorem Answering.clean (h : Answering t d) (now : Int) {b : Bucket Node} (member : b ∈ t.buckets) :
    ∀ x ∈ b.contents, x.isBad now = false := fun x stored =>
  Node.isBad_of_answered (h.answered x (List.mem_flatMap.mpr ⟨b, member, stored⟩)) now

/-- Nothing is evicted. -/
theorem Answering.addNode (h : Answering t d) (now : Int) {a : Node}
    (answered : a.lastUnansweredQueries = 0) :
    ∃ t' d' isAdded, t.addNode (Node.isBad now) (some a) = .ok (t', isAdded) ∧ Answering t' d' ∧
      t'.node = t.node ∧ AddOutcome (Node.isBad now) a t d t' isAdded ∧
      t'.stored = if isAdded then a ::ₘ t.stored else t.stored := by
  obtain ⟨t', d', isAdded, run, valid, node, -, outcome⟩ := h.valid.addNode_outcome (Node.isBad now) a
  have stored : t'.stored = if isAdded then a ::ₘ t.stored else t.stored := by
    have effect := outcome.effect_stored
    cases isAdded with
    | false => exact effect
    | true =>
      obtain ⟨b, member, -, dropped, total, bad, -⟩ := effect
      have none : b.contents.filter (Node.isBad now) = [] :=
        List.filter_eq_nil_iff.mpr fun x stored => by simp [h.clean now member x stored]
      rw [none, Multiset.coe_nil, Multiset.le_zero] at bad
      rw [bad, add_zero] at total
      exact total
  refine ⟨t', d', isAdded, run, ⟨valid, ?_⟩, node, outcome, stored⟩
  intro x member
  have inStored : x ∈ t'.stored := member
  rw [stored] at inStored
  cases isAdded with
  | false => exact h.answered x inStored
  | true =>
    rw [if_pos rfl] at inStored
    rcases Multiset.mem_cons.mp inStored with rfl | old
    · exact answered
    · exact h.answered x old

/-- Marking a node as good keeps everything else. -/
theorem Answering.setGood (h : Answering t d) (now : Int) (data : NodeData) :
    ∃ pre b post b', t.buckets = pre ++ b :: post ∧
      t.update (Node.setGood now) data = .ok { t with buckets := pre ++ b' :: post } ∧
      Answering { t with buckets := pre ++ b' :: post } d ∧ b'.low = b.low ∧ b'.high = b.high ∧
      b'.contents = updateFirst (Node.setGood now) data b.contents := by
  obtain ⟨pre, b, post, b', parts, run, valid, low, high, contents⟩ :=
    h.valid.update_parts (Node.setGood now) (fun _ => rfl) data
  refine ⟨pre, b, post, b', parts, run, ⟨valid, ?_⟩, low, high, contents⟩
  intro x member
  obtain ⟨c, place, stored⟩ := List.mem_flatMap.mp member
  have old : ∀ c ∈ t.buckets, ∀ y ∈ c.contents, y.lastUnansweredQueries = 0 := fun c place y stored =>
    h.answered y (List.mem_flatMap.mpr ⟨c, place, stored⟩)
  rw [parts] at old
  rcases List.mem_append.mp place with left | right
  · exact old c (List.mem_append_left _ left) x stored
  · rcases List.mem_cons.mp right with rfl | right
    · rw [contents] at stored
      rcases mem_updateFirst stored with same | ⟨y, -, rfl⟩
      · exact old b (by simp) x same
      · rfl
    · exact old c (by simp [right]) x stored

theorem Answering.step {host : Host} (h : Answering t d) {call : TimedCall} (built : call.Built host) :
    ∃ t' d', timedStep call t = .ok t' ∧ Answering t' d' ∧ t'.node = t.node := by
  cases call with
  | addNode now address =>
    obtain ⟨t', d', isAdded, run, answering, node, -⟩ := h.addNode now built.lastUnansweredQueries
    exact ⟨t', d', by simp only [timedStep, run, ok_bind], answering, node⟩
  | setGood now data =>
    obtain ⟨pre, b, post, b', -, run, answering, -⟩ := h.setGood now data
    exact ⟨_, d, run, answering, rfl⟩
  | removeNode address =>
    obtain ⟨t', run, valid, node, effect⟩ := h.valid.removeNode_spec address
    refine ⟨t', d, run, ⟨valid, fun x member => h.answered x ?_⟩, node⟩
    rcases effect with ⟨y, -, stored⟩ | ⟨-, same⟩
    · have kept : x ∈ t.stored := by
        rw [stored]
        exact Multiset.mem_cons_of_mem member
      exact kept
    · rwa [same] at member
  | clear => exact ⟨t.clear, 0, rfl, ⟨clear_valid t, by simp⟩, rfl⟩

theorem Answering.run {host : Host} (h : Answering t d) {calls : List TimedCall}
    (built : ∀ call ∈ calls, call.Built host) :
    ∃ t' d', timedRun calls t = .ok t' ∧ Answering t' d' ∧ t'.node = t.node := by
  obtain ⟨t', reached, ⟨d', answering⟩, node⟩ :=
    timedRun_keeps (P := fun t' => (∃ d', Answering t' d') ∧ t'.node = t.node)
      (fun t₁ call ⟨⟨d₁, h₁⟩, node⟩ own => by
        obtain ⟨t₂, d₂, stepped, answering, same⟩ := h₁.step own
        exact ⟨t₂, stepped, ⟨d₂, answering⟩, same.trans node⟩) built ⟨⟨d, h⟩, rfl⟩
  exact ⟨t', d', reached, answering, node⟩

theorem new_answering (T : NodeData) : Answering (new T) 0 := ⟨new_valid T, by simp [new]⟩

/-! ## No node gives way -/

/-- A bucket that cannot change: it is full, and away from the table's own id or over one id. -/
structure Frozen (t : NodeTree Node) (b : Bucket Node) : Prop where
  member : b ∈ t.buckets
  full : b.contents.length = DHT_K
  final : b.inBounds t.node = false ∨ b.low = b.high

/-- The same ids with the same endpoints. -/
structure SameNodes (b b' : Bucket Node) : Prop where
  low : b'.low = b.low
  high : b'.high = b.high
  nodes : (b'.contents.map fun n => (n.nodeData, n.endpoint)) = b.contents.map fun n => (n.nodeData, n.endpoint)

theorem SameNodes.refl (b : Bucket Node) : SameNodes b b := ⟨rfl, rfl, rfl⟩

theorem SameNodes.trans {b b' b'' : Bucket Node} (first : SameNodes b b') (later : SameNodes b' b'') :
    SameNodes b b'' :=
  ⟨later.low.trans first.low, later.high.trans first.high, later.nodes.trans first.nodes⟩

theorem Frozen.congr {t t' : NodeTree Node} {b b' : Bucket Node} (h : Frozen t b)
    (node : t'.node = t.node) (member : b' ∈ t'.buckets) (same : SameNodes b b') : Frozen t' b' := by
  have lengths := congrArg List.length same.nodes
  rw [List.length_map, List.length_map] at lengths
  refine ⟨member, lengths.trans h.full, ?_⟩
  rw [node, same.low, same.high, NodeBucket.inBounds_congr same.low same.high]
  exact h.final

/-- The offer of a node leaves a frozen bucket, and is refused if the bucket covers the node. -/
theorem Frozen.addNode {b : Bucket Node} (frozen : Frozen t b) (h : Answering t d) (now : Int) {a : Node}
    (answered : a.lastUnansweredQueries = 0) :
    ∃ t' d' isAdded b', t.addNode (Node.isBad now) (some a) = .ok (t', isAdded) ∧ Answering t' d' ∧
      Frozen t' b' ∧ SameNodes b b' ∧ (b.inBounds a.nodeData = true → isAdded = false) := by
  obtain ⟨t', d', isAdded, run, answering, node, outcome, -⟩ := h.addNode now answered
  refine ⟨t', d', isAdded, ?_⟩
  have clean := h.clean now frozen.member
  have covered : b.inBounds a.nodeData = true → t.CoveredBy a.nodeData b :=
    h.valid.coveredBy frozen.member
  cases outcome with
  | @direct pre post c c' _ parts covers low high effect final =>
    by_cases same : b = c
    · subst same
      have refused := effect.refused_iff.mpr ⟨frozen.full, clean⟩
      subst refused
      have contents := effect.same_of_refused
      exact ⟨c', run, answering,
        frozen.congr rfl (by simp) ⟨low, high, by rw [contents]⟩, ⟨low, high, by rw [contents]⟩,
        fun _ => rfl⟩
    · have kept : b ∈ pre ++ c' :: post := by
        have member := frozen.member
        rw [parts] at member
        simp only [List.mem_append, List.mem_cons, same, false_or] at member ⊢
        tauto
      refine ⟨b, run, answering, frozen.congr rfl kept (.refl b), .refl b, fun inside => ?_⟩
      have covering := h.valid.coveredBy (b := c) (by simp [parts]) covers
      exact absurd ((covered inside).unique covering) same
  | @split pre post halves c half other _ _ parts covers own full clean' taken order =>
    have apart : b ≠ c := by
      rintro rfl
      rcases frozen.final with away | single
      · rw [away] at own
        cases own
      · have deepest := (single_iff h.valid.depth
          (h.valid.own_range (b := b) frozen.member own)).mp single
        have shallow := taken.shallow
        omega
    have kept : b ∈ pre ++ halves ++ post := by
      have member := frozen.member
      rw [parts] at member
      simp only [List.mem_append, List.mem_cons, apart, false_or] at member ⊢
      tauto
    refine ⟨b, run, answering, frozen.congr rfl kept (.refl b), .refl b, fun inside => ?_⟩
    have covering := h.valid.coveredBy (b := c) (by simp [parts]) covers
    exact absurd ((covered inside).unique covering) apart

theorem Frozen.setGood {b : Bucket Node} (frozen : Frozen t b) (h : Answering t d) (now : Int)
    (data : NodeData) :
    ∃ t' b', t.update (Node.setGood now) data = .ok t' ∧ Answering t' d ∧ Frozen t' b' ∧
      SameNodes b b' := by
  obtain ⟨pre, c, post, c', parts, run, answering, low, high, contents⟩ := h.setGood now data
  refine ⟨{ t with buckets := pre ++ c' :: post }, ?_⟩
  by_cases same : b = c
  · subst same
    have nodes : SameNodes b c' := by
      refine ⟨low, high, ?_⟩
      rw [contents]
      exact updateFirst_map (fun n : Node => (n.nodeData, n.endpoint)) (Node.setGood now) (fun _ => rfl) data
        b.contents
    exact ⟨c', run, answering, frozen.congr rfl (by simp) nodes, nodes⟩
  · have kept : b ∈ pre ++ c' :: post := by
      have member := frozen.member
      rw [parts] at member
      simp only [List.mem_append, List.mem_cons, same, false_or] at member ⊢
      tauto
    exact ⟨b, run, answering, frozen.congr rfl kept (.refl b), .refl b⟩

theorem Frozen.step {host : Host} {b : Bucket Node} (frozen : Frozen t b) (h : Answering t d)
    {call : TimedCall} (built : call.Built host) (keeps : call.Keeps) :
    ∃ t' d' b', timedStep call t = .ok t' ∧ Answering t' d' ∧ Frozen t' b' ∧ SameNodes b b' := by
  cases call with
  | addNode now address =>
    obtain ⟨t', d', isAdded, b', run, answering, frozen', same, -⟩ :=
      frozen.addNode h now (Node.Built.lastUnansweredQueries built)
    exact ⟨t', d', b', by simp only [timedStep, run, ok_bind], answering, frozen', same⟩
  | setGood now data =>
    obtain ⟨t', b', run, answering, frozen', same⟩ := frozen.setGood h now data
    exact ⟨t', d, b', run, answering, frozen', same⟩
  | removeNode address => exact keeps.elim
  | clear => exact keeps.elim

theorem Frozen.run {host : Host} {b : Bucket Node} (frozen : Frozen t b) (h : Answering t d)
    {calls : List TimedCall} (built : ∀ call ∈ calls, call.Built host)
    (keeps : ∀ call ∈ calls, call.Keeps) :
    ∃ t' d' b', timedRun calls t = .ok t' ∧ Answering t' d' ∧ Frozen t' b' ∧ SameNodes b b' := by
  obtain ⟨t', reached, d', b', kept⟩ := timedRun_keeps
    (P := fun t' => ∃ d' b', Answering t' d' ∧ Frozen t' b' ∧ SameNodes b b')
    (Q := fun call => call.Built host ∧ call.Keeps)
    (fun t₁ call ⟨d₁, b₁, h₁, frozen₁, same₁⟩ ⟨own, keep⟩ => by
      obtain ⟨t₂, d₂, b₂, stepped, answering, frozen₂, same⟩ := frozen₁.step h₁ own keep
      exact ⟨t₂, stepped, d₂, b₂, answering, frozen₂, same₁.trans same⟩)
    (fun call member => ⟨built call member, keeps call member⟩) ⟨d, b, h, frozen, .refl b⟩
  exact ⟨t', d', b', reached, kept⟩

/-- In every run no stored node is ever bad, so that `addNode` never evicts one: it adds its
argument or changes nothing. -/
theorem timedRun_evictsNone (host : Host) (T : NodeData) (calls : List TimedCall)
    (built : ∀ call ∈ calls, call.Built host) :
    ∃ t, timedRun calls (new T) = .ok t ∧ (∀ x ∈ t.nodes, ∀ now, x.isBad now = false) ∧
      ∀ now a, Node.Built host a → ∃ t' isAdded,
        t.addNode (Node.isBad now) (some a) = .ok (t', isAdded) ∧
        t'.stored = if isAdded then a ::ₘ t.stored else t.stored := by
  obtain ⟨t, d, reached, answering, -⟩ := (new_answering T).run built
  refine ⟨t, reached, fun x stored => Node.isBad_of_answered (answering.answered x stored), ?_⟩
  intro now a own
  obtain ⟨t', -, isAdded, run, -, -, -, stored⟩ := answering.addNode now own.lastUnansweredQueries
  exact ⟨t', isAdded, run, stored⟩

/-- Two offers a year apart. -/
theorem timedRun_evictsNone_two :
    ∃ t, timedRun [.addNode 0 ⟨lastWord 1, 0, 0, none⟩, .addNode 31536000 ⟨lastWord 2, 31536000, 0, none⟩]
        (new NodeData.maxValue) = .ok t ∧ (∀ x ∈ t.nodes, ∀ now, x.isBad now = false) ∧
      ∀ now a, Node.Built Host.x86 a → ∃ t' isAdded,
        t.addNode (Node.isBad now) (some a) = .ok (t', isAdded) ∧
        t'.stored = if isAdded then a ::ₘ t.stored else t.stored := by
  refine timedRun_evictsNone Host.x86 NodeData.maxValue _ ?_
  simp only [List.forall_mem_cons, List.not_mem_nil, false_implies, implies_true, and_true]
  exact ⟨Node.built_fresh _ _ _ _, Node.built_fresh _ _ _ _⟩

/-- A full bucket away from the table's own id holds the same nodes for ever, and every other
node in its range is refused, however long the eight have been silent. -/
theorem timedRun_frozen (host : Host) (T : NodeData) (before later : List TimedCall)
    (built : ∀ call ∈ before ++ later, call.Built host) (keeps : ∀ call ∈ later, call.Keeps) :
    ∃ t t', timedRun before (new T) = .ok t ∧ timedRun later t = .ok t' ∧
      ∀ b, Frozen t b → ∃ b', Frozen t' b' ∧ SameNodes b b' ∧
        ∀ now a, Node.Built host a → b.inBounds a.nodeData = true →
          ∃ t'', t'.addNode (Node.isBad now) (some a) = .ok (t'', false) := by
  obtain ⟨t, d, reached, answering, -⟩ :=
    (new_answering T).run fun call member => built call (List.mem_append_left _ member)
  have builtLater : ∀ call ∈ later, call.Built host := fun call member =>
    built call (List.mem_append_right _ member)
  obtain ⟨t', d', reached', answering', -⟩ := answering.run builtLater
  refine ⟨t, t', reached, reached', fun b frozen => ?_⟩
  obtain ⟨t₁, d₁, b', run, -, frozen', same⟩ := frozen.run answering builtLater keeps
  rw [reached'] at run
  cases run
  refine ⟨b', frozen', same, fun now a own inside => ?_⟩
  obtain ⟨t'', -, isAdded, -, added, -, -, -, refused⟩ :=
    frozen'.addNode answering' now own.lastUnansweredQueries
  rw [NodeBucket.inBounds_congr same.low same.high, inside] at refused
  exact ⟨t'', by rw [added, refused rfl]⟩

/-- Nine offers around the id 0 to a table with the greatest id. -/
def nineNeighbours : List TimedCall :=
  (List.range 9).map fun n => .addNode 0 ⟨lastWord (n + 1), 0, 0, none⟩

theorem nineNeighbours_built : ∀ call ∈ nineNeighbours, call.Built Host.x86 := by
  intro call member
  obtain ⟨n, -, rfl⟩ := List.mem_map.mp member
  exact Node.built_fresh _ _ _ _

theorem nineNeighbours_keeps : ∀ call ∈ nineNeighbours, call.Keeps := by
  intro call member
  obtain ⟨n, -, rfl⟩ := List.mem_map.mp member
  trivial

/-- The first eight keep out a tenth after a year. -/
theorem timedRun_frozen_neighbours :
    ∃ t t' b b', timedRun nineNeighbours (new NodeData.maxValue) = .ok t ∧
      timedRun [.setGood 60 (lastWord 1)] t = .ok t' ∧ Frozen t b ∧ Frozen t' b' ∧ SameNodes b b' ∧
      ∃ t'', t'.addNode (Node.isBad 31536000) (some ⟨lastWord 10, 31536000, 0, none⟩) = .ok (t'', false) := by
  have built : ∀ call ∈ nineNeighbours ++ [.setGood 60 (lastWord 1)], call.Built Host.x86 := by
    intro call member
    rcases List.mem_append.mp member with offer | mark
    · exact nineNeighbours_built call offer
    · cases List.mem_singleton.mp mark
      trivial
  have keeps : ∀ call ∈ [TimedCall.setGood 60 (lastWord 1)], call.Keeps := by
    intro call member
    cases List.mem_singleton.mp member
    trivial
  obtain ⟨t, t', reached, reached', keptOut⟩ :=
    timedRun_frozen Host.x86 NodeData.maxValue nineNeighbours [.setGood 60 (lastWord 1)] built keeps
  have computed : (do
      let t ← timedRun nineNeighbours (new NodeData.maxValue)
      .ok (t.buckets.any fun b => b.contents.length == DHT_K && !b.inBounds t.node &&
        b.inBounds (lastWord 10))) = .ok true := by
    decide +kernel
  rw [reached, ok_bind, Except.ok.injEq] at computed
  obtain ⟨b, member, facts⟩ := List.any_eq_true.mp computed
  simp only [Bool.and_eq_true, beq_iff_eq, Bool.not_eq_true'] at facts
  obtain ⟨⟨full, away⟩, inside⟩ := facts
  have frozen : Frozen t b := ⟨member, full, .inl away⟩
  obtain ⟨b', frozen', same, refused⟩ := keptOut b frozen
  exact ⟨t, t', b, b', reached, reached', frozen, frozen', same,
    refused 31536000 _ (Node.built_fresh _ _ _ _) inside⟩

end NodeTree
end TorrentSync.Source
