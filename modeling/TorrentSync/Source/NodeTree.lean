import TorrentSync.Lib.OrderedContainers
import TorrentSync.Lib.PrefixRange
import TorrentSync.Source.NodeBucketSpec

/-!
# NodeTree

dht/NodeTree.cpp: the ordered set of buckets around the table's own id. A
`BucketSPtr` obtained from the set is an index into the set; a bucket that a
failed insertion left outside the set has no index. Bucket destructors, which only
reset the slots of a bucket nobody refers to any more, are not represented.
-/
namespace TorrentSync.Source

open Lib.OrderedContainers

abbrev Bucket (α : Type) := NodeBucket DHT_K α

/-- The order of `_buckets`. -/
def sortByBounds {α : Type} (x y : Bucket α) : Bool := x.high.lt y.low

/-- A shared pointer to a bucket together with its place in `_buckets`. -/
structure BucketSPtr (α : Type) where
  bucket : Bucket α
  place : Option Nat

structure NodeTree (α : Type) where
  /-- `_buckets` in set order -/
  buckets : List (Bucket α)
  /-- `_node`, the center of the tree -/
  node : NodeData

namespace NodeTree

variable {α : Type}

def clear (t : NodeTree α) : NodeTree α :=
  { t with
    buckets := (insertUnique sortByBounds (NodeBucket.new NodeData.minValue NodeData.maxValue) []).1 }

def new (nodeNode : NodeData) : NodeTree α := clear ⟨[], nodeNode⟩

def size (t : NodeTree α) : Nat := t.buckets.foldl (fun init b => init + b.size) 0

def getBucketsCount (t : NodeTree α) : Nat := t.buckets.length

/-- `findBucket`: the first bucket not below the degenerate bucket `[addr, addr]`. -/
def findBucket (addr : NodeData) (t : NodeTree α) : Fallible Nat := do
  let it := lowerBound sortByBounds t.buckets (NodeBucket.new addr addr)
  check (it < t.buckets.length) "it != _buckets.end()"
  .ok it

/-- `*bucket_it`. -/
def bucketAt (bucket_it : Nat) (t : NodeTree α) : Fallible (Bucket α) :=
  match t.buckets[bucket_it]? with
  | some bucket => .ok bucket
  | none => .error (.undefined "_buckets.end()")

/-- What a member call through a shared pointer leaves in the set. -/
def store (p : BucketSPtr α) (t : NodeTree α) : NodeTree α :=
  match p.place with
  | some i => { t with buckets := t.buckets.set i p.bucket }
  | none => t

/-- The nodes met when iterating over `[cbegin, cend)` of a bucket. -/
def nodesFrom (elements : Vector (Option α) DHT_K) : Nat → Nat → Fallible (List α)
  | 0, _ => .ok []
  | count + 1, i => do
      let slot ← Lib.ArrayAlgorithms.cell NodeBucket.outOfArray elements i
      let node ← deref slot
      let rest ← nodesFrom elements count (i + 1)
      .ok (node :: rest)

def nodesOf (bucket : Bucket α) : Fallible (List α) :=
  nodesFrom bucket.elements bucket.addressCount 0

section Operations

variable [IsNode α]

/-- The loop of `split` that distributes the nodes over the two new buckets. -/
def distribute (isBad : α → Bool) : List α → Bucket α → Bucket α → Fallible (Bucket α × Bucket α)
  | [], lower_bucket, upper_bucket => .ok (lower_bucket, upper_bucket)
  | it :: rest, lower_bucket, upper_bucket =>
      if lower_bucket.inBounds (nodeData it) then do
        let (lower_bucket, _) ← lower_bucket.add isBad (some it)
        distribute isBad rest lower_bucket upper_bucket
      else do
        check (upper_bucket.inBounds (nodeData it)) "upper_bucket->inBounds(*it)"
        let (upper_bucket, _) ← upper_bucket.add isBad (some it)
        distribute isBad rest lower_bucket upper_bucket

def split (isBad : α → Bool) (bucket_it : Nat) (t : NodeTree α) :
    Fallible (NodeTree α × Option (BucketSPtr α × BucketSPtr α)) := do
  check (bucket_it < t.buckets.length) "bucket_it != _buckets.end()"
  let bucket ← t.bucketAt bucket_it
  match NodeData.splitInHalf bucket.low bucket.high with
  | none => .ok (t, none)
  | some (half_low, half_high) => do
    let addresses ← nodesOf bucket
    let (lower_bucket, upper_bucket) ← distribute isBad addresses
      (NodeBucket.new bucket.low half_low) (NodeBucket.new half_high bucket.high)
    check (upper_bucket.size + lower_bucket.size == bucket.size)
      "upper_bucket->size() + lower_bucket->size() == bucket->size()"
    let erased := t.buckets.eraseIdx bucket_it
    let (withUpper, upperPlace) := insertUnique sortByBounds upper_bucket erased
    let (withLower, lowerPlace) := insertUnique sortByBounds lower_bucket withUpper
    -- inserting the lower bucket moves an upper bucket that follows it
    let upperPlace := upperPlace.map fun i =>
      if lowerPlace.any (· ≤ i) then i + 1 else i
    .ok ({ t with buckets := withLower },
      some (⟨lower_bucket, lowerPlace⟩, ⟨upper_bucket, upperPlace⟩))

/-- The part of `addNode` that follows a refused insertion into the bucket of `_node`. -/
def addAfterSplit (isBad : α → Bool) (node : α) (bucket_it : Nat) (t : NodeTree α) :
    Fallible (NodeTree α × Bool) := do
  let (t, maybe_split_buckets) ← t.split isBad bucket_it
  match maybe_split_buckets with
  | none => .ok (t, false)
  | some (first, second) => do
    check (first.bucket.inBounds (nodeData node) || second.bucket.inBounds (nodeData node))
      "split_buckets.first->inBounds(address) || split_buckets.second->inBounds(address)"
    if first.bucket.inBounds (nodeData node) then do
      let (b, isAdded) ← first.bucket.add isBad (some node)
      .ok (t.store { first with bucket := b }, isAdded)
    else do
      check (second.bucket.inBounds (nodeData node)) "split_buckets.second->inBounds(address)"
      let (b, isAdded) ← second.bucket.add isBad (some node)
      .ok (t.store { second with bucket := b }, isAdded)

def addNode (isBad : α → Bool) (address : Option α) (t : NodeTree α) :
    Fallible (NodeTree α × Bool) :=
  match address with
  | none => .error (.invalidArgument "Node is not set")
  | some node => do
    let bucket_it ← t.findBucket (nodeData node)
    check (bucket_it < t.buckets.length) "bucket_it != _buckets.end()"
    let bucket ← t.bucketAt bucket_it
    check (bucket.inBounds (nodeData node)) "bucket->inBounds(address)"
    let (bucket, isAdded) ← bucket.add isBad (some node)
    let t := t.store ⟨bucket, some bucket_it⟩
    if !isAdded && bucket.inBounds t.node then t.addAfterSplit isBad node bucket_it
    else .ok (t, isAdded)

def removeNode (address : Option α) (t : NodeTree α) : Fallible (NodeTree α) :=
  match address with
  | none => .error (.invalidArgument "Node is not set")
  | some node => do
    let bucket_it ← t.findBucket (nodeData node)
    let bucket ← t.bucketAt bucket_it
    check (bucket.inBounds (nodeData node)) "bucket->inBounds(address)"
    let (bucket, _) ← bucket.remove (nodeData node)
    .ok (t.store ⟨bucket, some bucket_it⟩)

def getNode (data : NodeData) (t : NodeTree α) : Fallible (Option α) := do
  let bucket_it ← t.findBucket data
  let bucket ← t.bucketAt bucket_it
  bucket.find data

/-- The comparator of `knownNodes`: not after, in XOR distance to `data`. -/
def notFarther (data : NodeData) (x y : α) : Bool :=
  ((nodeData x).distance data).le ((nodeData y).distance data)

/-- The loops filling `knownNodes` from up to three buckets. -/
def knownNodes (data : NodeData) (buckets : List (Bucket α)) : Fallible (List α) := do
  let addresses ← (buckets.take 3).mapM nodesOf
  .ok (addresses.flatten.foldl (fun known node => (insertUnique (notFarther data) node known).1) [])

def getClosestNodes (data : NodeData) (t : NodeTree α) : Fallible (List α) := do
  let bucket_it ← t.findBucket data
  let bucket ← t.bucketAt bucket_it
  let addresses ← nodesOf bucket
  match addresses.find? fun a => (nodeData a).eq data with
  | some perfect_match => .ok [perfect_match]
  | none => do
    let start := if bucket_it ≠ 0 then bucket_it - 1 else bucket_it
    let known ← knownNodes data (t.buckets.drop start)
    .ok (known.take DHT_FIND_NODE_COUNT)

end Operations
end NodeTree
end TorrentSync.Source
