import StorageEngine.Common.Checksum

/-!
# The metadata store

`src/metadata/metadata_store.cpp`.  The store keeps the objects by id, an index
from file names to ids, and the table of storage nodes.

* **Ids** come from `generate_uuid`.  An operation that draws ids takes the
  stream of its draws, in the order of the calls.
* **Iteration order.**  An operation that iterates over a hash map takes the
  order it meets, and `select_nodes` also takes the order that its `std::sort`
  or `std::shuffle` leaves.
* **Time** is the value of `now_ms()`.

The file that `persist()` writes is not read back by any operation here, and is not
part of the store.  `Metadata/Snapshot.lean` has it.
-/

namespace StorageEngine

/-! ## The node table -/

/-- `nodes_`.  Every write of the source to it is under the id of the node. -/
structure NodeTable where
  entries : UnorderedMap Str NodeInfo
  keyed : ∀ id node, entries.lookup id = some node → node.id = id
  deriving DecidableEq

namespace NodeTable

def empty : NodeTable where
  entries := ∅
  keyed id node h := by simp at h

/-- `nodes_[node.id] = node`. -/
def set (t : NodeTable) (node : NodeInfo) : NodeTable where
  entries := t.entries.insert node.id node
  keyed id node' h := by
    by_cases hid : id = node.id
    · subst hid
      rw [Finmap.lookup_insert] at h
      exact (Option.some.inj h) ▸ rfl
    · rw [Finmap.lookup_insert_of_ne _ hid] at h
      exact t.keyed id node' h

def find (t : NodeTable) (id : Str) : Option NodeInfo :=
  t.entries.lookup id

/-- `visited` is an order in which a loop over `nodes_` meets the nodes. -/
def Visits (t : NodeTable) (visited : List NodeInfo) : Prop :=
  visited.Nodup ∧ ∀ node, node ∈ visited ↔ t.find node.id = some node

theorem find_id {t : NodeTable} {id : Str} {node : NodeInfo}
    (h : t.find id = some node) : node.id = id :=
  t.keyed id node h

@[simp] theorem find_empty (id : Str) : empty.find id = none := Finmap.lookup_empty id

@[simp] theorem find_set (t : NodeTable) (node : NodeInfo) (id : Str) :
    (t.set node).find id = if id = node.id then some node else t.find id := by
  rw [find, set]
  split
  · next hid => rw [hid, Finmap.lookup_insert]
  · next hid => exact Finmap.lookup_insert_of_ne _ hid

/-- Distinct visited nodes have distinct ids. -/
theorem Visits.ids_nodup {t : NodeTable} {visited : List NodeInfo}
    (h : t.Visits visited) : (visited.map NodeInfo.id).Nodup := by
  refine List.Nodup.map_on (fun a ha b hb hid => ?_) h.1
  have hfind := (h.2 a).mp ha
  rw [hid, (h.2 b).mp hb] at hfind
  exact (Option.some.inj hfind).symm

end NodeTable

/-! ## The store -/

structure MetadataStore where
  objectsById : UnorderedMap Str ObjectInfo := ∅
  filenameToId : UnorderedMap Str Str := ∅
  nodes : NodeTable := .empty
  leaderId : Str := []
  generation : UInt64 := 0
  roundRobinIndex : UInt64 := 0
  deriving DecidableEq

namespace MetadataStore

/-! ## Objects -/

/-- The `while` loop of `plan_chunks`, for at most `fuel` turns.  The draw for a
chunk is the first of the stream that is left.  `none` is a loop that has not
ended. -/
def planLoop (objectId : Str) (chunkSizeBytes : UInt32) :
    ℕ → (ℕ → Str) → UInt32 → UInt64 → Option (List ChunkInfo)
  | fuel, uuid, index, remaining =>
    if remaining = 0 then some []
    else
      match fuel with
      | 0 => none
      | fuel + 1 =>
        let c : ChunkInfo :=
          { chunkId := uuid 0
            objectId := objectId
            chunkIndex := index
            size := min remaining chunkSizeBytes.toUInt64
            version := 1 }
        (planLoop objectId chunkSizeBytes fuel (fun n => uuid (n + 1)) (index + 1)
          (remaining - c.size)).map (c :: ·)

/-- `plan_chunks`.  A turn that plans a chunk of at least one byte leaves fewer
bytes than before, so a loop that ends has at most `size` turns. -/
def planChunks (uuid : ℕ → Str) (objectId : Str) (size : UInt64)
    (chunkSizeBytes : UInt32) : Option (List ChunkInfo) :=
  if size = 0 then
    some [{ chunkId := uuid 0, objectId := objectId, chunkIndex := 0, size := 0,
            version := 1 }]
  else planLoop objectId chunkSizeBytes size.toNat uuid 0 size

/-- The object that `create_object` stores. -/
def newObject (uuid : ℕ → Str) (now : TimestampMs) (filename : Str) (size : UInt64)
    (replicationFactor : UInt32) (owner : Str) (chunks : List ChunkInfo) : ObjectInfo :=
  { objectId := uuid 0
    filename := filename
    size := size
    replicationFactor := replicationFactor
    version := 1
    owner := owner
    createdAt := now
    updatedAt := now
    chunks := chunks }

/-- `create_object`.  The first draw is the id of the object, the others are for
its chunks.  `none` is a call that does not return, because the planning loop
does not end. -/
def createObject (uuid : ℕ → Str) (now : TimestampMs) (s : MetadataStore)
    (filename : Str) (size : UInt64) (replicationFactor : UInt32) (owner : Str)
    (chunkSizeBytes : UInt32) : Option (Option ObjectInfo × MetadataStore) :=
  if filename ∈ s.filenameToId then some (none, s)
  else
    match planChunks (fun n => uuid (n + 1)) (uuid 0) size chunkSizeBytes with
    | none => none
    | some chunks =>
      let obj := newObject uuid now filename size replicationFactor owner chunks
      some (some obj,
        { s with
          objectsById := s.objectsById.insert obj.objectId obj
          filenameToId := s.filenameToId.insert filename obj.objectId })

def deleteObject (s : MetadataStore) (objectId : Str) : Bool × MetadataStore :=
  match s.objectsById.lookup objectId with
  | none => (false, s)
  | some obj =>
    (true,
      { s with
        filenameToId := s.filenameToId.erase obj.filename
        objectsById := s.objectsById.erase objectId })

def deleteObjectByFilename (s : MetadataStore) (filename : Str) :
    Bool × MetadataStore :=
  match s.filenameToId.lookup filename with
  | none => (false, s)
  | some objectId => deleteObject s objectId

def locateById (s : MetadataStore) (objectId : Str) : Option ObjectInfo :=
  s.objectsById.lookup objectId

def locateByFilename (s : MetadataStore) (filename : Str) : Option ObjectInfo :=
  match s.filenameToId.lookup filename with
  | none => none
  | some objectId => s.objectsById.lookup objectId

/-- The loop of `update_chunk`: the first chunk with the id of `chunk` is
replaced.  `none` when no chunk has it. -/
def replaceChunk (chunk : ChunkInfo) : List ChunkInfo → Option (List ChunkInfo)
  | [] => none
  | c :: cs =>
    if c.chunkId = chunk.chunkId then some (chunk :: cs)
    else (replaceChunk chunk cs).map (c :: ·)

def updateChunk (now : TimestampMs) (s : MetadataStore) (objectId : Str)
    (chunk : ChunkInfo) : Bool × MetadataStore :=
  match s.objectsById.lookup objectId with
  | none => (false, s)
  | some obj =>
    match replaceChunk chunk obj.chunks with
    | none => (false, s)
    | some chunks =>
      (true,
        { s with
          objectsById :=
            s.objectsById.insert objectId { obj with chunks := chunks, updatedAt := now } })

/-! ## Nodes -/

def registerNode (now : TimestampMs) (s : MetadataStore) (node : NodeInfo) :
    Bool × MetadataStore :=
  (true,
    { s with nodes := s.nodes.set { node with online := true, lastHeartbeat := now } })

def updateNodeHeartbeat (now : TimestampMs) (s : MetadataStore) (nodeId : Str)
    (freeBytes chunkCount : UInt64) : Bool × MetadataStore :=
  match s.nodes.find nodeId with
  | none => (false, s)
  | some node =>
    (true,
      { s with
        nodes := s.nodes.set
          { node with
            online := true
            freeBytes := freeBytes
            chunkCount := chunkCount
            lastHeartbeat := now } })

def markNodeOffline (s : MetadataStore) (nodeId : Str) : Bool × MetadataStore :=
  match s.nodes.find nodeId with
  | none => (false, s)
  | some node => (true, { s with nodes := s.nodes.set { node with online := false } })

/-- Whether the replica counts as live: its node is registered and online. -/
def isLive (s : MetadataStore) (r : ReplicaInfo) : Bool :=
  match s.nodes.find r.nodeId with
  | none => false
  | some node => node.online

/-- `get_under_replicated_chunks`, for the order in which it meets the
objects. -/
def getUnderReplicatedChunks (s : MetadataStore) (visited : List ObjectInfo)
    (replicationFactor : UInt32) : List ChunkInfo :=
  visited.flatMap fun obj =>
    obj.chunks.filter fun chunk =>
      chunk.replicas.countP s.isLive < replicationFactor.toNat

/-- `visited` is an order in which a loop over `objects_by_id_` meets the
objects. -/
def VisitsObjects (s : MetadataStore) (visited : List ObjectInfo) : Prop :=
  ∃ ids : List Str, ids.Nodup ∧ (∀ id, id ∈ ids ↔ id ∈ s.objectsById) ∧
    ids.map s.objectsById.lookup = visited.map some

/-- The loop of the round-robin case, from a counter value. -/
def roundRobinPick (online : List NodeInfo) : ℕ → UInt64 → List NodeInfo
  | 0, _ => []
  | n + 1, index =>
    online.getD (index.toNat % online.length) {} :: roundRobinPick online n (index + 1)

/-- The orders that one call of `select_nodes` meets: `visited` is that of the
loop over `nodes_`, and `arranged` is what `std::sort` or `std::shuffle` leaves
of the online nodes. -/
structure NodeOrder where
  visited : List NodeInfo := []
  arranged : List NodeInfo := []
  deriving DecidableEq, Repr

/-- The orders that are possible for a store and a strategy. -/
structure NodeOrder.Possible (s : MetadataStore) (strategy : LoadBalanceStrategy)
    (order : NodeOrder) : Prop where
  visits : s.nodes.Visits order.visited
  perm : order.arranged.Perm (order.visited.filter NodeInfo.online)
  sorted : strategy = .leastUsed →
    order.arranged.Pairwise fun a b => a.chunkCount ≤ b.chunkCount

def selectNodes (order : NodeOrder) (s : MetadataStore) (count : UInt32)
    (strategy : LoadBalanceStrategy) : List NodeInfo × MetadataStore :=
  let online := order.visited.filter NodeInfo.online
  if online = [] then ([], s)
  else
    match strategy with
    | .roundRobin =>
      (roundRobinPick online count.toNat s.roundRobinIndex,
        { s with roundRobinIndex := s.roundRobinIndex + count.toUInt64 })
    | .leastUsed => (order.arranged.take count.toNat, s)
    | .random => (order.arranged.take count.toNat, s)

def setLeader (s : MetadataStore) (leaderId : Str) (generation : UInt64) :
    MetadataStore :=
  { s with leaderId := leaderId, generation := generation }

end MetadataStore

end StorageEngine
