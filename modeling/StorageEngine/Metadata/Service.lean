import StorageEngine.Metadata.Store

/-!
# The metadata service

`proto/metadata.proto` and `src/metadata/metadata_service_impl.cpp`.  The
messages, one handler for each call, and the relation `Serves` of a metadata
node that answers calls.

A handler takes the cluster configuration of its process.  Fields of messages
that no component sets or reads are left out.
-/

namespace StorageEngine

/-! ## Messages -/

structure ReplicaLocation where
  nodeId : Str := []
  address : Str := []
  isPrimary : Bool := false
  version : UInt32 := 0
  deriving DecidableEq, Repr

structure ChunkMetadata where
  chunkId : Str := []
  objectId : Str := []
  chunkIndex : UInt32 := 0
  size : UInt64 := 0
  checksum : Str := []
  version : UInt32 := 0
  replicas : List ReplicaLocation := []
  deriving DecidableEq, Repr

structure ObjectMetadata where
  objectId : Str := []
  filename : Str := []
  size : UInt64 := 0
  replicationFactor : UInt32 := 0
  version : UInt32 := 0
  checksum : Str := []
  owner : Str := []
  createdAtMs : UInt64 := 0
  updatedAtMs : UInt64 := 0
  chunks : List ChunkMetadata := []
  deriving DecidableEq, Repr

structure ClusterNodeInfo where
  nodeId : Str := []
  address : Str := []
  online : Bool := false
  freeBytes : UInt64 := 0
  totalBytes : UInt64 := 0
  chunkCount : UInt64 := 0
  deriving DecidableEq, Repr

structure CreateObjectRequest where
  filename : Str := []
  size : UInt64 := 0
  replicationFactor : UInt32 := 0
  owner : Str := []
  chunkSizeMb : UInt32 := 0
  deriving DecidableEq, Repr

structure CreateObjectResponse where
  success : Bool := false
  message : Str := []
  object : ObjectMetadata := {}
  deriving DecidableEq, Repr

structure DeleteObjectRequest where
  objectId : Str := []
  filename : Str := []
  deriving DecidableEq, Repr

structure LocateObjectRequest where
  objectId : Str := []
  filename : Str := []
  deriving DecidableEq, Repr

structure LocateObjectResponse where
  success : Bool := false
  message : Str := []
  object : ObjectMetadata := {}
  deriving DecidableEq, Repr

structure UpdateChunkRequest where
  objectId : Str := []
  chunk : ChunkMetadata := {}
  deriving DecidableEq, Repr

structure RegisterNodeRequest where
  nodeId : Str := []
  address : Str := []
  totalBytes : UInt64 := 0
  deriving DecidableEq, Repr

structure NodeHeartbeatRequest where
  nodeId : Str := []
  freeBytes : UInt64 := 0
  chunkCount : UInt64 := 0
  deriving DecidableEq, Repr

structure SelectNodesRequest where
  count : UInt32 := 0
  strategy : Str := []
  deriving DecidableEq, Repr

structure SelectNodesResponse where
  nodes : List ClusterNodeInfo := []
  deriving DecidableEq, Repr

structure MarkNodeOfflineRequest where
  nodeId : Str := []
  deriving DecidableEq, Repr

structure GetUnderReplicatedChunksResponse where
  chunks : List ChunkMetadata := []
  deriving DecidableEq, Repr

/-- The response of the calls that only report success: `DeleteObject`,
`UpdateChunk`, `RegisterNode`, `NodeHeartbeat` and `MarkNodeOffline`. -/
structure StatusResponse where
  success : Bool := false
  message : Str := []
  deriving DecidableEq, Repr

/-! ## Conversions -/

def ReplicaInfo.toProto (r : ReplicaInfo) : ReplicaLocation :=
  { nodeId := r.nodeId, address := r.address, isPrimary := r.isPrimary, version := r.version }

/-- `to_proto` of a chunk. -/
def ChunkInfo.toProto (chunk : ChunkInfo) : ChunkMetadata :=
  { chunkId := chunk.chunkId
    objectId := chunk.objectId
    chunkIndex := chunk.chunkIndex
    size := chunk.size
    checksum := chunk.checksum
    version := chunk.version
    replicas := chunk.replicas.map ReplicaInfo.toProto }

/-- `to_proto` of an object. -/
def ObjectInfo.toProto (obj : ObjectInfo) : ObjectMetadata :=
  { objectId := obj.objectId
    filename := obj.filename
    size := obj.size
    replicationFactor := obj.replicationFactor
    version := obj.version
    checksum := obj.checksum
    owner := obj.owner
    createdAtMs := obj.createdAt
    updatedAtMs := obj.updatedAt
    chunks := obj.chunks.map ChunkInfo.toProto }

def NodeInfo.toProto (n : NodeInfo) : ClusterNodeInfo :=
  { nodeId := n.id
    address := n.address
    online := n.online
    freeBytes := n.freeBytes
    totalBytes := n.totalBytes
    chunkCount := n.chunkCount }

def ReplicaLocation.fromProto (r : ReplicaLocation) : ReplicaInfo :=
  { nodeId := r.nodeId, address := r.address, isPrimary := r.isPrimary, version := r.version }

/-- `from_proto`.  The client and the recovery manager read a chunk of a response
with the same assignments. -/
def ChunkMetadata.fromProto (chunk : ChunkMetadata) : ChunkInfo :=
  { chunkId := chunk.chunkId
    objectId := chunk.objectId
    chunkIndex := chunk.chunkIndex
    size := chunk.size
    checksum := chunk.checksum
    version := chunk.version
    replicas := chunk.replicas.map ReplicaLocation.fromProto }

/-- The conversions of a chunk lose nothing. -/
@[simp] theorem ChunkInfo.fromProto_toProto (chunk : ChunkInfo) :
    chunk.toProto.fromProto = chunk := by
  have hreplica : ReplicaLocation.fromProto ∘ ReplicaInfo.toProto = id := rfl
  simp [ChunkInfo.toProto, ChunkMetadata.fromProto, hreplica]

/-! ## Handlers -/

namespace MetadataService

/-- `CreateObject`.  The factor `1024U * 1024U` is a 32-bit multiplication. -/
def createObject (cfg : ClusterConfig) (uuid : ℕ → Str) (now : TimestampMs)
    (s : MetadataStore) (req : CreateObjectRequest) :
    Option (CreateObjectResponse × MetadataStore) :=
  let chunkSizeMb := if req.chunkSizeMb > 0 then req.chunkSizeMb else cfg.chunkSizeMb
  let replicationFactor :=
    if req.replicationFactor > 0 then req.replicationFactor else cfg.replicationFactor
  match s.createObject uuid now req.filename req.size replicationFactor req.owner
      (chunkSizeMb * 1024 * 1024) with
  | none => none
  | some (none, s) =>
    some ({ success := false, message := str "Object already exists or creation failed" }, s)
  | some (some obj, s) => some ({ success := true, object := obj.toProto }, s)

/-- The response of a handler that reports `ok`. -/
def status (ok : Bool) (yes no : String) : StatusResponse :=
  { success := ok, message := if ok then str yes else str no }

def deleteObject (s : MetadataStore) (req : DeleteObjectRequest) :
    StatusResponse × MetadataStore :=
  let result :=
    if req.objectId ≠ [] then s.deleteObject req.objectId
    else if req.filename ≠ [] then s.deleteObjectByFilename req.filename
    else (false, s)
  (status result.1 "Deleted" "Not found", result.2)

def locateObject (s : MetadataStore) (req : LocateObjectRequest) : LocateObjectResponse :=
  let obj :=
    if req.objectId ≠ [] then s.locateById req.objectId
    else if req.filename ≠ [] then s.locateByFilename req.filename
    else none
  match obj with
  | none => { success := false, message := str "Object not found" }
  | some obj => { success := true, object := obj.toProto }

def updateChunk (now : TimestampMs) (s : MetadataStore) (req : UpdateChunkRequest) :
    StatusResponse × MetadataStore :=
  let result := s.updateChunk now req.objectId req.chunk.fromProto
  (status result.1 "Updated" "Failed", result.2)

def registerNode (now : TimestampMs) (s : MetadataStore) (req : RegisterNodeRequest) :
    StatusResponse × MetadataStore :=
  let node : NodeInfo :=
    { id := req.nodeId
      address := req.address
      totalBytes := req.totalBytes
      online := true
      lastHeartbeat := now }
  let result := s.registerNode now node
  (status result.1 "Registered" "Failed", result.2)

def nodeHeartbeat (now : TimestampMs) (s : MetadataStore) (req : NodeHeartbeatRequest) :
    StatusResponse × MetadataStore :=
  let result := s.updateNodeHeartbeat now req.nodeId req.freeBytes req.chunkCount
  (status result.1 "OK" "Unknown node", result.2)

/-- The strategy that a request asks for, with that of the configuration for an
unknown name. -/
def strategyOf (cfg : ClusterConfig) (name : Str) : LoadBalanceStrategy :=
  if name = str "round_robin" then .roundRobin
  else if name = str "random" then .random
  else if name = str "least_used" then .leastUsed
  else cfg.loadBalance

def selectNodes (cfg : ClusterConfig) (order : MetadataStore.NodeOrder) (s : MetadataStore)
    (req : SelectNodesRequest) : SelectNodesResponse × MetadataStore :=
  let selected := s.selectNodes order req.count (strategyOf cfg req.strategy)
  ({ nodes := selected.1.map NodeInfo.toProto }, selected.2)

def markNodeOffline (s : MetadataStore) (req : MarkNodeOfflineRequest) :
    StatusResponse × MetadataStore :=
  let result := s.markNodeOffline req.nodeId
  (status result.1 "Marked offline" "Node not found", result.2)

def getUnderReplicatedChunks (cfg : ClusterConfig) (visited : List ObjectInfo)
    (s : MetadataStore) : GetUnderReplicatedChunksResponse :=
  { chunks :=
      (s.getUnderReplicatedChunks visited cfg.replicationFactor).map ChunkInfo.toProto }

end MetadataService

/-! ## Calls -/

/-- The calls of the metadata service that the other components make. -/
inductive MetadataRpc where
  | createObject (req : CreateObjectRequest)
  | deleteObject (req : DeleteObjectRequest)
  | locateObject (req : LocateObjectRequest)
  | updateChunk (req : UpdateChunkRequest)
  | registerNode (req : RegisterNodeRequest)
  | nodeHeartbeat (req : NodeHeartbeatRequest)
  | selectNodes (req : SelectNodesRequest)
  | markNodeOffline (req : MarkNodeOfflineRequest)
  | getUnderReplicatedChunks

abbrev MetadataRpc.Reply : MetadataRpc → Type
  | .createObject _ => CreateObjectResponse
  | .locateObject _ => LocateObjectResponse
  | .selectNodes _ => SelectNodesResponse
  | .getUnderReplicatedChunks => GetUnderReplicatedChunksResponse
  | .deleteObject _ | .updateChunk _ | .registerNode _ | .nodeHeartbeat _
  | .markNodeOffline _ => StatusResponse

/-- The metadata node.  `issued` is a history variable: the ids that
`generate_uuid` has returned for objects and chunks. -/
structure MetadataNode where
  store : MetadataStore := {}
  issued : List Str := []
  deriving DecidableEq

/-- The ids of the object that a response announces, and of its chunks. -/
def CreateObjectResponse.ids (resp : CreateObjectResponse) : List Str :=
  if resp.success then resp.object.objectId :: resp.object.chunks.map ChunkMetadata.chunkId
  else []

/-- `Serves cfg q n r n'`: the metadata node answers `q` with `r`.  Ids are drawn
with `generate_uuid`, which never repeats one. -/
inductive MetadataService.Serves (cfg : ClusterConfig) :
    (q : MetadataRpc) → MetadataNode → q.Reply → MetadataNode → Prop where
  | createObject {n : MetadataNode} {req : CreateObjectRequest} {uuid : ℕ → Str}
      {now : TimestampMs} {resp : CreateObjectResponse} {store : MetadataStore}
      (hdraws : ∀ k, ∃ a b, uuid k = generateUuid a b) (hnodup : resp.ids.Nodup)
      (hfresh : ∀ id ∈ resp.ids, id ∉ n.issued)
      (hcreate : createObject cfg uuid now n.store req = some (resp, store)) :
      Serves cfg (.createObject req) n resp ⟨store, resp.ids ++ n.issued⟩
  | deleteObject (n : MetadataNode) (req : DeleteObjectRequest) :
      Serves cfg (.deleteObject req) n (deleteObject n.store req).1
        { n with store := (deleteObject n.store req).2 }
  | locateObject (n : MetadataNode) (req : LocateObjectRequest) :
      Serves cfg (.locateObject req) n (locateObject n.store req) n
  | updateChunk (n : MetadataNode) (req : UpdateChunkRequest) (now : TimestampMs) :
      Serves cfg (.updateChunk req) n (updateChunk now n.store req).1
        { n with store := (updateChunk now n.store req).2 }
  | registerNode (n : MetadataNode) (req : RegisterNodeRequest) (now : TimestampMs) :
      Serves cfg (.registerNode req) n (registerNode now n.store req).1
        { n with store := (registerNode now n.store req).2 }
  | nodeHeartbeat (n : MetadataNode) (req : NodeHeartbeatRequest) (now : TimestampMs) :
      Serves cfg (.nodeHeartbeat req) n (nodeHeartbeat now n.store req).1
        { n with store := (nodeHeartbeat now n.store req).2 }
  | selectNodes {n : MetadataNode} {req : SelectNodesRequest}
      {order : MetadataStore.NodeOrder}
      (horder : order.Possible n.store (strategyOf cfg req.strategy)) :
      Serves cfg (.selectNodes req) n (selectNodes cfg order n.store req).1
        { n with store := (selectNodes cfg order n.store req).2 }
  | markNodeOffline (n : MetadataNode) (req : MarkNodeOfflineRequest) :
      Serves cfg (.markNodeOffline req) n (markNodeOffline n.store req).1
        { n with store := (markNodeOffline n.store req).2 }
  | getUnderReplicatedChunks {n : MetadataNode} {visited : List ObjectInfo}
      (hvisited : n.store.VisitsObjects visited) :
      Serves cfg .getUnderReplicatedChunks n (getUnderReplicatedChunks cfg visited n.store) n

end StorageEngine
