import StorageEngine.Cluster.Network

/-!
# The storage client

`src/client/storage_client.cpp`: `put`, `get`, `delete_object` and `head`, and the loop
over the selected nodes that `put` shares with `ReplicationManager::replicate_chunk`.

A client runs with the configuration of its own process.
-/

namespace StorageEngine

open Lib.Remote

/-! ## Writing to the selected nodes -/

/-- The variables of the loop over the selected nodes: `success_count`,
`primary_set` and the list of replicas. -/
structure WriteProgress where
  successCount : UInt32 := 0
  primarySet : Bool := false
  replicas : List ReplicaInfo := []
  deriving DecidableEq, Repr

/-- The node has accepted the chunk. -/
def WriteProgress.record (p : WriteProgress) (node : ClusterNodeInfo)
    (version : UInt32) : WriteProgress :=
  { successCount := p.successCount + 1
    primarySet := true
    replicas := p.replicas ++
      [{ nodeId := node.nodeId
         address := node.address
         isPrimary := !p.primarySet
         version := version }] }

/-- The loop over the selected nodes. -/
def writeToNodes (write : ClusterNodeInfo → ClusterProg Bool) (version : UInt32) :
    List ClusterNodeInfo → WriteProgress → ClusterProg WriteProgress
  | [], p => pure p
  | node :: nodes, p => do
    let ok ← write node
    writeToNodes write version nodes (if ok then p.record node version else p)

/-- `status.ok() && resp.success()` of a write. -/
def accepted (resp : Option WriteResponse) : Bool :=
  match resp with
  | some resp => resp.success
  | none => false

namespace StorageClient

/-! ## Put -/

structure PutResult where
  success : Bool := false
  objectId : Str := []
  message : Str := []
  deriving DecidableEq, Repr

def writeChunkToNode (address : Str) (chunk : ChunkInfo) (data : Bytes) (objectId : Str) :
    ClusterProg Bool := do
  let resp ← storageCall address (.writeChunk
    { header :=
        { chunkId := chunk.chunkId
          objectId := objectId
          version := chunk.version
          size := UInt64.ofNat data.length
          checksum := Checksum.sha256 data }
      data := data })
  return accepted resp

/-- The bytes of `data` from `offset` on, `size` of them. -/
def slice (data : Bytes) (offset size : UInt64) : Bytes :=
  (data.drop offset.toNat).take size.toNat

/-- The bytes of a chunk: `chunk_data`. -/
def chunkDataOf (data : Bytes) (offset size : UInt64) : Bytes :=
  if size > 0 then slice data offset size else []

/-- The chunk that `put` uploads, before it has replicas. -/
def uploadOf (obj : ObjectMetadata) (chunkPb : ChunkMetadata) (chunkData : Bytes) :
    ChunkInfo :=
  { chunkId := chunkPb.chunkId
    objectId := obj.objectId
    chunkIndex := chunkPb.chunkIndex
    size := chunkPb.size
    checksum := Checksum.sha256 chunkData
    version := 1 }

/-- The message of a chunk with too few replicas. -/
def quorumMessage (chunkId : Str) : Str :=
  str "Failed to achieve replication quorum for chunk " ++ chunkId

/-- One turn of the loop of `put`, for the chunk at `offset`.  The result is the
message of an error exit. -/
def putChunk (cfg : ClusterConfig) (data : Bytes) (obj : ObjectMetadata)
    (chunkPb : ChunkMetadata) (offset : UInt64) : ClusterProg (Option Str) := do
  let chunkData := chunkDataOf data offset chunkPb.size
  let chunk := uploadOf obj chunkPb chunkData
  match ← metadataCall (.selectNodes { count := cfg.replicationFactor }) with
  | none => return some (str "Node selection failed")
  | some selected =>
    let progress ← writeToNodes
      (fun node => writeChunkToNode node.address chunk chunkData obj.objectId) 1
      selected.nodes {}
    if progress.successCount < cfg.writeAck.required cfg.replicationFactor then
      let _ ← metadataCall (.deleteObject { objectId := obj.objectId })
      return some (quorumMessage chunk.chunkId)
    else
      -- the outcome of this call is not looked at
      let _ ← metadataCall (.updateChunk
        { objectId := obj.objectId
          chunk := { chunk with replicas := progress.replicas }.toProto })
      return none

/-- The loop of `put`. -/
def putChunks (cfg : ClusterConfig) (data : Bytes) (obj : ObjectMetadata) :
    List ChunkMetadata → UInt64 → ClusterProg (Option Str)
  | [], _ => pure none
  | chunkPb :: rest, offset => do
    match ← putChunk cfg data obj chunkPb offset with
    | some message => return some message
    | none => putChunks cfg data obj rest (offset + chunkPb.size)

/-- `create_req`. -/
def createRequest (cfg : ClusterConfig) (filename : Str) (data : Bytes) (owner : Str) :
    CreateObjectRequest :=
  { filename := filename
    size := UInt64.ofNat data.length
    replicationFactor := cfg.replicationFactor
    owner := owner
    chunkSizeMb := cfg.chunkSizeMb }

def put (cfg : ClusterConfig) (filename : Str) (data : Bytes) (owner : Str) :
    ClusterProg PutResult := do
  match ← metadataCall (.createObject (createRequest cfg filename data owner)) with
  | none => return { message := str "CreateObject failed" }
  | some created =>
    if created.success = false then
      return { message :=
        if created.message = [] then str "CreateObject failed" else created.message }
    else
      match ← putChunks cfg data created.object created.object.chunks 0 with
      | some message => return { objectId := created.object.objectId, message := message }
      | none =>
        return { success := true
                 objectId := created.object.objectId
                 message := str "Upload complete" }

/-! ## Get -/

structure GetResult where
  success : Bool := false
  data : Bytes := []
  metadata : ObjectInfo := {}
  message : Str := []
  deriving DecidableEq, Repr

/-- `read_chunk_from_replicas`, for the replicas that are left. -/
def readChunkFromReplicas (chunk : ChunkInfo) :
    List ReplicaInfo → ClusterProg (Option Bytes)
  | [] => pure none
  | rep :: reps => do
    match ← storageCall rep.address (.readChunk { chunkId := chunk.chunkId }) with
    | none => readChunkFromReplicas chunk reps
    | some resp =>
      if resp.success = false then readChunkFromReplicas chunk reps
      else if chunk.checksum ≠ [] ∧ resp.header.checksum ≠ chunk.checksum then
        readChunkFromReplicas chunk reps
      else return some resp.data

/-- The loop of `get`.  The result is the message of an error exit, and the data
read so far. -/
def getChunks : List ChunkMetadata → Bytes → ClusterProg (Option Str × Bytes)
  | [], data => pure (none, data)
  | chunkPb :: rest, data => do
    let chunk := chunkPb.fromProto
    match ← readChunkFromReplicas chunk chunk.replicas with
    | none => return (some (str "Failed to read chunk " ++ chunk.chunkId), data)
    | some chunkData => getChunks rest (data ++ chunkData)

def get (filename : Str) : ClusterProg GetResult := do
  match ← metadataCall (.locateObject { filename := filename }) with
  | none => return { message := str "Object not found" }
  | some located =>
    if located.success = false then return { message := str "Object not found" }
    else
      let obj := located.object
      let metadata : ObjectInfo :=
        { objectId := obj.objectId
          filename := obj.filename
          size := obj.size
          chunks := List.replicate obj.chunks.length {} }
      let (failure, data) ← getChunks obj.chunks []
      match failure with
      | some message => return { data := data, metadata := metadata, message := message }
      | none =>
        return { success := true
                 data := data
                 metadata := metadata
                 message := str "Download complete" }

/-! ## Delete -/

/-- The inner loop of `delete_object`, for the replicas that are left.  No outcome is
looked at. -/
def deleteReplicas (chunkId : Str) : List ReplicaLocation → ClusterProg Unit
  | [] => pure ()
  | rep :: reps => do
    let _ ← storageCall rep.address (.deleteChunk { chunkId := chunkId })
    deleteReplicas chunkId reps

/-- The outer loop of `delete_object`. -/
def deleteChunks : List ChunkMetadata → ClusterProg Unit
  | [] => pure ()
  | chunk :: rest => do
    deleteReplicas chunk.chunkId chunk.replicas
    deleteChunks rest

def deleteObject (filename : Str) : ClusterProg Bool := do
  match ← metadataCall (.locateObject { filename := filename }) with
  | none => return false
  | some located =>
    if located.success = false then return false
    else
      deleteChunks located.object.chunks
      match ← metadataCall (.deleteObject { filename := filename }) with
      | none => return false
      | some resp => return resp.success

/-! ## Head -/

def head (filename : Str) : ClusterProg (Option ObjectInfo) := do
  match ← metadataCall (.locateObject { filename := filename }) with
  | none => return none
  | some located =>
    if located.success = false then return none
    else
      let obj := located.object
      return some
        { objectId := obj.objectId
          filename := obj.filename
          size := obj.size
          replicationFactor := obj.replicationFactor
          version := obj.version
          checksum := obj.checksum
          owner := obj.owner }

end StorageClient

end StorageEngine
