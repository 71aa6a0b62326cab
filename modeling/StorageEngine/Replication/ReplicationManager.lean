import StorageEngine.Client.StorageClient

/-!
# The replication manager

`src/replication/replication_manager.cpp`: copying a chunk to the nodes that the
metadata service selects, and reading it from one replica.
-/

namespace StorageEngine

open Lib.Remote

/-- A `ReplicationManager`, which runs on a storage node. -/
structure ReplicationManager where
  localNodeId : Str := []
  localAddress : Str := []
  deriving DecidableEq, Repr

namespace ReplicationManager

structure ReplicationResult where
  success : Bool := false
  message : Str := []
  replicas : List ReplicaInfo := []
  deriving DecidableEq, Repr

def replicateToNode (m : ReplicationManager) (address : Str) (header : ChunkHeaderData)
    (data : Bytes) : ClusterProg Bool := do
  let resp ← storageCall address (.replicateChunk
    { header := ChunkHeader.ofData header, data := data, sourceNodeId := m.localNodeId })
  return accepted resp

/-- The write to one selected node.  The local node is written with `WriteChunk`,
which does not send the time of creation. -/
def writeToSelected (m : ReplicationManager) (header : ChunkHeaderData) (data : Bytes)
    (node : ClusterNodeInfo) : ClusterProg Bool :=
  if node.nodeId = m.localNodeId then do
    let resp ← storageCall m.localAddress (.writeChunk
      { header := ChunkHeader.ofData { header with createdAtMs := 0 }, data := data })
    return accepted resp
  else m.replicateToNode node.address header data

/-- `header` of `replicate_chunk`. -/
def headerOf (now : TimestampMs) (chunkInfo : ChunkInfo) (data : Bytes) : ChunkHeaderData :=
  { version := chunkInfo.version
    chunkId := chunkInfo.chunkId
    objectId := chunkInfo.objectId
    size := UInt64.ofNat data.length
    checksum := Checksum.sha256 data
    createdAtMs := now }

/-- The end of `replicate_chunk`. -/
def resultOf (progress : WriteProgress) (required : UInt32) : ReplicationResult :=
  { success := decide (required ≤ progress.successCount)
    message :=
      if required ≤ progress.successCount then str "Replication successful"
      else str "Insufficient replicas (" ++ str (toString progress.successCount.toNat) ++
        str "/" ++ str (toString required.toNat) ++ str ")"
    replicas := progress.replicas }

def replicateChunk (m : ReplicationManager) (now : TimestampMs) (chunkInfo : ChunkInfo)
    (data : Bytes) (replicationFactor : UInt32) (ackPolicy : WriteAckPolicy) :
    ClusterProg ReplicationResult := do
  match ← metadataCall (.selectNodes
      { count := replicationFactor, strategy := str "least_used" }) with
  | none => return { message := str "No available nodes" }
  | some selected =>
    if selected.nodes = [] then return { message := str "No available nodes" }
    else
      let progress ← writeToNodes (m.writeToSelected (headerOf now chunkInfo data) data)
        chunkInfo.version selected.nodes {}
      return resultOf progress (ackPolicy.required replicationFactor)

def readFromReplica (replica : ReplicaInfo) (chunkId : Str) : ClusterProg (Option Bytes) := do
  match ← storageCall replica.address (.readChunk { chunkId := chunkId }) with
  | none => return none
  | some resp => return if resp.success = true then some resp.data else none

end ReplicationManager

end StorageEngine
