import StorageEngine.Replication.ReplicationManager

/-!
# The recovery manager

`src/recovery/recovery_manager.cpp`: the two repair passes.  They share the loop
over the under-replicated chunks and differ in how they start.

A pass calls `now_ms()` once for each chunk that it replicates, and takes the
stream of these times.
-/

namespace StorageEngine

open Lib.Remote

namespace RecoveryManager

structure RecoveryResult where
  success : Bool := false
  chunksRecovered : UInt32 := 0
  message : Str := []
  deriving DecidableEq, Repr

/-- `fetch_chunk_from_replica`, for the replicas that are left. -/
def fetchChunkFromReplica (chunk : ChunkInfo) (excludeNode : Str) :
    List ReplicaInfo → ClusterProg (Option Bytes)
  | [] => pure none
  | rep :: reps => do
    if rep.nodeId = excludeNode then fetchChunkFromReplica chunk excludeNode reps
    else
      match ← ReplicationManager.readFromReplica rep chunk.chunkId with
      | some data => return some data
      | none => fetchChunkFromReplica chunk excludeNode reps

/-- `upd_req` of a repaired chunk. -/
def updateRequest (chunk : ChunkInfo) (replicas : List ReplicaInfo) : UpdateChunkRequest :=
  { objectId := chunk.objectId
    chunk := { chunk with version := chunk.version + 1, replicas := replicas }.toProto }

/-- One turn of the loop: whether the chunk was recovered. -/
def repairChunk (cfg : ClusterConfig) (m : ReplicationManager) (now : TimestampMs)
    (excludeNode : Str) (chunk : ChunkInfo) : ClusterProg Bool := do
  match ← fetchChunkFromReplica chunk excludeNode chunk.replicas with
  | none => return false
  | some data =>
    let result ← m.replicateChunk now chunk data cfg.replicationFactor cfg.writeAck
    if result.success = true then
      -- the outcome of this call is not looked at
      let _ ← metadataCall (.updateChunk (updateRequest chunk result.replicas))
      return true
    else return false

/-- The loop over the under-replicated chunks: how many were recovered. -/
def repairChunks (cfg : ClusterConfig) (m : ReplicationManager) (excludeNode : Str) :
    (ℕ → TimestampMs) → List ChunkMetadata → UInt32 → ClusterProg UInt32
  | _, [], recovered => pure recovered
  | now, pbChunk :: rest, recovered => do
    let ok ← repairChunk cfg m (now 0) excludeNode pbChunk.fromProto
    repairChunks cfg m excludeNode (fun n => now (n + 1)) rest
      (if ok then recovered + 1 else recovered)

def recoverFailedNode (cfg : ClusterConfig) (m : ReplicationManager)
    (now : ℕ → TimestampMs) (failedNodeId : Str) : ClusterProg RecoveryResult := do
  -- the outcomes of these two calls are not looked at
  let _ ← metadataCall (.markNodeOffline { nodeId := failedNodeId })
  let under ← metadataCall .getUnderReplicatedChunks
  let chunks :=
    match under with
    | some resp => resp.chunks
    | none => []
  let recovered ← repairChunks cfg m failedNodeId now chunks 0
  return { success := true
           chunksRecovered := recovered
           message := str "Recovery complete" }

def repairUnderReplicatedChunks (cfg : ClusterConfig) (m : ReplicationManager)
    (now : ℕ → TimestampMs) : ClusterProg RecoveryResult := do
  match ← metadataCall .getUnderReplicatedChunks with
  | none => return { message := str "Failed to query under-replicated chunks" }
  | some resp =>
    let recovered ← repairChunks cfg m [] now resp.chunks 0
    return { success := true
             chunksRecovered := recovered
             message := str "Repair complete" }

end RecoveryManager

end StorageEngine
