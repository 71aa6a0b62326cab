import StorageEngine.Cluster.Network

/-!
# The heartbeat manager

`src/heartbeat/heartbeat_manager.cpp`: how a storage node registers itself, and
one turn of its heartbeat loop.  No call looks at its response.
-/

namespace StorageEngine

open Lib.Remote

/-- A `HeartbeatManager`, which runs on a storage node. -/
structure HeartbeatManager where
  nodeId : Str := []
  deriving DecidableEq, Repr

namespace HeartbeatManager

def registerWithMetadata (m : HeartbeatManager) (address : Str) (totalBytes : UInt64) :
    ClusterProg Unit := do
  let _ ← metadataCall (.registerNode
    { nodeId := m.nodeId, address := address, totalBytes := totalBytes })

/-- The call of one turn of `heartbeat_loop`. -/
def heartbeat (m : HeartbeatManager) (freeBytes chunkCount : UInt64) : ClusterProg Unit := do
  let _ ← metadataCall (.nodeHeartbeat
    { nodeId := m.nodeId, freeBytes := freeBytes, chunkCount := chunkCount })

end HeartbeatManager

end StorageEngine
