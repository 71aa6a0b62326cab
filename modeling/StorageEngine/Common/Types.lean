import Mathlib.Data.Finmap

/-!
# The shared data types

`include/common/types.hpp` and the three containers that every component
uses.  A `std::string` has no encoding in this code base: file names, ids and
checksums are compared and copied byte by byte.  `Str` is therefore a list of
bytes, the same type as a `std::vector<uint8_t>`.

A `std::unordered_map` is a `Finmap`.  Its entries have no order, and an
operation of the source that iterates over a map takes the order it meets as
an argument of its own.
-/

namespace StorageEngine

/-- `std::string`. -/
abbrev Str := List UInt8

/-- `std::vector<uint8_t>`. -/
abbrev Bytes := List UInt8

/-- `std::unordered_map<K, V>`. -/
abbrev UnorderedMap (K V : Type) := Finmap fun _ : K => V

/-- The bytes of an ASCII string literal. -/
def str (literal : String) : Str :=
  literal.toList.map fun c => UInt8.ofNat c.toNat

/-- `std::min` of two `uint64_t`. -/
theorem toNat_min (a b : UInt64) : (min a b).toNat = min a.toNat b.toNat := by
  change (if a ≤ b then a else b).toNat = _
  split
  · next h => exact (Nat.min_eq_left (UInt64.le_iff_toNat_le.mp h)).symm
  · next h =>
    exact (Nat.min_eq_right (Nat.le_of_not_le fun hle => h (UInt64.le_iff_toNat_le.mpr hle))).symm

/-- `using TimestampMs = uint64_t`. -/
abbrev TimestampMs := UInt64

structure NodeInfo where
  id : Str := []
  address : Str := []
  online : Bool := false
  freeBytes : UInt64 := 0
  totalBytes : UInt64 := 0
  chunkCount : UInt64 := 0
  lastHeartbeat : TimestampMs := 0
  deriving DecidableEq, Repr

structure ReplicaInfo where
  nodeId : Str := []
  address : Str := []
  isPrimary : Bool := false
  version : UInt32 := 0
  deriving DecidableEq, Repr

structure ChunkInfo where
  chunkId : Str := []
  objectId : Str := []
  chunkIndex : UInt32 := 0
  size : UInt64 := 0
  checksum : Str := []
  version : UInt32 := 0
  replicas : List ReplicaInfo := []
  deriving DecidableEq, Repr

structure ObjectInfo where
  objectId : Str := []
  filename : Str := []
  size : UInt64 := 0
  replicationFactor : UInt32 := 3
  version : UInt32 := 0
  checksum : Str := []
  owner : Str := []
  createdAt : TimestampMs := 0
  updatedAt : TimestampMs := 0
  chunks : List ChunkInfo := []
  deriving DecidableEq, Repr

inductive LoadBalanceStrategy where
  | roundRobin
  | leastUsed
  | random
  deriving DecidableEq, Repr

inductive WriteAckPolicy where
  | majority
  | all
  deriving DecidableEq, Repr

structure ClusterConfig where
  replicationFactor : UInt32 := 3
  chunkSizeMb : UInt32 := 4
  heartbeatIntervalSec : UInt32 := 5
  heartbeatTimeoutSec : UInt32 := 15
  loadBalance : LoadBalanceStrategy := .leastUsed
  writeAck : WriteAckPolicy := .majority
  metadataAddress : Str := str "localhost:50051"
  coordinatorAddress : Str := str "localhost:50052"
  deriving DecidableEq, Repr

/-- The `required` of `StorageClient::put` and of
`ReplicationManager::replicate_chunk`: how many acknowledged writes a chunk
needs. -/
def WriteAckPolicy.required (ack : WriteAckPolicy)
    (replicationFactor : UInt32) : UInt32 :=
  match ack with
  | .all => replicationFactor
  | .majority => replicationFactor / 2 + 1

end StorageEngine
