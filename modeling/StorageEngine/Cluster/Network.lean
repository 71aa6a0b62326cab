import StorageEngine.Chunk.Refinement
import StorageEngine.Lib.Remote
import StorageEngine.Metadata.Service

/-!
# The cluster as its clients see it

One metadata node and the storage nodes, and the calls that clients, replication
and recovery make to them.

The storage service is not part of the repository.  `StorageService.Serves` is
what its callers rely on: `WriteChunk` and `ReplicateChunk` pass the header and
the data to `ChunkStore::write_chunk` and report its result, and `ReadChunk` and
`DeleteChunk` report that of `ChunkStore::read_chunk` and
`ChunkStore::delete_chunk`.  A storage node does not lose the
contents of a file it has written, so a write that it cannot flush fails.
-/

namespace StorageEngine

open ChunkFormat Lib.Remote

/-! ## Storage calls -/

/-- `storage::ChunkHeader`. -/
structure ChunkHeader where
  chunkId : Str := []
  objectId : Str := []
  version : UInt32 := 0
  size : UInt64 := 0
  checksum : Str := []
  createdAtMs : UInt64 := 0
  deriving DecidableEq, Repr

def ChunkHeader.toData (h : ChunkHeader) : ChunkHeaderData :=
  { version := h.version
    chunkId := h.chunkId
    objectId := h.objectId
    size := h.size
    checksum := h.checksum
    createdAtMs := h.createdAtMs }

def ChunkHeader.ofData (h : ChunkHeaderData) : ChunkHeader :=
  { chunkId := h.chunkId
    objectId := h.objectId
    version := h.version
    size := h.size
    checksum := h.checksum
    createdAtMs := h.createdAtMs }

structure WriteChunkRequest where
  header : ChunkHeader := {}
  data : Bytes := []
  deriving DecidableEq, Repr

structure ReplicateChunkRequest where
  header : ChunkHeader := {}
  data : Bytes := []
  sourceNodeId : Str := []
  deriving DecidableEq, Repr

/-- `WriteChunkResponse`, `ReplicateChunkResponse` and `DeleteChunkResponse`.
Nobody reads the other fields. -/
structure WriteResponse where
  success : Bool := false
  deriving DecidableEq, Repr

structure ReadChunkRequest where
  chunkId : Str := []
  deriving DecidableEq, Repr

structure DeleteChunkRequest where
  chunkId : Str := []
  deriving DecidableEq, Repr

structure ReadChunkResponse where
  success : Bool := false
  header : ChunkHeader := {}
  data : Bytes := []
  deriving DecidableEq, Repr

/-- The calls of the storage service that the other components make. -/
inductive StorageRpc where
  | writeChunk (req : WriteChunkRequest)
  | replicateChunk (req : ReplicateChunkRequest)
  | readChunk (req : ReadChunkRequest)
  | deleteChunk (req : DeleteChunkRequest)

abbrev StorageRpc.Reply : StorageRpc → Type
  | .writeChunk _ | .replicateChunk _ | .deleteChunk _ => WriteResponse
  | .readChunk _ => ReadChunkResponse

/-- A storage node: its chunk store and its disk. -/
abbrev StorageNode := ChunkStore × FileSystem

namespace StorageService

/-- The response to a write or a deletion, with none for one that throws. -/
def writeResponse (result : Option Bool) : Option WriteResponse :=
  result.map fun ok => { success := ok }

def readResponse (result : Option (ChunkHeaderData × Bytes)) : ReadChunkResponse :=
  match result with
  | none => { success := false }
  | some (header, data) =>
    { success := true, header := ChunkHeader.ofData header, data := data }

/-- `Serves q n r n'`: the storage node answers `q` with `r`. -/
inductive Serves : (q : StorageRpc) → StorageNode → Option q.Reply → StorageNode → Prop where
  | writeChunk {n n' : StorageNode} {req : WriteChunkRequest} {io : WriteIO}
      {now : TimestampMs} {result : Option Bool} (hflush : io.flushed = none)
      (hwrite : n.1.writeChunk io now n.2 req.header.toData req.data = (result, n')) :
      Serves (.writeChunk req) n (writeResponse result) n'
  | replicateChunk {n n' : StorageNode} {req : ReplicateChunkRequest} {io : WriteIO}
      {now : TimestampMs} {result : Option Bool} (hflush : io.flushed = none)
      (hwrite : n.1.writeChunk io now n.2 req.header.toData req.data = (result, n')) :
      Serves (.replicateChunk req) n (writeResponse result) n'
  | readChunk (n : StorageNode) (req : ReadChunkRequest) :
      Serves (.readChunk req) n (some (readResponse (n.1.readChunk n.2 req.chunkId))) n
  | deleteChunk {n n' : StorageNode} {req : DeleteChunkRequest} {io : RemoveIO}
      {result : Option Bool} (hdelete : n.1.deleteChunk io n.2 req.chunkId = (result, n')) :
      Serves (.deleteChunk req) n (writeResponse result) n'

end StorageService

/-! ## The cluster -/

/-- A call of the cluster.  A storage call goes to an address. -/
inductive Rpc where
  | metadata (q : MetadataRpc)
  | storage (address : Str) (q : StorageRpc)

abbrev Rpc.Reply : Rpc → Type
  | .metadata q => q.Reply
  | .storage _ q => q.Reply

/-- The programs of clients, replication and recovery. -/
abbrev ClusterProg (α : Type) := Prog Rpc Rpc.Reply α

/-- A call of the metadata service. -/
def metadataCall (q : MetadataRpc) : ClusterProg (Option q.Reply) :=
  Prog.rpc (Rpc.metadata q)

/-- A call of the storage service at an address. -/
def storageCall (address : Str) (q : StorageRpc) : ClusterProg (Option q.Reply) :=
  Prog.rpc (Rpc.storage address q)

/-- The metadata node, and the storage nodes of the machines in `ι`. -/
@[ext]
structure Cluster (ι : Type) where
  metadata : MetadataNode
  nodes : ι → StorageNode

variable {ι : Type} [DecidableEq ι]

/-- The cluster in which the node of machine `i` is `n`. -/
def Cluster.setNode (c : Cluster ι) (i : ι) (n : StorageNode) : Cluster ι :=
  { c with nodes := Function.update c.nodes i n }

@[simp] theorem Cluster.setNode_metadata (c : Cluster ι) (i : ι) (n : StorageNode) :
    (c.setNode i n).metadata = c.metadata := rfl

@[simp] theorem Cluster.setNode_self (c : Cluster ι) (i : ι) (n : StorageNode) :
    (c.setNode i n).nodes i = n := by
  simp [setNode]

@[simp] theorem Cluster.setNode_of_ne (c : Cluster ι) {i j : ι} (n : StorageNode)
    (h : j ≠ i) : (c.setNode i n).nodes j = c.nodes j := by
  simp [setNode, h]

/-- `Cluster.Serves cfg reach q c r c'`: the cluster answers `q` with `r`.  The
metadata service runs with the configuration `cfg`, and `reach` gives the machine
that an address leads to. -/
inductive Cluster.Serves (cfg : ClusterConfig) (reach : Str → Option ι) :
    (q : Rpc) → Cluster ι → Option q.Reply → Cluster ι → Prop where
  | metadata {c : Cluster ι} {q : MetadataRpc} {r : q.Reply} {m : MetadataNode}
      (h : MetadataService.Serves cfg q c.metadata r m) :
      Serves cfg reach (.metadata q) c (some r) { c with metadata := m }
  | storage {c : Cluster ι} {address : Str} {i : ι} {q : StorageRpc} {r : Option q.Reply}
      {n : StorageNode} (hreach : reach address = some i)
      (h : StorageService.Serves q (c.nodes i) r n) :
      Serves cfg reach (.storage address q) c r (c.setNode i n)

/-! ## What the nodes store -/

/-- The node has the chunk with this payload, and with the checksum of it. -/
def StorageNode.Stores (n : StorageNode) (chunkId : Str) (data : Bytes) : Prop :=
  ∃ header, n.1.readChunk n.2 chunkId = some (header, data) ∧
    header.checksum = Checksum.sha256 data

/-- What a storage call writes. -/
def StorageRpc.written : StorageRpc → Option (ChunkHeader × Bytes)
  | .writeChunk req => some (req.header, req.data)
  | .replicateChunk req => some (req.header, req.data)
  | .readChunk _ | .deleteChunk _ => none

/-- The chunk that a storage call deletes. -/
def StorageRpc.deleted : StorageRpc → Option Str
  | .deleteChunk req => some req.chunkId
  | .writeChunk _ | .replicateChunk _ | .readChunk _ => none

namespace StorageService

private theorem stores_of_lookup {n n' : StorageNode} {chunkId : Str} {data : Bytes}
    (hbase : n'.1.basePath = n.1.basePath)
    (hfile : n'.2.lookup (ChunkStore.chunkFilePath n.1.basePath chunkId) =
      n.2.lookup (ChunkStore.chunkFilePath n.1.basePath chunkId))
    (h : n.Stores chunkId data) : n'.Stores chunkId data := by
  obtain ⟨header, hread, hchecksum⟩ := h
  refine ⟨header, ?_, hchecksum⟩
  rw [ChunkStore.readChunk, hbase, hfile]
  exact hread

section Write

variable {io : WriteIO} {now : TimestampMs} {n n' : StorageNode} {header : ChunkHeaderData}
  {data : Bytes} {result : Option Bool} (hflush : io.flushed = none)
  (hwrite : n.1.writeChunk io now n.2 header data = (result, n'))

include hflush hwrite

/-- An acknowledged write is stored. -/
theorem writeChunk_stores (hchunk : header.chunkId.length < 2 ^ 32)
    (hobject : header.objectId.length < 2 ^ 32) (hok : result = some true) :
    n'.Stores header.chunkId data := by
  obtain ⟨hbase, hfiles⟩ := ChunkStore.writeChunk_files hflush hwrite
  rcases hfiles with ⟨-, haccepts, hfiles⟩ | ⟨hresult, -⟩
  · obtain ⟨hfits, hsize, hchecksum⟩ :=
      @ChunkStore.storable_of_accepts now _ _ hchunk hobject haccepts
    refine ⟨ChunkStore.filledHeader now header data, ?_, hchecksum⟩
    rw [ChunkStore.readChunk, hbase, hfiles, if_pos rfl]
    exact deserialize_serialize hfits hsize hchecksum
  · exact absurd hok hresult

/-- A write of a chunk that is stored with the same payload, or of another chunk,
leaves it stored. -/
theorem writeChunk_keeps (hchunk : header.chunkId.length < 2 ^ 32)
    (hobject : header.objectId.length < 2 ^ 32) {chunkId : Str} {stored : Bytes}
    (hsame : header.chunkId = chunkId → data = stored) (h : n.Stores chunkId stored) :
    n'.Stores chunkId stored := by
  obtain ⟨hbase, hfiles⟩ := ChunkStore.writeChunk_files hflush hwrite
  rcases hfiles with ⟨hresult, -, hfiles⟩ | ⟨-, hfiles⟩
  · by_cases hid : header.chunkId = chunkId
    · cases hsame hid
      cases hid
      exact writeChunk_stores hflush hwrite hchunk hobject hresult
    · exact stores_of_lookup hbase (by rw [hfiles, if_neg (Ne.symm hid)]) h
  · exact stores_of_lookup hbase (hfiles chunkId) h

end Write

/-- No call makes a node lose a chunk that it does not delete, when only its payload is
ever written under its id. -/
theorem Serves.keeps {q : StorageRpc} {n n' : StorageNode} {r : Option q.Reply}
    (h : Serves q n r n') {chunkId : Str} {stored : Bytes} (hkept : q.deleted ≠ some chunkId)
    (hwritten : ∀ header data, q.written = some (header, data) →
      header.chunkId.length < 2 ^ 32 ∧ header.objectId.length < 2 ^ 32 ∧
        (header.chunkId = chunkId → data = stored))
    (hstored : n.Stores chunkId stored) : n'.Stores chunkId stored := by
  cases h with
  | writeChunk hflush hwrite =>
    obtain ⟨hchunk, hobject, hsame⟩ := hwritten _ _ rfl
    exact writeChunk_keeps hflush hwrite hchunk hobject hsame hstored
  | replicateChunk hflush hwrite =>
    obtain ⟨hchunk, hobject, hsame⟩ := hwritten _ _ rfl
    exact writeChunk_keeps hflush hwrite hchunk hobject hsame hstored
  | readChunk => exact hstored
  | deleteChunk hdelete =>
    obtain ⟨hbase, hfiles⟩ := ChunkStore.deleteChunk_cases hdelete
    refine stores_of_lookup hbase ?_ hstored
    rcases hfiles with ⟨-, hfiles⟩ | ⟨-, hfiles⟩
    · rw [hfiles, if_neg fun hid => hkept (congrArg some hid.symm)]
    · rw [hfiles]

/-- An acknowledged `WriteChunk` is stored. -/
theorem Serves.stores_write {req : WriteChunkRequest} {n n' : StorageNode}
    {resp : WriteResponse} (h : Serves (.writeChunk req) n (some resp) n')
    (hok : resp.success = true) (hchunk : req.header.chunkId.length < 2 ^ 32)
    (hobject : req.header.objectId.length < 2 ^ 32) :
    n'.Stores req.header.chunkId req.data := by
  generalize hr : some resp = r at h
  cases h with
  | @writeChunk _ _ _ _ _ result hflush hwrite =>
    cases result with
    | none => cases hr
    | some ok =>
      cases hr
      have hstores := writeChunk_stores hflush hwrite hchunk hobject (congrArg some hok)
      exact hstores

/-- An acknowledged `ReplicateChunk` is stored. -/
theorem Serves.stores_replicate {req : ReplicateChunkRequest} {n n' : StorageNode}
    {resp : WriteResponse} (h : Serves (.replicateChunk req) n (some resp) n')
    (hok : resp.success = true) (hchunk : req.header.chunkId.length < 2 ^ 32)
    (hobject : req.header.objectId.length < 2 ^ 32) :
    n'.Stores req.header.chunkId req.data := by
  generalize hr : some resp = r at h
  cases h with
  | @replicateChunk _ _ _ _ _ result hflush hwrite =>
    cases result with
    | none => cases hr
    | some ok =>
      cases hr
      have hstores := writeChunk_stores hflush hwrite hchunk hobject (congrArg some hok)
      exact hstores

/-- A node can accept any write whose header fits its data. -/
theorem serves_accepted {req : WriteChunkRequest} (n : StorageNode)
    (haccepts : ChunkStore.accepts req.header.toData req.data = true) :
    ∃ n', Serves (.writeChunk req) n (some { success := true }) n' := by
  have hwrite : ∃ n', n.1.writeChunk .ok 0 n.2 req.header.toData req.data = (some true, n') := by
    simp [ChunkStore.writeChunk, haccepts, WriteIO.ok]
  obtain ⟨n', hwrite⟩ := hwrite
  exact ⟨n', .writeChunk rfl hwrite⟩

/-- A node that stores the chunk answers a read with it. -/
theorem Serves.read {req : ReadChunkRequest} {n n' : StorageNode}
    {r : Option ReadChunkResponse} (h : Serves (.readChunk req) n r n') {data : Bytes}
    (hstored : n.Stores req.chunkId data) :
    n' = n ∧ ∃ resp, r = some resp ∧ resp.success = true ∧ resp.data = data ∧
      resp.header.checksum = Checksum.sha256 data := by
  cases h with
  | readChunk =>
    obtain ⟨header, hread, hchecksum⟩ := hstored
    refine ⟨rfl, _, rfl, ?_⟩
    rw [hread]
    exact ⟨rfl, rfl, hchecksum⟩

end StorageService

end StorageEngine
