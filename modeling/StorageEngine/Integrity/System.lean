import StorageEngine.Client.Upload
import StorageEngine.Cluster.Calls
import StorageEngine.Heartbeat.HeartbeatManager
import StorageEngine.Lib.Concurrent
import StorageEngine.Recovery.RecoveryManager

/-!
# The running system

Any number of puts, gets, repair passes and heartbeats on one cluster.

`Process` says what runs, and `System` is the state that the processes share: the
cluster, and the history of what was uploaded.  `Valid` is the invariant of the
system and `Grows` is what the processes may do to it: uploads are only added, and
a node keeps every uploaded chunk that it stores.
-/

namespace StorageEngine

open Lib.Remote MetadataStore StorageClient

variable {ι : Type}

/-! ## Processes -/

/-- The machine that an address leads to, and the machine of a node id. -/
structure Deployment (ι : Type) where
  reach : Str → Option ι
  home : Str → ι

/-- The address is that of the node. -/
def Deployment.Located (d : Deployment ι) (nodeId address : Str) : Prop :=
  d.reach address = some (d.home nodeId)

/-- The arguments of one `put`, and the configuration of its client. -/
structure Upload where
  cfg : ClusterConfig := {}
  filename : Str
  data : Bytes
  owner : Str := str "default"
  short : data.length < 2 ^ 64

/-- What runs.  A storage node announces its own address, and a replication manager
runs on the node that it takes for the local one. -/
inductive Process (d : Deployment ι) where
  | put (u : Upload)
  | get (filename : Str)
  | repair (cfg : ClusterConfig) (m : ReplicationManager) (now : ℕ → TimestampMs)
      (hlocal : d.Located m.localNodeId m.localAddress)
  | recover (cfg : ClusterConfig) (m : ReplicationManager) (now : ℕ → TimestampMs)
      (failedNodeId : Str) (hlocal : d.Located m.localNodeId m.localAddress)
  | register (m : HeartbeatManager) (address : Str) (totalBytes : UInt64)
      (hlocal : d.Located m.nodeId address)
  | heartbeat (m : HeartbeatManager) (freeBytes chunkCount : UInt64)

/-- The value of a process. -/
inductive Outcome where
  | put (result : PutResult)
  | got (result : GetResult)
  | repaired (result : RecoveryManager.RecoveryResult)
  | reported

def Process.program {d : Deployment ι} : Process d → ClusterProg Outcome
  | .put u => do return .put (← StorageClient.put u.cfg u.filename u.data u.owner)
  | .get filename => do return .got (← StorageClient.get filename)
  | .repair cfg m now _ => do
    return .repaired (← RecoveryManager.repairUnderReplicatedChunks cfg m now)
  | .recover cfg m now failedNodeId _ => do
    return .repaired (← RecoveryManager.recoverFailedNode cfg m now failedNodeId)
  | .register m address totalBytes _ => do
    m.registerWithMetadata address totalBytes
    return .reported
  | .heartbeat m freeBytes chunkCount => do
    m.heartbeat freeBytes chunkCount
    return .reported

/-! ## The shared state -/

/-- An object that a put has created. -/
structure Entry where
  upload : Upload
  object : ObjectMetadata

/-- The cluster, with the history of the objects that puts have created. -/
structure System (ι : Type) where
  cluster : Cluster ι
  uploads : List Entry := []

/-- What a call adds to the history. -/
def Process.created {d : Deployment ι} (p : Process d) :
    (q : Rpc) → Option q.Reply → List Entry
  | .metadata (.createObject _), some resp =>
    match p with
    | .put u => if resp.success = true then [⟨u, resp.object⟩] else []
    | _ => []
  | _, _ => []

/-- The cluster serves a call of the process. -/
def System.Serves [DecidableEq ι] (svc : ClusterConfig) (d : Deployment ι) (p : Process d)
    (q : Rpc) (s : System ι) (r : Option q.Reply) (s' : System ι) : Prop :=
  Cluster.Serves svc d.reach q s.cluster r s'.cluster ∧ s'.uploads = p.created q r ++ s.uploads

/-! ## The invariant -/

/-- The ids of an entry. -/
def Entry.ids (e : Entry) : List Str :=
  e.object.objectId :: e.object.chunks.map ChunkMetadata.chunkId

/-- The object fits the upload. -/
structure Entry.Sound (e : Entry) : Prop where
  filename : e.object.filename = e.upload.filename
  parent : ∀ c ∈ e.object.chunks, c.objectId = e.object.objectId
  sizes : (0 : UInt64).toNat + totalSize e.object.chunks = e.upload.data.length
  id_length : ∀ id ∈ e.ids, id.length = 36

/-- The chunk belongs to an upload, with this data. -/
def System.Owned (s : System ι) (chunkId : Str) (data : Bytes) : Prop :=
  ∃ e ∈ s.uploads, (chunkId, data) ∈ pieces e.upload.data e.object.chunks 0

/-- The machine stores the chunk with the data of its upload. -/
def System.StoredOn (s : System ι) (i : ι) (chunkId : Str) : Prop :=
  ∃ data, s.Owned chunkId data ∧ (s.cluster.nodes i).Stores chunkId data

/-- The replica names a node that stores the chunk with the data of its upload. -/
def System.Held (d : Deployment ι) (s : System ι) (r : ReplicaInfo) (chunkId : Str) : Prop :=
  d.Located r.nodeId r.address ∧ s.StoredOn (d.home r.nodeId) chunkId

/-- What an update of a chunk leaves as it was planned. -/
def ChunkMetadata.layout (c : ChunkMetadata) : Str × Str × UInt32 × UInt64 :=
  (c.chunkId, c.objectId, c.chunkIndex, c.size)

/-- The stored object is that of the entry, with replicas that hold its data. -/
structure Entry.Describes (d : Deployment ι) (s : System ι) (e : Entry) (o : ObjectInfo) :
    Prop where
  objectId : o.objectId = e.object.objectId
  filename : o.filename = e.object.filename
  layout : o.chunks.map (fun c => c.toProto.layout) = e.object.chunks.map ChunkMetadata.layout
  held : ∀ c ∈ o.chunks, ∀ r ∈ c.replicas, s.Held d r c.chunkId

structure System.Valid (d : Deployment ι) (s : System ι) : Prop where
  sound : ∀ e ∈ s.uploads, e.Sound
  distinct : (s.uploads.flatMap Entry.ids).Nodup
  issued : ∀ id ∈ s.uploads.flatMap Entry.ids, id ∈ s.cluster.metadata.issued
  indexed : Indexed s.cluster.metadata.store
  objects : ∀ {id o}, s.cluster.metadata.store.objectsById.lookup id = some o →
    ∃ e ∈ s.uploads, e.Describes d s o
  registry : ∀ {id node}, s.cluster.metadata.store.nodes.find id = some node →
    d.Located id node.address

structure System.Grows (s s' : System ι) : Prop where
  uploads : ∀ e ∈ s.uploads, e ∈ s'.uploads
  stores : ∀ {i id data}, s.Owned id data → (s.cluster.nodes i).Stores id data →
    (s'.cluster.nodes i).Stores id data

namespace System

theorem Owned.mono {s s' : System ι} (h : s.Grows s') {chunkId : Str} {data : Bytes}
    (howned : s.Owned chunkId data) : s'.Owned chunkId data := by
  obtain ⟨e, he, hpiece⟩ := howned
  exact ⟨e, h.uploads e he, hpiece⟩

theorem StoredOn.mono {s s' : System ι} (h : s.Grows s') {i : ι} {chunkId : Str}
    (hstored : s.StoredOn i chunkId) : s'.StoredOn i chunkId := by
  obtain ⟨data, howned, hstores⟩ := hstored
  exact ⟨data, howned.mono h, h.stores howned hstores⟩

theorem Held.mono {d : Deployment ι} {s s' : System ι} (h : s.Grows s') {r : ReplicaInfo}
    {chunkId : Str} (hheld : s.Held d r chunkId) : s'.Held d r chunkId :=
  ⟨hheld.1, hheld.2.mono h⟩

theorem Grows.refl (s : System ι) : s.Grows s := ⟨fun _ h => h, fun _ h => h⟩

theorem Grows.trans {s₁ s₂ s₃ : System ι} (h : s₁.Grows s₂) (h' : s₂.Grows s₃) : s₁.Grows s₃ :=
  ⟨fun e he => h'.uploads e (h.uploads e he),
    fun howned hstores => h'.stores (howned.mono h) (h.stores howned hstores)⟩

/-- The rules that all processes keep. -/
def discipline (d : Deployment ι) : Discipline (System ι) where
  valid := Valid d
  grows := Grows
  refl := Grows.refl
  trans := Grows.trans

end System

theorem Entry.Describes.mono {d : Deployment ι} {s s' : System ι} {e : Entry} {o : ObjectInfo}
    (h : e.Describes d s o) (hgrows : s.Grows s') : e.Describes d s' o :=
  ⟨h.objectId, h.filename, h.layout, fun c hc r hr => (h.held c hc r hr).mono hgrows⟩

/-! ## Ids belong to one upload -/

namespace System.Valid

variable {d : Deployment ι} {s : System ι}

theorem entry_unique (h : s.Valid d) {e e' : Entry} (he : e ∈ s.uploads) (he' : e' ∈ s.uploads)
    {id : Str} (hid : id ∈ e.ids) (hid' : id ∈ e'.ids) : e = e' := by
  have hdisjoint := (List.nodup_flatMap.mp h.distinct).2
  have : Std.Symm (Function.onFun List.Disjoint Entry.ids) := ⟨fun _ _ hapart => hapart.symm⟩
  by_contra hne
  have hapart : List.Disjoint e.ids e'.ids := hdisjoint.forall he he' hne
  exact hapart hid hid'

theorem chunk_ids_nodup (h : s.Valid d) {e : Entry} (he : e ∈ s.uploads) :
    (e.object.chunks.map ChunkMetadata.chunkId).Nodup :=
  (List.nodup_cons.mp ((List.nodup_flatMap.mp h.distinct).1 e he)).2

/-- A piece is that of one of the chunks. -/
theorem piece_id {e : Entry} {chunkId : Str} {data : Bytes}
    (h : (chunkId, data) ∈ pieces e.upload.data e.object.chunks 0) : chunkId ∈ e.ids := by
  have hmem := List.mem_map_of_mem (f := Prod.fst) h
  rw [pieces_ids] at hmem
  exact List.mem_cons_of_mem _ hmem

/-- A chunk has the data of one upload only. -/
theorem owned_unique (h : s.Valid d) {chunkId : Str} {data data' : Bytes}
    (howned : s.Owned chunkId data) (howned' : s.Owned chunkId data') : data = data' := by
  obtain ⟨e, he, hpiece⟩ := howned
  obtain ⟨e', he', hpiece'⟩ := howned'
  obtain rfl := h.entry_unique he he' (piece_id hpiece) (piece_id hpiece')
  have hnodup := h.chunk_ids_nodup he
  rw [← pieces_ids e.upload.data _ 0] at hnodup
  exact congrArg Prod.snd (List.inj_on_of_nodup_map hnodup hpiece hpiece' rfl)

/-- The id of an uploaded chunk fits in a chunk header. -/
theorem chunkId_length (h : s.Valid d) {chunkId : Str} {data : Bytes}
    (howned : s.Owned chunkId data) : chunkId.length < 2 ^ 32 := by
  obtain ⟨e, he, hpiece⟩ := howned
  rw [(h.sound e he).id_length _ (piece_id hpiece)]
  decide

theorem objectId_length (h : s.Valid d) {e : Entry} (he : e ∈ s.uploads) :
    e.object.objectId.length < 2 ^ 32 := by
  rw [(h.sound e he).id_length _ List.mem_cons_self]
  decide

end System.Valid

end StorageEngine
