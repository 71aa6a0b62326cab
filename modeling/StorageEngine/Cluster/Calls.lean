import StorageEngine.Common.Uuid
import StorageEngine.Cluster.Network
import StorageEngine.Metadata.Index
import StorageEngine.Metadata.Plan

/-!
# What the calls do

One lemma for each call of the metadata service that `put` makes, in terms of the
objects of the store, and the lemmas that take a call of the cluster apart.
-/

namespace StorageEngine

open Lib.Remote MetadataStore

@[simp] theorem ObjectInfo.toProto_objectId (obj : ObjectInfo) :
    obj.toProto.objectId = obj.objectId := rfl

@[simp] theorem ObjectInfo.toProto_filename (obj : ObjectInfo) :
    obj.toProto.filename = obj.filename := rfl

@[simp] theorem ObjectInfo.toProto_chunks (obj : ObjectInfo) :
    obj.toProto.chunks = obj.chunks.map ChunkInfo.toProto := rfl

@[simp] theorem ChunkInfo.toProto_chunkId (chunk : ChunkInfo) :
    chunk.toProto.chunkId = chunk.chunkId := rfl

@[simp] theorem ChunkInfo.toProto_objectId (chunk : ChunkInfo) :
    chunk.toProto.objectId = chunk.objectId := rfl

@[simp] theorem ChunkInfo.toProto_size (chunk : ChunkInfo) :
    chunk.toProto.size = chunk.size := rfl

namespace MetadataStore

theorem SameObjects.refl (s : MetadataStore) : SameObjects s s := ⟨rfl, rfl⟩

theorem SameObjects.trans {s₁ s₂ s₃ : MetadataStore} (h : SameObjects s₁ s₂)
    (h' : SameObjects s₂ s₃) : SameObjects s₁ s₃ :=
  ⟨h'.1.trans h.1, h'.2.trans h.2⟩

@[simp] theorem selectNodes_nodes (order : NodeOrder) (s : MetadataStore) (count : UInt32)
    (strategy : LoadBalanceStrategy) : (selectNodes order s count strategy).2.nodes = s.nodes := by
  unfold selectNodes
  dsimp only
  split
  · rfl
  · cases strategy <;> rfl

end MetadataStore

/-! ## Calls of the metadata service -/

namespace MetadataService

@[simp] theorem strategyOf_nil (cfg : ClusterConfig) : strategyOf cfg [] = cfg.loadBalance := by
  have hrr : ([] : Str) ≠ str "round_robin" := by decide
  have hrandom : ([] : Str) ≠ str "random" := by decide
  have hleast : ([] : Str) ≠ str "least_used" := by decide
  rw [strategyOf, if_neg hrr, if_neg hrandom, if_neg hleast]

/-- The chunk size that `CreateObject` plans with. -/
def chunkSizeBytes (cfg : ClusterConfig) (req : CreateObjectRequest) : UInt32 :=
  (if req.chunkSizeMb > 0 then req.chunkSizeMb else cfg.chunkSizeMb) * 1024 * 1024

/-- A created object: its plan, its ids, and what is stored. -/
structure Created (cfg : ClusterConfig) (req : CreateObjectRequest) (n : MetadataNode)
    (obj : ObjectInfo) (n' : MetadataNode) : Prop where
  filename : obj.filename = req.filename
  free : req.filename ∉ n.store.filenameToId
  nonempty : obj.chunks ≠ []
  planned : ∀ c ∈ obj.chunks, c.Planned obj.objectId
  sizes : (obj.chunks.map fun c => c.size.toNat).sum = req.size.toNat
  draws : ∀ id ∈ obj.objectId :: obj.chunks.map ChunkInfo.chunkId, ∃ a b, id = generateUuid a b
  nodup : (obj.objectId :: obj.chunks.map ChunkInfo.chunkId).Nodup
  fresh : ∀ id ∈ obj.objectId :: obj.chunks.map ChunkInfo.chunkId, id ∉ n.issued
  issued : n'.issued = obj.objectId :: obj.chunks.map ChunkInfo.chunkId ++ n.issued
  store : n'.store =
    { n.store with
      objectsById := n.store.objectsById.insert obj.objectId obj
      filenameToId := n.store.filenameToId.insert obj.filename obj.objectId }

/-- The ids of a created object have the length of a uuid. -/
theorem Created.id_length {cfg : ClusterConfig} {req : CreateObjectRequest}
    {n n' : MetadataNode} {obj : ObjectInfo} (h : Created cfg req n obj n') {id : Str}
    (hid : id ∈ obj.objectId :: obj.chunks.map ChunkInfo.chunkId) : id.length = 36 := by
  obtain ⟨a, b, rfl⟩ := h.draws id hid
  exact generateUuid_length a b

theorem Created.objectId_length {cfg : ClusterConfig} {req : CreateObjectRequest}
    {n n' : MetadataNode} {obj : ObjectInfo} (h : Created cfg req n obj n') :
    obj.toProto.objectId.length < 2 ^ 32 := by
  rw [ObjectInfo.toProto_objectId, h.id_length List.mem_cons_self]
  decide

theorem Created.objectId_ne_nil {cfg : ClusterConfig} {req : CreateObjectRequest}
    {n n' : MetadataNode} {obj : ObjectInfo} (h : Created cfg req n obj n') :
    obj.toProto.objectId ≠ [] := by
  intro hnil
  have hlength := h.id_length List.mem_cons_self
  rw [ObjectInfo.toProto_objectId] at hnil
  rw [hnil] at hlength
  cases hlength

theorem Created.chunkId_length {cfg : ClusterConfig} {req : CreateObjectRequest}
    {n n' : MetadataNode} {obj : ObjectInfo} (h : Created cfg req n obj n') :
    ∀ c ∈ obj.toProto.chunks, c.chunkId.length < 2 ^ 32 := by
  intro c hc
  obtain ⟨chunk, hchunk, rfl⟩ := List.mem_map.mp hc
  rw [ChunkInfo.toProto_chunkId,
    h.id_length (List.mem_cons_of_mem _ (List.mem_map_of_mem hchunk))]
  decide

/-- `CreateObject` refuses and changes nothing, or it creates an object. -/
theorem Serves.create_cases {cfg : ClusterConfig} {req : CreateObjectRequest}
    {n n' : MetadataNode} {resp : CreateObjectResponse}
    (h : Serves cfg (.createObject req) n resp n') :
    (resp.success = false ∧ n' = n ∧ req.filename ∈ n.store.filenameToId) ∨
      ∃ obj, resp = { success := true, object := obj.toProto } ∧ Created cfg req n obj n' := by
  cases h with
  | @createObject _ _ uuid now _ store hdraws hnodup hfresh hcreate =>
    rw [MetadataService.createObject] at hcreate
    split at hcreate
    · cases hcreate
    · next heq =>
      cases hcreate
      obtain ⟨rfl, hmem⟩ := createObject_refused heq
      exact .inl ⟨rfl, rfl, hmem⟩
    · next obj store' heq =>
      cases hcreate
      obtain ⟨chunks, hplan, hname, rfl, rfl⟩ := createObject_created heq
      obtain ⟨hnonempty, hplanned, hsizes⟩ := planChunks_spec hplan
      have hids : CreateObjectResponse.ids
          { success := true, object := (newObject uuid now req.filename req.size
              (if req.replicationFactor > 0 then req.replicationFactor
                else cfg.replicationFactor) req.owner chunks).toProto } =
          uuid 0 :: chunks.map ChunkInfo.chunkId := by
        simp [CreateObjectResponse.ids, newObject, Function.comp_def]
      rw [hids] at hnodup hfresh
      refine .inr ⟨_, rfl, rfl, hname, hnonempty, fun c hc => (hplanned c hc).1, hsizes, ?_,
        hnodup, hfresh, by rw [hids]; rfl, rfl⟩
      intro id hid
      rcases List.mem_cons.mp hid with rfl | hid
      · exact hdraws 0
      · obtain ⟨c, hc, rfl⟩ := List.mem_map.mp hid
        obtain ⟨-, k, hk⟩ := hplanned c hc
        rw [hk]
        exact hdraws (k + 1)

/-- `DeleteObject` deletes one object or none. -/
theorem deleteObject_cases (store : MetadataStore) (req : DeleteObjectRequest) :
    (MetadataService.deleteObject store req).2 = store ∨
      ∃ objectId, (MetadataService.deleteObject store req).2 =
        (store.deleteObject objectId).2 := by
  rw [MetadataService.deleteObject]
  dsimp only
  split
  · exact .inr ⟨_, rfl⟩
  · split
    · rcases deleteObjectByFilename_cases store req.filename with heq | ⟨objectId, -, heq⟩
      · rw [heq]
        exact .inl rfl
      · rw [heq]
        exact .inr ⟨objectId, rfl⟩
    · exact .inl rfl

/-- `DeleteObject` by the name of an object. -/
theorem deleteObject_byName {store : MetadataStore} {filename objectId : Str} {obj : ObjectInfo}
    (hname : filename ≠ []) (hid : store.filenameToId.lookup filename = some objectId)
    (hobj : store.objectsById.lookup objectId = some obj) :
    MetadataService.deleteObject store { filename := filename } =
      ({ success := true, message := str "Deleted" },
        { store with
          filenameToId := store.filenameToId.erase obj.filename
          objectsById := store.objectsById.erase objectId }) := by
  rw [MetadataService.deleteObject, if_neg (not_not_intro rfl), if_pos hname,
    deleteObjectByFilename_found hid]
  simp only [MetadataStore.deleteObject, hobj]
  rfl

/-- What a served call does to the objects. -/
inductive Change (cfg : ClusterConfig) (q : MetadataRpc) (n n' : MetadataNode) : Prop where
  | same (hobjects : SameObjects n.store n'.store) (hissued : n'.issued = n.issued)
  | created {req : CreateObjectRequest} {obj : ObjectInfo} (hq : q = .createObject req)
      (hcreated : Created cfg req n obj n')
  | deleted {req : DeleteObjectRequest} {objectId : Str} {obj : ObjectInfo}
      (hq : q = .deleteObject req) (hobj : n.store.objectsById.lookup objectId = some obj)
      (hn : n' = { n with store := (n.store.deleteObject objectId).2 })
  | updated {req : UpdateChunkRequest} {obj : ObjectInfo} {chunks : List ChunkInfo}
      {now : TimestampMs} (hq : q = .updateChunk req)
      (hobj : n.store.objectsById.lookup req.objectId = some obj)
      (hreplace : replaceChunk req.chunk.fromProto obj.chunks = some chunks)
      (hn : n' = { n with
        store := { n.store with
          objectsById := n.store.objectsById.insert req.objectId
            { obj with chunks := chunks, updatedAt := now } } })

theorem Serves.change {cfg : ClusterConfig} {q : MetadataRpc} {n n' : MetadataNode}
    {r : q.Reply} (h : Serves cfg q n r n') : Change cfg q n n' := by
  cases h with
  | createObject hdraws hnodup hfresh hcreate =>
    rcases (Serves.createObject hdraws hnodup hfresh hcreate).create_cases with
      ⟨-, hsame, -⟩ | ⟨obj, -, hcreated⟩
    · rw [hsame]
      exact .same (.refl _) rfl
    · exact .created rfl hcreated
  | deleteObject _ req =>
    rcases deleteObject_cases n.store req with heq | ⟨objectId, heq⟩
    · rw [heq]
      exact .same (.refl _) rfl
    · rcases MetadataStore.deleteObject_cases n.store objectId with
        ⟨hnone, -⟩ | ⟨obj, hobj, -⟩
      · rw [heq, hnone]
        exact .same (.refl _) rfl
      · exact .deleted rfl hobj (by rw [heq])
  | locateObject => exact .same (.refl _) rfl
  | updateChunk _ req now =>
    rcases updateChunk_cases now n.store req.objectId req.chunk.fromProto with
      heq | ⟨obj, chunks, hobj, hreplace, heq⟩
    · refine .same ?_ rfl
      simp only [MetadataService.updateChunk, heq]
      exact .refl _
    · refine @Change.updated _ _ _ _ req obj chunks now rfl hobj hreplace ?_
      simp only [MetadataService.updateChunk, heq]
  | registerNode _ req now => exact .same (registerNode_sameObjects now _ _) rfl
  | nodeHeartbeat _ req now => exact .same (updateNodeHeartbeat_sameObjects now _ _ _ _) rfl
  | selectNodes => exact .same (selectNodes_sameObjects _ _ _ _) rfl
  | markNodeOffline => exact .same (markNodeOffline_sameObjects _ _) rfl
  | getUnderReplicatedChunks => exact .same (.refl _) rfl

/-- A deletion by id. -/
theorem Serves.delete_store {cfg : ClusterConfig} {objectId : Str} {n n' : MetadataNode}
    {resp : StatusResponse} (h : Serves cfg (.deleteObject { objectId := objectId }) n resp n')
    (hid : objectId ≠ []) : n' = { n with store := (n.store.deleteObject objectId).2 } := by
  cases h with
  | deleteObject => simp [MetadataService.deleteObject, hid]

theorem Serves.update_store {cfg : ClusterConfig} {objectId : Str} {chunk : ChunkInfo}
    {n n' : MetadataNode} {resp : StatusResponse}
    (h : Serves cfg (.updateChunk { objectId := objectId, chunk := chunk.toProto }) n resp n') :
    ∃ now, n' = { n with store := (n.store.updateChunk now objectId chunk).2 } := by
  cases h with
  | updateChunk _ _ now =>
    refine ⟨now, ?_⟩
    simp only [MetadataService.updateChunk, ChunkInfo.fromProto_toProto]

/-- The nodes of a `SelectNodes` response. -/
theorem Serves.select_nodes {cfg : ClusterConfig} {req : SelectNodesRequest}
    {n n' : MetadataNode} {resp : SelectNodesResponse}
    (h : Serves cfg (.selectNodes req) n resp n') :
    ∃ order : NodeOrder, order.Possible n.store (strategyOf cfg req.strategy) ∧
      resp.nodes = (n.store.selectNodes order req.count
        (strategyOf cfg req.strategy)).1.map NodeInfo.toProto ∧
      n' = { n with
        store := (n.store.selectNodes order req.count (strategyOf cfg req.strategy)).2 } := by
  cases h with
  | selectNodes horder => exact ⟨_, horder, rfl, rfl⟩

end MetadataService

/-! ## Calls of the cluster -/

section Delivery

variable {ι : Type} [DecidableEq ι] {cfg : ClusterConfig} {reach : Str → Option ι}

theorem Cluster.Serves.metadata_cases {c c' : Cluster ι} {q : MetadataRpc}
    {r : Option q.Reply} (h : Cluster.Serves cfg reach (.metadata q) c r c') :
    c'.nodes = c.nodes ∧ ∃ resp, r = some resp ∧
      MetadataService.Serves cfg q c.metadata resp c'.metadata := by
  cases h with
  | metadata h => exact ⟨rfl, _, rfl, h⟩

theorem Cluster.Serves.storage_cases {c c' : Cluster ι} {address : Str} {q : StorageRpc}
    {r : Option q.Reply} (h : Cluster.Serves cfg reach (.storage address q) c r c') :
    ∃ i n, reach address = some i ∧ StorageService.Serves q (c.nodes i) r n ∧
      c' = c.setNode i n := by
  cases h with
  | storage hreach h => exact ⟨_, _, hreach, h, rfl⟩

/-- A metadata call is lost, or the metadata service serves it. -/
theorem delivers_metadata {c c' : Cluster ι} {q : MetadataRpc} {fate : Fate}
    {r : Option (Rpc.Reply (.metadata q))}
    (h : Delivers (Cluster.Serves cfg reach) (.metadata q) fate c r c') :
    (fate = .requestLost ∧ r = none ∧ c' = c) ∨
      fate ≠ .requestLost ∧ c'.nodes = c.nodes ∧
        ∃ resp, MetadataService.Serves cfg q c.metadata resp c'.metadata ∧
          (fate = .answered → r = some resp) ∧ (r = none ∨ r = some resp) := by
  cases h with
  | answered h =>
    obtain ⟨hnodes, resp, hr, hserves⟩ := h.metadata_cases
    exact .inr ⟨by simp, hnodes, resp, hserves, fun _ => hr, .inr hr⟩
  | replyLost h =>
    obtain ⟨hnodes, resp, -, hserves⟩ := h.metadata_cases
    exact .inr ⟨by simp, hnodes, resp, hserves, by simp, .inl rfl⟩
  | requestLost => exact .inl ⟨rfl, rfl, rfl⟩

/-- A storage call leaves the metadata. -/
theorem delivers_storage_metadata {c c' : Cluster ι} {address : Str} {q : StorageRpc}
    {fate : Fate} {r : Option (Rpc.Reply (.storage address q))}
    (h : Delivers (Cluster.Serves cfg reach) (.storage address q) fate c r c') :
    c'.metadata = c.metadata := by
  cases h with
  | answered h =>
    obtain ⟨i, n, -, -, rfl⟩ := h.storage_cases
    rfl
  | replyLost h =>
    obtain ⟨i, n, -, -, rfl⟩ := h.storage_cases
    rfl
  | requestLost => rfl

/-- What the metadata service keeps when it serves a call, the call keeps. -/
theorem delivers_metadata_keeps {I : MetadataNode → Prop} {c c' : Cluster ι} {q : Rpc}
    {fate : Fate} {r : Option q.Reply}
    (hserves : ∀ {q' n resp n'}, q = .metadata q' → MetadataService.Serves cfg q' n resp n' →
      I n → I n')
    (h : Delivers (Cluster.Serves cfg reach) q fate c r c') (hinv : I c.metadata) :
    I c'.metadata := by
  cases q with
  | metadata q =>
    rcases delivers_metadata h with ⟨-, -, rfl⟩ | ⟨-, -, resp, hserved, -⟩
    · exact hinv
    · exact hserves rfl hserved hinv
  | storage address q =>
    rw [delivers_storage_metadata h]
    exact hinv

/-- What it keeps when it serves the calls of a program, a run keeps. -/
theorem runs_metadata_keeps {I : MetadataNode → Prop} {allowed : Rpc → Prop} {α : Type}
    {p : ClusterProg α} {c c' : Cluster ι} {trace : List (Event Rpc Rpc.Reply)} {a : α}
    (hserves : ∀ {q n resp n'}, allowed (.metadata q) → MetadataService.Serves cfg q n resp n' →
      I n → I n')
    (hrun : Runs (Cluster.Serves cfg reach) p c trace a c') (hissues : p.Issues allowed)
    (hinv : I c.metadata) : I c'.metadata := by
  refine Runs.invariant (I := fun c => I c.metadata)
    (fun {q fate r c c'} hq hcall hinv => ?_) hrun hissues hinv
  apply delivers_metadata_keeps (fun {q' n resp n'} heq hserved hinv => ?_) hcall hinv
  exact hserves (heq ▸ hq) hserved hinv

/-- A storage call leaves the machines that its address does not lead to. -/
theorem delivers_elsewhere {c c' : Cluster ι} {address : Str} {q : StorageRpc} {fate : Fate}
    {r : Option (Rpc.Reply (.storage address q))}
    (h : Delivers (Cluster.Serves cfg reach) (.storage address q) fate c r c') {i : ι}
    (hi : reach address ≠ some i) : c'.nodes i = c.nodes i := by
  have hserved : ∀ {r}, Cluster.Serves cfg reach (.storage address q) c r c' →
      c'.nodes i = c.nodes i := by
    intro r h
    obtain ⟨j, n, hj, -, rfl⟩ := h.storage_cases
    refine Cluster.setNode_of_ne _ _ fun heq => hi ?_
    rw [hj, heq]
  cases h with
  | answered h => exact hserved h
  | replyLost h => exact hserved h
  | requestLost => rfl

end Delivery

/-! ## Storage calls -/

/-- The node at the address stores the chunk. -/
def Cluster.StoredAt {ι : Type} (reach : Str → Option ι) (c : Cluster ι)
    (address chunkId : Str) (data : Bytes) : Prop :=
  ∃ i, reach address = some i ∧ (c.nodes i).Stores chunkId data

end StorageEngine
