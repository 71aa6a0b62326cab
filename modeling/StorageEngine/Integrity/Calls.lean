import StorageEngine.Integrity.System
import StorageEngine.Metadata.Selection

/-!
# What a call does to the running system

`Process.Allowed` says which calls a process may make: an upload creates its own
object, a chunk is only written with the data of its upload, and the replicas that
are recorded for it hold that data.  `System.Serves.respects` shows that these
calls keep the rules of the system.  The rest of the module says what a process
learns from a response.
-/

namespace StorageEngine

open Lib.Remote MetadataStore StorageClient

variable {ι : Type} {d : Deployment ι}

/-- The call is one that the process may make in this state, or in a later one. -/
def Process.Allowed (p : Process d) (s : System ι) : Rpc → Prop
  | .metadata (.createObject req) =>
    ∃ u, p = .put u ∧ req = createRequest u.cfg u.filename u.data u.owner
  | .metadata (.updateChunk req) =>
    ∃ e ∈ s.uploads, e.object.objectId = req.objectId ∧
      req.chunk.layout ∈ e.object.chunks.map ChunkMetadata.layout ∧
      ∀ r ∈ req.chunk.fromProto.replicas, s.Held d r req.chunk.chunkId
  | .metadata (.registerNode req) => d.Located req.nodeId req.address
  | .metadata _ => True
  | .storage _ q => q.deleted = none ∧
    ∀ header data, q.written = some (header, data) →
      header.objectId.length < 2 ^ 32 ∧ s.Owned header.chunkId data

theorem Process.Allowed.mono {p : Process d} {s s' : System ι} (hgrows : s.Grows s') {q : Rpc}
    (h : p.Allowed s q) : p.Allowed s' q := by
  cases q with
  | storage address q =>
    obtain ⟨hkept, hwrites⟩ := h
    refine ⟨hkept, fun header data hq => ?_⟩
    obtain ⟨hobject, howned⟩ := hwrites header data hq
    exact ⟨hobject, howned.mono hgrows⟩
  | metadata q =>
    cases q with
    | updateChunk req =>
      obtain ⟨e, he, hid, hlayout, hheld⟩ := h
      exact ⟨e, hgrows.uploads e he, hid, hlayout, fun r hr => (hheld r hr).mono hgrows⟩
    | createObject | deleteObject | locateObject | registerNode | nodeHeartbeat | selectNodes
      | markNodeOffline | getUnderReplicatedChunks => exact h

/-! ## Calls of the metadata service -/

namespace System

section Metadata

variable {s s' : System ι}

/-- A call that changes only the metadata, and leaves described objects. -/
theorem Valid.replace (h : s.Valid d) (hnodes : s'.cluster.nodes = s.cluster.nodes)
    (huploads : s'.uploads = s.uploads)
    (hissued : s'.cluster.metadata.issued = s.cluster.metadata.issued)
    (hindexed : Indexed s'.cluster.metadata.store)
    (hobjects : ∀ {id o}, s'.cluster.metadata.store.objectsById.lookup id = some o →
      ∃ e ∈ s.uploads, e.Describes d s o)
    (hregistry : ∀ {id node}, s'.cluster.metadata.store.nodes.find id = some node →
      d.Located id node.address) : s'.Valid d ∧ s.Grows s' := by
  have hgrows : s.Grows s' :=
    ⟨fun e he => huploads ▸ he, fun _ hstores => by rw [hnodes]; exact hstores⟩
  refine ⟨⟨?_, ?_, ?_, hindexed, fun ho => ?_, hregistry⟩, hgrows⟩
  · rw [huploads]
    exact h.sound
  · rw [huploads]
    exact h.distinct
  · rw [huploads, hissued]
    exact h.issued
  · obtain ⟨e, he, hdescribes⟩ := hobjects ho
    exact ⟨e, huploads ▸ he, hdescribes.mono hgrows⟩

/-- A call that leaves the objects alone. -/
theorem Valid.same (h : s.Valid d) (hnodes : s'.cluster.nodes = s.cluster.nodes)
    (huploads : s'.uploads = s.uploads)
    (hissued : s'.cluster.metadata.issued = s.cluster.metadata.issued)
    (hsame : SameObjects s.cluster.metadata.store s'.cluster.metadata.store)
    (hregistry : ∀ {id node}, s'.cluster.metadata.store.nodes.find id = some node →
      d.Located id node.address) : s'.Valid d ∧ s.Grows s' := by
  refine h.replace hnodes huploads hissued (h.indexed.same hsame) (fun ho => ?_) hregistry
  rw [hsame.1] at ho
  exact h.objects ho

/-- A node that is set in the table at its own address. -/
theorem Valid.located_set (h : s.Valid d) {node : NodeInfo}
    (hnode : d.Located node.id node.address) {id : Str} {node' : NodeInfo}
    (hfind : (s.cluster.metadata.store.nodes.set node).find id = some node') :
    d.Located id node'.address := by
  rw [NodeTable.find_set] at hfind
  split at hfind
  · next hid =>
    cases hfind
    rw [hid]
    exact hnode
  · exact h.registry hfind

/-- So is one that takes the place of another at its address. -/
theorem Valid.located_replaced (h : s.Valid d) {nodeId id : Str} {known node node' : NodeInfo}
    (hknown : s.cluster.metadata.store.nodes.find nodeId = some known)
    (hfind : (s.cluster.metadata.store.nodes.set node).find id = some node')
    (hid : node.id = known.id) (haddress : node.address = known.address) :
    d.Located id node'.address := by
  have hlocated := h.registry hknown
  rw [← NodeTable.find_id hknown, ← hid, ← haddress] at hlocated
  exact h.located_set hlocated hfind

theorem Valid.located_heartbeat (h : s.Valid d) (now : TimestampMs) {nodeId id : Str}
    {freeBytes chunkCount : UInt64} {node : NodeInfo}
    (hfind : (s.cluster.metadata.store.updateNodeHeartbeat now nodeId freeBytes
      chunkCount).2.nodes.find id = some node) : d.Located id node.address := by
  rcases updateNodeHeartbeat_cases now s.cluster.metadata.store nodeId freeBytes chunkCount with
    heq | ⟨known, hknown, heq⟩
  · rw [heq] at hfind
    exact h.registry hfind
  · rw [heq] at hfind
    exact h.located_replaced hknown hfind rfl rfl

theorem Valid.located_offline (h : s.Valid d) {nodeId id : Str} {node : NodeInfo}
    (hfind : (s.cluster.metadata.store.markNodeOffline nodeId).2.nodes.find id = some node) :
    d.Located id node.address := by
  rcases markNodeOffline_cases s.cluster.metadata.store nodeId with heq | ⟨known, hknown, heq⟩
  · rw [heq] at hfind
    exact h.registry hfind
  · rw [heq] at hfind
    exact h.located_replaced hknown hfind rfl rfl

/-- A created object is described by its entry. -/
theorem Valid.create (h : s.Valid d) {svc : ClusterConfig} {u : Upload} {obj : ObjectInfo}
    (hnodes : s'.cluster.nodes = s.cluster.nodes)
    (huploads : s'.uploads = ⟨u, obj.toProto⟩ :: s.uploads)
    (hcreated : MetadataService.Created svc (createRequest u.cfg u.filename u.data u.owner)
      s.cluster.metadata obj s'.cluster.metadata) : s'.Valid d ∧ s.Grows s' := by
  have hids : Entry.ids ⟨u, obj.toProto⟩ = obj.objectId :: obj.chunks.map ChunkInfo.chunkId := by
    simp [Entry.ids, Function.comp_def]
  have hgrows : s.Grows s' :=
    ⟨fun e he => huploads ▸ List.mem_cons_of_mem _ he,
      fun _ hstores => by rw [hnodes]; exact hstores⟩
  have hfresh : obj.objectId ∉ s.cluster.metadata.store.objectsById := by
    intro hmem
    obtain ⟨o, ho⟩ := Finmap.mem_iff.mp hmem
    obtain ⟨e, he, hdescribes⟩ := h.objects ho
    refine hcreated.fresh _ List.mem_cons_self (h.issued _ (List.mem_flatMap.mpr ⟨e, he, ?_⟩))
    rw [← h.indexed.keyed ho, hdescribes.objectId]
    exact List.mem_cons_self
  have hname : obj.filename ∉ s.cluster.metadata.store.filenameToId := by
    rw [hcreated.filename]
    exact hcreated.free
  refine ⟨⟨fun e he => ?_, ?_, ?_, ?_, fun {id o} ho => ?_, fun {id node} hfind => ?_⟩, hgrows⟩
  · rw [huploads] at he
    rcases List.mem_cons.mp he with rfl | he
    · refine ⟨hcreated.filename, fun c hc => ?_, ?_, fun id hid => ?_⟩
      · obtain ⟨chunk, hchunk, rfl⟩ := List.mem_map.mp hc
        exact (hcreated.planned chunk hchunk).objectId
      · have hsizes := hcreated.sizes
        simp only [createRequest, UInt64.toNat_ofNat_of_lt' u.short] at hsizes
        simp [totalSize, Function.comp_def, hsizes]
      · rw [hids] at hid
        exact hcreated.id_length hid
    · exact h.sound e he
  · rw [huploads, List.flatMap_cons, hids, List.nodup_append]
    refine ⟨hcreated.nodup, h.distinct, fun id hid id' hid' heq => ?_⟩
    exact hcreated.fresh id hid (h.issued id (heq ▸ hid'))
  · intro id hid
    rw [huploads, List.flatMap_cons, hids] at hid
    rw [hcreated.issued]
    rcases List.mem_append.mp hid with hid | hid
    · exact List.mem_append_left _ hid
    · exact List.mem_append_right _ (h.issued id hid)
  · rw [hcreated.store]
    exact h.indexed.insert hfresh hname
  · rw [hcreated.store] at ho
    rcases Lib.lookup_insert_cases ho with ⟨rfl, rfl⟩ | ⟨-, ho⟩
    · refine ⟨⟨u, o.toProto⟩, huploads ▸ List.mem_cons_self, rfl, rfl, by simp,
        fun c hc r hr => ?_⟩
      rw [(hcreated.planned c hc).replicas] at hr
      cases hr
    · obtain ⟨e, he, hdescribes⟩ := h.objects ho
      exact ⟨e, hgrows.uploads e he, hdescribes.mono hgrows⟩
  · rw [hcreated.store] at hfind
    exact h.registry hfind

/-- An allowed update leaves the object described by its entry. -/
theorem Valid.describes_update (h : s.Valid d) {e : Entry} (he : e ∈ s.uploads) {o : ObjectInfo}
    (hdescribes : e.Describes d s o) {chunk : ChunkInfo}
    (hlayout : chunk.toProto.layout ∈ e.object.chunks.map ChunkMetadata.layout)
    (hheld : ∀ r ∈ chunk.replicas, s.Held d r chunk.chunkId) {chunks : List ChunkInfo}
    (hreplace : replaceChunk chunk o.chunks = some chunks) (now : TimestampMs) :
    e.Describes d s { o with chunks := chunks, updatedAt := now } := by
  obtain ⟨before, c, after, hchunks, hid, rfl⟩ := replaceChunk_cases hreplace
  have hids : (o.chunks.map ChunkInfo.chunkId).Nodup := by
    have hnodup := h.chunk_ids_nodup he
    have hfst := congrArg (List.map Prod.fst) hdescribes.layout
    rw [List.map_map, List.map_map] at hfst
    exact (show o.chunks.map ChunkInfo.chunkId = e.object.chunks.map ChunkMetadata.chunkId from
      hfst) ▸ hnodup
  have hsame : c.toProto.layout = chunk.toProto.layout := by
    rw [← hdescribes.layout, List.mem_map] at hlayout
    obtain ⟨c', hc', hlayout⟩ := hlayout
    have hc : c ∈ o.chunks := by simp [hchunks]
    have hid' : c'.chunkId = chunk.chunkId := congrArg Prod.fst hlayout
    rw [List.inj_on_of_nodup_map hids hc hc' (hid.trans hid'.symm)]
    exact hlayout
  refine ⟨hdescribes.objectId, hdescribes.filename, ?_, fun c' hc' r hr => ?_⟩
  · rw [← hdescribes.layout, hchunks]
    simp [hsame]
  · rcases List.mem_append.mp hc' with hc' | hc'
    · exact hdescribes.held c' (by simp [hchunks, hc']) r hr
    · rcases List.mem_cons.mp hc' with rfl | hc'
      · exact hheld r hr
      · exact hdescribes.held c' (by simp [hchunks, hc']) r hr

theorem Valid.objects_of_update (h : s.Valid d) {e : Entry} (he : e ∈ s.uploads)
    {objectId : Str} (hid : e.object.objectId = objectId) {chunk : ChunkInfo}
    (hlayout : chunk.toProto.layout ∈ e.object.chunks.map ChunkMetadata.layout)
    (hheld : ∀ r ∈ chunk.replicas, s.Held d r chunk.chunkId) (now : TimestampMs) {id : Str}
    {o : ObjectInfo}
    (ho : (s.cluster.metadata.store.updateChunk now objectId chunk).2.objectsById.lookup id =
      some o) : ∃ e ∈ s.uploads, e.Describes d s o := by
  rcases updateChunk_cases now s.cluster.metadata.store objectId chunk with
    heq | ⟨old, chunks, hold, hreplace, heq⟩
  · rw [heq] at ho
    exact h.objects ho
  · rw [heq] at ho
    rcases Lib.lookup_insert_cases ho with ⟨rfl, rfl⟩ | ⟨-, ho⟩
    · obtain ⟨e', he', hdescribes⟩ := h.objects hold
      have hkey : e'.object.objectId = e.object.objectId := by
        rw [hid, ← hdescribes.objectId, h.indexed.keyed hold]
      obtain rfl := h.entry_unique he' he List.mem_cons_self (hkey ▸ List.mem_cons_self)
      exact ⟨e', he', h.describes_update he' hdescribes hlayout hheld hreplace now⟩
    · exact h.objects ho

end Metadata

/-! ## All calls -/

section Respects

variable [DecidableEq ι] {svc : ClusterConfig} {p : Process d} {s s' : System ι}

/-- A write keeps the chunks that are stored. -/
theorem Serves.respects_storage {address : Str} {q : StorageRpc}
    {r : Option (Rpc.Reply (.storage address q))} (hvalid : s.Valid d)
    (hallowed : p.Allowed s (.storage address q))
    (h : System.Serves svc d p (.storage address q) s r s') : s'.Valid d ∧ s.Grows s' := by
  obtain ⟨hserves, huploads⟩ := h
  obtain ⟨i, n, -, hserves, hcluster⟩ := hserves.storage_cases
  have hgrows : s.Grows s' := by
    refine ⟨fun e he => by rw [huploads]; exact List.mem_append_right _ he,
      fun {j id data} howned hstores => ?_⟩
    rw [hcluster]
    by_cases hj : j = i
    · subst hj
      rw [Cluster.setNode_self]
      refine hserves.keeps (by simp [hallowed.1]) (fun header bytes hq => ?_) hstores
      obtain ⟨hobject, howned'⟩ := hallowed.2 header bytes hq
      refine ⟨hvalid.chunkId_length howned', hobject, fun hid => ?_⟩
      rw [hid] at howned'
      exact hvalid.owned_unique howned' howned
    · rw [Cluster.setNode_of_ne _ _ hj]
      exact hstores
  have huploads : s'.uploads = s.uploads := huploads
  have hmetadata : s'.cluster.metadata = s.cluster.metadata := by rw [hcluster]; rfl
  refine ⟨⟨?_, ?_, ?_, ?_, fun ho => ?_, fun hfind => ?_⟩, hgrows⟩
  · rw [huploads]
    exact hvalid.sound
  · rw [huploads]
    exact hvalid.distinct
  · rw [huploads, hmetadata]
    exact hvalid.issued
  · rw [hmetadata]
    exact hvalid.indexed
  · rw [hmetadata] at ho
    obtain ⟨e, he, hdescribes⟩ := hvalid.objects ho
    exact ⟨e, hgrows.uploads e he, hdescribes.mono hgrows⟩
  · rw [hmetadata] at hfind
    exact hvalid.registry hfind

theorem Serves.respects_metadata {q : MetadataRpc} {r : Option (Rpc.Reply (.metadata q))}
    (hvalid : s.Valid d) (hallowed : p.Allowed s (.metadata q))
    (h : System.Serves svc d p (.metadata q) s r s') : s'.Valid d ∧ s.Grows s' := by
  obtain ⟨hcall, huploads⟩ := h
  obtain ⟨hnodes, resp, rfl, hserves⟩ := hcall.metadata_cases
  generalize hm : s'.cluster.metadata = m at hserves
  cases q with
  | createObject req =>
    obtain ⟨u, rfl, rfl⟩ := hallowed
    rcases hserves.create_cases with ⟨hrefused, hmetadata, -⟩ | ⟨obj, rfl, hcreated⟩
    · have huploads : s'.uploads = s.uploads := by
        simpa [Process.created, hrefused] using huploads
      rw [hmetadata] at hm
      exact hvalid.same hnodes huploads (by rw [hm]) (by rw [hm]; exact .refl _)
        (by rw [hm]; exact hvalid.registry)
    · exact hvalid.create hnodes huploads (hm ▸ hcreated)
  | deleteObject req =>
    cases hserves with
    | deleteObject =>
      rcases MetadataService.deleteObject_cases s.cluster.metadata.store req with
        heq | ⟨objectId, heq⟩
      · rw [heq] at hm
        exact hvalid.same hnodes huploads (by rw [hm]) (by rw [hm]; exact .refl _)
          (by rw [hm]; exact hvalid.registry)
      · rw [heq] at hm
        refine hvalid.replace hnodes huploads (by rw [hm]) ?_ (fun ho => ?_) (fun hfind => ?_)
        · rw [hm]
          exact hvalid.indexed.delete objectId
        · rw [hm] at ho
          exact hvalid.objects (objects_of_delete ho)
        · rw [hm] at hfind
          exact hvalid.registry (deleteObject_nodes _ objectId ▸ hfind)
  | updateChunk req =>
    obtain ⟨e, he, hid, hlayout, hheld⟩ := hallowed
    cases hserves with
    | updateChunk _ _ now =>
      refine hvalid.replace hnodes huploads (by rw [hm]) ?_ (fun {id o} ho => ?_)
        (fun hfind => ?_)
      · rw [hm]
        exact hvalid.indexed.update now _ _
      · rw [hm] at ho
        exact hvalid.objects_of_update he hid
          (show req.chunk.fromProto.toProto.layout ∈ _ from hlayout) hheld now ho
      · rw [hm] at hfind
        exact hvalid.registry (updateChunk_nodes now _ req.objectId _ ▸ hfind)
  | registerNode req =>
    cases hserves with
    | registerNode _ _ now =>
      refine hvalid.same hnodes huploads (by rw [hm]) ?_ (fun hfind => ?_)
      · rw [hm]
        exact registerNode_sameObjects now _ _
      · rw [hm] at hfind
        refine hvalid.located_set ?_ hfind
        exact hallowed
  | nodeHeartbeat req =>
    cases hserves with
    | nodeHeartbeat _ _ now =>
      refine hvalid.same hnodes huploads (by rw [hm]) ?_ (fun hfind => ?_)
      · rw [hm]
        exact updateNodeHeartbeat_sameObjects now _ _ _ _
      · rw [hm] at hfind
        exact hvalid.located_heartbeat now hfind
  | markNodeOffline req =>
    cases hserves with
    | markNodeOffline =>
      refine hvalid.same hnodes huploads (by rw [hm]) ?_ (fun hfind => ?_)
      · rw [hm]
        exact markNodeOffline_sameObjects _ _
      · rw [hm] at hfind
        exact hvalid.located_offline hfind
  | selectNodes req =>
    obtain ⟨order, -, -, rfl⟩ := hserves.select_nodes
    refine hvalid.same hnodes huploads (by rw [hm]) ?_ (fun hfind => ?_)
    · rw [hm]
      exact selectNodes_sameObjects _ _ _ _
    · rw [hm] at hfind
      exact hvalid.registry (selectNodes_nodes order _ _ _ ▸ hfind)
  | locateObject req =>
    cases hserves with
    | locateObject =>
      exact hvalid.same hnodes huploads (by rw [hm]) (by rw [hm]; exact .refl _)
        (by rw [hm]; exact hvalid.registry)
  | getUnderReplicatedChunks =>
    cases hserves with
    | getUnderReplicatedChunks =>
      exact hvalid.same hnodes huploads (by rw [hm]) (by rw [hm]; exact .refl _)
        (by rw [hm]; exact hvalid.registry)

/-- An allowed call keeps the rules of the system. -/
theorem Serves.respects {q : Rpc} {r : Option q.Reply} (hvalid : s.Valid d)
    (hallowed : p.Allowed s q) (h : System.Serves svc d p q s r s') :
    s'.Valid d ∧ s.Grows s' := by
  cases q with
  | metadata q => exact h.respects_metadata hvalid hallowed
  | storage address q => exact h.respects_storage hvalid hallowed

end Respects

end System

/-! ## What a process learns -/

/-- The chunk is one of an upload, with replicas that hold its data. -/
def System.Known (d : Deployment ι) (s : System ι) (chunk : ChunkInfo) : Prop :=
  ∃ e ∈ s.uploads, chunk.objectId = e.object.objectId ∧
    chunk.toProto.layout ∈ e.object.chunks.map ChunkMetadata.layout ∧
    ∀ r ∈ chunk.replicas, s.Held d r chunk.chunkId

namespace System

theorem Known.mono {s s' : System ι} (hgrows : s.Grows s') {chunk : ChunkInfo}
    (h : s.Known d chunk) : s'.Known d chunk := by
  obtain ⟨e, he, hid, hlayout, hheld⟩ := h
  exact ⟨e, hgrows.uploads e he, hid, hlayout, fun r hr => (hheld r hr).mono hgrows⟩

/-- A known chunk can be recorded. -/
theorem Known.allowed {s : System ι} {chunk : ChunkInfo} (h : s.Known d chunk) (p : Process d) :
    p.Allowed s
      (.metadata (.updateChunk { objectId := chunk.objectId, chunk := chunk.toProto })) := by
  obtain ⟨e, he, hid, hlayout, hheld⟩ := h
  refine ⟨e, he, hid.symm, hlayout, fun r hr => ?_⟩
  rw [ChunkInfo.fromProto_toProto] at hr
  exact hheld r hr

/-- The chunks of a described object are known. -/
theorem Valid.known {s : System ι} (h : s.Valid d) {e : Entry} (he : e ∈ s.uploads)
    {o : ObjectInfo} (hdescribes : e.Describes d s o) {chunk : ChunkInfo}
    (hchunk : chunk ∈ o.chunks) : s.Known d chunk := by
  have hlayout : chunk.toProto.layout ∈ e.object.chunks.map ChunkMetadata.layout := by
    rw [← hdescribes.layout]
    exact List.mem_map_of_mem (f := fun c : ChunkInfo => c.toProto.layout) hchunk
  refine ⟨e, he, ?_, hlayout, hdescribes.held chunk hchunk⟩
  obtain ⟨planned, hplanned, heq⟩ := List.mem_map.mp hlayout
  rw [← (h.sound e he).parent planned hplanned]
  exact (congrArg (fun l => l.2.1) heq).symm

theorem Known.objectId_length {s : System ι} (hvalid : s.Valid d) {chunk : ChunkInfo}
    (h : s.Known d chunk) : chunk.objectId.length < 2 ^ 32 := by
  obtain ⟨e, he, hid, -⟩ := h
  rw [hid]
  exact hvalid.objectId_length he

section Responses

variable [DecidableEq ι] {svc : ClusterConfig} {p : Process d} {s s' : System ι}

/-- The selected nodes have their own addresses. -/
theorem Serves.selected {req : SelectNodesRequest} {resp : SelectNodesResponse}
    (hvalid : s.Valid d)
    (h : System.Serves svc d p (.metadata (.selectNodes req)) s (some resp) s') :
    ∀ node ∈ resp.nodes, d.Located node.nodeId node.address := by
  obtain ⟨-, resp', hresp, hserves⟩ := h.1.metadata_cases
  cases hresp
  obtain ⟨order, hpossible, hnodes, -⟩ := hserves.select_nodes
  intro node hnode
  rw [hnodes] at hnode
  obtain ⟨info, hinfo, rfl⟩ := List.mem_map.mp hnode
  exact hvalid.registry (selectNodes_online hpossible hinfo).1

/-- The located object is that of an upload under this name. -/
theorem Serves.located {filename : Str} {resp : LocateObjectResponse} (hvalid : s.Valid d)
    (h : System.Serves svc d p (.metadata (.locateObject { filename := filename })) s
      (some resp) s') (hsuccess : resp.success = true) :
    ∃ e ∈ s.uploads, ∃ o, resp.object = o.toProto ∧ o.filename = filename ∧
      e.Describes d s o := by
  obtain ⟨-, resp', hresp, hserves⟩ := h.1.metadata_cases
  cases hresp
  generalize s'.cluster.metadata = m at hserves
  cases hserves with
  | locateObject =>
    rw [MetadataService.locateObject] at hsuccess ⊢
    by_cases hname : filename = []
    · simp [hname] at hsuccess
    · simp only [ne_eq, not_true_eq_false, if_false, hname, not_false_eq_true, if_true]
        at hsuccess ⊢
      split at hsuccess
      · cases hsuccess
      · next o hlocate =>
        rw [locateByFilename] at hlocate
        split at hlocate
        · cases hlocate
        · next id hid =>
          obtain ⟨o', ho', hfilename⟩ := hvalid.indexed.inverse.pointed hid
          rw [hlocate] at ho'
          cases ho'
          obtain ⟨e, he, hdescribes⟩ := hvalid.objects hlocate
          exact ⟨e, he, o, rfl, hfilename, hdescribes⟩

/-- The reported chunks are known. -/
theorem Serves.underReplicated {resp : GetUnderReplicatedChunksResponse} (hvalid : s.Valid d)
    (h : System.Serves svc d p (.metadata .getUnderReplicatedChunks) s (some resp) s') :
    ∀ c ∈ resp.chunks, s.Known d c.fromProto := by
  obtain ⟨-, resp', hresp, hserves⟩ := h.1.metadata_cases
  cases hresp
  generalize s'.cluster.metadata = m at hserves
  cases hserves with
  | @getUnderReplicatedChunks _ visited hvisited =>
    intro c hc
    obtain ⟨chunk, hchunk, rfl⟩ := List.mem_map.mp hc
    rw [ChunkInfo.fromProto_toProto]
    obtain ⟨o, ho, hfilter⟩ := List.mem_flatMap.mp hchunk
    obtain ⟨id, hid⟩ := hvisited.mem_iff.mp ho
    obtain ⟨e, he, hdescribes⟩ := hvalid.objects hid
    exact hvalid.known he hdescribes (List.mem_of_mem_filter hfilter)

/-- What is read from a replica is the data of the upload. -/
theorem Serves.read {r : ReplicaInfo} {chunkId : Str} {resp : ReadChunkResponse}
    (hheld : s.Held d r chunkId)
    (h : System.Serves svc d p (.storage r.address (.readChunk { chunkId := chunkId })) s
      (some resp) s') : s.Owned chunkId resp.data := by
  obtain ⟨hlocated, data, howned, hstores⟩ := hheld
  obtain ⟨i, n, hreach, hserves, -⟩ := h.1.storage_cases
  rw [hlocated] at hreach
  cases hreach
  obtain ⟨-, resp', hresp, -, hdata, -⟩ := hserves.read hstores
  cases hresp
  rw [hdata]
  exact howned

end Responses

end System

end StorageEngine
