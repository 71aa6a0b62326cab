import StorageEngine.Cluster.Files
import StorageEngine.Integrity.System
import StorageEngine.Metadata.Snapshot

/-!
# Deletions, crashes and lost data

The running system without its promises.  Clients delete, addresses lead anywhere, storage
nodes lose files or the ends of files, and the metadata node is restarted and forgets its
objects.

* `Activity` is what runs, and `System.Suffers` is what happens to the machines.
* `System.Genuine` is what is still true: a chunk file of an upload begins the encoding of its
  data.
* `Activity.Serves.respects`: the calls of the activities keep it.  `Suffers.genuine`: so does
  what happens to the machines.
-/

namespace StorageEngine

open ChunkFormat ChunkStore Lib Lib.Remote MetadataStore StorageClient

variable {ι : Type}

/-! ## What runs -/

/-- The call records no object and no chunk, and writes no chunk. -/
def Rpc.WritesNothing : Rpc → Prop
  | .metadata (.createObject _) | .metadata (.updateChunk _) => False
  | .metadata _ => True
  | .storage _ q => q.written = none

/-- What runs.  A replication manager may take any address for its own. -/
inductive Activity where
  | put (u : Upload)
  | get (filename : Str)
  | delete (filename : Str)
  | repair (cfg : ClusterConfig) (m : ReplicationManager) (now : ℕ → TimestampMs)
  | recover (cfg : ClusterConfig) (m : ReplicationManager) (now : ℕ → TimestampMs)
      (failedNodeId : Str)
  | other (program : ClusterProg Unit) (hprogram : program.Issues Rpc.WritesNothing)

namespace Activity

def program : Activity → ClusterProg Outcome
  | .put u => do return .put (← StorageClient.put u.cfg u.filename u.data u.owner)
  | .get filename => do return .got (← StorageClient.get filename)
  | .delete filename => do
    let _ ← StorageClient.deleteObject filename
    return .reported
  | .repair cfg m now => do
    return .repaired (← RecoveryManager.repairUnderReplicatedChunks cfg m now)
  | .recover cfg m now failedNodeId => do
    return .repaired (← RecoveryManager.recoverFailedNode cfg m now failedNodeId)
  | .other program _ => do
    program
    return .reported

/-- What a call adds to the history. -/
def created (a : Activity) : (q : Rpc) → Option q.Reply → List Entry
  | .metadata (.createObject _), some resp =>
    match a with
    | .put u => if resp.success = true then [⟨u, resp.object⟩] else []
    | _ => []
  | _, _ => []

/-- The cluster serves a call of the activity. -/
def Serves [DecidableEq ι] (svc : ClusterConfig) (reach : Str → Option ι) (a : Activity)
    (q : Rpc) (s : System ι) (r : Option q.Reply) (s' : System ι) : Prop :=
  Cluster.Serves svc reach q s.cluster r s'.cluster ∧ s'.uploads = a.created q r ++ s.uploads

theorem created_eq_nil (a : Activity) {q : Rpc} (r : Option q.Reply)
    (hq : ∀ req, q ≠ .metadata (.createObject req)) : a.created q r = [] := by
  unfold created
  split
  · exact absurd rfl (hq _)
  · rfl

end Activity

/-! ## What happens to the machines -/

/-- What happens to the machines between two calls. -/
inductive System.Suffers [DecidableEq ι] (s : System ι) : System ι → Prop where
  /-- A storage node is restarted on its directory. -/
  | restart (i : ι) (names : List Str) : Suffers s { s with
      cluster := s.cluster.setNode i
        (ChunkStore.construct (s.cluster.nodes i).1.basePath (s.cluster.nodes i).2 names,
          (s.cluster.nodes i).2) }
  /-- A machine loses data, as when it stops before a write has reached its disk. -/
  | damage (i : ι) (files : FileSystem) (hfiles : LeftOf files (s.cluster.nodes i).2) :
      Suffers s { s with
        cluster := s.cluster.setNode i ((s.cluster.nodes i).1, files) }
  /-- The metadata node is restarted. -/
  | restartMetadata (persistPath : Str) (files : FileSystem) : Suffers s { s with
      cluster := { s.cluster with
        metadata := { s.cluster.metadata with
          store := MetadataStore.construct persistPath files } } }

/-! ## The invariant -/

/-- The stored object is laid out as that of the entry. -/
structure Entry.Shapes (e : Entry) (o : ObjectInfo) : Prop where
  objectId : o.objectId = e.object.objectId
  filename : o.filename = e.object.filename
  layout : o.chunks.map (fun c => c.toProto.layout) = e.object.chunks.map ChunkMetadata.layout

structure System.Genuine (s : System ι) : Prop where
  sound : ∀ e ∈ s.uploads, e.Sound
  distinct : (s.uploads.flatMap Entry.ids).Nodup
  issued : ∀ id ∈ s.uploads.flatMap Entry.ids, id ∈ s.cluster.metadata.issued
  indexed : Indexed s.cluster.metadata.store
  objects : ∀ {id o}, s.cluster.metadata.store.objectsById.lookup id = some o →
    ∃ e ∈ s.uploads, e.Shapes o
  files : ∀ {i id contents}, (s.cluster.nodes i).file id = some contents →
    id ∈ s.cluster.metadata.issued ∧ ∀ data, s.Owned id data → BeginsChunk data contents

namespace System

/-- Nothing of the history is forgotten. -/
def Recalls (s s' : System ι) : Prop :=
  s.uploads ⊆ s'.uploads

theorem Owned.recalls {s s' : System ι} (h : s.Recalls s') {chunkId : Str} {data : Bytes}
    (howned : s.Owned chunkId data) : s'.Owned chunkId data := by
  obtain ⟨e, he, hpiece⟩ := howned
  exact ⟨e, h he, hpiece⟩

/-- The rules that all activities keep. -/
def faultDiscipline (ι : Type) : Discipline (System ι) where
  valid := Genuine
  grows := Recalls
  refl _ _ he := he
  trans h h' _ he := h' (h he)

namespace Genuine

variable {s s' : System ι}

/-- The history alone is that of a system that stores nothing. -/
theorem history (h : s.Genuine) :
    System.Valid (ι := Unit) ⟨fun _ => none, fun _ => ()⟩
      ⟨⟨{ issued := s.cluster.metadata.issued }, fun _ => ({ basePath := [] }, ∅)⟩,
        s.uploads⟩ where
  sound := h.sound
  distinct := h.distinct
  issued := h.issued
  indexed := indexed_empty
  objects ho := by simp at ho
  registry hnode := by simp at hnode

theorem owned_unique (h : s.Genuine) {chunkId : Str} {data data' : Bytes}
    (howned : s.Owned chunkId data) (howned' : s.Owned chunkId data') : data = data' :=
  h.history.owned_unique howned howned'

theorem owned_issued (h : s.Genuine) {chunkId : Str} {data : Bytes}
    (howned : s.Owned chunkId data) : chunkId ∈ s.cluster.metadata.issued := by
  obtain ⟨e, he, hpiece⟩ := howned
  exact h.issued _ (List.mem_flatMap.mpr ⟨e, he, Valid.piece_id hpiece⟩)

/-- A call of the metadata service that leaves objects of the history. -/
theorem replace (h : s.Genuine) (hnodes : s'.cluster.nodes = s.cluster.nodes)
    (huploads : s'.uploads = s.uploads)
    (hissued : s'.cluster.metadata.issued = s.cluster.metadata.issued)
    (hindexed : Indexed s'.cluster.metadata.store)
    (hobjects : ∀ {id o}, s'.cluster.metadata.store.objectsById.lookup id = some o →
      ∃ e ∈ s.uploads, e.Shapes o) : s'.Genuine := by
  refine ⟨?_, ?_, ?_, hindexed, ?_, fun {i id contents} hfile => ?_⟩
  · rw [huploads]
    exact h.sound
  · rw [huploads]
    exact h.distinct
  · rw [huploads, hissued]
    exact h.issued
  · rw [huploads]
    exact hobjects
  · rw [hnodes] at hfile
    rw [hissued]
    refine ⟨(h.files hfile).1, fun data howned => (h.files hfile).2 data ?_⟩
    unfold Owned at howned ⊢
    rwa [huploads] at howned

/-- New contents of one machine. -/
theorem setNode [DecidableEq ι] (h : s.Genuine) {i : ι} {n : StorageNode}
    (hfiles : ∀ {id contents}, n.file id = some contents →
      id ∈ s.cluster.metadata.issued ∧ ∀ data, s.Owned id data → BeginsChunk data contents) :
    System.Genuine { s with cluster := s.cluster.setNode i n } := by
  refine ⟨h.sound, h.distinct, h.issued, h.indexed, h.objects, fun {j id contents} hfile => ?_⟩
  by_cases hj : j = i
  · subst hj
    rw [Cluster.setNode_self] at hfile
    exact hfiles hfile
  · rw [Cluster.setNode_of_ne _ _ hj] at hfile
    exact h.files hfile

/-- A created object has its entry.  No machine has a file of one of its chunks yet, since their
ids are new. -/
theorem create (h : s.Genuine) {svc : ClusterConfig} {u : Upload} {obj : ObjectInfo}
    (hnodes : s'.cluster.nodes = s.cluster.nodes)
    (huploads : s'.uploads = ⟨u, obj.toProto⟩ :: s.uploads)
    (hcreated : MetadataService.Created svc (createRequest u.cfg u.filename u.data u.owner)
      s.cluster.metadata obj s'.cluster.metadata) : s'.Genuine := by
  have hids : Entry.ids ⟨u, obj.toProto⟩ = obj.objectId :: obj.chunks.map ChunkInfo.chunkId := by
    simp [Entry.ids, Function.comp_def]
  have hfresh : obj.objectId ∉ s.cluster.metadata.store.objectsById := by
    intro hmem
    obtain ⟨o, ho⟩ := Finmap.mem_iff.mp hmem
    obtain ⟨e, he, hshapes⟩ := h.objects ho
    refine hcreated.fresh _ List.mem_cons_self (h.issued _ (List.mem_flatMap.mpr ⟨e, he, ?_⟩))
    rw [← h.indexed.keyed ho, hshapes.objectId]
    exact List.mem_cons_self
  have hname : obj.filename ∉ s.cluster.metadata.store.filenameToId := by
    rw [hcreated.filename]
    exact hcreated.free
  refine ⟨fun e he => ?_, ?_, fun id hid => ?_, ?_, fun {id o} ho => ?_,
    fun {i id contents} hfile => ?_⟩
  · rw [huploads] at he
    rcases List.mem_cons.mp he with rfl | he
    · refine ⟨hcreated.filename, fun c hc => ?_, ?_, fun id hid => ?_⟩
      · obtain ⟨chunk, hchunk, rfl⟩ := List.mem_map.mp hc
        exact (hcreated.planned chunk hchunk).objectId
      · have hsizes := hcreated.sizes
        simp only [createRequest, UInt64.toNat_ofNat_of_lt' u.short] at hsizes
        simp [totalSize, Function.comp_def, hsizes]
      · rw [hids] at hid
        exact hcreated.id_length hid
    · exact h.sound e he
  · rw [huploads, List.flatMap_cons, hids, List.nodup_append]
    refine ⟨hcreated.nodup, h.distinct, fun id hid id' hid' heq => ?_⟩
    exact hcreated.fresh id hid (h.issued id (heq ▸ hid'))
  · rw [huploads, List.flatMap_cons, hids] at hid
    rw [hcreated.issued]
    exact List.mem_append.mpr ((List.mem_append.mp hid).imp (fun hid => hid) (h.issued id))
  · rw [hcreated.store]
    exact h.indexed.insert hfresh hname
  · rw [hcreated.store] at ho
    rw [huploads]
    rcases lookup_insert_cases ho with ⟨rfl, rfl⟩ | ⟨-, ho⟩
    · exact ⟨⟨u, o.toProto⟩, List.mem_cons_self, rfl, rfl, by simp⟩
    · obtain ⟨e, he, hshapes⟩ := h.objects ho
      exact ⟨e, List.mem_cons_of_mem _ he, hshapes⟩
  · rw [hnodes] at hfile
    obtain ⟨hissued, hbegins⟩ := h.files hfile
    refine ⟨hcreated.issued ▸ List.mem_append_right _ hissued, fun data howned => ?_⟩
    obtain ⟨e, he, hpiece⟩ := howned
    rw [huploads] at he
    rcases List.mem_cons.mp he with rfl | he
    · have hid := Valid.piece_id hpiece
      rw [hids] at hid
      exact absurd hissued (hcreated.fresh id hid)
    · exact hbegins data ⟨e, he, hpiece⟩

/-- An update that sends a planned chunk leaves the layout. -/
theorem shapes_update (h : s.Genuine) {e : Entry} (he : e ∈ s.uploads) {o : ObjectInfo}
    (hshapes : e.Shapes o) {chunk : ChunkInfo}
    (hlayout : chunk.toProto.layout ∈ e.object.chunks.map ChunkMetadata.layout)
    {chunks : List ChunkInfo} (hreplace : replaceChunk chunk o.chunks = some chunks)
    (now : TimestampMs) : e.Shapes { o with chunks := chunks, updatedAt := now } := by
  obtain ⟨before, c, after, hchunks, hid, rfl⟩ := replaceChunk_cases hreplace
  have hids : (o.chunks.map ChunkInfo.chunkId).Nodup := by
    have hnodup := h.history.chunk_ids_nodup he
    have hfst := congrArg (List.map Prod.fst) hshapes.layout
    rw [List.map_map, List.map_map] at hfst
    exact (show o.chunks.map ChunkInfo.chunkId = e.object.chunks.map ChunkMetadata.chunkId from
      hfst) ▸ hnodup
  have hsame : c.toProto.layout = chunk.toProto.layout := by
    rw [← hshapes.layout, List.mem_map] at hlayout
    obtain ⟨c', hc', hlayout⟩ := hlayout
    have hc : c ∈ o.chunks := by simp [hchunks]
    have hid' : c'.chunkId = chunk.chunkId := congrArg Prod.fst hlayout
    rw [List.inj_on_of_nodup_map hids hc hc' (hid.trans hid'.symm)]
    exact hlayout
  refine ⟨hshapes.objectId, hshapes.filename, ?_⟩
  rw [← hshapes.layout, hchunks]
  simp [hsame]

end Genuine

end System

/-! ## Calls -/

/-- The call is one that the activity may make in this state, or in a later one. -/
def Activity.Allowed (a : Activity) (s : System ι) : Rpc → Prop
  | .metadata (.createObject req) =>
    ∃ u, a = .put u ∧ req = createRequest u.cfg u.filename u.data u.owner
  | .metadata (.updateChunk req) =>
    ∃ e ∈ s.uploads, e.object.objectId = req.objectId ∧
      req.chunk.layout ∈ e.object.chunks.map ChunkMetadata.layout
  | .metadata _ => True
  | .storage _ q => ∀ header data, q.written = some (header, data) →
      header.objectId.length < 2 ^ 32 ∧ s.Owned header.chunkId data

namespace Activity

variable {a : Activity} {s s' : System ι}

theorem Allowed.mono (hrecalls : s.Recalls s') {q : Rpc} (h : a.Allowed s q) :
    a.Allowed s' q := by
  cases q with
  | storage address q =>
    intro header data hwritten
    obtain ⟨hobject, howned⟩ := h header data hwritten
    exact ⟨hobject, howned.recalls hrecalls⟩
  | metadata q =>
    cases q with
    | updateChunk req =>
      obtain ⟨e, he, hrest⟩ := h
      exact ⟨e, hrecalls he, hrest⟩
    | createObject | deleteObject | locateObject | registerNode | nodeHeartbeat | selectNodes
      | markNodeOffline | getUnderReplicatedChunks => exact h

/-- A call that writes nothing may be made at any time. -/
theorem allowed_of_writesNothing (a : Activity) (s : System ι) (q : Rpc)
    (h : q.WritesNothing) : a.Allowed s q := by
  cases q with
  | storage address q =>
    intro header data hwritten
    rw [show q.written = none from h] at hwritten
    cases hwritten
  | metadata q =>
    cases q with
    | createObject req | updateChunk req => exact h.elim
    | deleteObject | locateObject | registerNode | nodeHeartbeat | selectNodes
      | markNodeOffline | getUnderReplicatedChunks => trivial

section Respects

variable [DecidableEq ι] {svc : ClusterConfig} {reach : Str → Option ι}

theorem Serves.recalls {q : Rpc} {r : Option q.Reply} (h : a.Serves svc reach q s r s') :
    s.Recalls s' := by
  intro e he
  rw [h.2]
  exact List.mem_append_right _ he

private theorem Serves.respects_storage {address : Str} {q : StorageRpc}
    {r : Option (Rpc.Reply (.storage address q))} (hgenuine : s.Genuine)
    (hallowed : a.Allowed s (.storage address q))
    (h : a.Serves svc reach (.storage address q) s r s') : s'.Genuine := by
  obtain ⟨hserves, huploads⟩ := h
  obtain ⟨i, n, -, hserves, hcluster⟩ := hserves.storage_cases
  have hsame : s' = { s with cluster := s.cluster.setNode i n } := by
    cases s'
    simp only [System.mk.injEq]
    exact ⟨hcluster, huploads⟩
  rw [hsame]
  refine hgenuine.setNode fun {id contents} hfile => ?_
  cases hserves.fileChange with
  | same _ _ hfiles =>
    rw [hfiles] at hfile
    exact hgenuine.files hfile
  | @wrote header data now hwritten _ haccepts hfiles =>
    rw [hfiles] at hfile
    split at hfile
    · next hid =>
      cases hfile
      subst hid
      obtain ⟨hobject, howned⟩ := hallowed header data hwritten
      refine ⟨hgenuine.owned_issued howned, fun data' howned' => ?_⟩
      rw [← hgenuine.owned_unique howned howned']
      obtain ⟨hfits, hsize, hchecksum⟩ := @storable_of_accepts now header.toData data
        (hgenuine.history.chunkId_length howned) hobject haccepts
      exact ⟨_, deserialize_serialize hfits hsize hchecksum, List.prefix_rfl⟩
    · exact hgenuine.files hfile
  | deleted _ _ hfiles =>
    rw [hfiles] at hfile
    split at hfile
    · cases hfile
    · exact hgenuine.files hfile

private theorem Serves.respects_create {req : CreateObjectRequest}
    {r : Option (Rpc.Reply (.metadata (.createObject req)))} (hgenuine : s.Genuine)
    (hallowed : a.Allowed s (.metadata (.createObject req)))
    (h : a.Serves svc reach (.metadata (.createObject req)) s r s') : s'.Genuine := by
  obtain ⟨hcall, huploads⟩ := h
  obtain ⟨hnodes, resp, rfl, hserves⟩ := hcall.metadata_cases
  obtain ⟨u, rfl, rfl⟩ := hallowed
  rcases hserves.create_cases with ⟨hrefused, hmetadata, -⟩ | ⟨obj, rfl, hcreated⟩
  · have huploads : s'.uploads = s.uploads := by
      simpa [Activity.created, hrefused] using huploads
    refine hgenuine.replace hnodes huploads (by rw [hmetadata]) ?_ ?_
    · rw [hmetadata]
      exact hgenuine.indexed
    · rw [hmetadata]
      exact hgenuine.objects
  · exact hgenuine.create hnodes huploads hcreated

private theorem Serves.respects_metadata {q : MetadataRpc} {r : Option (Rpc.Reply (.metadata q))}
    (hgenuine : s.Genuine) (hallowed : a.Allowed s (.metadata q))
    (hq : ∀ req, q ≠ .createObject req) (h : a.Serves svc reach (.metadata q) s r s') :
    s'.Genuine := by
  obtain ⟨hcall, huploads⟩ := h
  rw [a.created_eq_nil _ fun req heq => hq req (Rpc.metadata.inj heq), List.nil_append]
    at huploads
  obtain ⟨hnodes, resp, rfl, hserves⟩ := hcall.metadata_cases
  cases hserves.change with
  | same hobjects hissued =>
    refine hgenuine.replace hnodes huploads hissued (hgenuine.indexed.same hobjects) ?_
    rw [hobjects.1]
    exact hgenuine.objects
  | created heq _ => exact absurd heq (hq _)
  | @deleted req objectId obj _ _ hn =>
    refine hgenuine.replace hnodes huploads (by rw [hn]) ?_ fun ho => ?_
    · rw [hn]
      exact hgenuine.indexed.delete objectId
    · rw [hn] at ho
      exact hgenuine.objects (objects_of_delete ho)
  | @updated req obj chunks now heq hobj hreplace hn =>
    subst heq
    obtain ⟨e, he, hid, hlayout⟩ := hallowed
    refine hgenuine.replace hnodes huploads (by rw [hn]) ?_ fun ho => ?_
    · have hindexed := hgenuine.indexed.update now req.objectId req.chunk.fromProto
      rw [updateChunk, hobj] at hindexed
      simp only [hreplace] at hindexed
      rw [hn]
      exact hindexed
    · rw [hn] at ho
      rcases lookup_insert_cases ho with ⟨rfl, rfl⟩ | ⟨-, ho⟩
      · obtain ⟨e', he', hshapes⟩ := hgenuine.objects hobj
        have hkey : e'.object.objectId = e.object.objectId := by
          rw [hid, ← hshapes.objectId, hgenuine.indexed.keyed hobj]
        obtain rfl := hgenuine.history.entry_unique he' he List.mem_cons_self
          (hkey ▸ List.mem_cons_self)
        exact ⟨e', he', hgenuine.shapes_update he' hshapes
          (show req.chunk.fromProto.toProto.layout ∈ _ from hlayout) hreplace now⟩
      · exact hgenuine.objects ho

/-- An allowed call keeps the rules. -/
theorem Serves.respects {q : Rpc} {r : Option q.Reply} (hgenuine : s.Genuine)
    (hallowed : a.Allowed s q) (h : a.Serves svc reach q s r s') : s'.Genuine := by
  cases q with
  | storage address q => exact h.respects_storage hgenuine hallowed
  | metadata q =>
    by_cases hq : ∃ req, q = .createObject req
    · obtain ⟨req, rfl⟩ := hq
      exact h.respects_create hgenuine hallowed
    · exact h.respects_metadata hgenuine hallowed fun req heq => hq ⟨req, heq⟩

end Respects

end Activity

theorem System.Suffers.recalls [DecidableEq ι] {s s' : System ι} (h : s.Suffers s') :
    s.Recalls s' := by
  cases h <;> exact fun _ he => he

/-- So does what happens to the machines. -/
theorem System.Suffers.genuine [DecidableEq ι] {s s' : System ι} (hgenuine : s.Genuine)
    (h : s.Suffers s') : s'.Genuine := by
  cases h with
  | restart i names =>
    refine hgenuine.setNode fun {id contents} hfile => ?_
    rw [StorageNode.file, ChunkStore.construct_basePath] at hfile
    exact hgenuine.files hfile
  | damage i files hfiles =>
    refine hgenuine.setNode fun {id contents} hfile => ?_
    obtain ⟨before, hbefore, hprefix⟩ := hfiles _ _ hfile
    obtain ⟨hissued, hbegins⟩ := @Genuine.files _ _ hgenuine i id _ hbefore
    refine ⟨hissued, fun data howned => ?_⟩
    obtain ⟨header, hwhole, hstart⟩ := hbegins data howned
    exact ⟨header, hwhole, hprefix.trans hstart⟩
  | restartMetadata persistPath files =>
    refine hgenuine.replace rfl rfl rfl ?_ fun ho => ?_
    · rw [MetadataStore.construct_eq]
      exact indexed_empty
    · rw [MetadataStore.construct_eq] at ho
      simp at ho

end StorageEngine
