import StorageEngine.Client.PutReadable
import StorageEngine.Integrity.Programs

/-!
# End-to-end data integrity

In every interleaving of puts, gets, repair passes and heartbeats, with lost
requests, lost replies, calls that are served late and storage nodes that restart,
each listed replica names a node that stores the chunk with the bytes of its put.
So what a `get` returns is what was put.
-/

namespace StorageEngine

open Lib.Remote MetadataStore StorageClient

variable {ι : Type} [DecidableEq ι] {d : Deployment ι} {svc : ClusterConfig}

/-! ## Runs of the system -/

/-- The metadata has no objects yet, and the registered nodes have their own
addresses. -/
structure Cluster.Starts (d : Deployment ι) (c : Cluster ι) : Prop where
  objects : c.metadata.store.objectsById = ∅
  names : c.metadata.store.filenameToId = ∅
  registry : ∀ {id node}, c.metadata.store.nodes.find id = some node →
    d.Located id node.address

/-- A storage node is restarted on its directory. -/
def System.Restarts (s s' : System ι) : Prop :=
  ∃ i names, s' = { s with
    cluster := s.cluster.setNode i
      (ChunkStore.construct (s.cluster.nodes i).1.basePath (s.cluster.nodes i).2 names,
        (s.cluster.nodes i).2) }

/-- What holds of the value of a process. -/
def Process.Post : Process d → Outcome → System ι → Prop
  | .get filename, .got result, s =>
    result.success = true → ∃ e ∈ s.uploads, e.object.objectId = result.metadata.objectId ∧
      e.upload.filename = filename ∧ result.data = e.upload.data
  | _, _, _ => True

omit [DecidableEq ι] in
theorem Process.Post.mono {p : Process d} {a : Outcome} {s s' : System ι} (hgrows : s.Grows s')
    (h : p.Post a s) : p.Post a s' := by
  unfold Process.Post at h ⊢
  split
  · intro hsuccess
    obtain ⟨e, he, hrest⟩ := h hsuccess
    exact ⟨e, hgrows.uploads e he, hrest⟩
  · trivial

/-- Every process keeps the rules of the system. -/
theorem Process.keeps (p : Process d) {s : System ι} (hvalid : s.Valid d) :
    p.Keeps svc p.Post p.program s := by
  cases p with
  | put u =>
    exact (keeps_put u).bind hvalid fun _ _ _ _ _ => Process.Keeps.value fun _ _ _ => trivial
  | get filename =>
    refine (keeps_get filename).bind hvalid fun result s' _ _ hresult => ?_
    exact Process.Keeps.value fun s'' _ hgrows =>
      Process.Post.mono (p := .get filename) (a := .got result) hgrows hresult
  | repair cfg m now hlocal =>
    exact (keeps_repair hlocal now).bind hvalid
      fun _ _ _ _ _ => Process.Keeps.value fun _ _ _ => trivial
  | recover cfg m now failedNodeId hlocal =>
    exact (keeps_recover hlocal now failedNodeId).bind hvalid
      fun _ _ _ _ _ => Process.Keeps.value fun _ _ _ => trivial
  | register m address totalBytes hlocal =>
    exact Process.Keeps.call hlocal fun _ _ _ _ _ => Process.Keeps.value fun _ _ _ => trivial
  | heartbeat m freeBytes chunkCount =>
    exact Process.Keeps.call trivial fun _ _ _ _ _ => Process.Keeps.value fun _ _ _ => trivial

omit [DecidableEq ι] in
theorem Cluster.Starts.valid {c : Cluster ι} (h : c.Starts d) : System.Valid d ⟨c, []⟩ where
  sound _ he := by cases he
  distinct := List.nodup_nil
  issued _ hid := by cases hid
  indexed := indexed_empty.same ⟨h.objects, h.names⟩
  objects ho := by
    rw [h.objects, Finmap.lookup_empty] at ho
    cases ho
  registry := h.registry

theorem System.Restarts.respects {s s' : System ι} (hvalid : s.Valid d) (h : s.Restarts s') :
    s'.Valid d ∧ s.Grows s' := by
  obtain ⟨i, names, rfl⟩ := h
  have hgrows : s.Grows { s with
      cluster := s.cluster.setNode i
        (ChunkStore.construct (s.cluster.nodes i).1.basePath (s.cluster.nodes i).2 names,
          (s.cluster.nodes i).2) } := by
    refine ⟨fun _ he => he, fun {j id data} _ hstores => ?_⟩
    by_cases hj : j = i
    · subst hj
      obtain ⟨header, hread, hchecksum⟩ := hstores
      refine ⟨header, ?_, hchecksum⟩
      rw [Cluster.setNode_self, ChunkStore.readChunk, ChunkStore.construct_basePath]
      exact hread
    · rw [Cluster.setNode_of_ne _ _ hj]
      exact hstores
  refine ⟨⟨hvalid.sound, hvalid.distinct, hvalid.issued, hvalid.indexed, fun ho => ?_,
    hvalid.registry⟩, hgrows⟩
  obtain ⟨e, he, hdescribes⟩ := hvalid.objects ho
  exact ⟨e, he, hdescribes.mono hgrows⟩

/-! ## Integrity -/

/-- The configurations of the runs from a cluster. -/
def Cluster.Reaches (svc : ClusterConfig) (d : Deployment ι) (c : Cluster ι)
    (config : Lib.Remote.Config Rpc Rpc.Reply (System ι) (Process d) Outcome) : Prop :=
  Reachable (System.Serves svc d) Process.program System.Restarts ⟨c, []⟩ config

omit [DecidableEq ι] in
/-- The replicas of a described object store the pieces of the data. -/
theorem Entry.Describes.stores {s : System ι} (hvalid : s.Valid d) {e : Entry}
    (he : e ∈ s.uploads) {o : ObjectInfo} (h : e.Describes d s o) {k : ℕ} {chunk : ChunkInfo}
    (hk : o.chunks[k]? = some chunk) {r : ReplicaInfo} (hr : r ∈ chunk.replicas) :
    d.Located r.nodeId r.address ∧
      (s.cluster.nodes (d.home r.nodeId)).Stores chunk.chunkId
        ((e.upload.data.drop (totalSize ((o.chunks.take k).map ChunkInfo.toProto))).take
          chunk.size.toNat) := by
  obtain ⟨hlocated, data, howned, hstores⟩ := h.held chunk (List.mem_of_getElem? hk) r hr
  have hsizes : (0 : UInt64).toNat + totalSize (o.chunks.map ChunkInfo.toProto) =
      e.upload.data.length := by
    rw [← (hvalid.sound e he).sizes]
    have hcut := congrArg (List.map fun l : Str × Str × UInt32 × UInt64 => l.2.2.2.toNat)
      h.layout
    rw [List.map_map, List.map_map] at hcut
    rw [totalSize, totalSize, List.map_map]
    exact congrArg (fun sizes => (0 : UInt64).toNat + List.sum sizes) hcut
  have hpiece := @pieces_get _ e.upload.short (o.chunks.map ChunkInfo.toProto) 0 hsizes k
    chunk.toProto (by rw [List.getElem?_map, hk]; rfl)
  rw [h.pieces] at hpiece
  have hdata := hvalid.owned_unique howned ⟨e, he, hpiece⟩
  rw [hdata, UInt64.toNat_zero, Nat.zero_add, ← List.map_take] at hstores
  exact ⟨hlocated, hstores⟩

/-- In every state of every run: the object of an upload has an id of its own, the
replicas of each stored object are at the addresses of nodes that store the chunks
with the bytes of its upload, and every `get` that has ended with success has returned
the data of the upload that created the object. -/
theorem data_integrity {c : Cluster ι} (hstart : c.Starts d)
    {config : Lib.Remote.Config Rpc Rpc.Reply (System ι) (Process d) Outcome}
    (hreach : c.Reaches svc d config) :
    (∀ e ∈ config.state.uploads, ∀ e' ∈ config.state.uploads,
      e.object.objectId = e'.object.objectId → e = e') ∧
    (∀ id o, config.state.cluster.metadata.store.objectsById.lookup id = some o →
      ∃ e ∈ config.state.uploads, e.object.objectId = id ∧ e.upload.filename = o.filename ∧
        ∀ k chunk, o.chunks[k]? = some chunk → ∀ r ∈ chunk.replicas,
          d.reach r.address = some (d.home r.nodeId) ∧
            (config.state.cluster.nodes (d.home r.nodeId)).Stores chunk.chunkId
              ((e.upload.data.drop (totalSize ((o.chunks.take k).map ChunkInfo.toProto))).take
                chunk.size.toNat)) ∧
    ∀ filename result, (.get filename, .done (.got result)) ∈ config.running →
      result.success = true → ∃ e ∈ config.state.uploads,
        e.object.objectId = result.metadata.objectId ∧ e.upload.filename = filename ∧
          result.data = e.upload.data := by
  have hsafe : SafeConfig (System.discipline d) (System.Serves svc d) Process.Post config :=
    Reachable.safe (fun p _ hvalid => p.keeps hvalid)
      (fun _ _ hvalid h => h.respects hvalid) hstart.valid hreach
  have hvalid : config.state.Valid d := hsafe.valid
  refine ⟨fun e he e' he' hid => ?_, fun id o ho => ?_, fun filename result hdone => ?_⟩
  · exact hvalid.entry_unique he he' List.mem_cons_self (hid ▸ List.mem_cons_self)
  · obtain ⟨e, he, hdescribes⟩ := hvalid.objects ho
    refine ⟨e, he, ?_, ?_, fun k chunk hk r hr => hdescribes.stores hvalid he hk hr⟩
    · rw [← hdescribes.objectId, hvalid.indexed.keyed ho]
    · rw [hdescribes.filename, (hvalid.sound e he).filename]
  · exact hsafe.post_of_done hdone

/-- The run of a program on the cluster is a run on the system. -/
theorem runs_system {α : Type} (p : Process d) {prog : ClusterProg α} {c c' : Cluster ι}
    {trace : List (Event Rpc Rpc.Reply)} {a : α}
    (hrun : Runs (Cluster.Serves svc d.reach) prog c trace a c') (uploads : List Entry) :
    ∃ uploads', Runs (System.Serves svc d p) prog ⟨c, uploads⟩ trace a ⟨c', uploads'⟩ := by
  induction hrun generalizing uploads with
  | done a c => exact ⟨uploads, .done _ _⟩
  | @call q next fate c c₁ c' r trace a hcall _ ih =>
    cases hcall with
    | answered h =>
      obtain ⟨uploads', hrest⟩ := ih (p.created q r ++ uploads)
      exact ⟨uploads', .call (.answered ⟨h, rfl⟩) hrest⟩
    | @replyLost _ _ r h =>
      obtain ⟨uploads', hrest⟩ := ih (p.created q r ++ uploads)
      exact ⟨uploads', .call (.replyLost (r := r) ⟨h, rfl⟩) hrest⟩
    | requestLost =>
      obtain ⟨uploads', hrest⟩ := ih uploads
      exact ⟨uploads', .call (.requestLost _) hrest⟩

/-- An empty file is put on one node and read back. -/
theorem data_integrity_one_node :
    ∃ (d : Deployment Unit)
      (config : Lib.Remote.Config Rpc Rpc.Reply (System Unit) (Process d) Outcome)
      (result : GetResult), (.get (str "a.txt"), .done (.got result)) ∈ config.running ∧
      ∃ e ∈ config.state.uploads, e.object.objectId = result.metadata.objectId ∧
        e.upload.filename = str "a.txt" ∧ result.data = e.upload.data := by
  let d : Deployment Unit := { reach := fun _ => some (), home := fun _ => () }
  obtain ⟨trace, c₁, hput, hserved⟩ := oneNode_put
  obtain ⟨loop, planned, final, hdone, -, rfl⟩ := put_completed (by decide) hput rfl
  obtain ⟨-, ⟨gtrace, got, c₂, hget, hanswered⟩, hgets⟩ := hdone.readable (by decide) (by decide)
    (by decide) fun e he => hserved e (List.mem_cons_of_mem _ he)
  have hfound := (hgets gtrace got c₂ hget hanswered).1
  let u : Upload :=
    { cfg := { replicationFactor := 1 }
      filename := str "a.txt"
      data := []
      short := by decide }
  have hputs : Runs (Cluster.Serves {} d.reach) (Process.put u : Process d).program _ _ _ _ :=
    runs_bind.mpr ⟨_, _, _, _, hput, .done _ _, rfl⟩
  have hgets : Runs (Cluster.Serves {} d.reach) (Process.get (str "a.txt") : Process d).program
      _ _ _ _ := runs_bind.mpr ⟨_, _, _, _, hget, .done _ _, rfl⟩
  obtain ⟨uploads₁, hputs⟩ := runs_system (Process.put u : Process d) hputs []
  obtain ⟨uploads₂, hgets⟩ := runs_system (Process.get (str "a.txt") : Process d) hgets uploads₁
  have hreach : Cluster.Reaches {} d _ _ := Reachable.run (Reachable.run .refl hputs) hgets
  have hstart : Cluster.Starts d ⟨{ store := oneNodeStore },
      fun _ => (ChunkStore.construct (str "/data") ∅ [], ∅)⟩ :=
    ⟨rfl, rfl, fun _ => rfl⟩
  exact ⟨d, _, got, List.mem_cons_self, (data_integrity hstart hreach).2.2 (str "a.txt") got
    List.mem_cons_self hfound⟩

end StorageEngine
