import StorageEngine.Client.Upload
import StorageEngine.Client.WriteLoop

/-!
# One put on its own

What a run of `put` does when nothing else runs, turn by turn.

* `uploaded_of_runs`: the nodes that accept a chunk are recorded, and store it.
* `putChunk_run`: one turn of the loop, with its three ways to end.
* `ChunkPut` is a turn that does not end the loop, and `putChunks_run` puts the
  turns together.
-/

namespace StorageEngine

open Lib.Remote MetadataStore

variable {ι : Type} [DecidableEq ι]

namespace StorageClient

variable {svc cfg : ClusterConfig} {reach : Str → Option ι}

/-! ## Writing the replicas of a chunk -/

theorem isWrite_writeChunkToNode (chunk : ChunkInfo) (data : Bytes) (objectId : Str)
    (node : ClusterNodeInfo) : IsWrite (writeChunkToNode node.address chunk data objectId)
      node.address chunk.chunkId objectId data := by
  refine ⟨.writeChunk _, ⟨_, rfl, rfl, rfl, rfl, rfl⟩, congrArg (Prog.call _) (funext fun r => ?_)⟩
  cases r <;> rfl

/-! ## One turn of the loop -/

/-- The call that failed to select nodes. -/
def SelectFailed (e : Event Rpc Rpc.Reply) : Prop :=
  ∃ req fate, e = ⟨.metadata (.selectNodes req), fate, none⟩

/-- The `UpdateChunk` call that the metadata service never served. -/
def UpdateLost (e : Event Rpc Rpc.Reply) : Prop :=
  ∃ req reply, e = ⟨.metadata (.updateChunk req), .requestLost, reply⟩

/-- A chunk has been written to the selected nodes: from the cluster `c` to `c'`,
with the progress of the loop over the nodes. -/
structure Uploaded (svc cfg : ClusterConfig) (reach : Str → Option ι) (chunk : ChunkInfo)
    (data : Bytes) (c c' : Cluster ι) (progress : WriteProgress) : Prop where
  objects : SameObjects c.metadata.store c'.metadata.store
  nodes : c'.metadata.store.nodes = c.metadata.store.nodes
  issued : c'.metadata.issued = c.metadata.issued
  keeps : ∀ {i id stored}, (id = chunk.chunkId → stored = data) →
    (c.nodes i).Stores id stored → (c'.nodes i).Stores id stored
  accepted : ∃ order : NodeOrder, order.Possible c.metadata.store svc.loadBalance ∧
    ∃ accepted : List NodeInfo,
      accepted.Sublist (c.metadata.store.selectNodes order cfg.replicationFactor
        svc.loadBalance).1 ∧
      (∀ node ∈ accepted, c'.StoredAt reach node.address chunk.chunkId data) ∧
      progress.successCount = UInt32.ofNat accepted.length ∧
      progress.replicas.map (fun r => (r.nodeId, r.address)) =
        accepted.map fun node => (node.id, node.address)

/-- Selecting nodes and writing to them. -/
theorem uploaded_of_runs (obj : ObjectMetadata) (chunk : ChunkInfo) {data : Bytes}
    (hchunk : chunk.chunkId.length < 2 ^ 32) (hobject : obj.objectId.length < 2 ^ 32)
    {c c₁ c' : Cluster ι} {resp : SelectNodesResponse} {progress : WriteProgress}
    {trace : List (Event Rpc Rpc.Reply)}
    (hselect : MetadataService.Serves svc (.selectNodes { count := cfg.replicationFactor })
      c.metadata resp c₁.metadata) (hnodes : c₁.nodes = c.nodes)
    (hwrites : Runs (Cluster.Serves svc reach)
      (writeToNodes (fun node => writeChunkToNode node.address chunk data obj.objectId) 1
        resp.nodes {}) c₁ trace progress c') :
    Uploaded svc cfg reach chunk data c c' progress := by
  obtain ⟨order, horder, hresp, hmetadata⟩ := hselect.select_nodes
  rw [MetadataService.strategyOf_nil] at horder hresp hmetadata
  obtain ⟨answers, hall, rfl, hasked⟩ :=
    writeToNodes_asked (isWrite_writeChunkToNode chunk data obj.objectId) hwrites
  have hoverwrites := hasked.overwrites
  have hsub := acceptedOf_sublist answers
  rw [hall, hresp] at hsub
  obtain ⟨accepted, hselected, haccepted⟩ := List.sublist_map_iff.mp hsub
  refine ⟨?_, ?_, ?_, fun hsame hs => hoverwrites.stores hchunk hobject hsame (by rwa [hnodes]),
    order, horder, accepted, hselected, fun node hnode => ?_, ?_, ?_⟩
  · rw [hoverwrites.metadata, hmetadata]
    exact selectNodes_sameObjects _ _ _ _
  · rw [hoverwrites.metadata, hmetadata]
    exact selectNodes_nodes _ _ _ _
  · rw [hoverwrites.metadata, hmetadata]
  · obtain ⟨i, hreach, hwritten⟩ :=
      hasked.stored node.toProto (haccepted ▸ List.mem_map_of_mem hnode)
    exact ⟨i, hreach, hwritten.stores hchunk hobject⟩
  · rw [recordAll_successCount, haccepted, List.length_map]
  · rw [recordAll_replicas, haccepted, List.map_map]
    rfl

/-- The calls of a trace are storage calls. -/
def StorageOnly (trace : List (Event Rpc Rpc.Reply)) : Prop :=
  ∀ e ∈ trace, ∃ address q, e.request = .storage address q

theorem writeToNodes_issues {chunk : ChunkInfo} {data : Bytes} {objectId : Str}
    (nodes : List ClusterNodeInfo) (p : WriteProgress) :
    (writeToNodes (fun node => writeChunkToNode node.address chunk data objectId) 1 nodes
      p).Issues fun q => ∃ address s, q = .storage address s := by
  induction nodes generalizing p with
  | nil => exact .done p
  | cons node nodes ih =>
    exact .bind (.call ⟨_, _, rfl⟩ fun r => .done _) fun ok => ih _

/-- What one turn of the loop of `put` does, with its three ways to end. -/
inductive ChunkRun (svc cfg : ClusterConfig) (reach : Str → Option ι) (data : Bytes)
    (obj : ObjectMetadata) (chunkPb : ChunkMetadata) (offset : UInt64) (c : Cluster ι) :
    List (Event Rpc Rpc.Reply) → Option Str → Cluster ι → Prop where
  | selectFailed {e : Event Rpc Rpc.Reply} {c' : Cluster ι} (message : Str)
      (hfailed : SelectFailed e) (hobjects : SameObjects c.metadata.store c'.metadata.store) :
      ChunkRun svc cfg reach data obj chunkPb offset c [e] (some message) c'
  | quorumFailed {select : SelectNodesResponse} {writes : List (Event Rpc Rpc.Reply)}
      {progress : WriteProgress} {c₁ c' : Cluster ι} {fate : Fate}
      {r : Option (Rpc.Reply (.metadata (.deleteObject { objectId := obj.objectId })))}
      (message : Str) (hwrites : StorageOnly writes)
      (huploaded : Uploaded svc cfg reach
        (uploadOf obj chunkPb (chunkDataOf data offset chunkPb.size))
        (chunkDataOf data offset chunkPb.size) c c₁ progress)
      (hquorum : progress.successCount < cfg.writeAck.required cfg.replicationFactor)
      (hdelete : Delivers (Cluster.Serves svc reach)
        (.metadata (.deleteObject { objectId := obj.objectId })) fate c₁ r c') :
      ChunkRun svc cfg reach data obj chunkPb offset c
        (⟨.metadata (.selectNodes { count := cfg.replicationFactor }), .answered,
            some select⟩ ::
          (writes ++ [⟨.metadata (.deleteObject { objectId := obj.objectId }), fate, r⟩]))
        (some message) c'
  | updated {select : SelectNodesResponse} {writes : List (Event Rpc Rpc.Reply)}
      {progress : WriteProgress} {c₁ c' : Cluster ι} {fate : Fate}
      {req : UpdateChunkRequest} {r : Option (Rpc.Reply (.metadata (.updateChunk req)))}
      (hwrites : StorageOnly writes)
      (huploaded : Uploaded svc cfg reach
        (uploadOf obj chunkPb (chunkDataOf data offset chunkPb.size))
        (chunkDataOf data offset chunkPb.size) c c₁ progress)
      (hquorum : ¬progress.successCount < cfg.writeAck.required cfg.replicationFactor)
      (hreq : req =
        { objectId := obj.objectId
          chunk := { uploadOf obj chunkPb (chunkDataOf data offset chunkPb.size) with
            replicas := progress.replicas }.toProto })
      (hupdate : Delivers (Cluster.Serves svc reach) (.metadata (.updateChunk req)) fate c₁
        r c') :
      ChunkRun svc cfg reach data obj chunkPb offset c
        (⟨.metadata (.selectNodes { count := cfg.replicationFactor }), .answered,
            some select⟩ :: (writes ++ [⟨.metadata (.updateChunk req), fate, r⟩]))
        none c'

theorem putChunk_run {data : Bytes} {obj : ObjectMetadata} {chunkPb : ChunkMetadata}
    {offset : UInt64} (hchunk : chunkPb.chunkId.length < 2 ^ 32)
    (hobject : obj.objectId.length < 2 ^ 32) {c c' : Cluster ι}
    {trace : List (Event Rpc Rpc.Reply)} {result : Option Str}
    (hrun : Runs (Cluster.Serves svc reach) (putChunk cfg data obj chunkPb offset) c trace
      result c') :
    ChunkRun svc cfg reach data obj chunkPb offset c trace result c' := by
  obtain ⟨fate, r, c₁, rest, hcall, hrest, rfl⟩ := runs_rpc.mp hrun
  cases r with
  | none =>
    obtain ⟨rfl, rfl, rfl⟩ := runs_done.mp hrest
    refine .selectFailed _ ⟨_, _, rfl⟩ ?_
    rcases delivers_metadata hcall with ⟨-, -, rfl⟩ | ⟨-, -, resp, hserves, -, -⟩
    · exact .refl _
    · obtain ⟨order, -, -, hmetadata⟩ := hserves.select_nodes
      rw [hmetadata]
      exact selectNodes_sameObjects _ _ _ _
  | some selected =>
    obtain ⟨progress, c₂, writes, last, hwrites, hlast, rfl⟩ := runs_bind.mp hrest
    have honly : StorageOnly writes := hwrites.trace_allowed (writeToNodes_issues _ _)
    obtain rfl := hcall.answered_of_reply (Option.some_ne_none _)
    rcases delivers_metadata hcall with ⟨h, -⟩ | ⟨-, hnodes, resp, hserves, hanswer, -⟩
    · cases h
    · cases hanswer rfl
      have huploaded := uploaded_of_runs obj
        (uploadOf obj chunkPb (chunkDataOf data offset chunkPb.size)) hchunk hobject
        hserves hnodes hwrites
      split at hlast
      · next hquorum =>
        obtain ⟨fate, r, c₃, last, hdelete, hdone, rfl⟩ := runs_rpc.mp hlast
        obtain ⟨rfl, rfl, rfl⟩ := runs_done.mp hdone
        exact .quorumFailed _ honly huploaded hquorum hdelete
      · next hquorum =>
        obtain ⟨fate, r, c₃, last, hupdate, hdone, rfl⟩ := runs_rpc.mp hlast
        obtain ⟨rfl, rfl, rfl⟩ := runs_done.mp hdone
        exact .updated honly huploaded hquorum rfl hupdate

section TurnRuns

variable {data : Bytes} {obj : ObjectMetadata} {chunkPb : ChunkMetadata} {offset : UInt64}
  {c c₁ c₂ c' : Cluster ι} {selected : SelectNodesResponse} {progress : WriteProgress}
  {writes : List (Event Rpc Rpc.Reply)} {fate : Fate}
  (hselect : Cluster.Serves svc reach
    (.metadata (.selectNodes { count := cfg.replicationFactor })) c (some selected) c₁)
  (hwrites : Runs (Cluster.Serves svc reach)
    (writeToNodes (fun node => writeChunkToNode node.address
        (uploadOf obj chunkPb (chunkDataOf data offset chunkPb.size))
        (chunkDataOf data offset chunkPb.size) obj.objectId) 1 selected.nodes {})
    c₁ writes progress c₂)

include hselect hwrites

/-- A turn whose quorum fails. -/
theorem putChunk_runs_delete
    (hquorum : progress.successCount < cfg.writeAck.required cfg.replicationFactor)
    {r : Option StatusResponse}
    (hdelete : Delivers (Cluster.Serves svc reach)
      (.metadata (.deleteObject { objectId := obj.objectId })) fate c₂ r c') :
    Runs (Cluster.Serves svc reach) (putChunk cfg data obj chunkPb offset) c
      (⟨.metadata (.selectNodes { count := cfg.replicationFactor }), .answered,
          some selected⟩ ::
        (writes ++ [⟨.metadata (.deleteObject { objectId := obj.objectId }), fate, r⟩]))
      (some (quorumMessage chunkPb.chunkId)) c' := by
  refine runs_rpc.mpr ⟨_, _, _, _, .answered hselect, ?_, rfl⟩
  refine runs_bind.mpr ⟨_, _, _, _, hwrites, ?_, rfl⟩
  rw [if_pos hquorum]
  exact runs_rpc.mpr ⟨_, _, _, _, hdelete, .done _ _, rfl⟩

/-- A turn that ends with `UpdateChunk`. -/
theorem putChunk_runs_update
    (hquorum : ¬progress.successCount < cfg.writeAck.required cfg.replicationFactor)
    {req : UpdateChunkRequest} {r : Option StatusResponse}
    (hreq : req =
      { objectId := obj.objectId
        chunk := { uploadOf obj chunkPb (chunkDataOf data offset chunkPb.size) with
          replicas := progress.replicas }.toProto })
    (hupdate : Delivers (Cluster.Serves svc reach) (.metadata (.updateChunk req)) fate c₂ r
      c') :
    Runs (Cluster.Serves svc reach) (putChunk cfg data obj chunkPb offset) c
      (⟨.metadata (.selectNodes { count := cfg.replicationFactor }), .answered,
          some selected⟩ :: (writes ++ [⟨.metadata (.updateChunk req), fate, r⟩])) none c' := by
  subst hreq
  refine runs_rpc.mpr ⟨_, _, _, _, .answered hselect, ?_, rfl⟩
  refine runs_bind.mpr ⟨_, _, _, _, hwrites, ?_, rfl⟩
  rw [if_neg hquorum]
  exact runs_rpc.mpr ⟨_, _, _, _, hupdate, .done _ _, rfl⟩

end TurnRuns

/-! ## The whole call -/

/-- What a run of `put` does, with its three ways to end. -/
inductive PutRun (svc cfg : ClusterConfig) (reach : Str → Option ι) (filename : Str)
    (data : Bytes) (owner : Str) (c : Cluster ι) :
    List (Event Rpc Rpc.Reply) → PutResult → Cluster ι → Prop where
  | refused {fate : Fate} {req : CreateObjectRequest}
      {r : Option (Rpc.Reply (.metadata (.createObject req)))} {c' : Cluster ι}
      (message : Str) (hreq : req = createRequest cfg filename data owner)
      (hcall : Delivers (Cluster.Serves svc reach) (.metadata (.createObject req)) fate c r
        c') (hr : ∀ resp, r = some resp → resp.success = false) :
      PutRun svc cfg reach filename data owner c [⟨.metadata (.createObject req), fate, r⟩]
        { message := message } c'
  | failed {req : CreateObjectRequest} {obj : ObjectInfo} {c₁ c' : Cluster ι}
      {loop : List (Event Rpc Rpc.Reply)} (message : Str)
      (hreq : req = createRequest cfg filename data owner)
      (hcreated : MetadataService.Created svc req c.metadata obj c₁.metadata)
      (hnodes : c₁.nodes = c.nodes)
      (hloop : Runs (Cluster.Serves svc reach)
        (putChunks cfg data obj.toProto obj.toProto.chunks 0) c₁ loop (some message) c') :
      PutRun svc cfg reach filename data owner c
        (⟨.metadata (.createObject req), .answered,
          some { success := true, object := obj.toProto }⟩ :: loop)
        { objectId := obj.objectId, message := message } c'
  | succeeded {req : CreateObjectRequest} {obj : ObjectInfo} {c₁ c' : Cluster ι}
      {loop : List (Event Rpc Rpc.Reply)}
      (hreq : req = createRequest cfg filename data owner)
      (hcreated : MetadataService.Created svc req c.metadata obj c₁.metadata)
      (hnodes : c₁.nodes = c.nodes)
      (hloop : Runs (Cluster.Serves svc reach)
        (putChunks cfg data obj.toProto obj.toProto.chunks 0) c₁ loop none c') :
      PutRun svc cfg reach filename data owner c
        (⟨.metadata (.createObject req), .answered,
          some { success := true, object := obj.toProto }⟩ :: loop)
        { success := true, objectId := obj.objectId, message := str "Upload complete" } c'

theorem put_run {filename owner : Str} {data : Bytes} {c c' : Cluster ι}
    {trace : List (Event Rpc Rpc.Reply)} {result : PutResult}
    (hrun : Runs (Cluster.Serves svc reach) (put cfg filename data owner) c trace result c') :
    PutRun svc cfg reach filename data owner c trace result c' := by
  obtain ⟨fate, r, c₁, rest, hcall, hrest, rfl⟩ := runs_rpc.mp hrun
  cases r with
  | none =>
    obtain ⟨rfl, rfl, rfl⟩ := runs_done.mp hrest
    exact .refused _ rfl hcall (by simp)
  | some resp =>
    obtain rfl := hcall.answered_of_reply (Option.some_ne_none _)
    rcases delivers_metadata hcall with ⟨h, -⟩ | ⟨-, hnodes, resp', hserves, hr, -⟩
    · cases h
    cases hr rfl
    rcases hserves.create_cases with ⟨hrefused, -, -⟩ | ⟨obj, rfl, hcreated⟩
    · simp only [hrefused, if_true] at hrest
      obtain ⟨rfl, rfl, rfl⟩ := runs_done.mp hrest
      exact .refused _ rfl hcall (fun _ h => by cases h; exact hrefused)
    · simp only [Bool.true_eq_false, if_false] at hrest
      obtain ⟨failure, c₂, loop, last, hloop, hlast, rfl⟩ := runs_bind.mp hrest
      cases failure with
      | some message =>
        obtain ⟨rfl, rfl, rfl⟩ := runs_done.mp hlast
        rw [List.append_nil]
        exact .failed message rfl hcreated hnodes hloop
      | none =>
        obtain ⟨rfl, rfl, rfl⟩ := runs_done.mp hlast
        rw [List.append_nil]
        exact .succeeded rfl hcreated hnodes hloop

/-! ## Putting an empty file

A run for the first object of a metadata node, up to its only chunk. -/

/-- Draws of `generate_uuid`. -/
def draw (n : ℕ) : Str := generateUuid (UInt64.ofNat n <<< 32) 0

/-- The object of an empty file. -/
def emptyObject (svc cfg : ClusterConfig) (filename owner : Str) : ObjectInfo :=
  newObject draw 0 filename 0
    (if cfg.replicationFactor > 0 then cfg.replicationFactor else svc.replicationFactor) owner
    [{ chunkId := draw 1, objectId := draw 0, version := 1 }]

/-- The metadata node after it has created the object of an empty file. -/
def emptyCreated (svc cfg : ClusterConfig) (filename owner : Str) (store : MetadataStore) :
    MetadataNode :=
  { store :=
      { store with
        objectsById := store.objectsById.insert (draw 0) (emptyObject svc cfg filename owner)
        filenameToId := store.filenameToId.insert filename (draw 0) }
    issued := [draw 0, draw 1] }

theorem serves_create_empty (svc cfg : ClusterConfig) {filename owner : Str}
    {store : MetadataStore} (hfree : filename ∉ store.filenameToId) :
    MetadataService.Serves svc (.createObject (createRequest cfg filename [] owner))
      { store := store }
      { success := true, object := (emptyObject svc cfg filename owner).toProto }
      (emptyCreated svc cfg filename owner store) := by
  have hdistinct : draw 0 ≠ draw 1 := by decide +kernel
  refine @MetadataService.Serves.createObject _ _ _ draw 0 _ _ (fun k => ⟨_, _, rfl⟩) ?_
    (by simp) ?_
  · simpa [CreateObjectResponse.ids, emptyObject, newObject] using hdistinct
  · rw [MetadataService.createObject]
    simp [createRequest, createObject, hfree, planChunks, emptyObject, newObject]

/-- The metadata node after the only chunk of an empty file is recorded. -/
def emptyRecorded (svc cfg : ClusterConfig) (filename owner : Str) (store : MetadataStore)
    (chunk : ChunkInfo) : MetadataNode :=
  { emptyCreated svc cfg filename owner store with
    store :=
      { (emptyCreated svc cfg filename owner store).store with
        objectsById := (emptyCreated svc cfg filename owner store).store.objectsById.insert
          (draw 0) { emptyObject svc cfg filename owner with chunks := [chunk] } } }

theorem serves_update_empty (svc cfg : ClusterConfig) (filename owner : Str)
    (store : MetadataStore) {chunk : ChunkInfo} (hid : chunk.chunkId = draw 1) :
    MetadataService.Serves svc (.updateChunk { objectId := draw 0, chunk := chunk.toProto })
      (emptyCreated svc cfg filename owner store)
      { success := true, message := str "Updated" }
      (emptyRecorded svc cfg filename owner store chunk) := by
  have hupdate : MetadataService.updateChunk 0 (emptyCreated svc cfg filename owner store).store
      { objectId := draw 0, chunk := chunk.toProto } =
      ({ success := true, message := str "Updated" },
        (emptyRecorded svc cfg filename owner store chunk).store) := by
    have hlookup : (emptyCreated svc cfg filename owner store).store.objectsById.lookup
        (draw 0) = some (emptyObject svc cfg filename owner) := Finmap.lookup_insert _
    have hreplace : replaceChunk chunk (emptyObject svc cfg filename owner).chunks =
        some [chunk] := if_pos hid.symm
    rw [MetadataService.updateChunk, ChunkInfo.fromProto_toProto, updateChunk, hlookup]
    simp only [hreplace]
    rfl
  have hserves := @MetadataService.Serves.updateChunk svc
    (emptyCreated svc cfg filename owner store)
    { objectId := draw 0, chunk := chunk.toProto } 0
  rw [hupdate] at hserves
  exact hserves

/-- A run of `put` from a run of its only turn. -/
theorem put_empty_runs {filename owner : Str} {store : MetadataStore}
    {nodes : ι → StorageNode} (hfree : filename ∉ store.filenameToId) {c' : Cluster ι}
    {loop : List (Event Rpc Rpc.Reply)} {failure : Option Str}
    (hturn : Runs (Cluster.Serves svc reach)
      (putChunk cfg [] (emptyObject svc cfg filename owner).toProto
        { chunkId := draw 1, objectId := draw 0, version := 1 } 0)
      ⟨emptyCreated svc cfg filename owner store, nodes⟩ loop failure c') :
    Runs (Cluster.Serves svc reach) (put cfg filename [] owner)
      ⟨{ store := store }, nodes⟩
      (⟨.metadata (.createObject (createRequest cfg filename [] owner)), .answered,
        some { success := true, object := (emptyObject svc cfg filename owner).toProto }⟩ ::
          loop)
      (match failure with
        | some message => { objectId := draw 0, message := message }
        | none =>
          { success := true, objectId := draw 0, message := str "Upload complete" }) c' := by
  refine runs_rpc.mpr ⟨_, _, _, _, .answered (.metadata (serves_create_empty svc cfg hfree)),
    ?_, rfl⟩
  have hchunks : Runs (Cluster.Serves svc reach)
      (putChunks cfg [] (emptyObject svc cfg filename owner).toProto
        (emptyObject svc cfg filename owner).toProto.chunks 0)
      ⟨emptyCreated svc cfg filename owner store, nodes⟩ (loop ++ []) failure c' := by
    refine runs_bind.mpr ⟨failure, c', loop, [], hturn, ?_, rfl⟩
    cases failure <;> exact .done _ _
  rw [List.append_nil] at hchunks
  simp only [Bool.true_eq_false, if_false]
  refine runs_bind.mpr ⟨failure, c', loop, [], hchunks, ?_, (List.append_nil _).symm⟩
  cases failure <;> exact .done _ _

/-- A selection depends on the nodes and on the round-robin counter only. -/
theorem selectNodes_congr {s s' : MetadataStore} (h : s'.roundRobinIndex = s.roundRobinIndex)
    (order : NodeOrder) (count : UInt32) (strategy : LoadBalanceStrategy) :
    (s'.selectNodes order count strategy).1 = (s.selectNodes order count strategy).1 := by
  unfold selectNodes
  dsimp only
  split
  · rfl
  · cases strategy <;> simp [h]

/-- The chunk of an empty file can be written to nodes that answer as given. -/
theorem empty_upload_runs {filename owner : Str} {store : MetadataStore} {nodes : ι → StorageNode}
    {order : NodeOrder} {answers : List (ClusterNodeInfo × Bool)}
    (hpossible : order.Possible store svc.loadBalance)
    (hasked : answers.map Prod.fst = (store.selectNodes order cfg.replicationFactor
      svc.loadBalance).1.map NodeInfo.toProto)
    (hreached : ∀ node ∈ acceptedOf answers, ∃ i, reach node.address = some i) :
    ∃ (selected : SelectNodesResponse) (writes : List (Event Rpc Rpc.Reply)) (c₁ c₂ : Cluster ι),
      Cluster.Serves svc reach (.metadata (.selectNodes { count := cfg.replicationFactor }))
        ⟨emptyCreated svc cfg filename owner store, nodes⟩ (some selected) c₁ ∧
      Runs (Cluster.Serves svc reach)
        (writeToNodes (fun node => writeChunkToNode node.address
          (uploadOf (emptyObject svc cfg filename owner).toProto
            { chunkId := draw 1, objectId := draw 0, version := 1 } []) [] (draw 0)) 1
          selected.nodes {}) c₁ writes (recordAll 1 answers {}) c₂ ∧
      Asked reach ClusterNodeInfo.address (draw 1) (draw 0) [] c₁ answers writes c₂ ∧
      (∀ e ∈ writes, Responds reach e) ∧
      c₂.metadata.store.objectsById =
        (emptyCreated svc cfg filename owner store).store.objectsById := by
  have hpossible' : order.Possible (emptyCreated svc cfg filename owner store).store
      (MetadataService.strategyOf svc []) := by
    rw [MetadataService.strategyOf_nil]
    exact ⟨hpossible.visits, hpossible.perm, hpossible.sorted⟩
  have hselected : (MetadataService.selectNodes svc order
      (emptyCreated svc cfg filename owner store).store
      { count := cfg.replicationFactor }).1.nodes = answers.map Prod.fst := by
    rw [hasked, MetadataService.selectNodes, MetadataService.strategyOf_nil]
    have hsame := @selectNodes_congr store (emptyCreated svc cfg filename owner store).store rfl
      order cfg.replicationFactor svc.loadBalance
    exact congrArg (List.map NodeInfo.toProto) hsame
  obtain ⟨writes, c₂, hwrites, hasked', hresponds⟩ := @writeToNodes_runs _ _ svc reach _ 1 _ _ _ _
    (isWrite_writeChunkToNode (uploadOf (emptyObject svc cfg filename owner).toProto
      { chunkId := draw 1, objectId := draw 0, version := 1 } []) [] (draw 0)) (by decide)
    answers hreached {}
    ⟨⟨((emptyCreated svc cfg filename owner store).store.selectNodes order
        cfg.replicationFactor (MetadataService.strategyOf svc [])).2,
      (emptyCreated svc cfg filename owner store).issued⟩, nodes⟩
  rw [← hselected] at hwrites
  refine ⟨_, writes, _, c₂, .metadata (.selectNodes hpossible'), hwrites, hasked', hresponds, ?_⟩
  rw [hasked'.overwrites.metadata]
  exact (selectNodes_sameObjects order _ _ _).1

/-- The upload of the chunk of an empty file to nodes that answer as given. -/
structure EmptyUpload (svc cfg : ClusterConfig) (reach : Str → Option ι)
    (store : MetadataStore) (order : NodeOrder) (answers : List (ClusterNodeInfo × Bool)) :
    Prop where
  possible : order.Possible store svc.loadBalance
  asked : answers.map Prod.fst = (store.selectNodes order cfg.replicationFactor
    svc.loadBalance).1.map NodeInfo.toProto
  reached : ∀ answer ∈ answers, ∃ i, reach answer.1.address = some i
  quorum : ¬(recordAll 1 answers {}).successCount <
    cfg.writeAck.required cfg.replicationFactor

/-- The `UpdateChunk` call that follows. -/
def emptyUpdate (svc cfg : ClusterConfig) (filename owner : Str)
    (answers : List (ClusterNodeInfo × Bool)) : UpdateChunkRequest :=
  { objectId := draw 0
    chunk := { uploadOf (emptyObject svc cfg filename owner).toProto
        { chunkId := draw 1, objectId := draw 0, version := 1 } [] with
      replicas := (recordAll 1 answers {}).replicas }.toProto }

/-- A successful run of `put`, for any way its last call can end. -/
theorem put_empty_success {filename owner : Str} {store : MetadataStore}
    {nodes : ι → StorageNode} (hfree : filename ∉ store.filenameToId) {order : NodeOrder}
    {answers : List (ClusterNodeInfo × Bool)}
    (hupload : EmptyUpload svc cfg reach store order answers) :
    ∃ first writes c₂, StorageOnly writes ∧ (∀ e ∈ first, e.fate = .answered) ∧
      c₂.metadata.store.objectsById =
        (emptyCreated svc cfg filename owner store).store.objectsById ∧
      ∀ fate r c', Delivers (Cluster.Serves svc reach)
          (.metadata (.updateChunk (emptyUpdate svc cfg filename owner answers))) fate c₂ r c' →
        Runs (Cluster.Serves svc reach) (put cfg filename [] owner)
          ⟨{ store := store }, nodes⟩
          (first ++ (writes ++ [⟨.metadata (.updateChunk
            (emptyUpdate svc cfg filename owner answers)), fate, r⟩]))
          { success := true, objectId := draw 0, message := str "Upload complete" } c' := by
  have hreached : ∀ node ∈ acceptedOf answers, ∃ i, reach node.address = some i := fun node h =>
    hupload.reached _ (mem_acceptedOf.mp h)
  obtain ⟨selected, writes, c₁, c₂, hselect, hwrites, -, -, hobjects⟩ :=
    @empty_upload_runs _ _ svc cfg reach filename owner store nodes _ _ hupload.possible
      hupload.asked hreached
  refine ⟨[⟨.metadata (.createObject (createRequest cfg filename [] owner)), .answered,
        some { success := true, object := (emptyObject svc cfg filename owner).toProto }⟩,
      ⟨.metadata (.selectNodes { count := cfg.replicationFactor }), .answered, some selected⟩],
    writes, c₂, hwrites.trace_allowed (writeToNodes_issues _ _), ?_, hobjects,
    fun fate r c' hupdate =>
      put_empty_runs hfree (putChunk_runs_update hselect hwrites hupload.quorum rfl hupdate)⟩
  intro e he
  simp only [List.mem_cons, List.not_mem_nil, or_false] at he
  rcases he with rfl | rfl <;> rfl

/-- A storage node that is online. -/
def oneNode : NodeInfo := { id := str "n1", address := str "n1:1", online := true }

/-- The metadata of a cluster with one storage node and no objects. -/
def oneNodeStore : MetadataStore := { nodes := NodeTable.empty.set oneNode }

theorem oneNode_possible (strategy : LoadBalanceStrategy) :
    NodeOrder.Possible oneNodeStore strategy { visited := [oneNode], arranged := [oneNode] } := by
  refine ⟨⟨List.nodup_singleton _, fun node => ?_⟩, List.Perm.refl _,
    fun _ => List.pairwise_singleton _ _⟩
  rw [oneNodeStore, NodeTable.find_set, List.mem_singleton]
  constructor
  · rintro rfl
    rw [if_pos rfl]
  · intro h
    split at h
    · exact (Option.some.inj h).symm
    · rw [NodeTable.find_empty] at h
      cases h

end StorageClient

end StorageEngine
