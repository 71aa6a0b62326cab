import StorageEngine.Client.PutRun

/-!
# What a successful put leaves behind

A put that succeeds has gone through all its turns.  `ChunksPut` says what each
turn has left in the metadata and on the nodes, and `putChunks_success` shows it
by induction over the chunks.
-/

namespace StorageEngine.StorageClient

open Lib.Remote MetadataStore

variable {ι : Type} {svc cfg : ClusterConfig} {reach : Str → Option ι}

/-- The chunk with its replicas, as `UpdateChunk` sends it. -/
def recordedChunk (obj : ObjectMetadata) (planned : ChunkInfo) (data : Bytes)
    (replicas : List ReplicaInfo) : ChunkInfo :=
  { uploadOf obj planned.toProto data with replicas := replicas }

/-- One chunk after its turn: `planned` is what the metadata had for it, `final`
is what it has now, and `accepted` are the nodes that acknowledged the write.  The
new entry has their replicas, unless the `UpdateChunk` call was lost. -/
structure ChunkPut (svc cfg : ClusterConfig) (reach : Str → Option ι) (registry : NodeTable)
    (c : Cluster ι) (obj : ObjectMetadata) (planned final : ChunkInfo) (data : Bytes)
    (trace : List (Event Rpc Rpc.Reply)) (accepted : List NodeInfo)
    (replicas : List ReplicaInfo) : Prop where
  selected : ∃ (store : MetadataStore) (order : NodeOrder), store.nodes = registry ∧
    order.Possible store svc.loadBalance ∧
    accepted.Sublist (store.selectNodes order cfg.replicationFactor svc.loadBalance).1
  quorum : ¬UInt32.ofNat accepted.length < cfg.writeAck.required cfg.replicationFactor
  stored : ∀ node ∈ accepted, c.StoredAt reach node.address planned.chunkId data
  recorded : replicas.map (fun r => (r.nodeId, r.address)) =
    accepted.map fun node => (node.id, node.address)
  outcome : ((∃ e ∈ trace, UpdateLost e) ∧ final = planned) ∨
    (∀ e ∈ trace, ¬UpdateLost e) ∧ final = recordedChunk obj planned data replicas

/-- All chunks after their turns. -/
inductive ChunksPut (svc cfg : ClusterConfig) (reach : Str → Option ι) (registry : NodeTable)
    (c : Cluster ι) (obj : ObjectMetadata) (data : Bytes) :
    List ChunkInfo → UInt64 → List ChunkInfo → List (Event Rpc Rpc.Reply) → Prop where
  | nil (offset : UInt64) : ChunksPut svc cfg reach registry c obj data [] offset [] []
  | cons {planned final : ChunkInfo} {rest finals : List ChunkInfo} {offset : UInt64}
      {turn later : List (Event Rpc Rpc.Reply)} {accepted : List NodeInfo}
      {replicas : List ReplicaInfo}
      (hchunk : ChunkPut svc cfg reach registry c obj planned final
        (chunkDataOf data offset planned.size) turn accepted replicas)
      (hrest : ChunksPut svc cfg reach registry c obj data rest (offset + planned.size) finals
        later) :
      ChunksPut svc cfg reach registry c obj data (planned :: rest) offset (final :: finals)
        (turn ++ later)

/-- A served `UpdateChunk` leaves the recorded chunk. -/
theorem ChunkPut.final_eq {registry : NodeTable} {c : Cluster ι} {obj : ObjectMetadata}
    {planned final : ChunkInfo} {data : Bytes} {trace : List (Event Rpc Rpc.Reply)}
    {accepted : List NodeInfo} {replicas : List ReplicaInfo}
    (h : ChunkPut svc cfg reach registry c obj planned final data trace accepted replicas)
    (hserved : ∀ e ∈ trace, ¬UpdateLost e) : final = recordedChunk obj planned data replicas := by
  rcases h.outcome with ⟨⟨e, he, hlost⟩, -⟩ | ⟨-, hfinal⟩
  · exact absurd hlost (hserved e he)
  · exact hfinal

/-- A replica names a node that has acknowledged the chunk. -/
theorem ChunkPut.node_of_replica {registry : NodeTable} {c : Cluster ι} {obj : ObjectMetadata}
    {planned final : ChunkInfo} {data : Bytes} {trace : List (Event Rpc Rpc.Reply)}
    {accepted : List NodeInfo} {replicas : List ReplicaInfo}
    (h : ChunkPut svc cfg reach registry c obj planned final data trace accepted replicas)
    {r : ReplicaInfo} (hr : r ∈ replicas) :
    ∃ node ∈ accepted, node.id = r.nodeId ∧ node.address = r.address := by
  have hmem : (r.nodeId, r.address) ∈ accepted.map fun node => (node.id, node.address) := by
    rw [← h.recorded]
    exact List.mem_map_of_mem (f := fun r : ReplicaInfo => (r.nodeId, r.address)) hr
  obtain ⟨node, hnode, heq⟩ := List.mem_map.mp hmem
  exact ⟨node, hnode, (Prod.mk.inj heq).1, (Prod.mk.inj heq).2⟩

/-- A chunk is still put after writes to other chunks. -/
theorem ChunkPut.later {registry : NodeTable} {c c' : Cluster ι} {obj : ObjectMetadata}
    {planned final : ChunkInfo} {data : Bytes} {trace : List (Event Rpc Rpc.Reply)}
    {accepted : List NodeInfo} {replicas : List ReplicaInfo}
    (h : ChunkPut svc cfg reach registry c obj planned final data trace accepted replicas)
    (hkeeps : ∀ i stored, (c.nodes i).Stores planned.chunkId stored →
      (c'.nodes i).Stores planned.chunkId stored) :
    ChunkPut svc cfg reach registry c' obj planned final data trace accepted replicas := by
  refine ⟨h.selected, h.quorum, fun node hnode => ?_, h.recorded, h.outcome⟩
  obtain ⟨i, hreach, hstores⟩ := h.stored node hnode
  exact ⟨i, hreach, hkeeps i data hstores⟩

/-- A turn changes neither the id nor the size of its chunk. -/
theorem ChunkPut.same_cut {registry : NodeTable} {c : Cluster ι} {obj : ObjectMetadata}
    {planned final : ChunkInfo} {data : Bytes} {trace : List (Event Rpc Rpc.Reply)}
    {accepted : List NodeInfo} {replicas : List ReplicaInfo}
    (h : ChunkPut svc cfg reach registry c obj planned final data trace accepted replicas) :
    final.chunkId = planned.chunkId ∧ final.size = planned.size := by
  rcases h.outcome with ⟨-, rfl⟩ | ⟨-, rfl⟩ <;> exact ⟨rfl, rfl⟩

/-- So the final chunks cut the data as the planned ones do. -/
theorem ChunksPut.pieces_eq {registry : NodeTable} {c : Cluster ι} {obj : ObjectMetadata}
    {data : Bytes} {todo finals : List ChunkInfo} {offset : UInt64}
    {trace : List (Event Rpc Rpc.Reply)}
    (h : ChunksPut svc cfg reach registry c obj data todo offset finals trace) :
    pieces data (finals.map ChunkInfo.toProto) offset =
      pieces data (todo.map ChunkInfo.toProto) offset := by
  refine pieces_congr ?_
  induction h with
  | nil offset => rfl
  | cons hchunk _ ih =>
    obtain ⟨hid, hsize⟩ := hchunk.same_cut
    rw [List.map_cons, List.map_cons, List.map_cons, List.map_cons, ih]
    simp only [ChunkInfo.toProto_chunkId, ChunkInfo.toProto_size, hid, hsize]

theorem replaceChunk_append {chunk planned : ChunkInfo} {before after : List ChunkInfo}
    (hbefore : ∀ c ∈ before, c.chunkId ≠ chunk.chunkId)
    (hplanned : planned.chunkId = chunk.chunkId) :
    replaceChunk chunk (before ++ planned :: after) = some (before ++ chunk :: after) := by
  induction before with
  | nil => simp [replaceChunk, hplanned]
  | cons c before ih =>
    rw [List.cons_append, replaceChunk, if_neg (hbefore c List.mem_cons_self),
      ih fun c' hc' => hbefore c' (List.mem_cons_of_mem _ hc')]
    rfl

private theorem not_updateLost {e : Event Rpc Rpc.Reply}
    (h : ∀ req, e.request ≠ .metadata (.updateChunk req)) : ¬UpdateLost e := by
  rintro ⟨req, reply, rfl⟩
  exact h req rfl

/-- The `UpdateChunk` call of a turn is lost exactly when its fate says so. -/
private theorem updateLost_turn {select : SelectNodesResponse} {req : SelectNodesRequest}
    {writes : List (Event Rpc Rpc.Reply)} {fate : Fate} {upd : UpdateChunkRequest}
    {r : Option (Rpc.Reply (.metadata (.updateChunk upd)))} (hwrites : StorageOnly writes) :
    (∃ e ∈ (⟨.metadata (.selectNodes req), .answered, some select⟩ :
        Event Rpc Rpc.Reply) :: (writes ++ [⟨.metadata (.updateChunk upd), fate, r⟩]),
      UpdateLost e) ↔ fate = .requestLost := by
  constructor
  · rintro ⟨e, he, hlost⟩
    rcases List.mem_cons.mp he with rfl | he
    · exact absurd hlost (not_updateLost fun _ h => by cases h)
    · rcases List.mem_append.mp he with he | he
      · obtain ⟨address, q, hq⟩ := hwrites e he
        exact absurd hlost (not_updateLost fun _ h => by rw [hq] at h; cases h)
      · rw [List.mem_singleton.mp he] at hlost
        obtain ⟨req, reply, heq⟩ := hlost
        cases heq
        rfl
  · rintro rfl
    exact ⟨_, List.mem_cons_of_mem _ (List.mem_append_right _ (List.mem_singleton_self _)),
      _, _, rfl⟩

/-- The object of a running put: its record, with the chunks done so far and the
chunks still to do. -/
structure Underway (s : MetadataStore) (objectId filename : Str)
    (done todo : List ChunkInfo) : Prop where
  present : ∃ o, s.objectsById.lookup objectId = some o ∧ o.filename = filename ∧
    o.objectId = objectId ∧ o.chunks = done ++ todo
  distinct : ∀ d ∈ done, ∀ t ∈ todo, d.chunkId ≠ t.chunkId

theorem Underway.same {s s' : MetadataStore} {objectId filename : Str}
    {done todo : List ChunkInfo} (h : Underway s objectId filename done todo)
    (hsame : SameObjects s s') : Underway s' objectId filename done todo := by
  obtain ⟨o, ho, hrest⟩ := h.present
  exact ⟨⟨o, by rw [hsame.1]; exact ho, hrest⟩, h.distinct⟩

/-- `UpdateChunk` for the next chunk. -/
theorem Underway.update {s : MetadataStore} {objectId filename : Str}
    {done rest : List ChunkInfo} {planned : ChunkInfo}
    (h : Underway s objectId filename done (planned :: rest)) (chunk : ChunkInfo)
    (hid : chunk.chunkId = planned.chunkId) (now : TimestampMs) :
    ∃ o, (s.updateChunk now objectId chunk).2.objectsById.lookup objectId = some o ∧
      o.filename = filename ∧ o.objectId = objectId ∧ o.chunks = done ++ chunk :: rest ∧
      (s.updateChunk now objectId chunk).2.filenameToId = s.filenameToId ∧
      (s.updateChunk now objectId chunk).2.nodes = s.nodes := by
  obtain ⟨o, ho, hfilename, hobjectId, hchunks⟩ := h.present
  have hreplace : replaceChunk chunk o.chunks = some (done ++ chunk :: rest) := by
    rw [hchunks]
    refine replaceChunk_append (fun d hd => ?_) hid.symm
    rw [hid]
    exact h.distinct d hd planned List.mem_cons_self
  have hupdate : s.updateChunk now objectId chunk =
      (true, { s with
        objectsById := s.objectsById.insert objectId
          { o with chunks := done ++ chunk :: rest, updatedAt := now } }) := by
    simp only [updateChunk, ho, hreplace]
  rw [hupdate]
  exact ⟨_, Finmap.lookup_insert _, hfilename, hobjectId, rfl, rfl, rfl⟩

variable [DecidableEq ι]

/-- The metadata after an `UpdateChunk` for the next chunk, which may be lost. -/
theorem Underway.turn {c c' : Cluster ι} {objectId filename : Str} {done todo : List ChunkInfo}
    {planned : ChunkInfo}
    (h : Underway c.metadata.store objectId filename done (planned :: todo)) (chunk : ChunkInfo)
    (hid : chunk.chunkId = planned.chunkId)
    (hnew : planned.chunkId ∉ todo.map ChunkInfo.chunkId) {fate : Fate}
    {req : UpdateChunkRequest} {r : Option (Rpc.Reply (.metadata (.updateChunk req)))}
    (hreq : req = { objectId := objectId, chunk := chunk.toProto })
    (hupdate : Delivers (Cluster.Serves svc reach) (.metadata (.updateChunk req)) fate c r c') :
    ∃ final, final.chunkId = planned.chunkId ∧ c'.nodes = c.nodes ∧
      c'.metadata.store.nodes = c.metadata.store.nodes ∧
      c'.metadata.store.filenameToId = c.metadata.store.filenameToId ∧
      Underway c'.metadata.store objectId filename (done ++ [final]) todo ∧
      (fate = .requestLost ∧ final = planned ∨ fate ≠ .requestLost ∧ final = chunk) := by
  have hdistinct : ∀ final : ChunkInfo, final.chunkId = planned.chunkId →
      ∀ d ∈ done ++ [final], ∀ t ∈ todo, d.chunkId ≠ t.chunkId := by
    intro final hfinal d hd t ht
    rcases List.mem_append.mp hd with hd | hd
    · exact h.distinct d hd t (List.mem_cons_of_mem _ ht)
    · rw [List.mem_singleton.mp hd, hfinal]
      exact fun heq => hnew (heq ▸ List.mem_map_of_mem ht)
  rcases delivers_metadata hupdate with ⟨hlost, -, hsame⟩ | ⟨hserved, hnodes, resp, hserves, -, -⟩
  · obtain ⟨o, ho, hfilename, hobjectId, hchunks⟩ := h.present
    rw [hsame]
    exact ⟨planned, rfl, rfl, rfl, rfl, ⟨⟨o, ho, hfilename, hobjectId, by simp [hchunks]⟩,
      hdistinct planned rfl⟩, .inl ⟨hlost, rfl⟩⟩
  · rw [hreq] at hserves
    obtain ⟨now, hstore⟩ := hserves.update_store
    obtain ⟨o, ho, hfilename, hobjectId, hchunks, hnames, hregistry⟩ := h.update chunk hid now
    rw [hstore]
    exact ⟨chunk, hid, hnodes, hregistry, hnames,
      ⟨⟨o, ho, hfilename, hobjectId, by simp [hchunks]⟩, hdistinct chunk hid⟩,
      .inr ⟨hserved, rfl⟩⟩

/-- A put whose loop ends without an error has put every chunk. -/
theorem putChunks_success {data : Bytes} {obj : ObjectMetadata}
    (hobject : obj.objectId.length < 2 ^ 32) {filename : Str} {registry : NodeTable}
    {done todo : List ChunkInfo} (hshort : ∀ c ∈ todo, c.chunkId.length < 2 ^ 32)
    (hnodup : (todo.map ChunkInfo.chunkId).Nodup) {offset : UInt64} {c c' : Cluster ι}
    {trace : List (Event Rpc Rpc.Reply)} (hregistry : c.metadata.store.nodes = registry)
    (hunderway : Underway c.metadata.store obj.objectId filename done todo)
    (hrun : Runs (Cluster.Serves svc reach)
      (putChunks cfg data obj (todo.map ChunkInfo.toProto) offset) c trace none c') :
    ∃ final o, c'.metadata.store.objectsById.lookup obj.objectId = some o ∧
      o.filename = filename ∧ o.objectId = obj.objectId ∧ o.chunks = done ++ final ∧
      c'.metadata.store.filenameToId = c.metadata.store.filenameToId ∧
      ChunksPut svc cfg reach registry c' obj data todo offset final trace ∧
      ∀ i id stored, id ∉ todo.map ChunkInfo.chunkId → (c.nodes i).Stores id stored →
        (c'.nodes i).Stores id stored := by
  induction todo generalizing done offset c trace with
  | nil =>
    obtain ⟨rfl, -, rfl⟩ := runs_done.mp hrun
    obtain ⟨o, ho, hfilename, hobjectId, hchunks⟩ := hunderway.present
    exact ⟨[], o, ho, hfilename, hobjectId, hchunks, rfl, .nil offset, fun _ _ _ _ h => h⟩
  | cons planned todo ih =>
    rw [List.map_cons] at hrun
    obtain ⟨failure, c₁, turn, later, hturn, hlater, rfl⟩ := runs_bind.mp hrun
    have hcases := putChunk_run (hshort planned List.mem_cons_self) hobject hturn
    cases hcases with
    | selectFailed message hfailed hobjects => cases (runs_done.mp hlater).2.1
    | quorumFailed message hwrites huploaded hquorum hdelete =>
      cases (runs_done.mp hlater).2.1
    | @updated select writes progress c₂ _ fate req r hwrites huploaded hquorum hreq hupdate =>
      obtain ⟨order, hpossible, accepted, hselected, hstored, hcount, hreplicas⟩ :=
        huploaded.accepted
      rw [List.map_cons, List.nodup_cons] at hnodup
      -- the metadata after the turn
      obtain ⟨final, -, hnodes, hregistry₁, hnames₁, hunderway₁, hfinal⟩ :=
        (hunderway.same huploaded.objects).turn
          (recordedChunk obj planned (chunkDataOf data offset planned.size) progress.replicas) rfl
          hnodup.1 hreq hupdate
      have hregistry₂ : c₁.metadata.store.nodes = registry :=
        hregistry₁.trans (huploaded.nodes.trans hregistry)
      have hchunk : ChunkPut svc cfg reach registry c₁ obj planned final
          (chunkDataOf data offset planned.size)
          (⟨.metadata (.selectNodes { count := cfg.replicationFactor }), .answered,
              some select⟩ :: (writes ++ [⟨.metadata (.updateChunk req), fate, r⟩]))
          accepted progress.replicas := by
        refine ⟨⟨_, order, hregistry, hpossible, hselected⟩, hcount ▸ hquorum,
          fun node hnode => ?_, hreplicas, ?_⟩
        · obtain ⟨i, hreach, hstores⟩ := hstored node hnode
          exact ⟨i, hreach, by rw [hnodes]; exact hstores⟩
        · rcases hfinal with ⟨hlost, hfinal⟩ | ⟨hserved, hfinal⟩
          · exact .inl ⟨(updateLost_turn hwrites).mpr hlost, hfinal⟩
          · exact .inr ⟨fun e he hlost =>
              hserved ((updateLost_turn hwrites).mp ⟨e, he, hlost⟩), hfinal⟩
      obtain ⟨finals, o, ho, hfilename, hobjectId, hchunks, hnames, hput, hkeeps⟩ :=
        ih (fun c hc => hshort c (List.mem_cons_of_mem _ hc)) hnodup.2 hregistry₂ hunderway₁
          hlater
      refine ⟨final :: finals, o, ho, hfilename, hobjectId, by simp [hchunks],
        hnames.trans (hnames₁.trans huploaded.objects.2), .cons (ChunkPut.later hchunk ?_) hput,
        ?_⟩
      · exact fun i stored hs => hkeeps i _ stored hnodup.1 hs
      · intro i id stored hid hs
        rw [List.map_cons, List.mem_cons, not_or] at hid
        refine hkeeps i id stored hid.2 ?_
        rw [hnodes]
        exact huploaded.keeps (fun h => absurd h hid.1) hs

/-- A put that has gone through: `planned` is its object as it was created, and
`final` as the metadata has it now. -/
structure Completed (svc cfg : ClusterConfig) (reach : Str → Option ι) (filename : Str)
    (data : Bytes) (owner : Str) (c c' : Cluster ι) (loop : List (Event Rpc Rpc.Reply))
    (planned final : ObjectInfo) : Prop where
  created : ∃ m, MetadataService.Created svc (createRequest cfg filename data owner)
    c.metadata planned m
  located : c'.metadata.store.filenameToId.lookup filename = some planned.objectId
  stored : c'.metadata.store.objectsById.lookup planned.objectId = some final
  chunks : ChunksPut svc cfg reach c.metadata.store.nodes c' planned.toProto data
    planned.chunks 0 final.chunks loop
  sizes : (0 : UInt64).toNat + totalSize (planned.chunks.map ChunkInfo.toProto) = data.length

/-- A successful put has gone through. -/
theorem put_completed {filename owner : Str} {data : Bytes} (hlength : data.length < 2 ^ 64)
    {c c' : Cluster ι} {trace : List (Event Rpc Rpc.Reply)} {result : PutResult}
    (hrun : Runs (Cluster.Serves svc reach) (put cfg filename data owner) c trace result c')
    (hsuccess : result.success = true) :
    ∃ loop planned final, Completed svc cfg reach filename data owner c c' loop planned final ∧
      result.objectId = planned.objectId ∧
      trace = ⟨.metadata (.createObject (createRequest cfg filename data owner)), .answered,
        some { success := true, object := planned.toProto }⟩ :: loop := by
  cases put_run hrun with
  | refused message hreq hcall hr => cases hsuccess
  | failed message hreq hcreated hnodes hloop => cases hsuccess
  | @succeeded req obj c₁ _ loop hreq hcreated hnodes hloop =>
    subst hreq
    have hstore := hcreated.store
    have hshort : ∀ chunk ∈ obj.chunks, chunk.chunkId.length < 2 ^ 32 := fun chunk hchunk =>
      hcreated.chunkId_length _ (List.mem_map_of_mem hchunk)
    have hunderway : Underway c₁.metadata.store obj.toProto.objectId obj.filename []
        obj.chunks :=
      ⟨⟨obj, by rw [hstore]; exact Finmap.lookup_insert _, rfl, rfl, rfl⟩, by simp⟩
    have hregistry : c₁.metadata.store.nodes = c.metadata.store.nodes := by rw [hstore]
    obtain ⟨finals, o, ho, -, -, hchunks, hnames, hput, -⟩ :=
      putChunks_success hcreated.objectId_length hshort
        (List.nodup_cons.mp hcreated.nodup).2 hregistry hunderway hloop
    rw [List.nil_append] at hchunks
    refine ⟨loop, obj, o, ⟨⟨_, hcreated⟩, ?_, ho, hchunks ▸ hput, ?_⟩, rfl, rfl⟩
    · rw [hnames, hstore, hcreated.filename]
      exact Finmap.lookup_insert _
    · have hsizes := hcreated.sizes
      simp only [createRequest, UInt64.toNat_ofNat_of_lt' hlength] at hsizes
      simp [totalSize, Function.comp_def, hsizes]

end StorageEngine.StorageClient
