import StorageEngine.Integrity.Calls

/-!
# The programs keep the rules

Each program of a process makes allowed calls only, whatever the other processes
do between its steps.

* `Keeps.call` is the rule for one call.
* `keeps_writeToNodes` is the loop over the selected nodes: the recorded replicas
  hold the chunk.
* `keeps_put`, `keeps_get`, `keeps_repair` and `keeps_recover` are the programs.
-/

namespace StorageEngine

open Lib.Remote MetadataStore StorageClient

variable {ι : Type} [DecidableEq ι] {d : Deployment ι} {svc : ClusterConfig} {p : Process d}
  {α : Type} {s : System ι}

/-- From this state the program keeps the rules of the system, and its value
satisfies `post`. -/
abbrev Process.Keeps (svc : ClusterConfig) (p : Process d) (post : α → System ι → Prop)
    (prog : ClusterProg α) (s : System ι) : Prop :=
  Safe (System.discipline d) (System.Serves svc d p) post prog s

namespace Process.Keeps

/-- An allowed call, for each way it can end. -/
theorem call {q : Rpc} {f : Option q.Reply → ClusterProg α} {post : α → System ι → Prop}
    (hallowed : p.Allowed s q)
    (hnext : ∀ r s', s'.Valid d → s.Grows s' →
      (∀ resp, r = some resp → ∃ s₁ : System ι, s₁.Valid d ∧ s.Grows s₁ ∧ s₁.Grows s' ∧
        System.Serves svc d p q s₁ (some resp) s') → p.Keeps svc post (f r) s') :
    p.Keeps svc post (Prog.rpc q >>= f) s := by
  refine Safe.call (fun s₁ r s₂ hvalid hgrows hserves => ?_)
    (fun s₁ r s₂ hvalid hgrows hserves => ?_) (fun s₁ hvalid hgrows => ?_)
  · exact hserves.respects hvalid (hallowed.mono hgrows)
  · obtain ⟨hvalid', hgrows'⟩ := hserves.respects hvalid (hallowed.mono hgrows)
    refine hnext r s₂ hvalid' (hgrows.trans hgrows') fun resp hr => ?_
    subst hr
    exact ⟨s₁, hvalid, hgrows, hgrows', hserves⟩
  · exact hnext none s₁ hvalid hgrows fun resp hr => by cases hr

/-- A value that satisfies its postcondition from now on. -/
theorem value {post : α → System ι → Prop} {a : α}
    (hpost : ∀ s', s'.Valid d → s.Grows s' → post a s') : p.Keeps svc post (.done a) s :=
  .done hpost

end Process.Keeps

/-! ## Writing and reading chunks -/

/-- A write of the data of an upload: an acknowledged one is stored. -/
theorem keeps_write {nodeId address : Str} {q : StorageRpc} {header : ChunkHeader} {data : Bytes}
    {accept : Option q.Reply → Bool} (hlocated : d.Located nodeId address)
    (hwritten : q.written = some (header, data)) (howned : s.Owned header.chunkId data)
    (hobject : header.objectId.length < 2 ^ 32) (hnone : accept none = false)
    (hstores : ∀ n resp n', StorageService.Serves q n (some resp) n' →
      accept (some resp) = true → header.chunkId.length < 2 ^ 32 →
        n'.Stores header.chunkId data) :
    p.Keeps svc (fun ok s' => ok = true → s'.StoredOn (d.home nodeId) header.chunkId)
      (storageCall address q >>= fun r => pure (accept r)) s := by
  refine Process.Keeps.call ?_ fun r s' hvalid hgrows hserved => ?_
  · refine ⟨?_, fun header' data' hq => ?_⟩
    · cases q with
      | deleteChunk => cases hwritten
      | writeChunk | replicateChunk | readChunk => rfl
    · rw [hwritten] at hq
      cases hq
      exact ⟨hobject, howned⟩
  · refine Process.Keeps.value fun s'' _ hgrows'' hok => System.StoredOn.mono hgrows'' ?_
    cases r with
    | none =>
      rw [hnone] at hok
      cases hok
    | some resp =>
      obtain ⟨s₁, -, -, -, hserves⟩ := hserved resp rfl
      obtain ⟨i, n, hreach, hserves, hcluster⟩ := hserves.1.storage_cases
      rw [hlocated] at hreach
      cases hreach
      refine ⟨data, howned.mono hgrows, ?_⟩
      rw [hcluster, Cluster.setNode_self]
      exact hstores _ _ _ hserves hok (hvalid.chunkId_length (howned.mono hgrows))

/-- The replicas that the loop over the selected nodes records hold the chunk. -/
theorem keeps_writeToNodes {write : ClusterNodeInfo → ClusterProg Bool} {version : UInt32}
    {chunkId : Str} {nodes : List ClusterNodeInfo} {progress : WriteProgress}
    (hvalid : s.Valid d) (hnodes : ∀ node ∈ nodes, d.Located node.nodeId node.address)
    (hwrite : ∀ node ∈ nodes, ∀ s' : System ι, s'.Valid d → s.Grows s' →
      p.Keeps svc (fun ok s'' => ok = true → s''.StoredOn (d.home node.nodeId) chunkId)
        (write node) s')
    (hprogress : ∀ r ∈ progress.replicas, s.Held d r chunkId) :
    p.Keeps svc (fun done s' => ∀ r ∈ done.replicas, s'.Held d r chunkId)
      (writeToNodes write version nodes progress) s := by
  induction nodes generalizing s progress with
  | nil =>
    exact Process.Keeps.value fun s' _ hgrows r hr => (hprogress r hr).mono hgrows
  | cons node nodes ih =>
    refine (hwrite node List.mem_cons_self s hvalid (.refl s)).bind hvalid
      fun ok s' hvalid' hgrows' hstored => ?_
    refine ih hvalid' (fun n hn => hnodes n (List.mem_cons_of_mem _ hn))
      (fun n hn s'' hvalid'' hgrows'' =>
        hwrite n (List.mem_cons_of_mem _ hn) s'' hvalid'' (hgrows'.trans hgrows'')) ?_
    cases ok with
    | false => exact fun r hr => (hprogress r hr).mono hgrows'
    | true =>
      intro r hr
      rcases List.mem_append.mp hr with hr | hr
      · exact (hprogress r hr).mono hgrows'
      · rw [List.mem_singleton.mp hr]
        exact ⟨hnodes node List.mem_cons_self, hstored rfl⟩

/-! ## Put -/

section Put

variable {cfg : ClusterConfig} {e : Entry}

theorem keeps_writeChunkToNode {chunk : ChunkInfo} {data : Bytes} {objectId : Str}
    {node : ClusterNodeInfo} (hlocated : d.Located node.nodeId node.address)
    (howned : s.Owned chunk.chunkId data) (hobject : objectId.length < 2 ^ 32) :
    p.Keeps svc (fun ok s' => ok = true → s'.StoredOn (d.home node.nodeId) chunk.chunkId)
      (writeChunkToNode node.address chunk data objectId) s := by
  let header : ChunkHeader :=
    { chunkId := chunk.chunkId
      objectId := objectId
      version := chunk.version
      size := UInt64.ofNat data.length
      checksum := Checksum.sha256 data }
  exact @keeps_write _ _ d svc p s node.nodeId node.address
    (.writeChunk { header := header, data := data }) header data accepted hlocated rfl howned
    hobject rfl fun n resp n' hserves hok hchunk => hserves.stores_write hok hchunk hobject

/-- One turn of the loop of `put`, for a chunk of its object. -/
theorem keeps_putChunk {data : Bytes} (hvalid : s.Valid d) (he : e ∈ s.uploads)
    {chunkPb : ChunkMetadata} (hchunk : chunkPb ∈ e.object.chunks) {offset : UInt64}
    (howned : s.Owned chunkPb.chunkId (chunkDataOf data offset chunkPb.size)) :
    p.Keeps svc (fun _ _ => True) (putChunk cfg data e.object chunkPb offset) s := by
  refine Process.Keeps.call trivial fun r s₁ hvalid₁ hgrows₁ hserved => ?_
  cases r with
  | none => exact Process.Keeps.value fun _ _ _ => trivial
  | some selected =>
    obtain ⟨s₀, hvalid₀, -, -, hserves⟩ := hserved selected rfl
    refine (keeps_writeToNodes hvalid₁ (hserves.selected hvalid₀)
      (fun node hnode s' hvalid' hgrows' => keeps_writeChunkToNode
        (hserves.selected hvalid₀ node hnode)
        (show s'.Owned (uploadOf e.object chunkPb
          (chunkDataOf data offset chunkPb.size)).chunkId _ from
            (howned.mono hgrows₁).mono hgrows')
        (hvalid'.objectId_length (hgrows'.uploads e (hgrows₁.uploads e he))))
      (by simp)).bind hvalid₁ fun progress s₂ hvalid₂ hgrows₂ hheld => ?_
    have he₂ := hgrows₂.uploads e (hgrows₁.uploads e he)
    split
    · exact Process.Keeps.call trivial fun _ _ _ _ _ => Process.Keeps.value fun _ _ _ => trivial
    · refine Process.Keeps.call ?_ fun _ _ _ _ _ => Process.Keeps.value fun _ _ _ => trivial
      have hknown : s₂.Known d
          { uploadOf e.object chunkPb (chunkDataOf data offset chunkPb.size) with
            replicas := progress.replicas } := by
        refine ⟨e, he₂, rfl, List.mem_map.mpr ⟨chunkPb, hchunk, ?_⟩, hheld⟩
        rw [ChunkMetadata.layout, (hvalid.sound e he).parent chunkPb hchunk]
        rfl
      exact hknown.allowed p

/-- The loop of `put`, for the chunks that are left of its object. -/
theorem keeps_putChunks (hvalid : s.Valid d) (he : e ∈ s.uploads) {todo : List ChunkMetadata}
    {offset : UInt64} (htodo : ∀ c ∈ todo, c ∈ e.object.chunks)
    (hpieces : ∀ piece ∈ pieces e.upload.data todo offset,
      piece ∈ pieces e.upload.data e.object.chunks 0) :
    p.Keeps svc (fun _ _ => True) (putChunks cfg e.upload.data e.object todo offset) s := by
  induction todo generalizing s offset with
  | nil => exact Process.Keeps.value fun _ _ _ => trivial
  | cons chunkPb todo ih =>
    refine (keeps_putChunk hvalid he (htodo chunkPb List.mem_cons_self)
      ⟨e, he, hpieces _ List.mem_cons_self⟩).bind hvalid fun failure s' hvalid' hgrows' _ => ?_
    cases failure with
    | some message => exact Process.Keeps.value fun _ _ _ => trivial
    | none =>
      exact ih hvalid' (hgrows'.uploads e he) (fun c hc => htodo c (List.mem_cons_of_mem _ hc))
        fun piece hpiece => hpieces piece (List.mem_cons_of_mem _ hpiece)

theorem keeps_put (u : Upload) :
    (Process.put u : Process d).Keeps svc (fun _ _ => True)
      (StorageClient.put u.cfg u.filename u.data u.owner) s := by
  refine Process.Keeps.call ⟨u, rfl, rfl⟩ fun r s₁ hvalid₁ hgrows₁ hserved => ?_
  cases r with
  | none => exact Process.Keeps.value fun _ _ _ => trivial
  | some created =>
    dsimp only
    split
    · exact Process.Keeps.value fun _ _ _ => trivial
    · next hsuccess =>
      rw [Bool.not_eq_false] at hsuccess
      obtain ⟨s₀, -, -, -, -, huploads⟩ := hserved created rfl
      have he : ⟨u, created.object⟩ ∈ s₁.uploads := by
        rw [huploads]
        simp [Process.created, hsuccess]
      refine (keeps_putChunks hvalid₁ he (fun _ h => h) (fun _ h => h)).bind hvalid₁
        fun failure s₂ hvalid₂ _ _ => ?_
      cases failure <;> exact Process.Keeps.value fun _ _ _ => trivial

end Put

/-! ## Get -/

/-- What is read of a chunk is its data. -/
theorem keeps_readChunk {chunk : ChunkInfo} {data : Bytes} (howned : s.Owned chunk.chunkId data)
    {reps : List ReplicaInfo} (hheld : ∀ r ∈ reps, s.Held d r chunk.chunkId) :
    p.Keeps svc (fun result _ => ∀ read, result = some read → read = data)
      (readChunkFromReplicas chunk reps) s := by
  induction reps generalizing s with
  | nil => exact Process.Keeps.value fun _ _ _ _ h => by cases h
  | cons rep reps ih =>
    refine Process.Keeps.call ⟨rfl, fun _ _ hq => by cases hq⟩
      fun r s₁ hvalid₁ hgrows₁ hserved => ?_
    have hrest := @ih s₁ (howned.mono hgrows₁)
      fun r hr => (hheld r (List.mem_cons_of_mem _ hr)).mono hgrows₁
    cases r with
    | none => exact hrest
    | some resp =>
      dsimp only
      split
      · exact hrest
      · split
        · exact hrest
        · obtain ⟨s₀, hvalid₀, hgrows₀, hgrows, hserves⟩ := hserved resp rfl
          refine Process.Keeps.value fun s' hvalid' hgrows' read hread => ?_
          cases hread
          have hread := hserves.read ((hheld rep List.mem_cons_self).mono hgrows₀)
          exact hvalid₀.owned_unique hread (howned.mono hgrows₀)

/-- The loop of `get`: what it has read is the data of its chunks. -/
theorem keeps_getChunks (hvalid : s.Valid d) {chunks : List ChunkMetadata} {datas : List Bytes}
    (h : List.Forall₂ (fun c data => s.Owned c.chunkId data ∧
      ∀ r ∈ c.fromProto.replicas, s.Held d r c.chunkId) chunks datas) {read : Bytes} :
    p.Keeps svc (fun result _ => result.1 = none → result.2 = read ++ datas.flatten)
      (getChunks chunks read) s := by
  induction chunks generalizing s datas read with
  | nil =>
    cases h
    exact Process.Keeps.value fun _ _ _ _ => (List.append_nil read).symm
  | cons chunkPb chunks ih =>
    cases h with
    | @cons _ data _ datas hchunk hrest =>
      refine (keeps_readChunk (show s.Owned chunkPb.fromProto.chunkId data from hchunk.1)
        hchunk.2).bind hvalid fun result s' hvalid' hgrows' hresult => ?_
      cases result with
      | none => exact Process.Keeps.value fun _ _ _ hnone => by cases hnone
      | some chunkData =>
        rw [hresult chunkData rfl, List.flatten_cons, ← List.append_assoc]
        exact ih hvalid' (hrest.imp fun c data hc =>
          ⟨hc.1.mono hgrows', fun r hr => (hc.2 r hr).mono hgrows'⟩)

omit [DecidableEq ι] in
/-- A described object has the pieces of its upload. -/
theorem Entry.Describes.pieces {e : Entry} {o : ObjectInfo} (h : e.Describes d s o) :
    pieces e.upload.data (o.chunks.map ChunkInfo.toProto) 0 =
      pieces e.upload.data e.object.chunks 0 := by
  refine pieces_congr ?_
  have hcut := congrArg (List.map fun l : Str × Str × UInt32 × UInt64 => (l.1, l.2.2.2)) h.layout
  rw [List.map_map, List.map_map] at hcut
  rw [List.map_map]
  exact hcut

/-- What `get` returns is the data that was put under its name. -/
theorem keeps_get (filename : Str) :
    p.Keeps svc
      (fun result s' => result.success = true → ∃ e ∈ s'.uploads,
        e.object.objectId = result.metadata.objectId ∧ e.upload.filename = filename ∧
          result.data = e.upload.data)
      (StorageClient.get filename) s := by
  refine Process.Keeps.call trivial fun r s₁ hvalid₁ hgrows₁ hserved => ?_
  cases r with
  | none => exact Process.Keeps.value fun _ _ _ h => by cases h
  | some located =>
    dsimp only
    split
    · exact Process.Keeps.value fun _ _ _ h => by cases h
    · next hsuccess =>
      rw [Bool.not_eq_false] at hsuccess
      obtain ⟨s₀, hvalid₀, hgrows₀, hgrows, hserves⟩ := hserved located rfl
      obtain ⟨e, he, o, hobject, hfilename, hdescribes⟩ := hserves.located hvalid₀ hsuccess
      rw [hobject]
      have hsound := hvalid₀.sound e he
      have hchunks : List.Forall₂ (fun c data => s₁.Owned c.chunkId data ∧
          ∀ r ∈ c.fromProto.replicas, s₁.Held d r c.chunkId) o.toProto.chunks
          ((pieces e.upload.data e.object.chunks 0).map Prod.snd) := by
        rw [← hdescribes.pieces, ObjectInfo.toProto_chunks]
        refine forall₂_pieces fun c hc data hpiece => ⟨?_, fun r hr => ?_⟩
        · exact ⟨e, hgrows.uploads e he, hdescribes.pieces ▸ hpiece⟩
        · obtain ⟨chunk, hchunk, rfl⟩ := List.mem_map.mp hc
          rw [ChunkInfo.fromProto_toProto] at hr
          exact (hdescribes.held chunk hchunk r hr).mono hgrows
      refine (keeps_getChunks hvalid₁ hchunks).bind hvalid₁
        fun result s₂ hvalid₂ hgrows₂ hresult => ?_
      obtain ⟨failure, data⟩ := result
      cases failure with
      | some message => exact Process.Keeps.value fun _ _ _ h => by cases h
      | none =>
        refine Process.Keeps.value fun s' _ hgrows' _ => ⟨e, ?_, ?_, ?_, ?_⟩
        · exact hgrows'.uploads e (hgrows₂.uploads e (hgrows.uploads e he))
        · exact hdescribes.objectId.symm
        · rw [← hsound.filename, ← hdescribes.filename, hfilename]
        · have hdata := hresult rfl
          rw [pieces_flatten e.upload.short hsound.sizes] at hdata
          exact hdata

/-! ## Repair -/

section Repair

variable {cfg : ClusterConfig} {m : ReplicationManager}

theorem keeps_readFromReplica {rep : ReplicaInfo} {chunkId : Str}
    (hheld : s.Held d rep chunkId) :
    p.Keeps svc (fun result s' => ∀ data, result = some data → s'.Owned chunkId data)
      (ReplicationManager.readFromReplica rep chunkId) s := by
  refine Process.Keeps.call ⟨rfl, fun _ _ hq => by cases hq⟩ fun r s₁ _ _ hserved => ?_
  cases r with
  | none => exact Process.Keeps.value fun _ _ _ _ h => by cases h
  | some resp =>
    obtain ⟨s₀, -, hgrows₀, hgrows, hserves⟩ := hserved resp rfl
    refine Process.Keeps.value fun s' _ hgrows' data hdata => ?_
    split at hdata
    · cases hdata
      exact ((hserves.read (hheld.mono hgrows₀)).mono hgrows).mono hgrows'
    · cases hdata

/-- What is fetched of a chunk is the data of its upload. -/
theorem keeps_fetch {chunk : ChunkInfo} {excludeNode : Str} (hvalid : s.Valid d)
    {reps : List ReplicaInfo} (hheld : ∀ r ∈ reps, s.Held d r chunk.chunkId) :
    p.Keeps svc (fun result s' => ∀ data, result = some data → s'.Owned chunk.chunkId data)
      (RecoveryManager.fetchChunkFromReplica chunk excludeNode reps) s := by
  induction reps generalizing s with
  | nil => exact Process.Keeps.value fun _ _ _ _ h => by cases h
  | cons rep reps ih =>
    rw [RecoveryManager.fetchChunkFromReplica]
    split
    · exact ih hvalid fun r hr => hheld r (List.mem_cons_of_mem _ hr)
    · refine (keeps_readFromReplica (hheld rep List.mem_cons_self)).bind hvalid
        fun read s₁ hvalid₁ hgrows₁ hread => ?_
      cases read with
      | none => exact ih hvalid₁ fun r hr => (hheld r (List.mem_cons_of_mem _ hr)).mono hgrows₁
      | some bytes =>
        refine Process.Keeps.value fun s' _ hgrows' data hdata => ?_
        cases hdata
        exact (hread bytes rfl).mono hgrows'

theorem keeps_writeToSelected (hlocal : d.Located m.localNodeId m.localAddress)
    {header : ChunkHeaderData} {data : Bytes} {node : ClusterNodeInfo}
    (hlocated : d.Located node.nodeId node.address) (howned : s.Owned header.chunkId data)
    (hobject : header.objectId.length < 2 ^ 32) :
    p.Keeps svc (fun ok s' => ok = true → s'.StoredOn (d.home node.nodeId) header.chunkId)
      (m.writeToSelected header data node) s := by
  rw [ReplicationManager.writeToSelected]
  split
  · next hid =>
    rw [hid]
    exact @keeps_write _ _ d svc p s m.localNodeId m.localAddress
      (.writeChunk
        { header := ChunkHeader.ofData { header with createdAtMs := 0 }, data := data })
      (ChunkHeader.ofData { header with createdAtMs := 0 }) data accepted hlocal rfl howned
      hobject rfl fun n resp n' hserves hok hchunk => hserves.stores_write hok hchunk hobject
  · exact @keeps_write _ _ d svc p s node.nodeId node.address
      (.replicateChunk
        { header := ChunkHeader.ofData header, data := data, sourceNodeId := m.localNodeId })
      (ChunkHeader.ofData header) data accepted hlocated rfl howned hobject rfl
      fun n resp n' hserves hok hchunk => hserves.stores_replicate hok hchunk hobject

/-- The replicas that `replicate_chunk` returns hold the chunk. -/
theorem keeps_replicateChunk (hlocal : d.Located m.localNodeId m.localAddress)
    {now : TimestampMs} {chunk : ChunkInfo} {data : Bytes} {replicationFactor : UInt32}
    {ackPolicy : WriteAckPolicy} (howned : s.Owned chunk.chunkId data)
    (hobject : chunk.objectId.length < 2 ^ 32) :
    p.Keeps svc (fun result s' => ∀ r ∈ result.replicas, s'.Held d r chunk.chunkId)
      (m.replicateChunk now chunk data replicationFactor ackPolicy) s := by
  refine Process.Keeps.call trivial fun r s₁ hvalid₁ hgrows₁ hserved => ?_
  cases r with
  | none => exact Process.Keeps.value fun _ _ _ r hr => by cases hr
  | some selected =>
    obtain ⟨s₀, hvalid₀, -, -, hserves⟩ := hserved selected rfl
    dsimp only
    split
    · exact Process.Keeps.value fun _ _ _ r hr => by cases hr
    · refine (keeps_writeToNodes hvalid₁ (hserves.selected hvalid₀)
        (fun node hnode s' _ hgrows' => keeps_writeToSelected hlocal
          (hserves.selected hvalid₀ node hnode)
          (show s'.Owned (ReplicationManager.headerOf now chunk data).chunkId data from
            (howned.mono hgrows₁).mono hgrows') hobject)
        (by simp)).bind hvalid₁ fun progress s₂ hvalid₂ hgrows₂ hheld => ?_
      exact Process.Keeps.value fun s' _ hgrows' r hr => (hheld r hr).mono hgrows'

/-- One turn of a repair pass, for a known chunk. -/
theorem keeps_repairChunk (hlocal : d.Located m.localNodeId m.localAddress)
    {now : TimestampMs} {excludeNode : Str} (hvalid : s.Valid d) {chunk : ChunkInfo}
    (hknown : s.Known d chunk) :
    p.Keeps svc (fun _ _ => True) (RecoveryManager.repairChunk cfg m now excludeNode chunk)
      s := by
  obtain ⟨e, he, hid, hlayout, hheld⟩ := id hknown
  refine (keeps_fetch hvalid hheld).bind hvalid fun fetched s₁ hvalid₁ hgrows₁ hfetched => ?_
  cases fetched with
  | none => exact Process.Keeps.value fun _ _ _ => trivial
  | some data =>
    refine (keeps_replicateChunk hlocal (hfetched data rfl)
      ((hknown.mono hgrows₁).objectId_length hvalid₁)).bind hvalid₁
      fun result s₂ hvalid₂ hgrows₂ hreplicas => ?_
    split
    · refine Process.Keeps.call ?_ fun _ _ _ _ _ => Process.Keeps.value fun _ _ _ => trivial
      have hrepaired : s₂.Known d
          { chunk with version := chunk.version + 1, replicas := result.replicas } :=
        ⟨e, hgrows₂.uploads e (hgrows₁.uploads e he), hid, hlayout, hreplicas⟩
      exact hrepaired.allowed p
    · exact Process.Keeps.value fun _ _ _ => trivial

theorem keeps_repairChunks (hlocal : d.Located m.localNodeId m.localAddress)
    {excludeNode : Str} {now : ℕ → TimestampMs} (hvalid : s.Valid d)
    {chunks : List ChunkMetadata} (hknown : ∀ c ∈ chunks, s.Known d c.fromProto)
    {recovered : UInt32} :
    p.Keeps svc (fun _ _ => True)
      (RecoveryManager.repairChunks cfg m excludeNode now chunks recovered) s := by
  induction chunks generalizing s now recovered with
  | nil => exact Process.Keeps.value fun _ _ _ => trivial
  | cons pbChunk chunks ih =>
    refine (keeps_repairChunk hlocal hvalid (hknown pbChunk List.mem_cons_self)).bind hvalid
      fun ok s' hvalid' hgrows' _ => ?_
    exact ih hvalid' fun c hc => (hknown c (List.mem_cons_of_mem _ hc)).mono hgrows'

theorem keeps_repair (hlocal : d.Located m.localNodeId m.localAddress)
    (now : ℕ → TimestampMs) :
    p.Keeps svc (fun _ _ => True) (RecoveryManager.repairUnderReplicatedChunks cfg m now) s := by
  refine Process.Keeps.call trivial fun r s₁ hvalid₁ hgrows₁ hserved => ?_
  cases r with
  | none => exact Process.Keeps.value fun _ _ _ => trivial
  | some resp =>
    obtain ⟨s₀, hvalid₀, -, hgrows, hserves⟩ := hserved resp rfl
    refine (keeps_repairChunks hlocal hvalid₁ fun c hc =>
      (hserves.underReplicated hvalid₀ c hc).mono hgrows).bind hvalid₁ fun _ _ _ _ _ => ?_
    exact Process.Keeps.value fun _ _ _ => trivial

theorem keeps_recover (hlocal : d.Located m.localNodeId m.localAddress)
    (now : ℕ → TimestampMs) (failedNodeId : Str) :
    p.Keeps svc (fun _ _ => True) (RecoveryManager.recoverFailedNode cfg m now failedNodeId)
      s := by
  refine Process.Keeps.call trivial fun _ s₁ hvalid₁ _ _ => ?_
  refine Process.Keeps.call trivial fun r s₂ hvalid₂ hgrows₂ hserved => ?_
  have hknown : ∀ c ∈ (match r with
      | some resp => resp.chunks
      | none => []), s₂.Known d c.fromProto := by
    cases r with
    | none => simp
    | some resp =>
      obtain ⟨s₀, hvalid₀, -, hgrows, hserves⟩ := hserved resp rfl
      exact fun c hc => (hserves.underReplicated hvalid₀ c hc).mono hgrows
  refine (keeps_repairChunks hlocal hvalid₂ hknown).bind hvalid₂ fun _ _ _ _ _ => ?_
  exact Process.Keeps.value fun _ _ _ => trivial

end Repair

end StorageEngine
