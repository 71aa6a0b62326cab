import StorageEngine.Client.DeleteFailure
import StorageEngine.Integrity.DataIntegrity
import StorageEngine.Integrity.Faults

/-!
# No download is wrong

Whatever is deleted, lost or restarted in between, a `get` that succeeds returns the data of
one put, whole.

* `Activity.keeps`: every program makes allowed calls only, from any state that the others
  leave.
* `Cluster.Endures` are the runs, and `downloads_genuine` is the result.
-/

namespace StorageEngine

open Lib Lib.Remote MetadataStore StorageClient

variable {ι : Type} [DecidableEq ι] {svc : ClusterConfig} {reach : Str → Option ι}

/-- A node answers a read with what it reads. -/
theorem StorageService.Serves.read_reply {req : ReadChunkRequest} {n n' : StorageNode}
    {r : Option ReadChunkResponse} (h : Serves (.readChunk req) n r n') :
    r = some (readResponse (n.1.readChunk n.2 req.chunkId)) := by
  cases h with
  | readChunk => rfl

namespace Activity

variable {a : Activity} {α : Type} {s : System ι}

/-- From this state the program keeps the rules, and its value satisfies `post`. -/
abbrev Keeps (svc : ClusterConfig) (reach : Str → Option ι) (a : Activity)
    (post : α → System ι → Prop) (prog : ClusterProg α) (s : System ι) : Prop :=
  Safe (System.faultDiscipline ι) (a.Serves svc reach) post prog s

theorem Allowed.safeCall {q : Rpc} (h : a.Allowed s q) :
    SafeCall (System.faultDiscipline ι) (a.Serves svc reach) q s :=
  fun _ _ _ hgenuine hrecalls hserves =>
    ⟨hserves.respects hgenuine (h.mono hrecalls), hserves.recalls⟩

namespace Keeps

/-- A program keeps the rules if all its calls are allowed. -/
theorem of_issues {prog : ClusterProg α} (h : prog.Issues (a.Allowed s)) :
    a.Keeps svc reach (fun _ _ => True) prog s :=
  Safe.of_issues (h.imp fun _ hq => hq.safeCall)

/-- An allowed call, for each way it can end. -/
theorem call {q : Rpc} {f : Option q.Reply → ClusterProg α} {post : α → System ι → Prop}
    (hallowed : a.Allowed s q)
    (hnext : ∀ r s', s'.Genuine → s.Recalls s' →
      (∀ resp, r = some resp → ∃ s₁ : System ι, s₁.Genuine ∧ s.Recalls s₁ ∧ s₁.Recalls s' ∧
        a.Serves svc reach q s₁ (some resp) s') → a.Keeps svc reach post (f r) s') :
    a.Keeps svc reach post (Prog.rpc q >>= f) s := by
  refine Safe.call hallowed.safeCall (fun s₁ r s₂ hgenuine hrecalls hserves => ?_)
    fun s₁ hgenuine hrecalls => hnext none s₁ hgenuine hrecalls fun resp hr => by cases hr
  have hgenuine₂ := hserves.respects hgenuine (hallowed.mono hrecalls)
  refine hnext r s₂ hgenuine₂ (fun e he => hserves.recalls (hrecalls he)) fun resp hr => ?_
  subst hr
  exact ⟨s₁, hgenuine, hrecalls, hserves.recalls, hserves⟩

theorem value {post : α → System ι → Prop} {value : α}
    (hpost : ∀ s', s'.Genuine → s.Recalls s' → post value s') :
    a.Keeps svc reach post (.done value) s :=
  .done hpost

end Keeps

/-! ## What an activity learns -/

/-- The chunk is planned for an upload. -/
def Planned (s : System ι) (chunk : ChunkInfo) : Prop :=
  ∃ e ∈ s.uploads, chunk.objectId = e.object.objectId ∧
    chunk.toProto.layout ∈ e.object.chunks.map ChunkMetadata.layout

omit [DecidableEq ι] in
theorem Planned.recalls {s' : System ι} (hrecalls : s.Recalls s') {chunk : ChunkInfo}
    (h : Planned s chunk) : Planned s' chunk := by
  obtain ⟨e, he, hrest⟩ := h
  exact ⟨e, hrecalls he, hrest⟩

omit [DecidableEq ι] in
theorem Planned.objectId_length (hgenuine : s.Genuine) {chunk : ChunkInfo}
    (h : Planned s chunk) : chunk.objectId.length < 2 ^ 32 := by
  obtain ⟨e, he, hid, -⟩ := h
  rw [hid]
  exact hgenuine.history.objectId_length he

omit [DecidableEq ι] in
/-- A planned chunk has data. -/
theorem Planned.owned {chunk : ChunkInfo} (h : Planned s chunk) :
    ∃ data, s.Owned chunk.chunkId data := by
  obtain ⟨e, he, -, hlayout⟩ := h
  obtain ⟨planned, hplanned, heq⟩ := List.mem_map.mp hlayout
  have hid : chunk.chunkId = planned.chunkId := congrArg Prod.fst heq.symm
  have hmem : planned.chunkId ∈ (pieces e.upload.data e.object.chunks 0).map Prod.fst := by
    rw [pieces_ids]
    exact List.mem_map_of_mem hplanned
  obtain ⟨piece, hpiece, hfst⟩ := List.mem_map.mp hmem
  refine ⟨piece.2, e, he, ?_⟩
  rw [hid, ← hfst]
  exact hpiece

omit [DecidableEq ι] in
theorem planned_of_shapes (hgenuine : s.Genuine) {e : Entry} (he : e ∈ s.uploads)
    {o : ObjectInfo} (hshapes : e.Shapes o) {chunk : ChunkInfo} (hchunk : chunk ∈ o.chunks) :
    Planned s chunk := by
  have hlayout : chunk.toProto.layout ∈ e.object.chunks.map ChunkMetadata.layout := by
    rw [← hshapes.layout]
    exact List.mem_map_of_mem (f := fun c : ChunkInfo => c.toProto.layout) hchunk
  refine ⟨e, he, ?_, hlayout⟩
  obtain ⟨planned, hplanned, heq⟩ := List.mem_map.mp hlayout
  rw [← (hgenuine.sound e he).parent planned hplanned]
  exact (congrArg (fun l => l.2.1) heq).symm

/-- The located object is laid out as that of an upload under this name. -/
theorem Serves.located {filename : Str} {resp : LocateObjectResponse} {s' : System ι}
    (hgenuine : s.Genuine)
    (h : a.Serves svc reach (.metadata (.locateObject { filename := filename })) s
      (some resp) s') (hsuccess : resp.success = true) :
    ∃ e ∈ s.uploads, ∃ o, resp.object = o.toProto ∧ o.filename = filename ∧ e.Shapes o := by
  obtain ⟨hresp, -⟩ := serves_locateObject h.1
  cases hresp
  rw [StorageClient.locateObject_eq] at hsuccess ⊢
  cases hobj : s.cluster.locate filename with
  | none =>
    rw [hobj] at hsuccess
    cases hsuccess
  | some o =>
    obtain ⟨-, id, hid, ho⟩ := locate_eq_some.mp hobj
    obtain ⟨o', ho', hfilename⟩ := hgenuine.indexed.inverse.pointed hid
    rw [ho] at ho'
    cases ho'
    obtain ⟨e, he, hshapes⟩ := hgenuine.objects ho
    exact ⟨e, he, o, rfl, hfilename, hshapes⟩

/-- The reported chunks are planned. -/
theorem Serves.underReplicated {resp : GetUnderReplicatedChunksResponse} {s' : System ι}
    (hgenuine : s.Genuine)
    (h : a.Serves svc reach (.metadata .getUnderReplicatedChunks) s (some resp) s') :
    ∀ c ∈ resp.chunks, Planned s c.fromProto := by
  obtain ⟨-, resp', hresp, hserves⟩ := h.1.metadata_cases
  cases hresp
  generalize s'.cluster.metadata = m at hserves
  cases hserves with
  | getUnderReplicatedChunks hvisited =>
    intro c hc
    obtain ⟨chunk, hchunk, rfl⟩ := List.mem_map.mp hc
    rw [ChunkInfo.fromProto_toProto]
    obtain ⟨o, ho, hfilter⟩ := List.mem_flatMap.mp hchunk
    obtain ⟨id, hid⟩ := hvisited.mem_iff.mp ho
    obtain ⟨e, he, hshapes⟩ := hgenuine.objects hid
    exact planned_of_shapes hgenuine he hshapes (List.mem_of_mem_filter hfilter)

/-- What is read of a chunk is its data. -/
theorem Serves.read {address chunkId : Str} {resp : ReadChunkResponse} {s' : System ι}
    (hgenuine : s.Genuine) {data : Bytes} (howned : s.Owned chunkId data)
    (h : a.Serves svc reach (.storage address (.readChunk { chunkId := chunkId })) s
      (some resp) s') (hsuccess : resp.success = true) : resp.data = data := by
  obtain ⟨i, n, -, hserves, -⟩ := h.1.storage_cases
  cases hserves.read_reply
  cases hread : (s.cluster.nodes i).1.readChunk (s.cluster.nodes i).2 chunkId with
  | none =>
    rw [hread] at hsuccess
    cases hsuccess
  | some chunk =>
    rw [StorageNode.readChunk_eq, Option.bind_eq_some_iff] at hread
    obtain ⟨contents, hfile, hcontents⟩ := hread
    obtain ⟨header, payload⟩ := chunk
    exact ((hgenuine.files hfile).2 data howned).payload hcontents

/-! ## Put -/

omit [DecidableEq ι] in
theorem writeToNodes_allowed {write : ClusterNodeInfo → ClusterProg Bool} {version : UInt32}
    (hwrite : ∀ node, (write node).Issues (a.Allowed s)) (nodes : List ClusterNodeInfo)
    (p : WriteProgress) : (writeToNodes write version nodes p).Issues (a.Allowed s) := by
  induction nodes generalizing p with
  | nil => exact .done p
  | cons node nodes ih => exact (hwrite node).bind fun ok => ih _

omit [DecidableEq ι] in
/-- One turn of the loop of `put` writes and records the chunk as it is planned. -/
theorem putChunk_allowed (hgenuine : s.Genuine) {e : Entry} (he : e ∈ s.uploads)
    {chunkPb : ChunkMetadata} (hchunk : chunkPb ∈ e.object.chunks) {offset : UInt64}
    {cfg : ClusterConfig} {data : Bytes}
    (howned : s.Owned chunkPb.chunkId (chunkDataOf data offset chunkPb.size)) :
    (putChunk cfg data e.object chunkPb offset).Issues (a.Allowed s) := by
  refine .call trivial fun r => ?_
  cases r with
  | none => exact .done _
  | some selected =>
    refine (writeToNodes_allowed (fun node => ?_) _ _).bind fun progress => ?_
    · refine .call (fun header bytes hwritten => ?_) fun r => .done _
      cases hwritten
      exact ⟨hgenuine.history.objectId_length he, howned⟩
    · split
      · exact .call trivial fun r => .done _
      · refine .call ⟨e, he, rfl, List.mem_map.mpr ⟨chunkPb, hchunk, ?_⟩⟩ fun r => .done _
        rw [ChunkMetadata.layout, (hgenuine.sound e he).parent chunkPb hchunk]
        rfl

omit [DecidableEq ι] in
/-- The loop of `put`, for the chunks that are left of its object. -/
theorem putChunks_allowed (hgenuine : s.Genuine) {e : Entry} (he : e ∈ s.uploads)
    {cfg : ClusterConfig} {todo : List ChunkMetadata} {offset : UInt64}
    (htodo : ∀ c ∈ todo, c ∈ e.object.chunks)
    (hpieces : ∀ piece ∈ pieces e.upload.data todo offset,
      piece ∈ pieces e.upload.data e.object.chunks 0) :
    (putChunks cfg e.upload.data e.object todo offset).Issues (a.Allowed s) := by
  induction todo generalizing offset with
  | nil => exact .done _
  | cons chunkPb todo ih =>
    refine (putChunk_allowed hgenuine he (htodo chunkPb List.mem_cons_self)
      ⟨e, he, hpieces _ List.mem_cons_self⟩).bind fun failure => ?_
    cases failure with
    | some message => exact .done _
    | none =>
      exact ih (fun c hc => htodo c (List.mem_cons_of_mem _ hc))
        fun piece hpiece => hpieces piece (List.mem_cons_of_mem _ hpiece)

theorem keeps_put (u : Upload) :
    (Activity.put u).Keeps svc reach (fun _ _ => True)
      (StorageClient.put u.cfg u.filename u.data u.owner) s := by
  refine Keeps.call ⟨u, rfl, rfl⟩ fun r s₁ hgenuine₁ _ hserved => ?_
  cases r with
  | none => exact Keeps.value fun _ _ _ => trivial
  | some created =>
    dsimp only
    split
    · exact Keeps.value fun _ _ _ => trivial
    · next hsuccess =>
      rw [Bool.not_eq_false] at hsuccess
      obtain ⟨s₀, -, -, -, -, huploads⟩ := hserved created rfl
      have he : ⟨u, created.object⟩ ∈ s₁.uploads := by
        rw [huploads]
        simp [Activity.created, hsuccess]
      refine Keeps.of_issues ((putChunks_allowed hgenuine₁ he (fun _ h => h)
        fun _ h => h).bind fun failure => ?_)
      cases failure <;> exact .done _

/-! ## Get -/

theorem keeps_readChunk {chunk : ChunkInfo} {data : Bytes} (howned : s.Owned chunk.chunkId data)
    (reps : List ReplicaInfo) :
    a.Keeps svc reach (fun result _ => ∀ read, result = some read → read = data)
      (readChunkFromReplicas chunk reps) s := by
  induction reps generalizing s with
  | nil => exact Keeps.value fun _ _ _ _ h => by cases h
  | cons rep reps ih =>
    refine Keeps.call (fun _ _ hq => by cases hq) fun r s₁ hgenuine₁ hrecalls₁ hserved => ?_
    have hrest := ih (howned.recalls hrecalls₁)
    cases r with
    | none => exact hrest
    | some resp =>
      dsimp only
      split
      · exact hrest
      · next hsuccess =>
        rw [Bool.not_eq_false] at hsuccess
        split
        · exact hrest
        · obtain ⟨s₀, hgenuine₀, hrecalls₀, -, hserves⟩ := hserved resp rfl
          refine Keeps.value fun s' _ _ read hread => ?_
          cases hread
          exact hserves.read hgenuine₀ (howned.recalls hrecalls₀) hsuccess

/-- The loop of `get`: what it has read is the data of its chunks. -/
theorem keeps_getChunks (hgenuine : s.Genuine) {chunks : List ChunkMetadata} {datas : List Bytes}
    (h : List.Forall₂ (fun c data => s.Owned c.chunkId data) chunks datas) {read : Bytes} :
    a.Keeps svc reach (fun result _ => result.1 = none → result.2 = read ++ datas.flatten)
      (getChunks chunks read) s := by
  induction chunks generalizing s datas read with
  | nil =>
    cases h
    exact Keeps.value fun _ _ _ _ => (List.append_nil read).symm
  | cons chunkPb chunks ih =>
    cases h with
    | @cons _ data _ datas hchunk hrest =>
      refine (keeps_readChunk (show s.Owned chunkPb.fromProto.chunkId data from hchunk) _).bind
        hgenuine fun result s' hgenuine' hrecalls' hresult => ?_
      cases result with
      | none => exact Keeps.value fun _ _ _ hnone => by cases hnone
      | some chunkData =>
        rw [hresult chunkData rfl, List.flatten_cons, ← List.append_assoc]
        exact ih hgenuine' (hrest.imp fun c data hc => hc.recalls hrecalls')

omit [DecidableEq ι] in
/-- An object of this shape has the pieces of its upload. -/
theorem pieces_of_shapes {e : Entry} {o : ObjectInfo} (h : e.Shapes o) :
    pieces e.upload.data (o.chunks.map ChunkInfo.toProto) 0 =
      pieces e.upload.data e.object.chunks 0 := by
  refine pieces_congr ?_
  have hcut := congrArg (List.map fun l : Str × Str × UInt32 × UInt64 => (l.1, l.2.2.2)) h.layout
  rw [List.map_map, List.map_map] at hcut
  rw [List.map_map]
  exact hcut

/-- What a `get` returns. -/
def Post : Activity → Outcome → System ι → Prop
  | .get filename, .got result, s =>
    result.success = true → ∃ e ∈ s.uploads, e.object.objectId = result.metadata.objectId ∧
      e.upload.filename = filename ∧ result.data = e.upload.data
  | _, _, _ => True

theorem keeps_get (filename : Str) :
    a.Keeps svc reach (fun result s' => (Activity.get filename).Post (.got result) s')
      (StorageClient.get filename) s := by
  refine Keeps.call trivial fun r s₁ hgenuine₁ hrecalls₁ hserved => ?_
  cases r with
  | none => exact Keeps.value fun _ _ _ h => by cases h
  | some located =>
    dsimp only
    split
    · exact Keeps.value fun _ _ _ h => by cases h
    · next hsuccess =>
      rw [Bool.not_eq_false] at hsuccess
      obtain ⟨s₀, hgenuine₀, -, hrecalls, hserves⟩ := hserved located rfl
      obtain ⟨e, he, o, hobject, hfilename, hshapes⟩ := hserves.located hgenuine₀ hsuccess
      rw [hobject]
      have hsound := hgenuine₀.sound e he
      have hchunks : List.Forall₂ (fun c data => s₁.Owned c.chunkId data) o.toProto.chunks
          ((pieces e.upload.data e.object.chunks 0).map Prod.snd) := by
        rw [← pieces_of_shapes hshapes, ObjectInfo.toProto_chunks]
        refine forall₂_pieces fun c hc data hpiece => ?_
        exact ⟨e, hrecalls he, pieces_of_shapes hshapes ▸ hpiece⟩
      refine (keeps_getChunks hgenuine₁ hchunks).bind hgenuine₁
        fun result s₂ hgenuine₂ hrecalls₂ hresult => ?_
      obtain ⟨failure, data⟩ := result
      cases failure with
      | some message => exact Keeps.value fun _ _ _ h => by cases h
      | none =>
        refine Keeps.value fun s' _ hrecalls' _ =>
          ⟨e, hrecalls' (hrecalls₂ (hrecalls he)), ?_, ?_, ?_⟩
        · exact hshapes.objectId.symm
        · rw [← hsound.filename, ← hshapes.filename, hfilename]
        · have hdata := hresult rfl
          rw [pieces_flatten e.upload.short hsound.sizes] at hdata
          exact hdata

/-! ## Repair -/

section Repair

variable {cfg : ClusterConfig} {m : ReplicationManager}

theorem keeps_readFromReplica {rep : ReplicaInfo} {chunkId : Str} {data : Bytes}
    (howned : s.Owned chunkId data) :
    a.Keeps svc reach (fun result _ => ∀ read, result = some read → read = data)
      (ReplicationManager.readFromReplica rep chunkId) s := by
  refine Keeps.call (fun _ _ hq => by cases hq) fun r s₁ _ _ hserved => ?_
  cases r with
  | none => exact Keeps.value fun _ _ _ _ h => by cases h
  | some resp =>
    obtain ⟨s₀, hgenuine₀, hrecalls₀, -, hserves⟩ := hserved resp rfl
    refine Keeps.value fun s' _ _ read hread => ?_
    split at hread
    · next hsuccess =>
      cases hread
      exact hserves.read hgenuine₀ (howned.recalls hrecalls₀) hsuccess
    · cases hread

/-- What is fetched of a chunk is its data. -/
theorem keeps_fetch {chunk : ChunkInfo} {excludeNode : Str} {data : Bytes} (hgenuine : s.Genuine)
    (howned : s.Owned chunk.chunkId data) (reps : List ReplicaInfo) :
    a.Keeps svc reach (fun result _ => ∀ read, result = some read → read = data)
      (RecoveryManager.fetchChunkFromReplica chunk excludeNode reps) s := by
  induction reps generalizing s with
  | nil => exact Keeps.value fun _ _ _ _ h => by cases h
  | cons rep reps ih =>
    rw [RecoveryManager.fetchChunkFromReplica]
    split
    · exact ih hgenuine howned
    · refine (keeps_readFromReplica howned).bind hgenuine
        fun read s₁ hgenuine₁ hrecalls₁ hread => ?_
      cases read with
      | none => exact ih hgenuine₁ (howned.recalls hrecalls₁)
      | some bytes =>
        refine Keeps.value fun _ _ _ read hsome => ?_
        cases hsome
        exact hread bytes rfl

omit [DecidableEq ι] in
/-- A replication writes the data of the chunk. -/
theorem replicateChunk_allowed {now : TimestampMs} {chunk : ChunkInfo} {data : Bytes}
    {replicationFactor : UInt32} {ackPolicy : WriteAckPolicy}
    (howned : s.Owned chunk.chunkId data) (hobject : chunk.objectId.length < 2 ^ 32) :
    (m.replicateChunk now chunk data replicationFactor ackPolicy).Issues (a.Allowed s) := by
  refine .call trivial fun r => ?_
  cases r with
  | none => exact .done _
  | some selected =>
    simp only [Prog.bind]
    split
    · exact .done _
    · refine Prog.Issues.bind (writeToNodes_allowed (fun node => ?_) _ _) fun p => .done _
      rw [ReplicationManager.writeToSelected]
      split
      · refine .call (fun header bytes hwritten => ?_) fun r => .done _
        cases hwritten
        exact ⟨hobject, howned⟩
      · refine .call (fun header bytes hwritten => ?_) fun r => .done _
        cases hwritten
        exact ⟨hobject, howned⟩

/-- One turn of a repair pass, for a planned chunk. -/
theorem keeps_repairChunk {now : TimestampMs} {excludeNode : Str} (hgenuine : s.Genuine)
    {chunk : ChunkInfo} (hplanned : Planned s chunk) :
    a.Keeps svc reach (fun _ _ => True)
      (RecoveryManager.repairChunk cfg m now excludeNode chunk) s := by
  obtain ⟨data, howned⟩ := hplanned.owned
  refine (keeps_fetch hgenuine howned _).bind hgenuine
    fun fetched s₁ hgenuine₁ hrecalls₁ hfetched => ?_
  cases fetched with
  | none => exact Keeps.value fun _ _ _ => trivial
  | some read =>
    rw [hfetched read rfl]
    have hplanned₁ := hplanned.recalls hrecalls₁
    refine Keeps.of_issues ((replicateChunk_allowed (howned.recalls hrecalls₁)
      (hplanned₁.objectId_length hgenuine₁)).bind fun result => ?_)
    split
    · obtain ⟨e, he, hid, hlayout⟩ := hplanned₁
      exact .call ⟨e, he, hid.symm, hlayout⟩ fun r => .done _
    · exact .done _

theorem keeps_repairChunks {excludeNode : Str} {now : ℕ → TimestampMs} (hgenuine : s.Genuine)
    {chunks : List ChunkMetadata} (hplanned : ∀ c ∈ chunks, Planned s c.fromProto)
    {recovered : UInt32} :
    a.Keeps svc reach (fun _ _ => True)
      (RecoveryManager.repairChunks cfg m excludeNode now chunks recovered) s := by
  induction chunks generalizing s now recovered with
  | nil => exact Keeps.value fun _ _ _ => trivial
  | cons pbChunk chunks ih =>
    refine (keeps_repairChunk hgenuine (hplanned pbChunk List.mem_cons_self)).bind hgenuine
      fun ok s' hgenuine' hrecalls' _ => ?_
    exact ih hgenuine' fun c hc => (hplanned c (List.mem_cons_of_mem _ hc)).recalls hrecalls'

theorem keeps_repair (now : ℕ → TimestampMs) :
    a.Keeps svc reach (fun _ _ => True)
      (RecoveryManager.repairUnderReplicatedChunks cfg m now) s := by
  refine Keeps.call trivial fun r s₁ hgenuine₁ _ hserved => ?_
  cases r with
  | none => exact Keeps.value fun _ _ _ => trivial
  | some resp =>
    obtain ⟨s₀, hgenuine₀, -, hrecalls, hserves⟩ := hserved resp rfl
    refine (keeps_repairChunks hgenuine₁ fun c hc =>
      (hserves.underReplicated hgenuine₀ c hc).recalls hrecalls).bind hgenuine₁ fun _ _ _ _ _ => ?_
    exact Keeps.value fun _ _ _ => trivial

theorem keeps_recover (now : ℕ → TimestampMs) (failedNodeId : Str) :
    a.Keeps svc reach (fun _ _ => True)
      (RecoveryManager.recoverFailedNode cfg m now failedNodeId) s := by
  refine Keeps.call trivial fun _ s₁ _ _ _ => ?_
  refine Keeps.call trivial fun r s₂ hgenuine₂ _ hserved => ?_
  have hplanned : ∀ c ∈ (match r with
      | some resp => resp.chunks
      | none => []), Planned s₂ c.fromProto := by
    cases r with
    | none => simp
    | some resp =>
      obtain ⟨s₀, hgenuine₀, -, hrecalls, hserves⟩ := hserved resp rfl
      exact fun c hc => (hserves.underReplicated hgenuine₀ c hc).recalls hrecalls
  refine (keeps_repairChunks hgenuine₂ hplanned).bind hgenuine₂ fun _ _ _ _ _ => ?_
  exact Keeps.value fun _ _ _ => trivial

end Repair

/-! ## Every activity -/

omit [DecidableEq ι] in
theorem deleteObject_writesNothing (filename : Str) :
    (StorageClient.deleteObject filename).Issues Rpc.WritesNothing := by
  refine .call trivial fun r => ?_
  cases r with
  | none => exact .done _
  | some located =>
    simp only [Prog.bind]
    split
    · exact .done _
    · refine Prog.Issues.bind ((StorageClient.deleteChunks_issues _).imp fun q hq => ?_) fun _ =>
        .call trivial fun r => ?_
      · obtain ⟨address, req, rfl⟩ := hq
        rfl
      · cases r <;> exact .done _

omit [DecidableEq ι] in
theorem Post.recalls {o : Outcome} {s' : System ι} (hrecalls : s.Recalls s')
    (h : a.Post o s) : a.Post o s' := by
  unfold Post at h ⊢
  split
  · intro hsuccess
    obtain ⟨e, he, hrest⟩ := h hsuccess
    exact ⟨e, hrecalls he, hrest⟩
  · trivial

/-- Every activity keeps the rules. -/
theorem keeps (a : Activity) (hgenuine : s.Genuine) :
    a.Keeps svc reach a.Post a.program s := by
  cases a with
  | put u =>
    exact (keeps_put u).bind hgenuine fun _ _ _ _ _ => Keeps.value fun _ _ _ => trivial
  | get filename =>
    refine (keeps_get filename).bind hgenuine fun result s' _ _ hresult => ?_
    exact Keeps.value fun _ _ hrecalls => hresult.recalls hrecalls
  | delete filename =>
    refine (Keeps.of_issues ((deleteObject_writesNothing filename).imp
      (allowed_of_writesNothing _ s))).bind hgenuine
        fun _ _ _ _ _ => Keeps.value fun _ _ _ => trivial
  | repair cfg m now =>
    exact (keeps_repair now).bind hgenuine fun _ _ _ _ _ => Keeps.value fun _ _ _ => trivial
  | recover cfg m now failedNodeId =>
    exact (keeps_recover now failedNodeId).bind hgenuine
      fun _ _ _ _ _ => Keeps.value fun _ _ _ => trivial
  | other program hprogram =>
    refine (Keeps.of_issues (hprogram.imp (allowed_of_writesNothing _ s))).bind hgenuine
      fun _ _ _ _ _ => Keeps.value fun _ _ _ => trivial

end Activity

/-! ## Integrity -/

omit [DecidableEq ι] in
/-- The metadata has no objects yet, and no machine has a file of a chunk whose id is still to
be drawn. -/
structure Cluster.Begins (c : Cluster ι) : Prop where
  objects : c.metadata.store.objectsById = ∅
  names : c.metadata.store.filenameToId = ∅
  files : ∀ {i id}, (c.nodes i).file id ≠ none → id ∈ c.metadata.issued

omit [DecidableEq ι] in
theorem Cluster.Begins.genuine {c : Cluster ι} (h : c.Begins) : System.Genuine ⟨c, []⟩ where
  sound _ he := by cases he
  distinct := List.nodup_nil
  issued _ hid := by cases hid
  indexed := indexed_empty.same ⟨h.objects, h.names⟩
  objects ho := by
    rw [h.objects, Finmap.lookup_empty] at ho
    cases ho
  files hfile := by
    refine ⟨h.files (by rw [hfile]; simp), fun data howned => ?_⟩
    obtain ⟨e, he, -⟩ := howned
    cases he

/-- The configurations of the runs from a cluster, with all that can happen to it. -/
def Cluster.Endures (svc : ClusterConfig) (reach : Str → Option ι) (c : Cluster ι)
    (config : Lib.Remote.Config Rpc Rpc.Reply (System ι) Activity Outcome) : Prop :=
  Reachable (Activity.Serves svc reach) Activity.program System.Suffers ⟨c, []⟩ config

/-- In every state of every run: the object of an upload has an id of its own, what a machine
reads of one of its chunks is the data of that chunk, and every `get` that has ended with
success has returned the data of the upload that created the object. -/
theorem downloads_genuine {c : Cluster ι} (hbegins : c.Begins)
    {config : Lib.Remote.Config Rpc Rpc.Reply (System ι) Activity Outcome}
    (hendures : c.Endures svc reach config) :
    (∀ e ∈ config.state.uploads, ∀ e' ∈ config.state.uploads,
      e.object.objectId = e'.object.objectId → e = e') ∧
    (∀ e ∈ config.state.uploads, ∀ k chunk, e.object.chunks[k]? = some chunk →
      ∀ i header data, (config.state.cluster.nodes i).1.readChunk
          (config.state.cluster.nodes i).2 chunk.chunkId = some (header, data) →
        data = (e.upload.data.drop (totalSize (e.object.chunks.take k))).take
          chunk.size.toNat) ∧
    ∀ filename result, (.get filename, .done (.got result)) ∈ config.running →
      result.success = true → ∃ e ∈ config.state.uploads,
        e.object.objectId = result.metadata.objectId ∧ e.upload.filename = filename ∧
          result.data = e.upload.data := by
  have hsafe : SafeConfig (System.faultDiscipline ι) (Activity.Serves svc reach) Activity.Post
      config :=
    Reachable.safe (fun a _ hgenuine => a.keeps hgenuine)
      (fun s s' hgenuine h => ⟨h.genuine hgenuine, h.recalls⟩) hbegins.genuine hendures
  have hgenuine : config.state.Genuine := hsafe.valid
  refine ⟨fun e he e' he' hid => ?_, fun e he k chunk hk i header data hread => ?_,
    fun filename result hdone => hsafe.post_of_done hdone⟩
  · exact hgenuine.history.entry_unique he he' List.mem_cons_self (hid ▸ List.mem_cons_self)
  · rw [StorageNode.readChunk_eq, Option.bind_eq_some_iff] at hread
    obtain ⟨contents, hfile, hcontents⟩ := hread
    have hpiece := pieces_get e.upload.short (hgenuine.sound e he).sizes hk
    rw [UInt64.toNat_zero, Nat.zero_add] at hpiece
    exact ((hgenuine.files hfile).2 _ ⟨e, he, hpiece⟩).payload hcontents

/-- The run of a program on the cluster is a run on the system. -/
theorem runs_activity (a : Activity) {α : Type} {prog : ClusterProg α} {c c' : Cluster ι}
    {trace : List (Event Rpc Rpc.Reply)} {value : α}
    (hrun : Runs (Cluster.Serves svc reach) prog c trace value c') (uploads : List Entry) :
    ∃ uploads', Runs (a.Serves svc reach) prog ⟨c, uploads⟩ trace value ⟨c', uploads'⟩ := by
  induction hrun generalizing uploads with
  | done value c => exact ⟨uploads, .done _ _⟩
  | @call q next fate c c₁ c' r trace value hcall _ ih =>
    cases hcall with
    | answered h =>
      obtain ⟨uploads', hrest⟩ := ih (a.created q r ++ uploads)
      exact ⟨uploads', .call (.answered ⟨h, rfl⟩) hrest⟩
    | @replyLost _ _ r h =>
      obtain ⟨uploads', hrest⟩ := ih (a.created q r ++ uploads)
      exact ⟨uploads', .call (.replyLost (r := r) ⟨h, rfl⟩) hrest⟩
    | requestLost =>
      obtain ⟨uploads', hrest⟩ := ih uploads
      exact ⟨uploads', .call (.requestLost _) hrest⟩

/-- An empty file is put on one node and read back, and then the metadata node forgets it. -/
theorem downloads_genuine_one_node :
    ∃ (config : Lib.Remote.Config Rpc Rpc.Reply (System Unit) Activity Outcome)
      (result : GetResult), config.state.cluster.metadata.store = {} ∧
        (.get (str "a.txt"), .done (.got result)) ∈ config.running ∧
        ∃ e ∈ config.state.uploads, e.object.objectId = result.metadata.objectId ∧
          e.upload.filename = str "a.txt" ∧ result.data = e.upload.data := by
  obtain ⟨trace, c₁, hput, hserved⟩ := oneNode_put
  obtain ⟨loop, planned, final, hdone, -, rfl⟩ := put_completed (by decide) hput rfl
  obtain ⟨-, ⟨gtrace, got, c₂, hget, hanswered⟩, hgets⟩ := hdone.readable (by decide) (by decide)
    (by decide) fun e he => hserved e (List.mem_cons_of_mem _ he)
  have hfound := (hgets gtrace got c₂ hget hanswered).1
  let u : Upload :=
    { cfg := { replicationFactor := 1 }
      filename := str "a.txt"
      data := []
      short := by decide }
  have hputs : Runs (Cluster.Serves {} fun _ => some ()) (Activity.put u).program _ _ _ _ :=
    runs_bind.mpr ⟨_, _, _, _, hput, .done _ _, rfl⟩
  have hgets : Runs (Cluster.Serves {} fun _ => some ()) (Activity.get (str "a.txt")).program
      _ _ _ _ := runs_bind.mpr ⟨_, _, _, _, hget, .done _ _, rfl⟩
  obtain ⟨uploads₁, hputs⟩ := runs_activity (Activity.put u) hputs []
  obtain ⟨uploads₂, hgets⟩ := runs_activity (Activity.get (str "a.txt")) hgets uploads₁
  have hendures : Cluster.Endures {} (fun _ => some ()) _ _ :=
    (Reachable.run (Reachable.run .refl hputs) hgets).tail
      (.change (.restartMetadata [] ∅))
  have hbegins : Cluster.Begins ⟨{ store := oneNodeStore },
      fun _ : Unit => (ChunkStore.construct (str "/data") ∅ [], ∅)⟩ :=
    ⟨rfl, rfl, fun hfile => absurd rfl hfile⟩
  exact ⟨_, got, MetadataStore.construct_eq _ _, List.mem_cons_self,
    (downloads_genuine hbegins hendures).2.2 (str "a.txt") got List.mem_cons_self hfound⟩

end StorageEngine
