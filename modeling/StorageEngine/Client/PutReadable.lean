import StorageEngine.Client.Download
import StorageEngine.Client.PutSuccess

/-!
# Reading back what was put

`put` does not look at the outcome of `UpdateChunk`.  So a put can report success
while a chunk has no replica in the metadata.  This module proves when a
successful put can be read back: exactly when the metadata service has served
every `UpdateChunk` of the put, the quorum is at least one node, and the file has
a name that `LocateObject` looks for.
-/

namespace StorageEngine.StorageClient

open Lib.Remote MetadataStore

variable {ι : Type} {svc cfg : ClusterConfig} {reach : Str → Option ι}

/-! ## Reading -/

/-- The chunk can be read: it has replicas, they store its data, and its checksum is
that of the data. -/
structure ChunkReadable (reach : Str → Option ι) (c : Cluster ι) (chunk : ChunkInfo)
    (data : Bytes) : Prop where
  replicas : chunk.replicas ≠ []
  checksum : chunk.checksum = Checksum.sha256 data
  stored : ∀ r ∈ chunk.replicas, c.StoredAt reach r.address chunk.chunkId data

/-- All calls of the trace are answered. -/
def AllAnswered (trace : List (Event Rpc Rpc.Reply)) : Prop :=
  ∀ e ∈ trace, e.fate = .answered

variable [DecidableEq ι]

/-- The answer of a node that stores the chunk. -/
private theorem read_answer {c c' : Cluster ι} {address chunkId : Str} {data : Bytes}
    {r : Option (Rpc.Reply (.storage address (.readChunk { chunkId := chunkId })))}
    (hstored : c.StoredAt reach address chunkId data)
    (h : Cluster.Serves svc reach (.storage address (.readChunk { chunkId := chunkId })) c r
      c') :
    c' = c ∧ ∃ resp, r = some resp ∧ resp.success = true ∧ resp.data = data ∧
      resp.header.checksum = Checksum.sha256 data := by
  obtain ⟨i, hreach, hstores⟩ := hstored
  obtain ⟨j, n, hreach', hserves, rfl⟩ := h.storage_cases
  rw [hreach] at hreach'
  cases hreach'
  obtain ⟨rfl, hresp⟩ := hserves.read hstores
  refine ⟨?_, hresp⟩
  rw [Cluster.setNode, Function.update_eq_self]

theorem readChunkFromReplicas_runs {c : Cluster ι} {chunk : ChunkInfo} {data : Bytes}
    (h : ChunkReadable reach c chunk data) :
    ∃ trace, Runs (Cluster.Serves svc reach) (readChunkFromReplicas chunk chunk.replicas) c
      trace (some data) c ∧ AllAnswered trace := by
  obtain ⟨rep, reps, hreplicas⟩ := List.exists_cons_of_ne_nil h.replicas
  have hstored := h.stored rep (by rw [hreplicas]; exact List.mem_cons_self)
  obtain ⟨i, hreach, -⟩ := id hstored
  have hserves : Cluster.Serves svc reach
      (.storage rep.address (.readChunk { chunkId := chunk.chunkId })) c _ _ :=
    .storage hreach (.readChunk (c.nodes i) { chunkId := chunk.chunkId })
  obtain ⟨hsame, resp, hresp, hsuccess, hdata, hchecksum⟩ := read_answer hstored hserves
  rw [hsame, hresp] at hserves
  refine ⟨[⟨_, .answered, some resp⟩], ?_, fun e he => by rw [List.mem_singleton.mp he]⟩
  rw [hreplicas]
  refine runs_rpc.mpr ⟨_, _, _, [], .answered hserves, ?_, rfl⟩
  have hmatch : ¬(chunk.checksum ≠ [] ∧ resp.header.checksum ≠ chunk.checksum) := by
    rw [hchecksum, h.checksum]
    simp
  simp only [hsuccess, Bool.true_eq_false, if_false, if_neg hmatch, hdata]
  exact .done _ _

/-- The loop of `get` over readable chunks. -/
theorem getChunks_runs {c : Cluster ι} {chunks : List ChunkInfo} {datas : List Bytes}
    (h : List.Forall₂ (ChunkReadable reach c) chunks datas) (read : Bytes) :
    ∃ trace, Runs (Cluster.Serves svc reach) (getChunks (chunks.map ChunkInfo.toProto) read) c
      trace (none, read ++ datas.flatten) c ∧ AllAnswered trace := by
  induction h generalizing read with
  | nil =>
    refine ⟨[], ?_, by simp [AllAnswered]⟩
    rw [List.flatten_nil, List.append_nil]
    exact .done _ _
  | @cons chunk data chunks datas hchunk hrest ih =>
    obtain ⟨first, hfirst, hfirst'⟩ := readChunkFromReplicas_runs hchunk
    obtain ⟨rest, hlater, hlater'⟩ := ih (read ++ data)
    refine ⟨first ++ rest, ?_, fun e he => ?_⟩
    · rw [List.map_cons, getChunks, List.flatten_cons, ← List.append_assoc]
      refine runs_bind.mpr ⟨some data, c, first, rest, ?_, ?_, rfl⟩
      · rw [ChunkInfo.fromProto_toProto]
        exact hfirst
      · exact hlater
    · rcases List.mem_append.mp he with he | he
      · exact hfirst' e he
      · exact hlater' e he

/-- `get` of an object whose chunks are all readable. -/
theorem get_runs {filename : Str} (hname : filename ≠ []) {c : Cluster ι} {id : Str}
    {o : ObjectInfo} (hid : c.metadata.store.filenameToId.lookup filename = some id)
    (ho : c.metadata.store.objectsById.lookup id = some o) {datas : List Bytes}
    (h : List.Forall₂ (ChunkReadable reach c) o.chunks datas) :
    ∃ trace result, Runs (Cluster.Serves svc reach) (get filename) c trace result c ∧
      AllAnswered trace := by
  obtain ⟨loop, hloop, hanswered⟩ := @getChunks_runs _ svc _ _ _ _ _ h []
  have hlocate : MetadataService.locateObject c.metadata.store { filename := filename } =
      { success := true, object := o.toProto } := by
    simp [MetadataService.locateObject, hname, locateByFilename, hid, ho]
  have hserves : Cluster.Serves svc reach
      (.metadata (.locateObject { filename := filename })) c _ _ :=
    .metadata (.locateObject c.metadata { filename := filename })
  rw [hlocate] at hserves
  refine ⟨⟨_, .answered, _⟩ :: loop,
    { success := true
      data := [] ++ datas.flatten
      metadata :=
        { objectId := o.objectId
          filename := o.filename
          size := o.size
          chunks := List.replicate o.toProto.chunks.length {} }
      message := str "Download complete" },
    runs_rpc.mpr ⟨_, _, _, _, .answered hserves, ?_, rfl⟩, fun e he => ?_⟩
  · simp only [Bool.true_eq_false, if_false]
    exact runs_bind.mpr ⟨_, _, _, [], hloop, .done _ _, (List.append_nil _).symm⟩
  · rcases List.mem_cons.mp he with rfl | he
    · rfl
    · exact hanswered e he

/-- All runs of `get` whose calls are answered end in the same way. -/
theorem get_answered {filename : Str} {c c' : Cluster ι} {trace : List (Event Rpc Rpc.Reply)}
    {result : GetResult}
    (hrun : Runs (Cluster.Serves svc reach) (get filename) c trace result c')
    (hanswered : AllAnswered trace) : result = fetch (c.answers reach) (c.locate filename) :=
  (get_runsIn.mp ⟨trace, hrun, fun e he => .inl (hanswered e he)⟩).1

omit [DecidableEq ι] in
theorem readAll_of_readable {chunks : List ChunkInfo} {datas : List Bytes}
    (h : List.Forall₂ (ChunkReadable reach c) chunks datas) (read : Bytes) :
    readAll (c.answers reach) chunks read = (none, read ++ datas.flatten) := by
  induction h generalizing read with
  | nil => rw [readAll, List.flatten_nil, List.append_nil]
  | @cons chunk data chunks datas hchunk _ ih =>
    have hfirst : firstTaken (c.answers reach) chunk chunk.replicas = some data := by
      obtain ⟨rep, reps, hreplicas⟩ := List.exists_cons_of_ne_nil hchunk.replicas
      obtain ⟨i, hreach, header, hread, hheader⟩ :=
        hchunk.stored rep (by rw [hreplicas]; exact List.mem_cons_self)
      have hanswer : c.answers reach rep.address chunk.chunkId = some (header, data) := by
        rw [Cluster.answers, hreach]
        exact hread
      have htaken : taken chunk (some (header, data)) = some data := by
        rw [taken, hheader, hchunk.checksum]
        simp
      rw [hreplicas, firstTaken, List.findSome?_cons, hanswer, htaken]
    rw [readAll, hfirst, List.flatten_cons, ← List.append_assoc]
    exact ih (read ++ data)

/-! ## What a put leaves to read -/

private theorem eq_nil_of_map_eq {replicas : List ReplicaInfo} {accepted : List NodeInfo}
    (h : replicas.map (fun r => (r.nodeId, r.address)) =
      accepted.map fun node => (node.id, node.address)) :
    replicas = [] ↔ accepted = [] := by
  rw [← List.length_eq_zero_iff, ← List.length_eq_zero_iff]
  have hlength := congrArg List.length h
  rw [List.length_map, List.length_map] at hlength
  rw [hlength]

/-- A quorum of zero nodes is that of replication factor zero under `All`. -/
theorem replicationFactor_of_required {ack : WriteAckPolicy} {replicationFactor : UInt32}
    (h : ack.required replicationFactor = 0) : replicationFactor = 0 := by
  cases ack with
  | all => exact h
  | majority =>
    have hnat := congrArg UInt32.toNat h
    rw [WriteAckPolicy.required, UInt32.toNat_add, UInt32.toNat_div] at hnat
    have hlt := UInt32.toNat_lt replicationFactor
    simp at hnat
    omega

theorem selectNodes_zero (order : NodeOrder) (s : MetadataStore)
    (strategy : LoadBalanceStrategy) : (selectNodes order s 0 strategy).1 = [] := by
  unfold selectNodes
  dsimp only
  split
  · rfl
  · cases strategy <;> simp [roundRobinPick]

section ChunksPut

omit [DecidableEq ι]

variable {registry : NodeTable} {c : Cluster ι} {obj : ObjectMetadata} {planned final : ChunkInfo}
  {data : Bytes} {trace : List (Event Rpc Rpc.Reply)} {accepted : List NodeInfo}
  {replicas : List ReplicaInfo}

/-- A chunk with a quorum and a served `UpdateChunk` is readable. -/
theorem ChunkPut.readable
    (h : ChunkPut svc cfg reach registry c obj planned final data trace accepted replicas)
    (hrequired : cfg.writeAck.required cfg.replicationFactor ≠ 0)
    (hserved : ∀ e ∈ trace, ¬UpdateLost e) : ChunkReadable reach c final data := by
  have haccepted : accepted ≠ [] := by
    rintro rfl
    refine h.quorum (UInt32.lt_iff_toNat_lt.mpr (Nat.pos_of_ne_zero fun hzero => ?_))
    exact hrequired (UInt32.toNat_inj.mp hzero)
  rw [h.final_eq hserved]
  refine ⟨fun hnil => haccepted ((eq_nil_of_map_eq h.recorded).mp hnil), rfl, fun r hr => ?_⟩
  obtain ⟨node, hnode, -, haddress⟩ := h.node_of_replica hr
  rw [← haddress]
  exact h.stored node hnode

/-- With a quorum of zero nodes, or without `UpdateChunk`, a chunk has no replica. -/
theorem ChunkPut.without_replicas
    (h : ChunkPut svc cfg reach registry c obj planned final data trace accepted replicas)
    (hplanned : planned.replicas = [])
    (hmissing : cfg.writeAck.required cfg.replicationFactor = 0 ∨ ∃ e ∈ trace, UpdateLost e) :
    final.replicas = [] := by
  rcases h.outcome with ⟨-, rfl⟩ | ⟨hserved, rfl⟩
  · exact hplanned
  rcases hmissing with hzero | ⟨e, he, hlost⟩
  · obtain ⟨store, order, -, -, hsub⟩ := h.selected
    rw [replicationFactor_of_required hzero, selectNodes_zero] at hsub
    exact (eq_nil_of_map_eq h.recorded).mpr (List.sublist_nil.mp hsub)
  · exact absurd hlost (hserved e he)

theorem replicas_of_readable {chunks : List ChunkInfo} {datas : List Bytes}
    (h : List.Forall₂ (ChunkReadable reach c) chunks datas) :
    ∀ chunk ∈ chunks, chunk.replicas ≠ [] := by
  induction h with
  | nil => simp
  | cons hchunk _ ih => exact List.forall_mem_cons.mpr ⟨hchunk.replicas, ih⟩

variable {todo finals : List ChunkInfo} {offset : UInt64}

theorem ChunksPut.readable
    (h : ChunksPut svc cfg reach registry c obj data todo offset finals trace)
    (hrequired : cfg.writeAck.required cfg.replicationFactor ≠ 0)
    (hserved : ∀ e ∈ trace, ¬UpdateLost e) :
    List.Forall₂ (ChunkReadable reach c) finals
      ((pieces data (todo.map ChunkInfo.toProto) offset).map Prod.snd) := by
  induction h with
  | nil offset => exact .nil
  | cons hchunk hrest ih =>
    exact .cons (hchunk.readable hrequired fun e he => hserved e (List.mem_append_left _ he))
      (ih fun e he => hserved e (List.mem_append_right _ he))

theorem ChunksPut.without_replicas
    (h : ChunksPut svc cfg reach registry c obj data todo offset finals trace)
    (hne : todo ≠ []) (hplanned : ∀ c ∈ todo, c.replicas = [])
    (hmissing : cfg.writeAck.required cfg.replicationFactor = 0 ∨ ∃ e ∈ trace, UpdateLost e) :
    ∃ chunk ∈ finals, chunk.replicas = [] := by
  induction h with
  | nil offset => exact absurd rfl hne
  | @cons planned final rest finals offset turn later accepted replicas hchunk hrest ih =>
    have hfirst := hchunk.without_replicas (hplanned planned List.mem_cons_self)
    rcases hmissing with hzero | ⟨e, he, hlost⟩
    · exact ⟨final, List.mem_cons_self, hfirst (.inl hzero)⟩
    · rcases List.mem_append.mp he with he | he
      · exact ⟨final, List.mem_cons_self, hfirst (.inr ⟨e, he, hlost⟩)⟩
      · have hrest' : rest ≠ [] := by
          rintro rfl
          cases hrest
          cases he
        obtain ⟨chunk, hmem, hnil⟩ := ih hrest'
          (fun c hc => hplanned c (List.mem_cons_of_mem _ hc)) (.inr ⟨e, he, hlost⟩)
        exact ⟨chunk, List.mem_cons_of_mem _ hmem, hnil⟩

end ChunksPut

/-- The put is readable: every chunk of its object has a replica, and a `get` whose
calls are all answered ends and returns the data. -/
def Readable (svc : ClusterConfig) (reach : Str → Option ι) (c : Cluster ι)
    (objectId filename : Str) (data : Bytes) : Prop :=
  (∃ o, c.metadata.store.objectsById.lookup objectId = some o ∧
    ∀ chunk ∈ o.chunks, chunk.replicas ≠ []) ∧
  (∃ trace result c', Runs (Cluster.Serves svc reach) (get filename) c trace result c' ∧
    AllAnswered trace) ∧
  ∀ trace result c', Runs (Cluster.Serves svc reach) (get filename) c trace result c' →
    AllAnswered trace → result.success = true ∧ result.data = data

/-- A put whose `UpdateChunk` calls were served leaves a readable object. -/
theorem Completed.readable {filename owner : Str} {data : Bytes}
    (hlength : data.length < 2 ^ 64) {c c' : Cluster ι} {loop : List (Event Rpc Rpc.Reply)}
    {planned final : ObjectInfo}
    (hdone : Completed svc cfg reach filename data owner c c' loop planned final)
    (hname : filename ≠ []) (hrequired : cfg.writeAck.required cfg.replicationFactor ≠ 0)
    (hserved : ∀ e ∈ loop, ¬UpdateLost e) :
    Readable svc reach c' planned.objectId filename data := by
  have hreadable := hdone.chunks.readable hrequired hserved
  have hflat := pieces_flatten hlength hdone.sizes
  refine ⟨⟨final, hdone.stored, fun chunk hchunk => ?_⟩, ?_,
    fun gtrace got c'' hget hganswered => ?_⟩
  · exact replicas_of_readable hreadable chunk hchunk
  · obtain ⟨gtrace, got, hget, hganswered⟩ := @get_runs _ svc _ _ _ hname _ _ _
      hdone.located hdone.stored _ hreadable
    exact ⟨gtrace, got, c', hget, hganswered⟩
  · have hobj := locate_eq_some.mpr ⟨hname, _, hdone.located, hdone.stored⟩
    have hread := readAll_of_readable hreadable []
    rw [hflat] at hread
    rw [get_answered hget hganswered]
    exact fetch_success.mpr ⟨final, hobj, hread⟩

/-- Without that, or with a quorum of zero nodes, it leaves an object that is not. -/
theorem Completed.unreadable {filename owner : Str} {data : Bytes} {c c' : Cluster ι}
    {loop : List (Event Rpc Rpc.Reply)} {planned final : ObjectInfo}
    (hdone : Completed svc cfg reach filename data owner c c' loop planned final)
    (hmissing : cfg.writeAck.required cfg.replicationFactor = 0 ∨ ∃ e ∈ loop, UpdateLost e) :
    ¬Readable svc reach c' planned.objectId filename data := by
  obtain ⟨m, hcreated⟩ := hdone.created
  rintro ⟨⟨o, ho, hreplicas⟩, -⟩
  rw [hdone.stored] at ho
  cases ho
  obtain ⟨chunk, hmem, hnil⟩ := hdone.chunks.without_replicas hcreated.nonempty
    (fun chunk hchunk => (hcreated.planned chunk hchunk).replicas) hmissing
  exact hreplicas chunk hmem hnil

/-- A successful put can be read back if and only if the file has a name, the quorum
is not zero nodes, and no `UpdateChunk` of the put was lost. -/
theorem put_readable_iff {filename owner : Str} {data : Bytes}
    (hlength : data.length < 2 ^ 64) {c c' : Cluster ι} {trace : List (Event Rpc Rpc.Reply)}
    {result : PutResult}
    (hrun : Runs (Cluster.Serves svc reach) (put cfg filename data owner) c trace result c')
    (hsuccess : result.success = true) :
    Readable svc reach c' result.objectId filename data ↔
      filename ≠ [] ∧ cfg.writeAck.required cfg.replicationFactor ≠ 0 ∧
        ∀ e ∈ trace, ¬UpdateLost e := by
  obtain ⟨loop, obj, o, hdone, hresult, rfl⟩ := put_completed hlength hrun hsuccess
  rw [hresult]
  constructor
  · intro hreadable
    refine ⟨?_, fun hzero => hdone.unreadable (.inl hzero) hreadable, fun e he hlost => ?_⟩
    · rintro rfl
      obtain ⟨-, ⟨gtrace, got, c'', hget, hganswered⟩, hgets⟩ := hreadable
      have hfound := (hgets gtrace got c'' hget hganswered).1
      rw [get_answered hget hganswered] at hfound
      cases hfound
    · rcases List.mem_cons.mp he with rfl | he
      · obtain ⟨req, reply, heq⟩ := hlost
        cases heq
      · exact hdone.unreadable (.inr ⟨e, he, hlost⟩) hreadable
  · rintro ⟨hname, hrequired, hserved⟩
    exact hdone.readable hlength hname hrequired fun e he =>
      hserved e (List.mem_cons_of_mem _ he)

theorem oneNode_upload : EmptyUpload {} { replicationFactor := 1 } (fun _ => some ())
    oneNodeStore { visited := [oneNode], arranged := [oneNode] } [(oneNode.toProto, true)] :=
  ⟨oneNode_possible _, rfl, fun _ _ => ⟨(), rfl⟩, by decide⟩

/-- An empty file is put on one node. -/
theorem oneNode_put :
    ∃ (trace : List (Event Rpc Rpc.Reply)) (c' : Cluster Unit),
      Runs (Cluster.Serves {} fun _ => some ())
        (put { replicationFactor := 1 } (str "a.txt") [] (str "default"))
        ⟨{ store := oneNodeStore }, fun _ => (ChunkStore.construct (str "/data") ∅ [], ∅)⟩ trace
        { success := true, objectId := draw 0, message := str "Upload complete" } c' ∧
      ∀ e ∈ trace, ¬UpdateLost e := by
  obtain ⟨first, writes, c₂, hwrites, hfirst, -, hruns⟩ := @put_empty_success Unit _ {}
    { replicationFactor := 1 } (fun _ => some ()) (str "a.txt") (str "default") oneNodeStore
    (fun _ => (ChunkStore.construct (str "/data") ∅ [], ∅)) Finmap.notMem_empty _ _
    oneNode_upload
  refine ⟨_, _, hruns .answered _ _ (.answered (.metadata (.updateChunk c₂.metadata _ 0))), ?_⟩
  rintro e he ⟨req, reply, rfl⟩
  rcases List.mem_append.mp he with he | he
  · cases hfirst _ he
  · rcases List.mem_append.mp he with he | he
    · obtain ⟨address, q, hq⟩ := hwrites _ he
      cases hq
    · cases List.mem_singleton.mp he

/-- An empty file is put on one node and can be read back. -/
theorem put_readable_one_node :
    ∃ (trace : List (Event Rpc Rpc.Reply)) (c' : Cluster Unit),
      Runs (Cluster.Serves {} fun _ => some ())
        (put { replicationFactor := 1 } (str "a.txt") [] (str "default"))
        ⟨{ store := oneNodeStore }, fun _ => (ChunkStore.construct (str "/data") ∅ [], ∅)⟩ trace
        { success := true, objectId := draw 0, message := str "Upload complete" } c' ∧
      Readable {} (fun _ => some ()) c' (draw 0) (str "a.txt") [] := by
  obtain ⟨trace, c', hrun, hserved⟩ := oneNode_put
  exact ⟨trace, c', hrun,
    (put_readable_iff (by decide) hrun rfl).mpr ⟨by decide, by decide, hserved⟩⟩

/-- The same put with a lost `UpdateChunk` reports success too, and the only chunk of
the object has no replica. -/
theorem put_success_without_replicas :
    ∃ (trace : List (Event Rpc Rpc.Reply)) (c' : Cluster Unit),
      Runs (Cluster.Serves {} fun _ => some ())
        (put { replicationFactor := 1 } (str "a.txt") [] (str "default"))
        ⟨{ store := oneNodeStore }, fun _ => (ChunkStore.construct (str "/data") ∅ [], ∅)⟩ trace
        { success := true, objectId := draw 0, message := str "Upload complete" } c' ∧
      ¬Readable {} (fun _ => some ()) c' (draw 0) (str "a.txt") [] := by
  obtain ⟨first, writes, c₂, -, -, hobjects, hruns⟩ := @put_empty_success Unit _ {}
    { replicationFactor := 1 } (fun _ => some ()) (str "a.txt") (str "default") oneNodeStore
    (fun _ => (ChunkStore.construct (str "/data") ∅ [], ∅)) Finmap.notMem_empty _ _
    oneNode_upload
  refine ⟨_, c₂, hruns .requestLost none c₂ (.requestLost c₂), ?_⟩
  rintro ⟨⟨o, ho, hreplicas⟩, -⟩
  rw [hobjects, emptyCreated, Finmap.lookup_insert] at ho
  cases ho
  exact hreplicas _ List.mem_cons_self rfl

end StorageEngine.StorageClient
