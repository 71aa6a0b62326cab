import StorageEngine.Client.StorageClient
import StorageEngine.Cluster.Files

/-!
# What a download returns

`get` takes every chunk from the first of its replicas that has it.  If its own calls are
answered, its result is a function of the metadata and of what the machines read.

* `Answers` are the reads of the cluster, and `fetch` is the result of `get` in terms of them.
* `get_runsIn` says that the runs of `get` return `fetch`.
* `Downloads` is a download that returns the data of the file.
-/

namespace StorageEngine

open ChunkFormat Lib.Remote

variable {ι : Type}

/-! ## Reading -/

/-- What reads of a chunk at an address return. -/
abbrev Answers := Str → Str → Option (ChunkHeaderData × Bytes)

/-- The reads of the cluster. -/
def Cluster.answers (reach : Str → Option ι) (c : Cluster ι) : Answers :=
  fun address chunkId =>
    (reach address).bind fun i => (c.nodes i).1.readChunk (c.nodes i).2 chunkId

/-- The object that a name leads to. -/
def Cluster.locate (c : Cluster ι) (filename : Str) : Option ObjectInfo :=
  if filename ≠ [] then c.metadata.store.locateByFilename filename else none

namespace StorageClient

/-- The data that `get` takes from an answer. -/
def taken (chunk : ChunkInfo) : Option (ChunkHeaderData × Bytes) → Option Bytes
  | none => none
  | some (header, data) =>
    if chunk.checksum ≠ [] ∧ header.checksum ≠ chunk.checksum then none else some data

/-- The data of the first replica whose answer is taken. -/
def firstTaken (answers : Answers) (chunk : ChunkInfo) (reps : List ReplicaInfo) :
    Option Bytes :=
  reps.findSome? fun rep => taken chunk (answers rep.address chunk.chunkId)

/-- What `get` puts together from the answers, as the result of its loop. -/
def readAll (answers : Answers) : List ChunkInfo → Bytes → Option Str × Bytes
  | [], data => (none, data)
  | chunk :: rest, data =>
    match firstTaken answers chunk chunk.replicas with
    | none => (some (str "Failed to read chunk " ++ chunk.chunkId), data)
    | some chunkData => readAll answers rest (data ++ chunkData)

/-- The result of `get` for the object that its name leads to. -/
def fetch (answers : Answers) : Option ObjectInfo → GetResult
  | none => { message := str "Object not found" }
  | some obj =>
    let metadata : ObjectInfo :=
      { objectId := obj.objectId
        filename := obj.filename
        size := obj.size
        chunks := List.replicate obj.chunks.length {} }
    match readAll answers obj.chunks [] with
    | (some message, data) => { data := data, metadata := metadata, message := message }
    | (none, data) =>
      { success := true
        data := data
        metadata := metadata
        message := str "Download complete" }

/-- A fetch succeeds if there is an object and all its chunks are read. -/
theorem fetch_success {answers : Answers} {located : Option ObjectInfo} {data : Bytes} :
    (fetch answers located).success = true ∧ (fetch answers located).data = data ↔
      ∃ obj, located = some obj ∧ readAll answers obj.chunks [] = (none, data) := by
  cases located with
  | none => simp [fetch]
  | some obj =>
    cases hread : readAll answers obj.chunks [] with
    | mk failure read => cases failure <;> simp [fetch, hread]

variable [DecidableEq ι] {svc : ClusterConfig} {reach : Str → Option ι} {c c' : Cluster ι}

/-- The file can be downloaded: a `get` of which all calls are answered ends, and it returns
the data. -/
structure Downloads (svc : ClusterConfig) (reach : Str → Option ι) (c : Cluster ι)
    (filename : Str) (data : Bytes) : Prop where
  ends : ∃ result c',
    RunsIn (Cluster.Serves svc reach) (Responds reach) (get filename) c result c'
  returns : ∀ result c',
    RunsIn (Cluster.Serves svc reach) (Responds reach) (get filename) c result c' →
      result.success = true ∧ result.data = data

/-- A read that is answered returns what the cluster reads at the address, and a read at an
address that leads nowhere fails. -/
theorem runsIn_read {α : Type} {address chunkId : Str}
    {f : Option ReadChunkResponse → ClusterProg α} {a : α} :
    RunsIn (Cluster.Serves svc reach) (Responds reach)
        (storageCall address (.readChunk { chunkId := chunkId }) >>= f) c a c' ↔
      RunsIn (Cluster.Serves svc reach) (Responds reach)
        (f (match reach address with
          | none => none
          | some _ => some (StorageService.readResponse (c.answers reach address chunkId))))
        c a c' := by
  cases hreach : reach address with
  | none =>
    have hnowhere : ∀ {fate r}, Responds reach
        ⟨.storage address (.readChunk { chunkId := chunkId }), fate, r⟩ :=
      .inr ⟨address, _, rfl, hreach⟩
    refine runsIn_rpc_of_unique (.requestLost c) hnowhere fun fate r c₂ hcall _ => ?_
    have hserved : ∀ {r}, ¬Cluster.Serves svc reach
        (.storage address (.readChunk { chunkId := chunkId })) c r c₂ := by
      intro r hserves
      obtain ⟨i, n, hi, -⟩ := hserves.storage_cases
      rw [hreach] at hi
      cases hi
    cases hcall with
    | answered hserves => exact absurd hserves hserved
    | replyLost hserves => exact absurd hserves hserved
    | requestLost => exact ⟨rfl, rfl⟩
  | some i =>
    have hanswers : c.answers reach address chunkId =
        (c.nodes i).1.readChunk (c.nodes i).2 chunkId := by
      rw [Cluster.answers, hreach, Option.bind_some]
    have hserves : Cluster.Serves svc reach
        (.storage address (.readChunk { chunkId := chunkId })) c _ _ :=
      .storage hreach (.readChunk (c.nodes i) { chunkId := chunkId })
    rw [Cluster.setNode, Function.update_eq_self] at hserves
    rw [hanswers]
    refine runsIn_rpc_of_unique (.answered hserves) (.inl rfl) fun fate r c₂ hcall hresponds => ?_
    have hfate : fate = .answered := by
      rcases hresponds with hfate | ⟨address', q, hrequest, hnowhere⟩
      · exact hfate
      · cases hrequest
        rw [hreach] at hnowhere
        cases hnowhere
    subst hfate
    cases hcall with
    | answered hserves' =>
      obtain ⟨j, n, hj, hread, rfl⟩ := hserves'.storage_cases
      rw [hreach] at hj
      cases hj
      cases hread with
      | readChunk =>
        refine ⟨rfl, ?_⟩
        rw [Cluster.setNode, Function.update_eq_self]

/-- One turn of the loop over the replicas. -/
private theorem read_turn {chunk : ChunkInfo} {answer : Option (ChunkHeaderData × Bytes)}
    {resp : ReadChunkResponse} (hresp : resp = StorageService.readResponse answer)
    (next : ClusterProg (Option Bytes)) :
    (if resp.success = false then next
      else if chunk.checksum ≠ [] ∧ resp.header.checksum ≠ chunk.checksum then next
      else pure (some resp.data)) =
    match taken chunk answer with
    | none => next
    | some data => pure (some data) := by
  cases answer with
  | none =>
    have hfailed : resp.success = false := by rw [hresp]; rfl
    rw [if_pos hfailed]
    rfl
  | some answer =>
    obtain ⟨header, data⟩ := answer
    have hsuccess : ¬resp.success = false := by rw [hresp]; simp [StorageService.readResponse]
    have hheader : resp.header.checksum = header.checksum := by rw [hresp]; rfl
    have hdata : resp.data = data := by rw [hresp]; rfl
    rw [if_neg hsuccess, taken, ← hheader, hdata]
    split <;> rfl

theorem readChunkFromReplicas_runsIn {chunk : ChunkInfo} {reps : List ReplicaInfo}
    {result : Option Bytes} :
    RunsIn (Cluster.Serves svc reach) (Responds reach) (readChunkFromReplicas chunk reps) c
        result c' ↔
      result = firstTaken (c.answers reach) chunk reps ∧ c' = c := by
  induction reps with
  | nil => exact runsIn_done
  | cons rep reps ih =>
    rw [readChunkFromReplicas, runsIn_read, firstTaken, List.findSome?_cons]
    cases hreach : reach rep.address with
    | none =>
      have hanswer : c.answers reach rep.address chunk.chunkId = none := by
        rw [Cluster.answers, hreach, Option.bind_none]
      rw [hanswer]
      exact ih
    | some i =>
      dsimp only
      rw [read_turn rfl]
      cases taken chunk (c.answers reach rep.address chunk.chunkId) with
      | none => exact ih
      | some data => exact runsIn_done

theorem getChunks_runsIn {chunks : List ChunkInfo} {read : Bytes} {result : Option Str × Bytes} :
    RunsIn (Cluster.Serves svc reach) (Responds reach)
        (getChunks (chunks.map ChunkInfo.toProto) read) c result c' ↔
      result = readAll (c.answers reach) chunks read ∧ c' = c := by
  induction chunks generalizing read with
  | nil => exact runsIn_done
  | cons chunk rest ih =>
    rw [List.map_cons, getChunks, readAll, runsIn_bind, ChunkInfo.fromProto_toProto]
    simp only [readChunkFromReplicas_runsIn, and_assoc, exists_and_left, exists_eq_left]
    cases firstTaken (c.answers reach) chunk chunk.replicas with
    | none => exact runsIn_done
    | some data => exact ih

omit [DecidableEq ι] in
theorem locate_eq_some {filename : Str} {obj : ObjectInfo} :
    c.locate filename = some obj ↔ filename ≠ [] ∧
      ∃ id, c.metadata.store.filenameToId.lookup filename = some id ∧
        c.metadata.store.objectsById.lookup id = some obj := by
  rw [Cluster.locate, MetadataStore.locateByFilename]
  cases hid : c.metadata.store.filenameToId.lookup filename <;> simp

omit [DecidableEq ι] in
theorem locateObject_eq (c : Cluster ι) (filename : Str) :
    MetadataService.locateObject c.metadata.store { filename := filename } =
      match c.locate filename with
      | none => { success := false, message := str "Object not found" }
      | some obj => { success := true, object := obj.toProto } :=
  rfl

/-- The metadata service serves a location in one way. -/
theorem serves_locateObject {c c' : Cluster ι} {req : LocateObjectRequest}
    {r : Option (Rpc.Reply (.metadata (.locateObject req)))}
    (h : Cluster.Serves svc reach (.metadata (.locateObject req)) c r c') :
    r = some (MetadataService.locateObject c.metadata.store req) ∧ c' = c := by
  cases h with
  | metadata hserves =>
    cases hserves with
    | locateObject => exact ⟨rfl, rfl⟩

theorem get_runsIn {filename : Str} {result : GetResult} :
    RunsIn (Cluster.Serves svc reach) (Responds reach) (get filename) c result c' ↔
      result = fetch (c.answers reach) (c.locate filename) ∧ c' = c := by
  have hserves : Cluster.Serves svc reach
      (.metadata (.locateObject { filename := filename })) c _ c :=
    .metadata (.locateObject c.metadata { filename := filename })
  have hunique : ∀ fate r c₁,
      Delivers (Cluster.Serves svc reach) (.metadata (.locateObject { filename := filename }))
        fate c r c₁ →
      Responds reach ⟨.metadata (.locateObject { filename := filename }), fate, r⟩ →
        r = some (MetadataService.locateObject c.metadata.store { filename := filename }) ∧
          c₁ = c := by
    intro fate r c₁ hcall hresponds
    cases responds_metadata hresponds
    cases hcall with
    | answered hserves' => exact serves_locateObject hserves'
  refine (runsIn_rpc_of_unique (.answered hserves) (.inl rfl) hunique).trans ?_
  rw [locateObject_eq]
  cases c.locate filename with
  | none => exact runsIn_done
  | some obj =>
    simp only [Bool.true_eq_false, if_false]
    rw [runsIn_bind]
    simp only [ObjectInfo.toProto_chunks, getChunks_runsIn, and_assoc, exists_and_left,
      exists_eq_left, List.length_map, fetch]
    cases hread : readAll (c.answers reach) obj.chunks [] with
    | mk failure data => cases failure <;> exact runsIn_done

/-- What a download returns is decided by the metadata and by the answers to reads. -/
theorem downloads_iff {filename : Str} {data : Bytes} :
    Downloads svc reach c filename data ↔
      ∃ obj, c.locate filename = some obj ∧
        readAll (c.answers reach) obj.chunks [] = (none, data) := by
  rw [← fetch_success]
  constructor
  · intro h
    exact h.returns _ c (get_runsIn.mpr ⟨rfl, rfl⟩)
  · intro h
    refine ⟨⟨_, c, get_runsIn.mpr ⟨rfl, rfl⟩⟩, fun result c' hrun => ?_⟩
    rw [(get_runsIn.mp hrun).1]
    exact h

end StorageClient

end StorageEngine
