import StorageEngine.Lib.UniqueIndex
import StorageEngine.Metadata.Store
import Mathlib.Logic.Relation

/-!
# The two indexes of the metadata store

What each operation can do to `objects_by_id_` and `filename_to_id_`, one lemma
for each operation, and the agreement of the two maps in every reachable store.
-/

namespace StorageEngine.MetadataStore

open Lib

/-! ## What the operations do -/

theorem createObject_cases {uuid : ℕ → Str} {now : TimestampMs} {s s' : MetadataStore}
    {filename owner : Str} {size : UInt64} {replicationFactor chunkSizeBytes : UInt32}
    {result : Option ObjectInfo}
    (h : createObject uuid now s filename size replicationFactor owner chunkSizeBytes =
      some (result, s')) :
    (result = none ∧ s' = s ∧ filename ∈ s.filenameToId) ∨
      ∃ chunks, planChunks (fun n => uuid (n + 1)) (uuid 0) size chunkSizeBytes = some chunks ∧
        filename ∉ s.filenameToId ∧
        result = some (newObject uuid now filename size replicationFactor owner chunks) ∧
        s' = { s with
          objectsById := s.objectsById.insert (uuid 0)
            (newObject uuid now filename size replicationFactor owner chunks)
          filenameToId := s.filenameToId.insert filename (uuid 0) } := by
  rw [createObject] at h
  split at h
  · next hmem =>
    cases h
    exact .inl ⟨rfl, rfl, hmem⟩
  · next hfree =>
    dsimp only at h
    split at h
    · cases h
    · next chunks hplan =>
      cases h
      exact .inr ⟨chunks, hplan, hfree, rfl, rfl⟩

/-- A creation with an object. -/
theorem createObject_created {uuid : ℕ → Str} {now : TimestampMs} {s s' : MetadataStore}
    {filename owner : Str} {size : UInt64} {replicationFactor chunkSizeBytes : UInt32}
    {obj : ObjectInfo}
    (h : createObject uuid now s filename size replicationFactor owner chunkSizeBytes =
      some (some obj, s')) :
    ∃ chunks, planChunks (fun n => uuid (n + 1)) (uuid 0) size chunkSizeBytes = some chunks ∧
      filename ∉ s.filenameToId ∧
      obj = newObject uuid now filename size replicationFactor owner chunks ∧
      s' = { s with
        objectsById := s.objectsById.insert (uuid 0)
          (newObject uuid now filename size replicationFactor owner chunks)
        filenameToId := s.filenameToId.insert filename (uuid 0) } := by
  rcases createObject_cases h with ⟨hresult, -, -⟩ | ⟨chunks, hplan, hfree, hresult, hstore⟩
  · cases hresult
  · exact ⟨chunks, hplan, hfree, Option.some.inj hresult, hstore⟩

/-- A creation without one. -/
theorem createObject_refused {uuid : ℕ → Str} {now : TimestampMs} {s s' : MetadataStore}
    {filename owner : Str} {size : UInt64} {replicationFactor chunkSizeBytes : UInt32}
    (h : createObject uuid now s filename size replicationFactor owner chunkSizeBytes =
      some (none, s')) : s' = s ∧ filename ∈ s.filenameToId := by
  rcases createObject_cases h with ⟨-, hsame, hmem⟩ | ⟨chunks, -, -, hresult, -⟩
  · exact ⟨hsame, hmem⟩
  · cases hresult

theorem deleteObject_cases (s : MetadataStore) (objectId : Str) :
    (deleteObject s objectId = (false, s) ∧ objectId ∉ s.objectsById) ∨
      ∃ obj, s.objectsById.lookup objectId = some obj ∧
        deleteObject s objectId =
          (true,
            { s with
              filenameToId := s.filenameToId.erase obj.filename
              objectsById := s.objectsById.erase objectId }) := by
  rw [deleteObject]
  cases hobj : s.objectsById.lookup objectId with
  | none => exact .inl ⟨rfl, Finmap.lookup_eq_none.mp hobj⟩
  | some obj => exact .inr ⟨obj, rfl, rfl⟩

theorem deleteObjectByFilename_found {s : MetadataStore} {filename objectId : Str}
    (hname : s.filenameToId.lookup filename = some objectId) :
    deleteObjectByFilename s filename = deleteObject s objectId := by
  rw [deleteObjectByFilename, hname]

theorem deleteObjectByFilename_unknown {s : MetadataStore} {filename : Str}
    (hname : filename ∉ s.filenameToId) : deleteObjectByFilename s filename = (false, s) := by
  rw [deleteObjectByFilename, Finmap.lookup_eq_none.mpr hname]

theorem deleteObjectByFilename_cases (s : MetadataStore) (filename : Str) :
    deleteObjectByFilename s filename = (false, s) ∨
      ∃ objectId, s.filenameToId.lookup filename = some objectId ∧
        deleteObjectByFilename s filename = deleteObject s objectId := by
  cases hname : s.filenameToId.lookup filename with
  | none => exact .inl (deleteObjectByFilename_unknown (Finmap.lookup_eq_none.mp hname))
  | some objectId => exact .inr ⟨objectId, rfl, deleteObjectByFilename_found hname⟩

theorem updateNodeHeartbeat_cases (now : TimestampMs) (s : MetadataStore) (nodeId : Str)
    (freeBytes chunkCount : UInt64) :
    updateNodeHeartbeat now s nodeId freeBytes chunkCount = (false, s) ∨
      ∃ node, s.nodes.find nodeId = some node ∧
        updateNodeHeartbeat now s nodeId freeBytes chunkCount =
          (true,
            { s with
              nodes := s.nodes.set
                { node with
                  online := true
                  freeBytes := freeBytes
                  chunkCount := chunkCount
                  lastHeartbeat := now } }) := by
  rw [updateNodeHeartbeat]
  cases s.nodes.find nodeId with
  | none => exact .inl rfl
  | some node => exact .inr ⟨node, rfl, rfl⟩

theorem markNodeOffline_cases (s : MetadataStore) (nodeId : Str) :
    markNodeOffline s nodeId = (false, s) ∨
      ∃ node, s.nodes.find nodeId = some node ∧
        markNodeOffline s nodeId =
          (true, { s with nodes := s.nodes.set { node with online := false } }) := by
  rw [markNodeOffline]
  cases s.nodes.find nodeId with
  | none => exact .inl rfl
  | some node => exact .inr ⟨node, rfl, rfl⟩

theorem updateChunk_cases (now : TimestampMs) (s : MetadataStore) (objectId : Str)
    (chunk : ChunkInfo) :
    updateChunk now s objectId chunk = (false, s) ∨
      ∃ obj chunks, s.objectsById.lookup objectId = some obj ∧
        replaceChunk chunk obj.chunks = some chunks ∧
        updateChunk now s objectId chunk =
          (true,
            { s with
              objectsById := s.objectsById.insert objectId
                { obj with chunks := chunks, updatedAt := now } }) := by
  rw [updateChunk]
  cases hobj : s.objectsById.lookup objectId with
  | none => exact .inl rfl
  | some obj =>
    dsimp only
    cases hchunks : replaceChunk chunk obj.chunks with
    | none => exact .inl rfl
    | some chunks => exact .inr ⟨obj, chunks, rfl, hchunks, rfl⟩

/-- A replaced chunk is the first one with its id. -/
theorem replaceChunk_cases {chunk : ChunkInfo} {chunks chunks' : List ChunkInfo}
    (h : replaceChunk chunk chunks = some chunks') :
    ∃ before c after, chunks = before ++ c :: after ∧ c.chunkId = chunk.chunkId ∧
      chunks' = before ++ chunk :: after := by
  induction chunks generalizing chunks' with
  | nil => cases h
  | cons c chunks ih =>
    rw [replaceChunk] at h
    split at h
    · next hid =>
      cases h
      exact ⟨[], c, chunks, rfl, hid, rfl⟩
    · obtain ⟨rest, hrest, rfl⟩ := Option.map_eq_some_iff.mp h
      obtain ⟨before, c', after, rfl, hid, rfl⟩ := ih hrest
      exact ⟨c :: before, c', after, rfl, hid, rfl⟩

/-- A chunk is replaced if there is one with its id. -/
theorem replaceChunk_isSome {chunk c : ChunkInfo} {chunks : List ChunkInfo} (hc : c ∈ chunks)
    (hid : c.chunkId = chunk.chunkId) : ∃ chunks', replaceChunk chunk chunks = some chunks' := by
  induction chunks with
  | nil => cases hc
  | cons first rest ih =>
    rw [replaceChunk]
    split
    · exact ⟨_, rfl⟩
    · next hne =>
      rcases List.mem_cons.mp hc with rfl | hc
      · exact absurd hid hne
      · obtain ⟨chunks', hchunks'⟩ := ih hc
        exact ⟨_, by rw [hchunks']; rfl⟩

/-- A deletion leaves some of the objects. -/
theorem objects_of_delete {store : MetadataStore} {objectId id : Str} {o : ObjectInfo}
    (ho : (store.deleteObject objectId).2.objectsById.lookup id = some o) :
    store.objectsById.lookup id = some o := by
  rcases deleteObject_cases store objectId with ⟨heq, -⟩ | ⟨obj, -, heq⟩
  · rw [heq] at ho
    exact ho
  · rw [heq] at ho
    exact (lookup_erase_cases ho).2

theorem deleteObject_nodes (store : MetadataStore) (objectId : Str) :
    (store.deleteObject objectId).2.nodes = store.nodes := by
  rcases deleteObject_cases store objectId with ⟨heq, -⟩ | ⟨obj, -, heq⟩ <;> rw [heq]

theorem updateChunk_nodes (now : TimestampMs) (store : MetadataStore) (objectId : Str)
    (chunk : ChunkInfo) : (store.updateChunk now objectId chunk).2.nodes = store.nodes := by
  rcases updateChunk_cases now store objectId chunk with heq | ⟨obj, chunks, -, -, heq⟩ <;>
    rw [heq]

theorem updateChunk_index (now : TimestampMs) (store : MetadataStore) (objectId : Str)
    (chunk : ChunkInfo) :
    (store.updateChunk now objectId chunk).2.roundRobinIndex = store.roundRobinIndex := by
  rcases updateChunk_cases now store objectId chunk with heq | ⟨obj, chunks, -, -, heq⟩ <;>
    rw [heq]

/-- `s'` has the objects and the names of `s`. -/
def SameObjects (s s' : MetadataStore) : Prop :=
  s'.objectsById = s.objectsById ∧ s'.filenameToId = s.filenameToId

theorem registerNode_sameObjects (now : TimestampMs) (s : MetadataStore)
    (node : NodeInfo) : SameObjects s (registerNode now s node).2 :=
  ⟨rfl, rfl⟩

theorem updateNodeHeartbeat_sameObjects (now : TimestampMs) (s : MetadataStore)
    (nodeId : Str) (freeBytes chunkCount : UInt64) :
    SameObjects s (updateNodeHeartbeat now s nodeId freeBytes chunkCount).2 := by
  rcases updateNodeHeartbeat_cases now s nodeId freeBytes chunkCount with heq | ⟨node, -, heq⟩
  · rw [heq]
    exact ⟨rfl, rfl⟩
  · rw [heq]
    exact ⟨rfl, rfl⟩

theorem markNodeOffline_sameObjects (s : MetadataStore) (nodeId : Str) :
    SameObjects s (markNodeOffline s nodeId).2 := by
  rcases markNodeOffline_cases s nodeId with heq | ⟨node, -, heq⟩
  · rw [heq]
    exact ⟨rfl, rfl⟩
  · rw [heq]
    exact ⟨rfl, rfl⟩

theorem selectNodes_sameObjects (order : NodeOrder) (s : MetadataStore) (count : UInt32)
    (strategy : LoadBalanceStrategy) :
    SameObjects s (selectNodes order s count strategy).2 := by
  unfold selectNodes
  dsimp only
  split
  · exact ⟨rfl, rfl⟩
  · cases strategy <;> exact ⟨rfl, rfl⟩

theorem setLeader_sameObjects (s : MetadataStore) (leaderId : Str)
    (generation : UInt64) : SameObjects s (setLeader s leaderId generation) :=
  ⟨rfl, rfl⟩

/-- A loop over the objects meets those that are stored. -/
theorem VisitsObjects.mem_iff {s : MetadataStore} {visited : List ObjectInfo}
    (h : s.VisitsObjects visited) {obj : ObjectInfo} :
    obj ∈ visited ↔ ∃ id, s.objectsById.lookup id = some obj := by
  obtain ⟨ids, -, hids, hlookup⟩ := h
  have hmem : obj ∈ visited ↔ some obj ∈ ids.map s.objectsById.lookup := by
    rw [hlookup]
    simp
  rw [hmem, List.mem_map]
  constructor
  · rintro ⟨id, -, hid⟩
    exact ⟨id, hid⟩
  · rintro ⟨id, hid⟩
    exact ⟨id, (hids id).mpr (Finmap.mem_of_lookup_eq_some hid), hid⟩

/-- There is an order for a loop over the objects. -/
theorem exists_visitsObjects (s : MetadataStore) :
    ∃ visited, s.VisitsObjects visited := by
  let ids := s.objectsById.keys.toList
  have hids : ∀ id, id ∈ ids ↔ id ∈ s.objectsById := fun id => by
    rw [Finset.mem_toList, Finmap.mem_keys]
  have hlookup : ∀ part : List Str, part ⊆ ids → (part.map fun id => s.objectsById.lookup id) =
      (part.filterMap fun id => s.objectsById.lookup id).map some := by
    intro part hpart
    induction part with
    | nil => rfl
    | cons id part ih =>
      obtain ⟨hid, hrest⟩ := List.cons_subset.mp hpart
      obtain ⟨obj, hobj⟩ := Finmap.mem_iff.mp ((hids id).mp hid)
      have hfound := @List.filterMap_cons_some _ _ (fun id => s.objectsById.lookup id) _ part _ hobj
      rw [hfound, List.map_cons, List.map_cons, hobj, ih hrest]
  exact ⟨_, ids, Finset.nodup_toList _, hids, hlookup ids (List.Subset.refl _)⟩

/-! ## Runs -/

/-- One operation on the store.  The id drawn for a new object is not in use;
the arguments are otherwise arbitrary. -/
inductive Step : MetadataStore → MetadataStore → Prop where
  | create {s s' : MetadataStore} (uuid : ℕ → Str) (now : TimestampMs) (filename : Str)
      (size : UInt64) (replicationFactor : UInt32) (owner : Str) (chunkSizeBytes : UInt32)
      (result : Option ObjectInfo) (hfresh : uuid 0 ∉ s.objectsById)
      (hcreate : createObject uuid now s filename size replicationFactor owner
        chunkSizeBytes = some (result, s')) : Step s s'
  | delete (s : MetadataStore) (objectId : Str) : Step s (deleteObject s objectId).2
  | deleteByFilename (s : MetadataStore) (filename : Str) :
      Step s (deleteObjectByFilename s filename).2
  | update (now : TimestampMs) (s : MetadataStore) (objectId : Str) (chunk : ChunkInfo) :
      Step s (updateChunk now s objectId chunk).2
  | register (now : TimestampMs) (s : MetadataStore) (node : NodeInfo) :
      Step s (registerNode now s node).2
  | heartbeat (now : TimestampMs) (s : MetadataStore) (nodeId : Str)
      (freeBytes chunkCount : UInt64) :
      Step s (updateNodeHeartbeat now s nodeId freeBytes chunkCount).2
  | offline (s : MetadataStore) (nodeId : Str) : Step s (markNodeOffline s nodeId).2
  | select (order : NodeOrder) (s : MetadataStore) (count : UInt32)
      (strategy : LoadBalanceStrategy) : Step s (selectNodes order s count strategy).2
  | lead (s : MetadataStore) (leaderId : Str) (generation : UInt64) :
      Step s (setLeader s leaderId generation)

/-- The stores that operations lead to from the empty one. -/
def Reachable (s : MetadataStore) : Prop := Relation.ReflTransGen Step {} s

/-- Objects are stored under their own id, and the index is the inverse of the
table along the file name. -/
structure Indexed (s : MetadataStore) : Prop where
  keyed : ∀ {id obj}, s.objectsById.lookup id = some obj → obj.objectId = id
  inverse : UniqueIndex ObjectInfo.filename s.objectsById s.filenameToId

theorem indexed_empty : Indexed {} where
  keyed h := by simp at h
  inverse := UniqueIndex.empty _

theorem Indexed.same {s s' : MetadataStore} (h : Indexed s) (hsame : SameObjects s s') :
    Indexed s' := by
  obtain ⟨hobjects, hnames⟩ := hsame
  refine ⟨fun {id obj} hobj => ?_, ?_⟩
  · rw [hobjects] at hobj
    exact h.keyed hobj
  · rw [hobjects, hnames]
    exact h.inverse

/-- A new object under a new name. -/
theorem Indexed.insert {s : MetadataStore} (h : Indexed s) {obj : ObjectInfo}
    (hfresh : obj.objectId ∉ s.objectsById) (hname : obj.filename ∉ s.filenameToId) :
    Indexed { s with
      objectsById := s.objectsById.insert obj.objectId obj
      filenameToId := s.filenameToId.insert obj.filename obj.objectId } := by
  refine ⟨fun {id obj'} hobj => ?_, h.inverse.insert hfresh hname⟩
  rcases lookup_insert_cases hobj with ⟨rfl, rfl⟩ | ⟨-, hobj⟩
  · rfl
  · exact h.keyed hobj

theorem Indexed.create {s s' : MetadataStore} (h : Indexed s) {uuid : ℕ → Str}
    {now : TimestampMs} {filename owner : Str} {size : UInt64}
    {replicationFactor chunkSizeBytes : UInt32} {result : Option ObjectInfo}
    (hfresh : uuid 0 ∉ s.objectsById)
    (hcreate : createObject uuid now s filename size replicationFactor owner
      chunkSizeBytes = some (result, s')) : Indexed s' := by
  rcases createObject_cases hcreate with ⟨-, rfl, -⟩ | ⟨chunks, -, hname, -, rfl⟩
  · exact h
  · exact @Indexed.insert _ h (newObject uuid now filename size replicationFactor owner chunks)
      hfresh hname

theorem Indexed.delete {s : MetadataStore} (h : Indexed s) (objectId : Str) :
    Indexed (deleteObject s objectId).2 := by
  rcases deleteObject_cases s objectId with ⟨heq, -⟩ | ⟨obj, hobj, heq⟩
  · rw [heq]
    exact h
  · rw [heq]
    refine ⟨fun {id obj'} hobj' => ?_, h.inverse.erase hobj⟩
    exact h.keyed (lookup_erase_cases hobj').2

theorem Indexed.update {s : MetadataStore} (h : Indexed s) (now : TimestampMs)
    (objectId : Str) (chunk : ChunkInfo) :
    Indexed (updateChunk now s objectId chunk).2 := by
  rcases updateChunk_cases now s objectId chunk with heq | ⟨obj, chunks, hobj, -, heq⟩
  · rw [heq]
    exact h
  · rw [heq]
    refine ⟨fun {id obj'} hobj' => ?_, h.inverse.replace hobj rfl⟩
    rcases lookup_insert_cases hobj' with ⟨rfl, rfl⟩ | ⟨-, hobj'⟩
    · exact (h.keyed hobj : obj.objectId = _)
    · exact h.keyed hobj'

theorem Indexed.step {s s' : MetadataStore} (h : Indexed s) (hstep : Step s s') :
    Indexed s' := by
  cases hstep with
  | create uuid now filename size replicationFactor owner chunkSizeBytes result hfresh
      hcreate => exact h.create hfresh hcreate
  | delete _ objectId => exact h.delete objectId
  | deleteByFilename _ filename =>
    rcases deleteObjectByFilename_cases s filename with heq | ⟨objectId, -, heq⟩
    · rw [heq]
      exact h
    · rw [heq]
      exact h.delete objectId
  | update now _ objectId chunk => exact h.update now objectId chunk
  | register now _ node => exact h.same (registerNode_sameObjects now s node)
  | heartbeat now _ nodeId freeBytes chunkCount =>
    exact h.same (updateNodeHeartbeat_sameObjects now s nodeId freeBytes chunkCount)
  | offline _ nodeId => exact h.same (markNodeOffline_sameObjects s nodeId)
  | select order _ count strategy =>
    exact h.same (selectNodes_sameObjects order s count strategy)
  | lead _ leaderId generation => exact h.same (setLeader_sameObjects s leaderId generation)

theorem Indexed.of_reachable {s : MetadataStore} (h : Reachable s) : Indexed s := by
  induction h with
  | refl => exact indexed_empty
  | tail _ hstep ih => exact ih.step hstep

/-- A loop over the objects meets each once. -/
theorem VisitsObjects.ids_nodup {s : MetadataStore} {visited : List ObjectInfo}
    (hindexed : Indexed s) (h : s.VisitsObjects visited) :
    (visited.map ObjectInfo.objectId).Nodup := by
  obtain ⟨ids, hnodup, -, hlookup⟩ := h
  have hids : visited.map ObjectInfo.objectId = ids := by
    clear hnodup
    induction ids generalizing visited with
    | nil =>
      cases visited with
      | nil => rfl
      | cons obj rest => cases hlookup
    | cons id ids ih =>
      cases visited with
      | nil => cases hlookup
      | cons obj rest =>
        rw [List.map_cons, List.map_cons, List.cons.injEq] at hlookup
        rw [List.map_cons, hindexed.keyed hlookup.1, ih hlookup.2]
  exact hids ▸ hnodup

/-- In every reachable store the two maps are inverse to each other.  So no two
objects share a file name, and the id found for a name is never dangling. -/
theorem indexes_inverse {s : MetadataStore} (h : Reachable s) :
    (∀ id obj, s.objectsById.lookup id = some obj →
      obj.objectId = id ∧ s.filenameToId.lookup obj.filename = some id) ∧
    (∀ name id, s.filenameToId.lookup name = some id →
      ∃ obj, s.objectsById.lookup id = some obj ∧ obj.filename = name) ∧
    (∀ id id' obj obj', s.objectsById.lookup id = some obj →
      s.objectsById.lookup id' = some obj' → obj.filename = obj'.filename → id = id') ∧
    ∀ name id, s.filenameToId.lookup name = some id →
      ∃ obj, s.locateByFilename name = some obj ∧ obj.objectId = id ∧ obj.filename = name := by
  have hindexed := Indexed.of_reachable h
  refine ⟨fun id obj hobj => ⟨hindexed.keyed hobj, hindexed.inverse.indexed hobj⟩,
    fun name id hname => hindexed.inverse.pointed hname,
    fun id id' obj obj' hobj hobj' => hindexed.inverse.key_unique hobj hobj', ?_⟩
  intro name id hname
  obtain ⟨obj, hobj, hfilename⟩ := hindexed.inverse.pointed hname
  refine ⟨obj, ?_, hindexed.keyed hobj, hfilename⟩
  rw [locateByFilename, hname]
  exact hobj

/-- An object is created, and one of its chunks is updated with an id that is
not its own. -/
theorem indexes_inverse_update :
    ∃ s obj, Reachable s ∧ s.locateByFilename (str "a.txt") = some obj ∧
      obj.objectId = str "o" := by
  have hcreate := @Step.create {} _ (fun n => if n = 0 then str "o" else str "c") 1
    (str "a.txt") 3 1 (str "default") 4194304 _ Finmap.notMem_empty rfl
  have hreachable : Reachable _ := (Relation.ReflTransGen.refl.tail hcreate).tail
    (.update 2 _ (str "o") { chunkId := str "c", objectId := str "x" })
  obtain ⟨obj, hobj, hid, -⟩ :=
    (indexes_inverse hreachable).2.2.2 (str "a.txt") (str "o") (by decide)
  exact ⟨_, obj, hreachable, hobj, hid⟩

end StorageEngine.MetadataStore
