import StorageEngine.Cluster.DeleteByName
import StorageEngine.Lib.ReadWriteLock

/-!
# The sections of the metadata store

The calls of the store, one access to its maps at a time, under the lock of
`src/include/common/rw_lock.hpp`.  What a call writes to its snapshot is no part of the maps.

* `createBody` to `updateBody` are the sections, and `createBody_run` to `updateBody_run` what
  they do when nothing comes between.
* `storeClient` are the threads that make the calls.
* `store_atomic`: to its callers the store does each call at once.
-/

namespace StorageEngine

open Lib Lib.Atomic Lib.ReadWriteLock MetadataStore

/-- A section of a call. -/
abbrev StoreBody := Body MetadataNode CallStage

namespace MetadataNode

/-- `generate_uuid`, for an object and its chunks. -/
def draw (n : MetadataNode) (obj : ObjectInfo) : MetadataNode :=
  { n with issued := drawnFor (some obj) ++ n.issued }

/-- An assignment to `objects_by_id_`. -/
def setObject (n : MetadataNode) (objectId : Str) (obj : ObjectInfo) : MetadataNode :=
  { n with store := { n.store with objectsById := n.store.objectsById.insert objectId obj } }

/-- An assignment to `filename_to_id_`. -/
def setName (n : MetadataNode) (filename objectId : Str) : MetadataNode :=
  { n with
    store := { n.store with filenameToId := n.store.filenameToId.insert filename objectId } }

def eraseObject (n : MetadataNode) (objectId : Str) : MetadataNode :=
  { n with store := { n.store with objectsById := n.store.objectsById.erase objectId } }

def eraseName (n : MetadataNode) (filename : Str) : MetadataNode :=
  { n with store := { n.store with filenameToId := n.store.filenameToId.erase filename } }

/-- An assignment through an iterator into `objects_by_id_`. -/
def editObject (n : MetadataNode) (objectId : Str) (edit : ObjectInfo → ObjectInfo) :
    MetadataNode :=
  match n.store.objectsById.lookup objectId with
  | none => n
  | some obj => n.setObject objectId (edit obj)

end MetadataNode

/-! ## Sections -/

/-- The object that `create_object` makes, if its planning loop ends. -/
def plannedObject (uuid : ℕ → Str) (now : TimestampMs) (filename : Str) (size : UInt64)
    (replicationFactor : UInt32) (owner : Str) (chunkSizeBytes : UInt32) : ObjectInfo :=
  newObject uuid now filename size replicationFactor owner
    ((planChunks (fun n => uuid (n + 1)) (uuid 0) size chunkSizeBytes).getD [])

def createBody (obj : ObjectInfo) : StoreBody :=
  .access id fun n =>
    if obj.filename ∈ n.store.filenameToId then .done (.done (.object none))
    else
      .access (·.draw obj) fun _ =>
        .access (·.setObject obj.objectId obj) fun _ =>
          .access (·.setName obj.filename obj.objectId) fun _ => .done (.done (.object (some obj)))

def deleteBody (objectId : Str) : StoreBody :=
  .access id fun n =>
    match n.store.objectsById.lookup objectId with
    | none => .done (.done (.ok false))
    | some obj =>
      .access (·.eraseName obj.filename) fun _ =>
        .access (·.eraseObject objectId) fun _ => .done (.done (.ok true))

/-- The first section of `delete_object_by_filename`. -/
def lookupBody (filename : Str) : StoreBody :=
  .access id fun n =>
    match n.store.filenameToId.lookup filename with
    | none => .done (.done (.ok false))
    | some objectId => .done (.found filename objectId)

def locateByIdBody (objectId : Str) : StoreBody :=
  .access id fun n => .done (.done (.object (n.store.objectsById.lookup objectId)))

def locateByFilenameBody (filename : Str) : StoreBody :=
  .access id fun n =>
    match n.store.filenameToId.lookup filename with
    | none => .done (.done (.object none))
    | some objectId =>
      .access id fun n => .done (.done (.object (n.store.objectsById.lookup objectId)))

/-- The loop of `update_chunk`, from one index on. -/
def updateLoop (now : TimestampMs) (objectId : Str) (chunk : ChunkInfo) : ℕ → ℕ → StoreBody
  | 0, _ => .done (.done (.ok false))
  | turns + 1, index =>
    .access id fun n =>
      match (n.store.objectsById.lookup objectId).bind (·.chunks[index]?) with
      | none => .done (.done (.ok false))
      | some c =>
        if c.chunkId = chunk.chunkId then
          .access (·.editObject objectId fun obj =>
              { obj with chunks := obj.chunks.set index chunk }) fun _ =>
            .access (·.editObject objectId fun obj => { obj with updatedAt := now }) fun _ =>
              .done (.done (.ok true))
        else updateLoop now objectId chunk turns (index + 1)

def updateBody (now : TimestampMs) (objectId : Str) (chunk : ChunkInfo) : StoreBody :=
  .access id fun n =>
    match n.store.objectsById.lookup objectId with
    | none => .done (.done (.ok false))
    | some obj => updateLoop now objectId chunk obj.chunks.length 0

/-! ## What the sections do -/

theorem deleteBody_run (objectId : Str) (n : MetadataNode) :
    (deleteBody objectId).run n = (.done (.ok (n.store.deleteObject objectId).1),
      { n with store := (n.store.deleteObject objectId).2 }) := by
  simp only [deleteBody, Body.run, id_eq, deleteObject]
  cases n.store.objectsById.lookup objectId <;> rfl

theorem lookupBody_run (filename : Str) (n : MetadataNode) :
    (lookupBody filename).run n = (lookupSection n.store filename, n) := by
  simp only [lookupBody, Body.run, id_eq, lookupSection]
  cases n.store.filenameToId.lookup filename <;> rfl

theorem locateByFilenameBody_run (filename : Str) (n : MetadataNode) :
    (locateByFilenameBody filename).run n =
      (.done (.object (n.store.locateByFilename filename)), n) := by
  simp only [locateByFilenameBody, Body.run, id_eq, locateByFilename]
  cases n.store.filenameToId.lookup filename <;> rfl

theorem createBody_run {n : MetadataNode} {uuid : ℕ → Str} {now : TimestampMs}
    {filename owner : Str} {size : UInt64} {replicationFactor chunkSizeBytes : UInt32}
    {result : Option ObjectInfo} {store : MetadataStore}
    (hcreate : n.store.createObject uuid now filename size replicationFactor owner
      chunkSizeBytes = some (result, store)) :
    (createBody (plannedObject uuid now filename size replicationFactor owner
        chunkSizeBytes)).run n =
      (.done (.object result), ⟨store, drawnFor result ++ n.issued⟩) := by
  rcases createObject_cases hcreate with ⟨rfl, rfl, htaken⟩ | ⟨chunks, hplan, hfree, rfl, rfl⟩
  · simp [createBody, Body.run, plannedObject, newObject, htaken, drawnFor]
  · simp [createBody, Body.run, plannedObject, newObject, hplan, hfree, MetadataNode.draw,
      MetadataNode.setObject, MetadataNode.setName]

theorem editObject_of_lookup {n : MetadataNode} {objectId : Str} {obj : ObjectInfo}
    (hobj : n.store.objectsById.lookup objectId = some obj) (edit : ObjectInfo → ObjectInfo) :
    n.editObject objectId edit = n.setObject objectId (edit obj) := by
  rw [MetadataNode.editObject, hobj]

/-- The loop goes over the chunks that are left, behind those that it has passed. -/
theorem updateLoop_run {n : MetadataNode} {now : TimestampMs} {objectId : Str} {obj : ObjectInfo}
    {chunk : ChunkInfo} (hobj : n.store.objectsById.lookup objectId = some obj)
    {passed rest : List ChunkInfo} (hchunks : obj.chunks = passed ++ rest) :
    (updateLoop now objectId chunk rest.length passed.length).run n =
      match replaceChunk chunk rest with
      | none => (.done (.ok false), n)
      | some rest' => (.done (.ok true),
          n.setObject objectId { obj with chunks := passed ++ rest', updatedAt := now }) := by
  induction rest generalizing passed with
  | nil => rfl
  | cons c rest ih =>
    have hindex : obj.chunks[passed.length]? = some c := by simp [hchunks]
    simp only [List.length_cons, updateLoop, Body.run, id_eq, hobj, Option.bind_some, hindex,
      replaceChunk]
    by_cases hid : c.chunkId = chunk.chunkId
    · rw [if_pos hid, if_pos hid]
      have hset : obj.chunks.set passed.length chunk = passed ++ chunk :: rest := by
        simp [hchunks]
      simp only [Body.run, editObject_of_lookup hobj, hset]
      let edited := { obj with chunks := passed ++ chunk :: rest }
      have hedited : (n.setObject objectId edited).store.objectsById.lookup objectId =
          some edited := Finmap.lookup_insert _
      rw [editObject_of_lookup hedited]
      simp [MetadataNode.setObject, edited]
    · rw [if_neg hid, if_neg hid]
      have hrest := @ih (passed ++ [c]) (by simp [hchunks])
      rw [List.length_append, List.length_singleton] at hrest
      rw [hrest]
      cases replaceChunk chunk rest with
      | none => rfl
      | some rest' => simp

theorem updateBody_run (now : TimestampMs) (objectId : Str) (chunk : ChunkInfo)
    (n : MetadataNode) :
    (updateBody now objectId chunk).run n =
      (.done (.ok (n.store.updateChunk now objectId chunk).1),
        { n with store := (n.store.updateChunk now objectId chunk).2 }) := by
  simp only [updateBody, Body.run, id_eq, updateChunk]
  cases hobj : n.store.objectsById.lookup objectId with
  | none => rfl
  | some obj =>
    have hloop := @updateLoop_run n now objectId obj chunk hobj [] obj.chunks rfl
    simp only [List.length_nil, List.nil_append] at hloop
    simp only [hloop]
    cases replaceChunk chunk obj.chunks <;> rfl

/-! ## The threads -/

theorem lookupBody_reads (filename : Str) : (lookupBody filename).ReadsOnly := by
  refine .access (fun _ => rfl) fun n => ?_
  cases n.store.filenameToId.lookup filename <;> exact .done _

theorem locateByIdBody_reads (objectId : Str) : (locateByIdBody objectId).ReadsOnly :=
  .access (fun _ => rfl) fun _ => .done _

theorem locateByFilenameBody_reads (filename : Str) :
    (locateByFilenameBody filename).ReadsOnly := by
  refine .access (fun _ => rfl) fun n => ?_
  cases n.store.filenameToId.lookup filename with
  | none => exact .done _
  | some objectId => exact .access (fun _ => rfl) fun _ => .done _

/-- The next section of a call, with the guard that it starts with.  A call of `create_object`
whose planning loop does not end has none. -/
inductive StoreSections : CallStage → MetadataNode → Section MetadataNode CallStage → Prop where
  | createObject {n : MetadataNode} {uuid : ℕ → Str} {now : TimestampMs} {filename owner : Str}
      {size : UInt64} {replicationFactor chunkSizeBytes : UInt32} {result : Option ObjectInfo}
      {store : MetadataStore} (hfresh : ∀ id ∈ drawnFor result, id ∉ n.issued)
      (hcreate : n.store.createObject uuid now filename size replicationFactor owner
        chunkSizeBytes = some (result, store)) :
      StoreSections
        (.waiting (.createObject filename size replicationFactor owner chunkSizeBytes)) n
        ⟨.exclusive, createBody (plannedObject uuid now filename size replicationFactor owner
          chunkSizeBytes), nofun⟩
  | deleteObject (n : MetadataNode) (objectId : Str) :
      StoreSections (.waiting (.deleteObject objectId)) n ⟨.exclusive, deleteBody objectId, nofun⟩
  | lookup (n : MetadataNode) (filename : Str) :
      StoreSections (.waiting (.deleteObjectByFilename filename)) n
        ⟨.shared, lookupBody filename, fun _ => lookupBody_reads filename⟩
  | delete (n : MetadataNode) (filename objectId : Str) :
      StoreSections (.found filename objectId) n ⟨.exclusive, deleteBody objectId, nofun⟩
  | updateChunk (n : MetadataNode) (now : TimestampMs) (objectId : Str) (chunk : ChunkInfo) :
      StoreSections (.waiting (.updateChunk objectId chunk)) n
        ⟨.exclusive, updateBody now objectId chunk, nofun⟩
  | locateById (n : MetadataNode) (objectId : Str) :
      StoreSections (.waiting (.locateById objectId)) n
        ⟨.shared, locateByIdBody objectId, fun _ => locateByIdBody_reads objectId⟩
  | locateByFilename (n : MetadataNode) (filename : Str) :
      StoreSections (.waiting (.locateByFilename filename)) n
        ⟨.shared, locateByFilenameBody filename, fun _ => locateByFilenameBody_reads filename⟩

/-- Threads that make the calls of the store. -/
def storeClient : Client MetadataNode CallStage (Action StoreOp StoreResult) where
  starts call stage act := ∃ op, stage = .waiting op ∧ act = .invoke call op
  turns call stage stage' act :=
    ∃ result, stage = .done result ∧ stage' = .returned ∧ act = .respond call result
  sections := StoreSections

/-- With each section at once, the calls are those of `CallStep`. -/
theorem callStep_of_atomicStep {s s' : MetadataNode × List CallStage}
    {l : Option (Action StoreOp StoreResult)} (h : AtomicStep storeClient s l s') :
    CallStep ⟨s.1, s.2⟩ l ⟨s'.1, s'.2⟩ := by
  cases h with
  | @start n calls stage act hstart =>
    obtain ⟨op, rfl, rfl⟩ := hstart
    exact .invoke ⟨n, calls⟩ op
  | @turn n before after stage stage' act hturn =>
    obtain ⟨result, rfl, rfl, rfl⟩ := hturn
    exact .respond n before after result
  | @perform n before after stage sec hsection =>
    cases hsection with
    | createObject hfresh hcreate =>
      rw [createBody_run hcreate]
      exact .perform nofun (.createObject hfresh hcreate)
    | deleteObject _ objectId =>
      rw [deleteBody_run]
      exact .perform nofun (.deleteObject n objectId)
    | lookup _ filename =>
      rw [lookupBody_run]
      exact .lookup n before after filename
    | delete _ filename objectId =>
      rw [deleteBody_run]
      exact .delete n before after filename objectId
    | updateChunk _ now objectId chunk =>
      rw [updateBody_run]
      exact .perform nofun (.updateChunk n now objectId chunk)
    | locateById _ objectId => exact .perform nofun (.locateById n objectId)
    | locateByFilename _ filename =>
      rw [locateByFilenameBody_run]
      exact .perform nofun (.locateByFilename n filename)

/-- Whatever the accesses of the calls to the store are interleaved like: the callers see a store
that does each call at once, at some time between its invocation and its response.  The maps are
those of that store when no call is in a section that holds the lock alone. -/
theorem store_atomic {n : MetadataNode} (hdrawn : n.Drawn)
    {c : ReadWriteLock.Config MetadataNode CallStage}
    {trace : List (Transition _ (Option (Action StoreOp StoreResult)))}
    (hrun : Run (ReadWriteLock.Step storeClient) ⟨n, {}, []⟩ trace c) :
    ∃ trace' n' calls, Run (Atomic.Step Performs) (n, []) trace' (n', calls) ∧
      visible trace' = Run.seen trace ∧ (c.lock.writer = false → n' = c.state) := by
  obtain ⟨coarse, hcoarse, hseen, hstate⟩ := sections_atomic hrun
  have hstart : CallsInv ⟨n, []⟩ := ⟨hdrawn, by simp⟩
  obtain ⟨trace', last, hatomic, hvisible, -, rfl⟩ := hcoarse.simulates_seen
    (R := fun s t => CallsInv ⟨s.1, s.2⟩ ∧ t = (s.1, s.2.map (view s.1)))
    (fun s l s' t hstep h => by
      obtain ⟨hinv, rfl⟩ := h
      have hcall := callStep_of_atomicStep hstep
      obtain ⟨first, hfirst, hlabel⟩ := view_step hcall hinv
      exact ⟨first, _, hfirst, hlabel, hinv.step hcall, rfl⟩)
    ⟨hstart, rfl⟩
  exact ⟨trace', _, _, hatomic, hvisible.trans hseen, hstate⟩

/-- Two lookups hold the lock at the same time in an empty store, and take turns in it. -/
theorem store_atomic_empty :
    ∃ trace calls, Run (Atomic.Step Performs) ({}, []) trace ({}, calls) ∧
      visible trace =
        [.invoke 0 (.deleteObjectByFilename (str "a")), .invoke 1 (.locateById (str "b")),
          .respond 1 (.object none), .respond 0 (.ok false)] := by
  let delete : StoreOp := .deleteObjectByFilename (str "a")
  let locate : StoreOp := .locateById (str "b")
  have invoke₀ : ReadWriteLock.Step storeClient ⟨{}, {}, []⟩ _ _ := .start ⟨delete, rfl, rfl⟩
  have invoke₁ : ReadWriteLock.Step storeClient ⟨{}, {}, [.outside (.waiting delete)]⟩ _ _ :=
    .start ⟨locate, rfl, rfl⟩
  have acquire₀ : ReadWriteLock.Step storeClient
      ⟨{}, {}, [] ++ .outside (.waiting delete) :: [.outside (.waiting locate)]⟩ _ _ :=
    .acquire rfl (StoreSections.lookup {} (str "a")) rfl
  have acquire₁ : ReadWriteLock.Step storeClient
      ⟨{}, { readers := 1 },
        [.inside .shared (lookupBody (str "a"))] ++ .outside (.waiting locate) :: []⟩ _ _ :=
    .acquire rfl (StoreSections.locateById {} (str "b")) rfl
  have access₀ : ReadWriteLock.Step storeClient
      ⟨{}, { readers := 2 }, [] ++ .inside .shared (lookupBody (str "a")) ::
        [.inside .shared (locateByIdBody (str "b"))]⟩ _ _ := .access rfl
  have access₁ : ReadWriteLock.Step storeClient
      ⟨{}, { readers := 2 }, [.inside .shared (.done (.done (.ok false)))] ++
        .inside .shared (locateByIdBody (str "b")) :: []⟩ _ _ := .access rfl
  have release₁ : ReadWriteLock.Step storeClient
      ⟨{}, { readers := 2 }, [.inside .shared (.done (.done (.ok false)))] ++
        .inside .shared (.done (.done (.object none))) :: []⟩ _ _ := .release rfl
  have respond₁ : ReadWriteLock.Step storeClient
      ⟨{}, { readers := 1 }, [.inside .shared (.done (.done (.ok false)))] ++
        .outside (.done (.object none)) :: []⟩ _ _ := .turn rfl ⟨.object none, rfl, rfl, rfl⟩
  have release₀ : ReadWriteLock.Step storeClient
      ⟨{}, { readers := 1 }, [] ++ .inside .shared (.done (.done (.ok false))) ::
        [.outside .returned]⟩ _ _ := .release rfl
  have respond₀ : ReadWriteLock.Step storeClient
      ⟨{}, {}, [] ++ .outside (.done (.ok false)) :: [.outside .returned]⟩ _ _ :=
    .turn rfl ⟨.ok false, rfl, rfl, rfl⟩
  have hrun := Run.head invoke₀ (.head invoke₁ (.head acquire₀ (.head acquire₁ (.head access₀
    (.head access₁ (.head release₁ (.head respond₁ (.head release₀ (.single respond₀)))))))))
  obtain ⟨trace, n, calls, hatomic, hvisible, hstate⟩ :=
    store_atomic MetadataNode.chunkIds_empty.drawn_ids hrun
  obtain rfl := hstate rfl
  exact ⟨trace, calls, hatomic, hvisible⟩

end StorageEngine
