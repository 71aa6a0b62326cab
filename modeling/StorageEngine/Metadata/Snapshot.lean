import StorageEngine.Chunk.Store
import StorageEngine.Metadata.Index
import StorageEngine.Metadata.Selection

/-!
# The snapshot file

`persist`, `load` and the constructor of `src/metadata/metadata_store.cpp`.

* **The writer.**  Every operation that changes what is persisted writes the whole
  snapshot to `persist_path_ + ".tmp"` and renames it.  A heartbeat is not persisted.
* **The reader.**  `load` opens the file and reads nothing of it.

`Durable` is a run of operations and restarts whose file operations succeed.
-/

namespace StorageEngine.MetadataStore

open Lib

/-! ## The text -/

/-- `oss << n`. -/
def decimal (n : ℕ) : Str :=
  str (toString n)

/-- The objects and the nodes, in the orders in which `persist` meets them. -/
structure SnapshotOrder where
  objects : List ObjectInfo := []
  nodes : List NodeInfo := []
  deriving DecidableEq, Repr

/-- The orders that are possible for a store. -/
structure SnapshotOrder.Possible (s : MetadataStore) (order : SnapshotOrder) : Prop where
  objects : s.VisitsObjects order.objects
  nodes : s.nodes.Visits order.nodes

theorem SnapshotOrder.exists_possible (s : MetadataStore) :
    ∃ order : SnapshotOrder, order.Possible s := by
  obtain ⟨objects, hobjects⟩ := s.exists_visitsObjects
  obtain ⟨nodes, hnodes⟩ := s.nodes.exists_visits
  exact ⟨{ objects, nodes }, hobjects, hnodes⟩

/-- One of the loops, with its separator flag. -/
def persistLoop {α : Type} (line : α → Str) : Bool → List α → Str
  | _, [] => []
  | first, entry :: rest =>
    (if first then [] else str ",\n") ++ line entry ++ persistLoop line false rest

def objectLine (obj : ObjectInfo) : Str :=
  str "    \x7b\"object_id\":\"" ++ obj.objectId ++ str "\",\"filename\":\"" ++ obj.filename ++
    str "\",\"size\":" ++ decimal obj.size.toNat ++
    str ",\"replication_factor\":" ++ decimal obj.replicationFactor.toNat ++
    str ",\"version\":" ++ decimal obj.version.toNat ++ str ",\"owner\":\"" ++ obj.owner ++
    str "\",\"created_at\":" ++ decimal obj.createdAt.toNat ++
    str ",\"updated_at\":" ++ decimal obj.updatedAt.toNat ++
    str ",\"chunk_count\":" ++ decimal obj.chunks.length ++ str "\x7d"

def nodeLine (n : NodeInfo) : Str :=
  str "    \x7b\"id\":\"" ++ n.id ++ str "\",\"address\":\"" ++ n.address ++
    str "\",\"online\":" ++ str (if n.online then "true" else "false") ++
    str ",\"free_bytes\":" ++ decimal n.freeBytes.toNat ++
    str ",\"total_bytes\":" ++ decimal n.totalBytes.toNat ++
    str ",\"chunk_count\":" ++ decimal n.chunkCount.toNat ++ str "\x7d"

/-- `oss.str()` in `persist`. -/
def persistText (s : MetadataStore) (order : SnapshotOrder) : Str :=
  str "\x7b\n" ++ str "  \"leader_id\": \"" ++ s.leaderId ++ str "\",\n" ++
    str "  \"generation\": " ++ decimal s.generation.toNat ++ str ",\n" ++
    str "  \"objects\": [\n" ++ persistLoop objectLine true order.objects ++
    str "\n  ],\n  \"nodes\": [\n" ++ persistLoop nodeLine true order.nodes ++
    str "\n  ]\n\x7d\n"

/-! ## The file -/

/-- The outcome of the file calls of `persist`.  Nobody checks whether the contents are
written: `some n` is a write that stops after `n` bytes. -/
structure PersistIO where
  opened : Bool := true
  written : Option ℕ := none
  renamed : Bool := true
  deriving DecidableEq, Repr

def PersistIO.ok : PersistIO := {}

def persist (io : PersistIO) (persistPath : Str) (s : MetadataStore) (order : SnapshotOrder)
    (files : FileSystem) : Bool × FileSystem :=
  let tmp := persistPath ++ str ".tmp"
  if !io.opened then (false, files)
  else
    let contents := contentsAfter io.written (persistText s order)
    if !io.renamed then (false, files.insert tmp contents)
    else (true, ((files.insert tmp contents).erase tmp).insert persistPath contents)

/-- `load`.  The file is opened and not read. -/
def load (persistPath : Str) (files : FileSystem) (s : MetadataStore) : Bool × MetadataStore :=
  if persistPath ∈ files then (true, s) else (false, s)

/-- The constructor. -/
def construct (persistPath : Str) (files : FileSystem) : MetadataStore :=
  (load persistPath files {}).2

theorem construct_eq (persistPath : Str) (files : FileSystem) :
    construct persistPath files = {} := by
  unfold construct load
  split <;> rfl

/-! ## Runs -/

/-- What a call did. -/
inductive StoreEvent where
  | created (obj : ObjectInfo)
  | deleted (objectId : Str)
  | registered (node : NodeInfo)
  | led (leaderId : Str) (generation : UInt64)
  /-- A chunk was updated, or a node marked offline. -/
  | updated
  /-- A call that does not reach `persist()`. -/
  | unpersisted
  | restarted

def StoreEvent.persists : StoreEvent → Bool
  | .unpersisted => false
  | .restarted => false
  | _ => true

/-- One call, with what it did. -/
inductive Call : MetadataStore → StoreEvent → MetadataStore → Prop where
  | create {s s' : MetadataStore} {uuid : ℕ → Str} {now : TimestampMs} {filename owner : Str}
      {size : UInt64} {replicationFactor chunkSizeBytes : UInt32} {obj : ObjectInfo}
      (hcreate : createObject uuid now s filename size replicationFactor owner chunkSizeBytes =
        some (some obj, s')) : Call s (.created obj) s'
  | duplicate {s s' : MetadataStore} {uuid : ℕ → Str} {now : TimestampMs} {filename owner : Str}
      {size : UInt64} {replicationFactor chunkSizeBytes : UInt32}
      (hcreate : createObject uuid now s filename size replicationFactor owner chunkSizeBytes =
        some (none, s')) : Call s .unpersisted s'
  | delete {s s' : MetadataStore} {objectId : Str} {found : Bool}
      (hdelete : deleteObject s objectId = (found, s')) :
      Call s (if found then .deleted objectId else .unpersisted) s'
  | deleteByFilename {s s' : MetadataStore} {filename objectId : Str} {found : Bool}
      (hname : s.filenameToId.lookup filename = some objectId)
      (hdelete : deleteObjectByFilename s filename = (found, s')) :
      Call s (if found then .deleted objectId else .unpersisted) s'
  | deleteUnknown {s s' : MetadataStore} {filename : Str} {found : Bool}
      (hname : filename ∉ s.filenameToId)
      (hdelete : deleteObjectByFilename s filename = (found, s')) : Call s .unpersisted s'
  | update {s s' : MetadataStore} {now : TimestampMs} {objectId : Str} {chunk : ChunkInfo}
      {found : Bool} (hupdate : updateChunk now s objectId chunk = (found, s')) :
      Call s (if found then .updated else .unpersisted) s'
  | register {s s' : MetadataStore} {now : TimestampMs} {node : NodeInfo}
      (hregister : registerNode now s node = (true, s')) : Call s (.registered node) s'
  | heartbeat {s s' : MetadataStore} {now : TimestampMs} {nodeId : Str}
      {freeBytes chunkCount : UInt64} {found : Bool}
      (hheartbeat : updateNodeHeartbeat now s nodeId freeBytes chunkCount = (found, s')) :
      Call s .unpersisted s'
  | offline {s s' : MetadataStore} {nodeId : Str} {found : Bool}
      (hoffline : markNodeOffline s nodeId = (found, s')) :
      Call s (if found then .updated else .unpersisted) s'
  | select {s s' : MetadataStore} {order : NodeOrder} {count : UInt32}
      {strategy : LoadBalanceStrategy} {selected : List NodeInfo}
      (hselect : selectNodes order s count strategy = (selected, s')) : Call s .unpersisted s'
  | lead {s : MetadataStore} {leaderId : Str} {generation : UInt64} :
      Call s (.led leaderId generation) (setLeader s leaderId generation)

/-- A run of calls and restarts, from a first start.  The history has its newest event
first. -/
inductive Durable (persistPath : Str) : List StoreEvent → MetadataStore × FileSystem → Prop where
  | start {files : FileSystem} : Durable persistPath [] (construct persistPath files, files)
  | saved {history : List StoreEvent} {s s' : MetadataStore} {files files' : FileSystem}
      {event : StoreEvent} {order : SnapshotOrder} (hrun : Durable persistPath history (s, files))
      (hcall : Call s event s') (hsaves : event.persists = true) (horder : order.Possible s')
      (hpersist : persist .ok persistPath s' order files = (true, files')) :
      Durable persistPath (event :: history) (s', files')
  | unsaved {history : List StoreEvent} {s s' : MetadataStore} {files : FileSystem}
      {event : StoreEvent} (hrun : Durable persistPath history (s, files))
      (hcall : Call s event s') (hsaves : event.persists = false) :
      Durable persistPath (event :: history) (s', files)
  | restart {history : List StoreEvent} {s : MetadataStore} {files : FileSystem}
      (hrun : Durable persistPath history (s, files)) :
      Durable persistPath (.restarted :: history) (construct persistPath files, files)

theorem Durable.empty (persistPath : Str) (files : FileSystem) :
    Durable persistPath [] ({}, files) := by
  have hstart : Durable persistPath [] (construct persistPath files, files) := .start
  rwa [construct_eq] at hstart

/-- The snapshot can be written after every call. -/
theorem Durable.save {persistPath : Str} {history : List StoreEvent} {s s' : MetadataStore}
    {files : FileSystem} {event : StoreEvent} (hrun : Durable persistPath history (s, files))
    (hcall : Call s event s') (hsaves : event.persists = true) :
    ∃ files', Durable persistPath (event :: history) (s', files') := by
  obtain ⟨order, horder⟩ := SnapshotOrder.exists_possible s'
  exact ⟨_, .saved hrun hcall hsaves horder rfl⟩

/-! ## What a run leaves in the store -/

/-- An object with this id was created since the last restart, and not deleted again. -/
def StillStored : List StoreEvent → Str → Prop
  | [], _ => False
  | .created obj :: older, id => id = obj.objectId ∨ StillStored older id
  | .deleted objectId :: older, id => id ≠ objectId ∧ StillStored older id
  | .restarted :: _, _ => False
  | _ :: older, id => StillStored older id

/-- A node with this id was registered since the last restart. -/
def StillRegistered : List StoreEvent → Str → Prop
  | [], _ => False
  | .registered node :: older, id => id = node.id ∨ StillRegistered older id
  | .restarted :: _, _ => False
  | _ :: older, id => StillRegistered older id

/-- The leader and the generation that were set last. -/
def lastLeader : List StoreEvent → Str × UInt64
  | [] => ([], 0)
  | .led leaderId generation :: _ => (leaderId, generation)
  | .restarted :: _ => ([], 0)
  | _ :: older => lastLeader older

/-- The objects, the nodes and the leader of the store are those of the history. -/
structure Follows (history : List StoreEvent) (s : MetadataStore) : Prop where
  stored : ∀ id, id ∈ s.objectsById ↔ StillStored history id
  registered : ∀ id, id ∈ s.nodes.entries ↔ StillRegistered history id
  leader : (s.leaderId, s.generation) = lastLeader history

theorem follows_construct {history : List StoreEvent} (persistPath : Str) (files : FileSystem)
    (hstored : ∀ id, ¬ StillStored history id) (hregistered : ∀ id, ¬ StillRegistered history id)
    (hleader : lastLeader history = ([], 0)) : Follows history (construct persistPath files) := by
  rw [construct_eq]
  refine ⟨fun id => ?_, fun id => ?_, hleader.symm⟩
  · exact iff_of_false Finmap.notMem_empty (hstored id)
  · exact iff_of_false Finmap.notMem_empty (hregistered id)

/-- A call that adds and removes no entry. -/
theorem Follows.unchanged {history : List StoreEvent} {s s' : MetadataStore} {event : StoreEvent}
    (h : Follows history s) (hevent : event = .updated ∨ event = .unpersisted)
    (hobjects : ∀ id, id ∈ s'.objectsById ↔ id ∈ s.objectsById)
    (hnodes : ∀ id, id ∈ s'.nodes.entries ↔ id ∈ s.nodes.entries)
    (hleader : (s'.leaderId, s'.generation) = (s.leaderId, s.generation)) :
    Follows (event :: history) s' := by
  have hstored := fun id => (hobjects id).trans (h.stored id)
  have hregistered := fun id => (hnodes id).trans (h.registered id)
  rcases hevent with rfl | rfl <;> exact ⟨hstored, hregistered, hleader.trans h.leader⟩

theorem Follows.refused {history : List StoreEvent} {s : MetadataStore} (h : Follows history s) :
    Follows (.unpersisted :: history) s :=
  h.unchanged (.inr rfl) (fun _ => Iff.rfl) (fun _ => Iff.rfl) rfl

/-- An entry of a registered node is overwritten. -/
theorem mem_set_of_find {t : NodeTable} {nodeId : Str} {node node' : NodeInfo}
    (hnode : t.find nodeId = some node) (hid : node'.id = node.id) (id : Str) :
    id ∈ (t.set node').entries ↔ id ∈ t.entries := by
  have hmem : node.id ∈ t.entries := by
    rw [NodeTable.find_id hnode]
    exact Finmap.mem_of_lookup_eq_some hnode
  rw [NodeTable.set, Finmap.mem_insert, hid]
  exact ⟨fun h => h.elim (fun h => h ▸ hmem) fun h => h, .inr⟩

theorem Follows.delete {history : List StoreEvent} {s s' : MetadataStore} {objectId : Str}
    {found : Bool} (h : Follows history s) (hdelete : deleteObject s objectId = (found, s')) :
    Follows ((if found then .deleted objectId else .unpersisted) :: history) s' := by
  rcases deleteObject_cases s objectId with ⟨heq, -⟩ | ⟨obj, -, heq⟩
  · rw [heq] at hdelete
    cases hdelete
    exact h.refused
  · rw [heq] at hdelete
    cases hdelete
    refine ⟨fun id => ?_, h.registered, h.leader⟩
    rw [Finmap.mem_erase, h.stored id]
    rfl

theorem Follows.update {history : List StoreEvent} {s s' : MetadataStore} {now : TimestampMs}
    {objectId : Str} {chunk : ChunkInfo} {found : Bool} (h : Follows history s)
    (hupdate : updateChunk now s objectId chunk = (found, s')) :
    Follows ((if found then .updated else .unpersisted) :: history) s' := by
  rcases updateChunk_cases now s objectId chunk with heq | ⟨obj, chunks, hobj, -, heq⟩
  · rw [heq] at hupdate
    cases hupdate
    exact h.refused
  · rw [heq] at hupdate
    cases hupdate
    refine h.unchanged (.inl rfl) (fun id => ?_) (fun _ => Iff.rfl) rfl
    have hmem := Finmap.mem_of_lookup_eq_some hobj
    rw [Finmap.mem_insert]
    exact ⟨fun hid => hid.elim (fun hid => hid ▸ hmem) fun hid => hid, .inr⟩

theorem Follows.heartbeat {history : List StoreEvent} {s s' : MetadataStore} {now : TimestampMs}
    {nodeId : Str} {freeBytes chunkCount : UInt64} {found : Bool} (h : Follows history s)
    (hheartbeat : updateNodeHeartbeat now s nodeId freeBytes chunkCount = (found, s')) :
    Follows (.unpersisted :: history) s' := by
  rcases updateNodeHeartbeat_cases now s nodeId freeBytes chunkCount with
    heq | ⟨node, hnode, heq⟩
  · rw [heq] at hheartbeat
    cases hheartbeat
    exact h.refused
  · rw [heq] at hheartbeat
    cases hheartbeat
    exact h.unchanged (.inr rfl) (fun _ => Iff.rfl) (mem_set_of_find hnode rfl) rfl

theorem Follows.offline {history : List StoreEvent} {s s' : MetadataStore} {nodeId : Str}
    {found : Bool} (h : Follows history s) (hoffline : markNodeOffline s nodeId = (found, s')) :
    Follows ((if found then .updated else .unpersisted) :: history) s' := by
  rcases markNodeOffline_cases s nodeId with heq | ⟨node, hnode, heq⟩
  · rw [heq] at hoffline
    cases hoffline
    exact h.refused
  · rw [heq] at hoffline
    cases hoffline
    exact h.unchanged (.inl rfl) (fun _ => Iff.rfl) (mem_set_of_find hnode rfl) rfl

/-- A selection moves the round-robin counter only. -/
theorem selectNodes_index {s s' : MetadataStore} {order : NodeOrder} {count : UInt32}
    {strategy : LoadBalanceStrategy} {selected : List NodeInfo}
    (hselect : selectNodes order s count strategy = (selected, s')) :
    ∃ index, s' = { s with roundRobinIndex := index } := by
  unfold selectNodes at hselect
  dsimp only at hselect
  split at hselect
  · cases hselect
    exact ⟨_, rfl⟩
  · cases strategy <;> cases hselect <;> exact ⟨_, rfl⟩

theorem Follows.select {history : List StoreEvent} {s s' : MetadataStore} {order : NodeOrder}
    {count : UInt32} {strategy : LoadBalanceStrategy} {selected : List NodeInfo}
    (h : Follows history s) (hselect : selectNodes order s count strategy = (selected, s')) :
    Follows (.unpersisted :: history) s' := by
  obtain ⟨index, rfl⟩ := selectNodes_index hselect
  exact h.unchanged (.inr rfl) (fun _ => Iff.rfl) (fun _ => Iff.rfl) rfl

theorem Follows.call {history : List StoreEvent} {s s' : MetadataStore} {event : StoreEvent}
    (h : Follows history s) (hcall : Call s event s') : Follows (event :: history) s' := by
  cases hcall with
  | create hcreate =>
    obtain ⟨chunks, -, -, rfl, rfl⟩ := createObject_created hcreate
    refine ⟨fun id => ?_, h.registered, h.leader⟩
    rw [Finmap.mem_insert, h.stored id]
    rfl
  | duplicate hcreate =>
    rw [(createObject_refused hcreate).1]
    exact h.refused
  | delete hdelete => exact h.delete hdelete
  | deleteByFilename hname hdelete =>
    rw [deleteObjectByFilename_found hname] at hdelete
    exact h.delete hdelete
  | deleteUnknown hname hdelete =>
    rw [deleteObjectByFilename_unknown hname] at hdelete
    cases hdelete
    exact h.refused
  | update hupdate => exact h.update hupdate
  | register hregister =>
    cases hregister
    refine ⟨h.stored, fun id => ?_, h.leader⟩
    unfold NodeTable.set
    rw [Finmap.mem_insert]
    exact or_congr_right (h.registered id)
  | heartbeat hheartbeat => exact h.heartbeat hheartbeat
  | offline hoffline => exact h.offline hoffline
  | select hselect => exact h.select hselect
  | lead => exact ⟨h.stored, h.registered, rfl⟩

theorem follows_of_durable {persistPath : Str} {history : List StoreEvent}
    {st : MetadataStore × FileSystem} (hrun : Durable persistPath history st) :
    Follows history st.1 := by
  induction hrun with
  | start => exact follows_construct _ _ (fun id h => h) (fun id h => h) rfl
  | saved _ hcall _ _ _ ih => exact ih.call hcall
  | unsaved _ hcall _ ih => exact ih.call hcall
  | restart => exact follows_construct _ _ (fun id h => h) (fun id h => h) rfl

/-! ## A restart -/

/-- The store `s'` has what was in `s`, and gives the same answers. -/
structure Survives (s s' : MetadataStore) : Prop where
  objects : s'.objectsById = s.objectsById
  nodes : s'.nodes = s.nodes
  leader : s'.leaderId = s.leaderId
  generation : s'.generation = s.generation
  located : ∀ filename, s'.locateByFilename filename = s.locateByFilename filename
  /-- The answers of `get_nodes`. -/
  listed : ∀ visited, s'.nodes.Visits visited ↔ s.nodes.Visits visited

/-- The metadata survives a restart exactly when there is none: every object that was created
has been deleted, no node was registered, and no leader is set. -/
theorem restart_survives_iff {persistPath : Str} {history : List StoreEvent}
    {st : MetadataStore × FileSystem} (hrun : Durable persistPath history st) :
    Survives st.1 (construct persistPath st.2) ↔
      (∀ id, ¬ StillStored history id) ∧ (∀ id, ¬ StillRegistered history id) ∧
        lastLeader history = ([], 0) := by
  have hfollows := follows_of_durable hrun
  rw [construct_eq]
  constructor
  · intro h
    refine ⟨fun id hid => ?_, fun id hid => ?_, ?_⟩
    · have hmem := (hfollows.stored id).mpr hid
      rw [← h.objects] at hmem
      exact Finmap.notMem_empty hmem
    · have hmem := (hfollows.registered id).mpr hid
      rw [← h.nodes] at hmem
      exact Finmap.notMem_empty hmem
    · rw [← hfollows.leader, ← h.leader, ← h.generation]
  · intro h
    obtain ⟨hstored, hregistered, hleader⟩ := h
    have hobjects : st.1.objectsById = ∅ := by
      refine Finmap.ext_lookup fun id => ?_
      rw [Finmap.lookup_empty, Finmap.lookup_eq_none, hfollows.stored id]
      exact hstored id
    have hentries : st.1.nodes.entries = ∅ := by
      refine Finmap.ext_lookup fun id => ?_
      rw [Finmap.lookup_empty, Finmap.lookup_eq_none, hfollows.registered id]
      exact hregistered id
    have hnodes : NodeTable.empty = st.1.nodes := by
      cases hnodes : st.1.nodes with
      | mk entries keyed =>
        rw [hnodes] at hentries
        cases hentries
        rfl
    have hleads := hfollows.leader.trans hleader
    rw [Prod.mk.injEq] at hleads
    refine ⟨hobjects.symm, hnodes, hleads.1.symm, hleads.2.symm, fun filename => ?_,
      fun visited => ?_⟩
    · have hnone : ∀ objectId, st.1.objectsById.lookup objectId = none := by
        intro objectId
        rw [hobjects, Finmap.lookup_empty]
      unfold locateByFilename
      split
      · split
        · rfl
        · exact (hnone _).symm
      · next objectId hname =>
        rw [Finmap.lookup_empty] at hname
        cases hname
    · rw [← hnodes]

/-- An object is created and deleted again. -/
theorem restart_survives_deleted :
    ∃ history st, Durable (str "m.json") history st ∧
      Survives st.1 (construct (str "m.json") st.2) := by
  have hcreate := @Call.create {} _ (fun n => if n = 0 then str "o" else str "c") 1
    (str "a.txt") (str "default") 3 1 4194304 _ rfl
  obtain ⟨files, hcreated⟩ := (Durable.empty (str "m.json") ∅).save hcreate rfl
  obtain ⟨files, hdeleted⟩ := hcreated.save (@Call.delete _ _ (str "o") true rfl) rfl
  refine ⟨_, _, hdeleted, (restart_survives_iff hdeleted).mpr
    ⟨fun id => ?_, fun id hid => hid, rfl⟩⟩
  rintro ⟨hother, hid | hid⟩
  · exact hother hid
  · exact hid

/-- An object is created and a node registered.  Neither is there after a restart. -/
theorem restart_loses_object_and_node :
    ∃ history st, Durable (str "m.json") history st ∧
      st.1.locateByFilename (str "a.txt") ≠ none ∧
      (construct (str "m.json") st.2).locateByFilename (str "a.txt") = none ∧
      st.1.nodes.find (str "n1") ≠ none ∧
      (construct (str "m.json") st.2).nodes.find (str "n1") = none := by
  have hcreate := @Call.create {} _ (fun n => if n = 0 then str "o" else str "c") 1
    (str "a.txt") (str "default") 3 1 4194304 _ rfl
  obtain ⟨files, hcreated⟩ := (Durable.empty (str "m.json") ∅).save hcreate rfl
  obtain ⟨files, hregistered⟩ := hcreated.save
    (@Call.register _ _ 2 { id := str "n1", address := str "localhost:50053" } rfl) rfl
  refine ⟨_, _, hregistered, ?_, ?_, ?_, ?_⟩
  · dsimp only
    decide
  · rw [construct_eq]
    rfl
  · dsimp only
    decide
  · rw [construct_eq]
    rfl

end StorageEngine.MetadataStore
