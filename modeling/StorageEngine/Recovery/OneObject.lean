import StorageEngine.Client.PutRun
import StorageEngine.Cluster.ChunkIds
import StorageEngine.Recovery.RepairRun

/-!
# A cluster with one object

A reachable state of the metadata node for any registered storage nodes and any replicas
of one chunk: the state that a scan needs to report a chunk.
-/

namespace StorageEngine

open Lib.Remote MetadataStore MetadataService StorageClient

theorem draw_length (n : ℕ) : (draw n).length < 2 ^ 32 := by
  rw [draw, generateUuid_length]
  decide

/-- A storage node that has just registered. -/
def newNode (entry : Str × Str) : NodeInfo :=
  { id := entry.1, address := entry.2, online := true }

/-- The table after these nodes have registered, the last of the list first. -/
def registered : List (Str × Str) → NodeTable
  | [] => .empty
  | entry :: rest => (registered rest).set (newNode entry)

theorem find_registered {entries : List (Str × Str)} (hnodup : (entries.map Prod.fst).Nodup)
    {node : NodeInfo} :
    (registered entries).find node.id = some node ↔ node ∈ entries.map newNode := by
  induction entries with
  | nil => simp [registered]
  | cons entry rest ih =>
    rw [List.map_cons, List.nodup_cons] at hnodup
    rw [registered, NodeTable.find_set, List.map_cons, List.mem_cons]
    split
    · next hid =>
      constructor
      · intro heq
        exact .inl (Option.some.inj heq).symm
      · rintro (rfl | hmem)
        · rfl
        · -- another node with this id would repeat it
          obtain ⟨entry', hentry', rfl⟩ := List.mem_map.mp hmem
          have hsame : entry'.1 = entry.1 := hid
          exact absurd (hsame ▸ List.mem_map_of_mem hentry') hnodup.1
    · next hid =>
      rw [ih hnodup.2]
      refine ⟨.inr, ?_⟩
      rintro (rfl | hmem)
      · exact absurd rfl hid
      · exact hmem

theorem visits_registered {entries : List (Str × Str)} (hnodup : (entries.map Prod.fst).Nodup) :
    (registered entries).Visits (entries.map newNode) := by
  refine ⟨?_, fun node => (find_registered hnodup).symm⟩
  have hids : (entries.map newNode).map NodeInfo.id = entries.map Prod.fst := by
    rw [List.map_map]
    rfl
  exact List.Nodup.of_map _ (hids ▸ hnodup)

/-- Nodes that have just registered can be selected in any order. -/
theorem leastUsed_registered {s : MetadataStore} {entries arranged : List (Str × Str)}
    (hnodes : s.nodes = registered entries) (hnodup : (entries.map Prod.fst).Nodup)
    (hperm : arranged.Perm entries) (count : UInt32) :
    s.LeastUsed count ((arranged.map newNode).take count.toNat) := by
  have honline : (entries.map newNode).filter NodeInfo.online = entries.map newNode := by
    refine List.filter_eq_self.mpr fun node hnode => ?_
    obtain ⟨entry, -, rfl⟩ := List.mem_map.mp hnode
    rfl
  refine ⟨⟨entries.map newNode, arranged.map newNode⟩, ⟨?_, ?_, fun _ => ?_⟩, ?_⟩
  · rw [hnodes]
    exact visits_registered hnodup
  · rw [honline]
    exact hperm.map newNode
  · exact List.pairwise_map.mpr (List.pairwise_of_forall fun _ _ => UInt64.le_refl _)
  · unfold MetadataStore.selectNodes
    dsimp only
    rw [honline]
    split
    · next hnil =>
      rw [List.map_eq_nil_iff] at hnil
      subst hnil
      rw [hperm.eq_nil, List.map_nil, List.take_nil]
    · rfl

/-! ## The state -/

/-- The metadata node with these storage nodes and one object, whose only chunk is this
one. -/
def oneObject (cfg : ClusterConfig) (entries : List (Str × Str)) (chunk : ChunkInfo) :
    MetadataNode :=
  emptyRecorded cfg cfg (str "a.txt") (str "default") { nodes := registered entries } chunk

section OneObject

variable {cfg : ClusterConfig} {entries : List (Str × Str)} {chunk : ChunkInfo}

theorem registered_reached (cfg : ClusterConfig) (entries : List (Str × Str)) :
    MetadataNode.Reached cfg MetadataRpc.OwnChunk { store := { nodes := registered entries } } := by
  induction entries with
  | nil => exact .refl
  | cons entry rest ih =>
    have hserves : Serves cfg (.registerNode { nodeId := entry.1, address := entry.2 })
        { store := { nodes := registered rest } }
        { success := true, message := str "Registered" }
        { store := { nodes := registered (entry :: rest) } } :=
      .registerNode _ _ 0
    exact Relation.ReflTransGen.tail ih ⟨.registerNode _, _, trivial, hserves⟩

theorem oneObject_reached (hid : chunk.chunkId = draw 1) (hobject : chunk.objectId = draw 0) :
    (oneObject cfg entries chunk).Reached cfg MetadataRpc.OwnChunk := by
  have hcreate := @serves_create_empty cfg cfg (str "a.txt") (str "default")
    { nodes := registered entries } Finmap.notMem_empty
  have hupdate := serves_update_empty cfg cfg (str "a.txt") (str "default")
    { nodes := registered entries } hid
  have hown : MetadataRpc.OwnChunk
      (.updateChunk { objectId := draw 0, chunk := chunk.toProto }) := hobject
  exact (Relation.ReflTransGen.tail (registered_reached cfg entries)
    ⟨.createObject _, _, trivial, hcreate⟩).tail ⟨_, _, hown, hupdate⟩

@[simp] theorem oneObject_nodes :
    (oneObject cfg entries chunk).store.nodes = registered entries := rfl

theorem oneObject_lookup {key : Str} {obj : ObjectInfo}
    (h : (oneObject cfg entries chunk).store.objectsById.lookup key = some obj) :
    key = draw 0 ∧ obj = { emptyObject cfg cfg (str "a.txt") (str "default") with
      chunks := [chunk] } := by
  rcases Lib.lookup_insert_cases h with heq | ⟨hne, h⟩
  · exact heq
  · rcases Lib.lookup_insert_cases h with ⟨heq, -⟩ | ⟨-, h⟩
    · exact absurd heq hne
    · cases h

theorem oneObject_holds {key : Str} {c : ChunkInfo} :
    (oneObject cfg entries chunk).Holds key c ↔ key = draw 0 ∧ c = chunk := by
  constructor
  · rintro ⟨obj, hobj, hmem⟩
    obtain ⟨rfl, rfl⟩ := oneObject_lookup hobj
    exact ⟨rfl, List.mem_singleton.mp hmem⟩
  · rintro ⟨rfl, rfl⟩
    exact ⟨_, Finmap.lookup_insert _, List.mem_singleton_self _⟩

theorem oneObject_isLive (hnodup : (entries.map Prod.fst).Nodup) {r : ReplicaInfo} :
    (oneObject cfg entries chunk).store.isLive r = decide (r.nodeId ∈ entries.map Prod.fst) := by
  rw [isLive, oneObject_nodes]
  cases hfind : (registered entries).find r.nodeId with
  | none =>
    symm
    rw [decide_eq_false_iff_not, List.mem_map]
    rintro ⟨entry, hentry, hid⟩
    have hfound := (find_registered hnodup).mpr (List.mem_map_of_mem (f := newNode) hentry)
    rw [show (newNode entry).id = r.nodeId from hid, hfind] at hfound
    cases hfound
  | some node =>
    have hid := NodeTable.find_id hfind
    have hmem := (find_registered hnodup).mp (hid ▸ hfind)
    obtain ⟨entry, hentry, rfl⟩ := List.mem_map.mp hmem
    have hlisted : r.nodeId ∈ entries.map Prod.fst := hid ▸ List.mem_map_of_mem hentry
    exact (decide_eq_true hlisted).symm

/-- The scan reports the chunk, if too few of its replicas are live, whatever has happened to
the storage nodes. -/
theorem serves_scan_oneObject {n : MetadataNode}
    (hobjects : n.store.objectsById = (oneObject cfg entries chunk).store.objectsById)
    (hlive : chunk.replicas.countP n.store.isLive < cfg.replicationFactor.toNat) :
    Serves cfg .getUnderReplicatedChunks n { chunks := [chunk.toProto] } n := by
  have hvisits : n.store.VisitsObjects
      [{ emptyObject cfg cfg (str "a.txt") (str "default") with chunks := [chunk] }] := by
    rw [VisitsObjects, hobjects]
    refine ⟨[draw 0], List.nodup_singleton _, fun id => ?_, ?_⟩
    · constructor
      · intro hmem
        rw [List.mem_singleton.mp hmem]
        exact Finmap.mem_of_lookup_eq_some (Finmap.lookup_insert _)
      · intro hmem
        obtain ⟨obj, hobj⟩ := Finmap.mem_iff.mp hmem
        exact List.mem_singleton.mpr (oneObject_lookup hobj).1
    · exact congrArg (· :: []) (Finmap.lookup_insert _)
  have hserves := @Serves.getUnderReplicatedChunks cfg _ _ hvisits
  have hresp : MetadataService.getUnderReplicatedChunks cfg
      [{ emptyObject cfg cfg (str "a.txt") (str "default") with chunks := [chunk] }]
      n.store = { chunks := [chunk.toProto] } := by
    simp [MetadataService.getUnderReplicatedChunks, MetadataStore.getUnderReplicatedChunks, hlive]
  rw [hresp] at hserves
  exact hserves

end OneObject

end StorageEngine
