import StorageEngine.Client.PutRun
import StorageEngine.Cluster.ChunkIds

/-!
# Which chunks are reported as under-replicated

`get_under_replicated_chunks` counts the entries of a replica list whose node is online,
and compares their number with the factor of the cluster.  An entry that repeats a node
is counted again, and the factor that an object was created with is not looked at.

* `mem_reported` and `reported_nodup`: what the response holds.
* `detection_exact_iff`: when these are the chunks that are on fewer nodes than the
  factor of their object.
-/

namespace StorageEngine

open Lib MetadataStore MetadataService StorageClient

/-- The online nodes that a replica list names. -/
def MetadataStore.liveNodes (s : MetadataStore) (replicas : List ReplicaInfo) : Finset Str :=
  ((replicas.filter s.isLive).map ReplicaInfo.nodeId).toFinset

theorem MetadataStore.mem_liveNodes {s : MetadataStore} {replicas : List ReplicaInfo}
    {id : Str} : id ∈ s.liveNodes replicas ↔ ∃ r ∈ replicas, s.isLive r = true ∧ r.nodeId = id := by
  simp [liveNodes, and_assoc]

/-- No more nodes than entries. -/
theorem MetadataStore.card_liveNodes_le (s : MetadataStore) (replicas : List ReplicaInfo) :
    (s.liveNodes replicas).card ≤ replicas.countP s.isLive := by
  refine (List.toFinset_card_le _).trans (Nat.le_of_eq ?_)
  rw [List.length_map, List.countP_eq_length_filter]

/-- As many nodes as entries, when no node is repeated. -/
theorem MetadataStore.card_liveNodes {s : MetadataStore} {replicas : List ReplicaInfo}
    (hnodup : ((replicas.filter s.isLive).map ReplicaInfo.nodeId).Nodup) :
    (s.liveNodes replicas).card = replicas.countP s.isLive := by
  rw [liveNodes, List.toFinset_card_of_nodup hnodup, List.length_map,
    List.countP_eq_length_filter]

namespace MetadataNode

/-- The node stores this chunk, in this object. -/
def Stored (n : MetadataNode) (obj : ObjectInfo) (chunk : ChunkInfo) : Prop :=
  (∃ key, n.store.objectsById.lookup key = some obj) ∧ chunk ∈ obj.chunks

/-- The chunk is on fewer online nodes than the factor of its object. -/
def UnderReplicated (n : MetadataNode) (obj : ObjectInfo) (chunk : ChunkInfo) : Prop :=
  (n.store.liveNodes chunk.replicas).card < obj.replicationFactor.toNat

/-- The response has the under-replicated chunks, each once. -/
structure Detects (n : MetadataNode) (resp : GetUnderReplicatedChunksResponse) : Prop where
  once : (resp.chunks.map ChunkMetadata.chunkId).Nodup
  exact : ∀ pb, pb ∈ resp.chunks ↔
    ∃ obj chunk, n.Stored obj chunk ∧ n.UnderReplicated obj chunk ∧ pb = chunk.toProto

/-- The chunk is on too few nodes for its object, but enough entries are counted for the
cluster. -/
def Overlooked (n : MetadataNode) (cfg : ClusterConfig) (obj : ObjectInfo)
    (chunk : ChunkInfo) : Prop :=
  n.UnderReplicated obj chunk ∧
    cfg.replicationFactor.toNat ≤ chunk.replicas.countP n.store.isLive

/-- The chunk is on enough nodes for its object, but too few entries are counted for the
cluster. -/
def Overstated (n : MetadataNode) (cfg : ClusterConfig) (obj : ObjectInfo)
    (chunk : ChunkInfo) : Prop :=
  chunk.replicas.countP n.store.isLive < cfg.replicationFactor.toNat ∧
    obj.replicationFactor.toNat ≤ (n.store.liveNodes chunk.replicas).card

/-- What it takes for a chunk to be overlooked: a node that the list repeats, or an
object with a larger factor than the cluster. -/
theorem Overlooked.cause {n : MetadataNode} {cfg : ClusterConfig} {obj : ObjectInfo}
    {chunk : ChunkInfo} (h : n.Overlooked cfg obj chunk) :
    ¬((chunk.replicas.filter n.store.isLive).map ReplicaInfo.nodeId).Nodup ∨
      cfg.replicationFactor < obj.replicationFactor := by
  rw [or_iff_not_imp_left, not_not, UInt32.lt_iff_toNat_lt]
  intro hnodup
  have hcard := card_liveNodes hnodup
  have hunder : (n.store.liveNodes chunk.replicas).card < obj.replicationFactor.toNat := h.1
  have hcounted := h.2
  omega

/-- Only an object with a smaller factor than the cluster has chunks that are
overstated. -/
theorem Overstated.cause {n : MetadataNode} {cfg : ClusterConfig} {obj : ObjectInfo}
    {chunk : ChunkInfo} (h : n.Overstated cfg obj chunk) :
    obj.replicationFactor < cfg.replicationFactor := by
  have hcard := n.store.card_liveNodes_le chunk.replicas
  rw [UInt32.lt_iff_toNat_lt]
  have hcounted := h.1
  have henough := h.2
  omega

end MetadataNode

/-! ## The response -/

section Response

variable {cfg : ClusterConfig} {n n' : MetadataNode} {resp : GetUnderReplicatedChunksResponse}

theorem MetadataService.Serves.reported
    (h : Serves cfg .getUnderReplicatedChunks n resp n') :
    n' = n ∧ ∃ visited, n.store.VisitsObjects visited ∧ resp.chunks =
      (n.store.getUnderReplicatedChunks visited cfg.replicationFactor).map
        ChunkInfo.toProto := by
  cases h with
  | getUnderReplicatedChunks hvisited => exact ⟨rfl, _, hvisited, rfl⟩

/-- The scan always returns. -/
theorem MetadataService.exists_reported (cfg : ClusterConfig) (n : MetadataNode) :
    ∃ resp, Serves cfg .getUnderReplicatedChunks n resp n := by
  obtain ⟨visited, hvisits⟩ := n.store.exists_visitsObjects
  exact ⟨_, .getUnderReplicatedChunks hvisits⟩

/-- A chunk is reported if the entries that count are fewer than the factor of the
cluster. -/
theorem MetadataService.Serves.mem_reported
    (h : Serves cfg .getUnderReplicatedChunks n resp n') {pb : ChunkMetadata} :
    pb ∈ resp.chunks ↔ ∃ obj chunk, n.Stored obj chunk ∧
      chunk.replicas.countP n.store.isLive < cfg.replicationFactor.toNat ∧
      pb = chunk.toProto := by
  obtain ⟨-, visited, hvisits, hresp⟩ := h.reported
  rw [hresp, List.mem_map]
  constructor
  · rintro ⟨chunk, hchunk, rfl⟩
    obtain ⟨obj, hobj, hfilter⟩ := List.mem_flatMap.mp hchunk
    obtain ⟨hmem, hcounted⟩ := List.mem_filter.mp hfilter
    exact ⟨obj, chunk, ⟨hvisits.mem_iff.mp hobj, hmem⟩, of_decide_eq_true hcounted, rfl⟩
  · rintro ⟨obj, chunk, ⟨hobj, hmem⟩, hcounted, rfl⟩
    refine ⟨chunk, List.mem_flatMap.mpr ⟨obj, hvisits.mem_iff.mpr hobj, ?_⟩, rfl⟩
    exact List.mem_filter.mpr ⟨hmem, decide_eq_true hcounted⟩

/-- No chunk is reported twice. -/
theorem MetadataService.Serves.reported_nodup (hids : n.ChunkIds)
    (h : Serves cfg .getUnderReplicatedChunks n resp n') :
    (resp.chunks.map ChunkMetadata.chunkId).Nodup := by
  obtain ⟨-, visited, hvisits, hresp⟩ := h.reported
  have hproto : ChunkMetadata.chunkId ∘ ChunkInfo.toProto = ChunkInfo.chunkId := rfl
  rw [hresp, List.map_map, hproto, MetadataStore.getUnderReplicatedChunks, List.map_flatMap,
    List.nodup_flatMap]
  refine ⟨fun obj hobj => ?_, ?_⟩
  · obtain ⟨key, hkey⟩ := hvisits.mem_iff.mp hobj
    exact (hids.nodup hkey).sublist (List.filter_sublist.map _)
  · have hdistinct := List.pairwise_map.mp (hvisits.ids_nodup hids.indexed)
    refine hdistinct.imp_of_mem fun {obj obj'} hobj hobj' hne id hid hid' => ?_
    obtain ⟨key, hkey⟩ := hvisits.mem_iff.mp hobj
    obtain ⟨key', hkey'⟩ := hvisits.mem_iff.mp hobj'
    obtain rfl := hids.disjoint hkey hkey' id ((List.filter_sublist.map _).subset hid)
      ((List.filter_sublist.map _).subset hid')
    rw [hkey] at hkey'
    cases hkey'
    exact hne rfl

end Response

/-! ## Exactness -/

/-- In every state that the service reaches, the response has exactly the chunks on fewer
online nodes than the factor of their object, each once, if and only if no stored chunk is
overlooked and none is overstated. -/
theorem detection_exact_iff (cfg : ClusterConfig) (n : MetadataNode)
    (hreached : n.Reached cfg fun _ => True) (resp : GetUnderReplicatedChunksResponse)
    (n' : MetadataNode) (hserves : Serves cfg .getUnderReplicatedChunks n resp n') :
    n.Detects resp ↔ ∀ obj chunk, n.Stored obj chunk →
      ¬n.Overlooked cfg obj chunk ∧ ¬n.Overstated cfg obj chunk := by
  have hids := hreached.chunkIds
  -- a chunk of the response is one chunk of one object
  have hone : ∀ {obj obj' chunk chunk'}, n.Stored obj chunk → n.Stored obj' chunk' →
      chunk.toProto = chunk'.toProto → obj = obj' ∧ chunk = chunk' := by
    rintro obj obj' chunk chunk' ⟨⟨key, hkey⟩, hmem⟩ ⟨⟨key', hkey'⟩, hmem'⟩ heq
    have hid : chunk.chunkId = chunk'.chunkId := congrArg ChunkMetadata.chunkId heq
    exact (hids.chunk_unique hkey hkey' hmem hmem' hid).2
  constructor
  · intro hdetects obj chunk hstored
    refine ⟨fun hoverlooked => ?_, fun hoverstated => ?_⟩
    · have hmem := (hdetects.exact chunk.toProto).mpr ⟨obj, chunk, hstored, hoverlooked.1, rfl⟩
      obtain ⟨obj', chunk', hstored', hcounted, heq⟩ := hserves.mem_reported.mp hmem
      obtain ⟨rfl, rfl⟩ := hone hstored hstored' heq
      exact Nat.not_lt.mpr hoverlooked.2 hcounted
    · have hmem := hserves.mem_reported.mpr ⟨obj, chunk, hstored, hoverstated.1, rfl⟩
      obtain ⟨obj', chunk', hstored', hunder, heq⟩ := (hdetects.exact _).mp hmem
      obtain ⟨rfl, rfl⟩ := hone hstored hstored' heq
      exact Nat.not_lt.mpr hoverstated.2 hunder
  · intro hexact
    refine ⟨hserves.reported_nodup hids, fun pb => ?_⟩
    rw [hserves.mem_reported]
    constructor
    · rintro ⟨obj, chunk, hstored, hcounted, rfl⟩
      refine ⟨obj, chunk, hstored, ?_, rfl⟩
      by_contra hunder
      exact (hexact obj chunk hstored).2 ⟨hcounted, Nat.not_lt.mp hunder⟩
    · rintro ⟨obj, chunk, hstored, hunder, rfl⟩
      refine ⟨obj, chunk, hstored, ?_, rfl⟩
      by_contra hcounted
      exact (hexact obj chunk hstored).1 ⟨hunder, Nat.not_lt.mp hcounted⟩

section OneChunk

/-- Two replicas per chunk. -/
private def pair : ClusterConfig := { replicationFactor := 2 }

private def onlyChunk (replicas : List ReplicaInfo) : ChunkInfo :=
  { chunkId := draw 1, objectId := draw 0, version := 1, replicas := replicas }

/-- The metadata node with one storage node and one object, whose only chunk has these
replicas. -/
private def recorded (replicas : List ReplicaInfo) : MetadataNode :=
  emptyRecorded pair pair (str "a.txt") (str "default") oneNodeStore (onlyChunk replicas)

private theorem recorded_reached (replicas : List ReplicaInfo) :
    (recorded replicas).Reached pair fun _ => True := by
  have hregister : Serves pair (.registerNode { nodeId := str "n1", address := str "n1:1" }) {}
      { success := true, message := str "Registered" } { store := oneNodeStore } :=
    .registerNode _ _ 0
  have hcreate := @serves_create_empty pair pair (str "a.txt") (str "default") oneNodeStore
    Finmap.notMem_empty
  have hupdate := @serves_update_empty pair pair (str "a.txt") (str "default") oneNodeStore
    (onlyChunk replicas) rfl
  exact ((Relation.ReflTransGen.refl.tail ⟨_, _, trivial, hregister⟩).tail
    ⟨_, _, trivial, hcreate⟩).tail ⟨_, _, trivial, hupdate⟩

private theorem recorded_stored {replicas : List ReplicaInfo} {obj : ObjectInfo}
    {chunk : ChunkInfo} (h : (recorded replicas).Stored obj chunk) :
    obj.replicationFactor = 2 ∧ chunk.replicas = replicas := by
  obtain ⟨⟨key, hkey⟩, hmem⟩ := h
  rcases lookup_insert_cases hkey with ⟨-, rfl⟩ | ⟨hne, hkey⟩
  · rw [List.mem_singleton.mp hmem]
    exact ⟨rfl, rfl⟩
  · rcases lookup_insert_cases hkey with ⟨heq, -⟩ | ⟨-, hkey⟩
    · exact absurd heq hne
    · cases hkey

private theorem recorded_isLive (replicas : List ReplicaInfo) :
    (recorded replicas).store.isLive { nodeId := str "n1" } = true := by
  have hfind : (recorded replicas).store.nodes.find (str "n1") = some oneNode :=
    (NodeTable.find_set _ _ _).trans (if_pos rfl)
  rw [isLive, hfind]
  rfl

/-- A chunk on one of two nodes is detected. -/
theorem detection_exact_one_replica :
    ∃ resp, (recorded [{ nodeId := str "n1" }]).Detects resp := by
  obtain ⟨resp, hserves⟩ := exists_reported pair (recorded [{ nodeId := str "n1" }])
  refine ⟨resp, (detection_exact_iff pair _ (recorded_reached _) resp _ hserves).mpr
    fun obj chunk hstored => ?_⟩
  obtain ⟨hfactor, hreplicas⟩ := recorded_stored hstored
  have hlive := recorded_isLive [{ nodeId := str "n1" }]
  have hcounted : chunk.replicas.countP (recorded [{ nodeId := str "n1" }]).store.isLive = 1 := by
    rw [hreplicas, List.countP_singleton, hlive]
    rfl
  have hcard := card_liveNodes_le (recorded [{ nodeId := str "n1" }]).store chunk.replicas
  refine ⟨fun h => ?_, fun h => ?_⟩
  · have henough := h.2
    rw [hcounted] at henough
    exact absurd henough (by decide)
  · have henough := h.2
    rw [hfactor] at henough
    have : (2 : UInt32).toNat = 2 := rfl
    omega

/-- A replica list that names its only node twice hides the chunk from the scan. -/
theorem repeated_replica_overlooked :
    ∃ n resp, n.Reached pair (fun _ => True) ∧
      Serves pair .getUnderReplicatedChunks n resp n ∧ ¬n.Detects resp := by
  let replicas : List ReplicaInfo := [{ nodeId := str "n1" }, { nodeId := str "n1" }]
  obtain ⟨resp, hserves⟩ := exists_reported pair (recorded replicas)
  refine ⟨_, resp, recorded_reached _, hserves, fun hdetects => ?_⟩
  have hlive := recorded_isLive replicas
  obtain ⟨obj, hstored⟩ : ∃ obj, (recorded replicas).Stored obj (onlyChunk replicas) :=
    ⟨_, ⟨draw 0, Finmap.lookup_insert _⟩, List.mem_singleton_self _⟩
  have hunder : (recorded replicas).UnderReplicated obj (onlyChunk replicas) := by
    rw [MetadataNode.UnderReplicated, (recorded_stored hstored).1, liveNodes, onlyChunk]
    simp only [replicas, List.filter_cons, hlive]
    decide
  obtain ⟨obj', chunk, hstored', hcounted, -⟩ :=
    hserves.mem_reported.mp ((hdetects.exact _).mpr ⟨_, _, hstored, hunder, rfl⟩)
  rw [(recorded_stored hstored').2, List.countP_cons, List.countP_singleton, hlive] at hcounted
  exact absurd hcounted (by decide)

end OneChunk

end StorageEngine
