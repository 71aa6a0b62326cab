import StorageEngine.Client.WriteLoop
import StorageEngine.Metadata.Selection
import StorageEngine.Recovery.RepairPass

/-!
# One repair pass on its own

What a pass does when nothing else runs, chunk by chunk.

* `fetch_run`: a pass takes the bytes of the first replica that answers.
* `replicateChunk_run`: it selects nodes and writes to all of them.
* `RepairTurn` is what it does for one chunk, with its four ways to end.
* `fetch_runs` and `replicateChunk_runs` give the runs that there are.
-/

namespace StorageEngine

open Lib.Remote MetadataStore RecoveryManager StorageClient

variable {ι : Type} [DecidableEq ι] {svc cfg : ClusterConfig} {reach : Str → Option ι}

/-! ## Fetching a chunk -/

/-- Some replica that is not on the excluded node returns these bytes. -/
def Fetched (reach : Str → Option ι) (c : Cluster ι) (excludeNode : Str) (chunk : ChunkInfo)
    (data : Bytes) : Prop :=
  ∃ rep ∈ chunk.replicas, rep.nodeId ≠ excludeNode ∧
    c.ReadsAt reach rep.address chunk.chunkId data

/-- The calls of a trace are reads of the chunk. -/
def ReadsOnly (chunkId : Str) (trace : List (Event Rpc Rpc.Reply)) : Prop :=
  ∀ e ∈ trace, ∃ address, e.request = .storage address (.readChunk { chunkId := chunkId })

theorem readFromReplica_run {rep : ReplicaInfo} {chunkId : Str} {c c' : Cluster ι}
    {trace : List (Event Rpc Rpc.Reply)} {result : Option Bytes}
    (hrun : Runs (Cluster.Serves svc reach) (ReplicationManager.readFromReplica rep chunkId) c
      trace result c') :
    c' = c ∧ ReadsOnly chunkId trace ∧
      (∀ data, result = some data → c.ReadsAt reach rep.address chunkId data) ∧
      (result = none → (∀ e ∈ trace, Responds reach e) →
        ∀ data, ¬c.ReadsAt reach rep.address chunkId data) := by
  obtain ⟨fate, r, c₁, rest, hcall, hrest, rfl⟩ := runs_rpc.mp hrun
  obtain ⟨rfl, hread, hunread⟩ := delivers_read hcall
  have hfirst : ReadsOnly chunkId
      [⟨.storage rep.address (.readChunk { chunkId := chunkId }), fate, r⟩] :=
    fun e he => ⟨rep.address, by rw [List.mem_singleton.mp he]⟩
  cases r with
  | none =>
    obtain ⟨rfl, rfl, rfl⟩ := runs_done.mp hrest
    exact ⟨rfl, hfirst, by simp, fun _ hresponds =>
      hunread (hresponds _ List.mem_cons_self) (by simp)⟩
  | some resp =>
    obtain ⟨rfl, rfl, rfl⟩ := runs_done.mp hrest
    refine ⟨rfl, hfirst, fun data hdata => ?_, fun hnone hresponds => ?_⟩
    · split at hdata
      · next hsuccess =>
        cases hdata
        exact hread resp rfl hsuccess
      · cases hdata
    · refine hunread (hresponds _ List.mem_cons_self) fun resp' hresp' => ?_
      cases hresp'
      split at hnone
      · cases hnone
      · next hsuccess => exact Bool.eq_false_of_not_eq_true hsuccess

theorem fetch_run {chunk : ChunkInfo} {excludeNode : Str} {replicas : List ReplicaInfo}
    {c c' : Cluster ι} {trace : List (Event Rpc Rpc.Reply)} {result : Option Bytes}
    (hrun : Runs (Cluster.Serves svc reach) (fetchChunkFromReplica chunk excludeNode replicas) c
      trace result c') :
    c' = c ∧ ReadsOnly chunk.chunkId trace ∧
      (∀ data, result = some data → ∃ rep ∈ replicas, rep.nodeId ≠ excludeNode ∧
        c.ReadsAt reach rep.address chunk.chunkId data) ∧
      (result = none → (∀ e ∈ trace, Responds reach e) →
        ∀ rep ∈ replicas, rep.nodeId ≠ excludeNode →
          ∀ data, ¬c.ReadsAt reach rep.address chunk.chunkId data) := by
  induction replicas generalizing c trace with
  | nil =>
    obtain ⟨rfl, rfl, rfl⟩ := runs_done.mp hrun
    exact ⟨rfl, by simp [ReadsOnly], by simp, by simp⟩
  | cons rep reps ih =>
    rw [fetchChunkFromReplica] at hrun
    split at hrun
    · next hexclude =>
      obtain ⟨hsame, hreads, hsome, hnone⟩ := ih hrun
      refine ⟨hsame, hreads, fun data hdata => ?_, fun hresult hresponds rep' hrep' hne => ?_⟩
      · obtain ⟨rep', hrep', hread⟩ := hsome data hdata
        exact ⟨rep', List.mem_cons_of_mem _ hrep', hread⟩
      · rcases List.mem_cons.mp hrep' with rfl | hrep'
        · exact absurd hexclude hne
        · exact hnone hresult hresponds rep' hrep' hne
    · next hexclude =>
      obtain ⟨found, c₁, first, rest, hfirst, hrest, rfl⟩ := runs_bind.mp hrun
      obtain ⟨rfl, hreads, hread, hunread⟩ := readFromReplica_run hfirst
      cases found with
      | some data =>
        obtain ⟨rfl, rfl, rfl⟩ := runs_done.mp hrest
        rw [List.append_nil]
        refine ⟨rfl, hreads, fun data' hdata => ?_, by simp⟩
        cases hdata
        exact ⟨rep, List.mem_cons_self, hexclude, hread data rfl⟩
      | none =>
        obtain ⟨hsame, hreads', hsome, hnone⟩ := ih hrest
        refine ⟨hsame, fun e he => ?_, fun data hdata => ?_,
          fun hresult hresponds rep' hrep' hne => ?_⟩
        · exact (List.mem_append.mp he).elim (hreads e) (hreads' e)
        · obtain ⟨rep', hrep', hread'⟩ := hsome data hdata
          exact ⟨rep', List.mem_cons_of_mem _ hrep', hread'⟩
        · rw [List.forall_mem_append] at hresponds
          rcases List.mem_cons.mp hrep' with rfl | hrep'
          · exact hunread rfl hresponds.1
          · exact hnone hresult hresponds.2 rep' hrep' hne

/-- All reads can be lost. -/
theorem fetch_runs_lost (chunk : ChunkInfo) (excludeNode : Str) (replicas : List ReplicaInfo)
    (c : Cluster ι) : ∃ trace, Runs (Cluster.Serves svc reach)
      (fetchChunkFromReplica chunk excludeNode replicas) c trace none c := by
  induction replicas with
  | nil => exact ⟨[], .done _ _⟩
  | cons rep reps ih =>
    obtain ⟨trace, hrest⟩ := ih
    rw [fetchChunkFromReplica]
    split
    · exact ⟨trace, hrest⟩
    · exact ⟨_, runs_bind.mpr ⟨none, c, _, trace,
        runs_rpc.mpr ⟨.requestLost, none, c, [], .requestLost c, .done _ _, rfl⟩, hrest, rfl⟩⟩

/-- A replica that can be read can answer. -/
theorem readFromReplica_runs {rep : ReplicaInfo} {chunkId : Str} {data : Bytes} {c : Cluster ι}
    (hread : c.ReadsAt reach rep.address chunkId data) : ∃ resp,
      Runs (Cluster.Serves svc reach) (ReplicationManager.readFromReplica rep chunkId) c
        [⟨.storage rep.address (.readChunk { chunkId := chunkId }), .answered, some resp⟩]
        (some data) c := by
  obtain ⟨i, hreach, header, hdata⟩ := hread
  have hserves := @StorageService.Serves.readChunk (c.nodes i) { chunkId := chunkId }
  rw [hdata] at hserves
  have hsame : c.setNode i (c.nodes i) = c := by
    rw [Cluster.setNode, Function.update_eq_self]
  refine ⟨_, runs_rpc.mpr ⟨.answered, _, _, [], .answered (.storage hreach hserves), ?_, rfl⟩⟩
  rw [hsame]
  exact .done _ _

/-- Any replica can be the first that answers. -/
theorem fetch_runs {chunk : ChunkInfo} {excludeNode : Str} {replicas : List ReplicaInfo}
    {c : Cluster ι} {data : Bytes} {rep : ReplicaInfo} (hrep : rep ∈ replicas)
    (hexclude : rep.nodeId ≠ excludeNode)
    (hread : c.ReadsAt reach rep.address chunk.chunkId data) :
    ∃ trace, Runs (Cluster.Serves svc reach) (fetchChunkFromReplica chunk excludeNode replicas) c
      trace (some data) c := by
  induction replicas with
  | nil => cases hrep
  | cons first reps ih =>
    rw [fetchChunkFromReplica]
    rcases List.mem_cons.mp hrep with rfl | hrep
    · obtain ⟨resp, hfirst⟩ := @readFromReplica_runs _ _ svc _ _ _ _ _ hread
      rw [if_neg hexclude]
      exact ⟨_, runs_bind.mpr ⟨some data, c, _, [], hfirst, .done _ _, rfl⟩⟩
    · obtain ⟨trace, hrest⟩ := ih hrep
      split
      · exact ⟨trace, hrest⟩
      · exact ⟨_, runs_bind.mpr ⟨none, c, _, trace,
          runs_rpc.mpr ⟨.requestLost, none, c, [], .requestLost c, .done _ _, rfl⟩, hrest, rfl⟩⟩

/-! ## Replicating a chunk -/

/-- The address that a selected node is written at. -/
def ReplicationManager.target (m : ReplicationManager) (node : ClusterNodeInfo) : Str :=
  if node.nodeId = m.localNodeId then m.localAddress else node.address

theorem isWrite_writeToSelected (m : ReplicationManager) (now : TimestampMs) (chunk : ChunkInfo)
    (data : Bytes) (node : ClusterNodeInfo) :
    IsWrite (m.writeToSelected (ReplicationManager.headerOf now chunk data) data node)
      (m.target node) chunk.chunkId chunk.objectId data := by
  rw [ReplicationManager.writeToSelected, ReplicationManager.target]
  split
  · refine ⟨.writeChunk _, ⟨_, rfl, rfl, rfl, rfl, rfl⟩,
      congrArg (Prog.call _) (funext fun r => ?_)⟩
    cases r <;> rfl
  · refine ⟨.replicateChunk _, ⟨_, rfl, rfl, rfl, rfl, rfl⟩,
      congrArg (Prog.call _) (funext fun r => ?_)⟩
    cases r <;> rfl

/-- The nodes are a least-used selection of the store. -/
def MetadataStore.LeastUsed (s : MetadataStore) (count : UInt32) (nodes : List NodeInfo) : Prop :=
  ∃ order : NodeOrder, order.Possible s .leastUsed ∧
    nodes = (selectNodes order s count .leastUsed).1

namespace MetadataStore.LeastUsed

variable {s : MetadataStore} {count : UInt32} {nodes : List NodeInfo}

theorem online (h : s.LeastUsed count nodes) {node : NodeInfo} (hnode : node ∈ nodes) :
    s.nodes.find node.id = some node ∧ node.online = true := by
  obtain ⟨order, horder, rfl⟩ := h
  exact selectNodes_online horder hnode

theorem ids_nodup (h : s.LeastUsed count nodes) : (nodes.map NodeInfo.id).Nodup := by
  obtain ⟨order, horder, rfl⟩ := h
  exact selectNodes_ids_nodup horder (by simp)

theorem length_eq (h : s.LeastUsed count nodes) :
    nodes.length = min count.toNat s.nodes.onlineIds.card := by
  obtain ⟨order, horder, rfl⟩ := h
  exact selectNodes_leastUsed_length horder

end MetadataStore.LeastUsed

/-- The request of a repair for nodes. -/
def selectRequest (count : UInt32) : SelectNodesRequest :=
  { count := count, strategy := str "least_used" }

theorem MetadataService.strategyOf_least_used (cfg : ClusterConfig) :
    strategyOf cfg (str "least_used") = .leastUsed := by
  have hrr : str "least_used" ≠ str "round_robin" := by decide
  have hrandom : str "least_used" ≠ str "random" := by decide
  rw [strategyOf, if_neg hrr, if_neg hrandom, if_pos rfl]

/-- A repair selects the least used nodes, which leaves the metadata. -/
theorem MetadataService.Serves.select_leastUsed {count : UInt32} {n n' : MetadataNode}
    {resp : SelectNodesResponse} (h : Serves cfg (.selectNodes (selectRequest count)) n resp n') :
    n' = n ∧ ∃ nodes, n.store.LeastUsed count nodes ∧ resp.nodes = nodes.map NodeInfo.toProto := by
  obtain ⟨order, horder, hnodes, hn⟩ := h.select_nodes
  rw [selectRequest, strategyOf_least_used] at horder hnodes hn
  rw [selectNodes_leastUsed_store] at hn
  exact ⟨hn, _, ⟨order, horder, rfl⟩, hnodes⟩

theorem MetadataService.serves_leastUsed {count : UInt32} {n : MetadataNode}
    {nodes : List NodeInfo} (h : n.store.LeastUsed count nodes) :
    Serves cfg (.selectNodes (selectRequest count)) n
      { nodes := nodes.map NodeInfo.toProto } n := by
  obtain ⟨order, horder, rfl⟩ := h
  have hpossible : order.Possible n.store (strategyOf cfg (selectRequest count).strategy) := by
    rw [selectRequest, strategyOf_least_used]
    exact horder
  have hserves := @Serves.selectNodes cfg _ _ _ hpossible
  rw [MetadataService.selectNodes, selectRequest, strategyOf_least_used,
    selectNodes_leastUsed_store] at hserves
  exact hserves

/-- The chunk has been written to the selected nodes, which have given these answers. -/
structure Copied (cfg : ClusterConfig) (reach : Str → Option ι) (m : ReplicationManager)
    (chunk : ChunkInfo) (data : Bytes) (c : Cluster ι) (nodes : List NodeInfo)
    (answers : List (ClusterNodeInfo × Bool)) (writes : List (Event Rpc Rpc.Reply))
    (c' : Cluster ι) : Prop where
  selected : c.metadata.store.LeastUsed cfg.replicationFactor nodes
  nonempty : nodes ≠ []
  all : answers.map Prod.fst = nodes.map NodeInfo.toProto
  asked : Asked reach m.target chunk.chunkId chunk.objectId data c answers writes c'

/-- So many nodes have accepted as the policy asks for. -/
def Quorum (cfg : ClusterConfig) (answers : List (ClusterNodeInfo × Bool)) : Prop :=
  quorumSize cfg.writeAck cfg.replicationFactor ≤ (acceptedOf answers).length

namespace Copied

variable {m : ReplicationManager} {chunk : ChunkInfo} {data : Bytes} {c c' : Cluster ι}
  {nodes : List NodeInfo} {answers : List (ClusterNodeInfo × Bool)}
  {writes : List (Event Rpc Rpc.Reply)}

omit [DecidableEq ι]

/-- The accepted nodes are selected ones. -/
theorem accepted_sublist (h : Copied cfg reach m chunk data c nodes answers writes c') :
    ∃ accepted : List NodeInfo, accepted.Sublist nodes ∧
      acceptedOf answers = accepted.map NodeInfo.toProto := by
  have hsub := acceptedOf_sublist answers
  rw [h.all] at hsub
  obtain ⟨accepted, haccepted, heq⟩ := List.sublist_map_iff.mp hsub
  exact ⟨accepted, haccepted, heq⟩

/-- `success_count` does not wrap around. -/
theorem quorum_iff (h : Copied cfg reach m chunk data c nodes answers writes c') :
    cfg.writeAck.required cfg.replicationFactor ≤
      (recordAll chunk.version answers {}).successCount ↔ Quorum cfg answers := by
  have hlength : (acceptedOf answers).length < 2 ^ 32 := by
    have hsub := (acceptedOf_sublist answers).length_le
    rw [h.all, List.length_map, h.selected.length_eq] at hsub
    exact (hsub.trans (Nat.min_le_left _ _)).trans_lt cfg.replicationFactor.toNat_lt
  rw [recordAll_successCount, UInt32.le_iff_toNat_le, required_toNat, Quorum,
    UInt32.toNat_ofNat_of_lt' hlength]

end Copied

/-- The end of `replicate_chunk` once it has asked all nodes. -/
def replicated (cfg : ClusterConfig) (chunk : ChunkInfo)
    (answers : List (ClusterNodeInfo × Bool)) : ReplicationManager.ReplicationResult :=
  ReplicationManager.resultOf (recordAll chunk.version answers {})
    (cfg.writeAck.required cfg.replicationFactor)

/-- What a run of `replicate_chunk` does, with its two ways to end. -/
inductive ReplicateRun (cfg : ClusterConfig) (reach : Str → Option ι) (m : ReplicationManager)
    (chunk : ChunkInfo) (data : Bytes) (c : Cluster ι) :
    List (Event Rpc Rpc.Reply) → ReplicationManager.ReplicationResult → Cluster ι → Prop where
  | unselected {fate : Fate} {r : Option SelectNodesResponse}
      (hnone : fate = .answered → c.metadata.store.LeastUsed cfg.replicationFactor []) :
      ReplicateRun cfg reach m chunk data c
        [⟨.metadata (.selectNodes (selectRequest cfg.replicationFactor)), fate, r⟩]
        { message := str "No available nodes" } c
  | written {nodes : List NodeInfo} {answers : List (ClusterNodeInfo × Bool)}
      {writes : List (Event Rpc Rpc.Reply)} {c' : Cluster ι}
      (hcopied : Copied cfg reach m chunk data c nodes answers writes c') :
      ReplicateRun cfg reach m chunk data c
        (⟨.metadata (.selectNodes (selectRequest cfg.replicationFactor)), .answered,
          some { nodes := nodes.map NodeInfo.toProto }⟩ :: writes)
        (replicated cfg chunk answers) c'

theorem replicateChunk_run {m : ReplicationManager} {now : TimestampMs} {chunk : ChunkInfo}
    {data : Bytes} {c c' : Cluster ι} {trace : List (Event Rpc Rpc.Reply)}
    {result : ReplicationManager.ReplicationResult}
    (hrun : Runs (Cluster.Serves svc reach)
      (m.replicateChunk now chunk data cfg.replicationFactor cfg.writeAck) c trace result c') :
    ReplicateRun cfg reach m chunk data c trace result c' := by
  obtain ⟨fate, r, c₁, rest, hcall, hrest, rfl⟩ := runs_rpc.mp hrun
  have hselect : c₁ = c ∧ (fate = .answered → ∃ nodes,
      c.metadata.store.LeastUsed cfg.replicationFactor nodes ∧
        r = some { nodes := nodes.map NodeInfo.toProto }) ∧ (r ≠ none → fate = .answered) := by
    have hfate := hcall.answered_of_reply
    rcases delivers_metadata hcall with ⟨rfl, -, rfl⟩ | ⟨-, hnodes, resp, hserves, hanswer, -⟩
    · exact ⟨rfl, by simp, hfate⟩
    · obtain ⟨hsame, nodes, hselected, hresp⟩ := hserves.select_leastUsed
      refine ⟨Cluster.ext hsame hnodes,
        fun hanswered => ⟨nodes, hselected, (hanswer hanswered).trans ?_⟩, hfate⟩
      rw [← hresp]
  obtain ⟨rfl, hanswer, hfate⟩ := hselect
  cases r with
  | none =>
    obtain ⟨rfl, rfl, rfl⟩ := runs_done.mp hrest
    refine .unselected fun hanswered => ?_
    obtain ⟨nodes, -, hr⟩ := hanswer hanswered
    cases hr
  | some selected =>
    obtain rfl := hfate (by simp)
    obtain ⟨nodes, hselected, hr⟩ := hanswer rfl
    cases hr
    dsimp only at hrest
    split at hrest
    · next hnil =>
      obtain ⟨rfl, rfl, rfl⟩ := runs_done.mp hrest
      rw [List.map_eq_nil_iff] at hnil
      exact .unselected fun _ => hnil ▸ hselected
    · next hne =>
      obtain ⟨progress, c₂, writes, last, hwrites, hlast, rfl⟩ := runs_bind.mp hrest
      obtain ⟨rfl, rfl, rfl⟩ := runs_done.mp hlast
      obtain ⟨answers, hall, rfl, hasked⟩ :=
        writeToNodes_asked (isWrite_writeToSelected m now chunk data) hwrites
      rw [List.append_nil]
      exact .written ⟨hselected, fun hnil => hne (by rw [hnil, List.map_nil]), hall, hasked⟩

/-- Any nodes whose machines can be reached can accept. -/
theorem replicateChunk_runs {m : ReplicationManager} {chunk : ChunkInfo} {data : Bytes}
    {c : Cluster ι} {nodes : List NodeInfo} {answers : List (ClusterNodeInfo × Bool)}
    (now : TimestampMs) (hlength : data.length < 2 ^ 64)
    (hselected : c.metadata.store.LeastUsed cfg.replicationFactor nodes) (hne : nodes ≠ [])
    (hall : answers.map Prod.fst = nodes.map NodeInfo.toProto)
    (hreach : ∀ node ∈ acceptedOf answers, ∃ i, reach (m.target node) = some i) :
    ∃ writes c', Runs (Cluster.Serves svc reach)
        (m.replicateChunk now chunk data cfg.replicationFactor cfg.writeAck) c
        (⟨.metadata (.selectNodes (selectRequest cfg.replicationFactor)), .answered,
          some { nodes := nodes.map NodeInfo.toProto }⟩ :: writes)
        (replicated cfg chunk answers) c' ∧
      Copied cfg reach m chunk data c nodes answers writes c' := by
  obtain ⟨writes, c', hwrites, hasked, -⟩ := @writeToNodes_runs _ _ svc reach _ chunk.version
    _ _ _ _ (isWrite_writeToSelected m now chunk data) hlength answers hreach {} c
  have hselect : Cluster.Serves svc reach
      (.metadata (.selectNodes (selectRequest cfg.replicationFactor))) c _ c :=
    .metadata (MetadataService.serves_leastUsed hselected)
  rw [hall] at hwrites
  refine ⟨writes, c', ?_, hselected, hne, hall, hasked⟩
  refine runs_rpc.mpr ⟨_, _, _, _, .answered hselect, ?_, rfl⟩
  dsimp only
  rw [if_neg fun hnil => hne (List.map_eq_nil_iff.mp hnil)]
  exact runs_bind.mpr ⟨_, _, _, _, hwrites, .done _ _, (List.append_nil _).symm⟩

/-! ## One chunk -/

/-- What a pass does for one chunk, with its four ways to end. -/
inductive RepairTurn (svc cfg : ClusterConfig) (reach : Str → Option ι) (m : ReplicationManager)
    (excludeNode : Str) (chunk : ChunkInfo) (c : Cluster ι) :
    List (Event Rpc Rpc.Reply) → Bool → Cluster ι → Prop where
  | unread {reads : List (Event Rpc Rpc.Reply)} (hreads : ReadsOnly chunk.chunkId reads)
      (hnone : (∀ e ∈ reads, Responds reach e) →
        ∀ data, ¬Fetched reach c excludeNode chunk data) :
      RepairTurn svc cfg reach m excludeNode chunk c reads false c
  | unselected {reads : List (Event Rpc Rpc.Reply)} {data : Bytes} {fate : Fate}
      {r : Option SelectNodesResponse} (hreads : ReadsOnly chunk.chunkId reads)
      (hfetched : Fetched reach c excludeNode chunk data)
      (hnone : fate = .answered → c.metadata.store.LeastUsed cfg.replicationFactor []) :
      RepairTurn svc cfg reach m excludeNode chunk c
        (reads ++ [⟨.metadata (.selectNodes (selectRequest cfg.replicationFactor)), fate, r⟩])
        false c
  | refused {reads writes : List (Event Rpc Rpc.Reply)} {data : Bytes} {nodes : List NodeInfo}
      {answers : List (ClusterNodeInfo × Bool)} {c' : Cluster ι}
      (hreads : ReadsOnly chunk.chunkId reads)
      (hfetched : Fetched reach c excludeNode chunk data)
      (hcopied : Copied cfg reach m chunk data c nodes answers writes c')
      (hquorum : ¬Quorum cfg answers) :
      RepairTurn svc cfg reach m excludeNode chunk c
        (reads ++ ⟨.metadata (.selectNodes (selectRequest cfg.replicationFactor)), .answered,
          some { nodes := nodes.map NodeInfo.toProto }⟩ :: writes) false c'
  | updated {reads writes : List (Event Rpc Rpc.Reply)} {data : Bytes} {nodes : List NodeInfo}
      {answers : List (ClusterNodeInfo × Bool)} {c₁ c' : Cluster ι} {req : UpdateChunkRequest}
      {fate : Fate} {r : Option (Rpc.Reply (.metadata (.updateChunk req)))}
      (hreads : ReadsOnly chunk.chunkId reads)
      (hfetched : Fetched reach c excludeNode chunk data)
      (hcopied : Copied cfg reach m chunk data c nodes answers writes c₁)
      (hquorum : Quorum cfg answers)
      (hreq : req = updateRequest chunk (recordAll chunk.version answers {}).replicas)
      (hupdate : Delivers (Cluster.Serves svc reach) (.metadata (.updateChunk req)) fate c₁ r
        c') :
      RepairTurn svc cfg reach m excludeNode chunk c
        (reads ++ (⟨.metadata (.selectNodes (selectRequest cfg.replicationFactor)), .answered,
          some { nodes := nodes.map NodeInfo.toProto }⟩ ::
            (writes ++ [⟨.metadata (.updateChunk req), fate, r⟩]))) true c'

theorem repairChunk_run {m : ReplicationManager} {now : TimestampMs} {excludeNode : Str}
    {chunk : ChunkInfo} {c c' : Cluster ι} {trace : List (Event Rpc Rpc.Reply)} {ok : Bool}
    (hrun : Runs (Cluster.Serves svc reach) (repairChunk cfg m now excludeNode chunk) c trace ok
      c') : RepairTurn svc cfg reach m excludeNode chunk c trace ok c' := by
  obtain ⟨found, c₁, reads, rest, hfetch, hrest, rfl⟩ := runs_bind.mp hrun
  obtain ⟨rfl, hreads, hsome, hnone⟩ := fetch_run hfetch
  cases found with
  | none =>
    obtain ⟨rfl, rfl, rfl⟩ := runs_done.mp hrest
    rw [List.append_nil]
    refine .unread hreads fun hresponds data => ?_
    rintro ⟨rep, hrep, hne, hread⟩
    exact hnone rfl hresponds rep hrep hne data hread
  | some data =>
    have hfetched : Fetched reach c₁ excludeNode chunk data := hsome data rfl
    obtain ⟨result, c₂, copies, last, hreplicate, hlast, rfl⟩ := runs_bind.mp hrest
    cases replicateChunk_run hreplicate with
    | unselected hselect =>
      obtain ⟨rfl, rfl, rfl⟩ := runs_done.mp hlast
      rw [List.append_nil]
      exact .unselected hreads hfetched hselect
    | written hcopied =>
      split at hlast
      · next hsuccess =>
        have hquorum := hcopied.quorum_iff.mp (of_decide_eq_true hsuccess)
        obtain ⟨fate, r, c₃, final, hupdate, hdone, rfl⟩ := runs_rpc.mp hlast
        obtain ⟨rfl, rfl, rfl⟩ := runs_done.mp hdone
        exact .updated hreads hfetched hcopied hquorum rfl hupdate
      · next hfailed =>
        have hquorum := fun h => hfailed (decide_eq_true (hcopied.quorum_iff.mpr h))
        obtain ⟨rfl, rfl, rfl⟩ := runs_done.mp hlast
        rw [List.append_nil]
        exact .refused hreads hfetched hcopied hquorum

/-- So many of the nodes can accept. -/
theorem exists_accepted {nodes : List NodeInfo} {count : ℕ} (hcount : count ≤ nodes.length) :
    ∃ answers : List (ClusterNodeInfo × Bool), answers.map Prod.fst = nodes.map NodeInfo.toProto ∧
      (acceptedOf answers).length = count := by
  obtain ⟨answers, hall, haccepted⟩ :=
    exists_answers ((List.take_sublist count nodes).map NodeInfo.toProto)
  refine ⟨answers, hall, ?_⟩
  rw [haccepted, List.length_map, List.length_take, Nat.min_eq_left hcount]

/-- Any nodes whose machines can be reached can accept the chunk that a turn has fetched. -/
theorem repairChunk_runs {m : ReplicationManager} {now : TimestampMs} {excludeNode : Str}
    {chunk : ChunkInfo} {data : Bytes} {c : Cluster ι} {nodes : List NodeInfo}
    {reads : List (Event Rpc Rpc.Reply)} {answers : List (ClusterNodeInfo × Bool)}
    (hfetch : Runs (Cluster.Serves svc reach)
      (fetchChunkFromReplica chunk excludeNode chunk.replicas) c reads (some data) c)
    (hlength : data.length < 2 ^ 64)
    (hselected : c.metadata.store.LeastUsed cfg.replicationFactor nodes) (hne : nodes ≠ [])
    (hall : answers.map Prod.fst = nodes.map NodeInfo.toProto)
    (hreach : ∀ node ∈ acceptedOf answers, ∃ i, reach (m.target node) = some i) :
    ∃ writes c₁, Copied cfg reach m chunk data c nodes answers writes c₁ ∧
      (¬Quorum cfg answers → Runs (Cluster.Serves svc reach)
        (repairChunk cfg m now excludeNode chunk) c
        (reads ++ ⟨.metadata (.selectNodes (selectRequest cfg.replicationFactor)), .answered,
          some { nodes := nodes.map NodeInfo.toProto }⟩ :: writes) false c₁) ∧
      ∀ fate r c', Quorum cfg answers →
        Delivers (Cluster.Serves svc reach) (.metadata (.updateChunk (updateRequest chunk
          (recordAll chunk.version answers {}).replicas))) fate c₁ r c' →
        Runs (Cluster.Serves svc reach) (repairChunk cfg m now excludeNode chunk) c
          (reads ++ (⟨.metadata (.selectNodes (selectRequest cfg.replicationFactor)), .answered,
            some { nodes := nodes.map NodeInfo.toProto }⟩ ::
              (writes ++ [⟨.metadata (.updateChunk (updateRequest chunk
                (recordAll chunk.version answers {}).replicas)), fate, r⟩]))) true c' := by
  obtain ⟨writes, c₁, hwrites, hcopied⟩ := @replicateChunk_runs _ _ svc cfg reach m chunk data c
    nodes answers now hlength hselected hne hall hreach
  refine ⟨writes, c₁, hcopied, fun hquorum => ?_, fun fate r c' hquorum hupdate => ?_⟩
  · have hfailed : ¬(replicated cfg chunk answers).success = true := fun h =>
      hquorum (hcopied.quorum_iff.mp (of_decide_eq_true h))
    refine runs_bind.mpr ⟨some data, c, reads, _, hfetch, runs_bind.mpr ⟨_, c₁, _, [], hwrites,
      ?_, (List.append_nil _).symm⟩, rfl⟩
    rw [if_neg hfailed]
    exact .done _ _
  · have hsuccess : (replicated cfg chunk answers).success = true :=
      decide_eq_true (hcopied.quorum_iff.mpr hquorum)
    refine runs_bind.mpr ⟨some data, c, reads, _, hfetch, runs_bind.mpr ⟨_, c₁, _, [_], hwrites,
      ?_, rfl⟩, rfl⟩
    rw [if_pos hsuccess]
    exact runs_rpc.mpr ⟨fate, r, c', [], hupdate, .done _ _, rfl⟩

/-- A turn can go as far as its update. -/
theorem repairChunk_advances {m : ReplicationManager} (now : TimestampMs) {excludeNode : Str}
    {chunk : ChunkInfo} {data : Bytes} {c : Cluster ι} {nodes : List NodeInfo}
    {answers : List (ClusterNodeInfo × Bool)} (hfetched : Fetched reach c excludeNode chunk data)
    (hlength : data.length < 2 ^ 64)
    (hselected : c.metadata.store.LeastUsed cfg.replicationFactor nodes) (hne : nodes ≠ [])
    (hall : answers.map Prod.fst = nodes.map NodeInfo.toProto)
    (hreach : ∀ node ∈ acceptedOf answers, ∃ i, reach (m.target node) = some i)
    (hquorum : Quorum cfg answers) :
    ∃ events c', Advances (Cluster.Serves svc reach) (repairChunk cfg m now excludeNode chunk) c
        events (.call (.metadata (.updateChunk (updateRequest chunk
          (recordAll chunk.version answers {}).replicas))) fun _ => .done true) c' ∧
      Cluster.Overwrites chunk.chunkId chunk.objectId data c c' ∧
      ∀ e ∈ events, RepairPass.Copies e.request := by
  obtain ⟨rep, hrep, hexclude, hread⟩ := hfetched
  obtain ⟨reads, hreads⟩ := @fetch_runs _ _ svc reach chunk excludeNode chunk.replicas c data rep
    hrep hexclude hread
  obtain ⟨writes, c', hwrites, hcopied⟩ := @replicateChunk_runs _ _ svc cfg reach m chunk data c
    nodes answers now hlength hselected hne hall hreach
  have hsuccess : (replicated cfg chunk answers).success = true :=
    decide_eq_true (hcopied.quorum_iff.mpr hquorum)
  have hread := hreads.trace_allowed (RepairPass.fetchChunkFromReplica_issues _ _ _)
  have hwrite := hwrites.trace_allowed (RepairPass.replicateChunk_issues _ _ _ _ _ _)
  have hturn : Advances (Cluster.Serves svc reach) (repairChunk cfg m now excludeNode chunk) c
      (reads ++ (_ ++ [])) _ c' := .of_runs_bind hreads (.of_runs_bind hwrites (by
    rw [if_pos hsuccess]
    exact .refl _ _))
  refine ⟨_, c', hturn, hcopied.asked.overwrites, ?_⟩
  rw [List.append_nil, List.forall_mem_append]
  exact ⟨hread, hwrite⟩

/-- A pass over one chunk can go as far as its turn. -/
theorem RepairPass.advances {pass : RepairPass} (hpass : pass.failedNodeId = none)
    {chunk : ChunkInfo} {c c' : Cluster ι} {events : List (Event Rpc Rpc.Reply)}
    {q : Rpc} {next : Option q.Reply → ClusterProg Bool}
    (hscan : MetadataService.Serves svc .getUnderReplicatedChunks c.metadata
      { chunks := [chunk.toProto] } c.metadata)
    (hturn : Advances (Cluster.Serves svc reach)
      (repairChunk pass.cfg pass.manager (pass.now 0) [] chunk) c events (.call q next) c') :
    ∃ next', Advances (Cluster.Serves svc reach) pass.program c
      (⟨.metadata .getUnderReplicatedChunks, .answered, some { chunks := [chunk.toProto] }⟩ ::
        events) (.call q next') c' := by
  have hcall : Delivers (Cluster.Serves svc reach) (.metadata .getUnderReplicatedChunks)
      .answered c (some { chunks := [chunk.toProto] }) c := .answered (.metadata hscan)
  have hloop := (hturn.bind fun ok => repairChunks pass.cfg pass.manager []
      (fun n => pass.now (n + 1)) [] (if ok then 0 + 1 else 0)).bind fun recovered =>
    (pure { success := true, chunksRecovered := recovered, message := str "Repair complete" } :
      ClusterProg RecoveryResult)
  rw [← ChunkInfo.fromProto_toProto chunk] at hloop
  rw [program, hpass]
  exact ⟨_, .call hcall hloop⟩

end StorageEngine
