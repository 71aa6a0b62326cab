import StorageEngine.Lib.SortedPrefix
import StorageEngine.Recovery.Unattended

/-!
# Placement and load

Least-used selection orders the nodes by the number of chunks that their heartbeats report.  A
heartbeat manager takes this number when it is started, and its loop never counts again, so the
order does not change with what is stored.

* `Chore.Steady`: a heartbeat reports the number that its manager was started with.
* `placement_static`: a node that is behind enough others is never selected.
-/

namespace StorageEngine

open Lib Lib.Remote MetadataStore

/-- The registry has these chunk counts. -/
def MetadataStore.CountedBy (s : MetadataStore) (counts : Str → UInt64) : Prop :=
  ∀ {id node}, s.nodes.find id = some node → node.chunkCount = counts id

/-! ## The calls -/

/-- The call registers no node, takes none offline, and reports no other count. -/
def Rpc.Steady (counts : Str → UInt64) : Rpc → Prop
  | .metadata (.nodeHeartbeat req) => req.chunkCount = counts req.nodeId
  | q => q.Unattended

section Calls

variable {counts : Str → UInt64}

theorem Rpc.Steady.isUnattended {q : Rpc} (h : q.Steady counts) : q.Unattended := by
  cases q with
  | metadata q => cases q <;> first | exact h | exact trivial
  | storage => exact trivial

theorem Rpc.LeavesNodes.steady (q : Rpc) (h : q.LeavesNodes) : q.Steady counts := by
  cases q with
  | metadata q => cases q <;> first | exact h.elim | exact trivial
  | storage => exact trivial

theorem MetadataService.Serves.countedBy {cfg : ClusterConfig} {q : MetadataRpc}
    {n n' : MetadataNode} {r : q.Reply} (h : Serves cfg q n r n')
    (hq : Rpc.Steady counts (.metadata q)) (hcounts : n.store.CountedBy counts) :
    n'.store.CountedBy counts := by
  intro id node hnode
  rcases h.nodes_cases hq.isUnattended with hsame | ⟨req, known, now, rfl, hknown, hset⟩
  · rw [hsame] at hnode
    exact hcounts hnode
  · rw [hset, NodeTable.find_set] at hnode
    split at hnode
    · next hid =>
      cases hnode
      rw [hid, show known.id = req.nodeId from NodeTable.find_id hknown]
      exact hq
    · exact hcounts hnode

variable {ι : Type} [DecidableEq ι] {svc : ClusterConfig} {reach : Str → Option ι}

theorem Cluster.Serves.countedBy {q : Rpc} {c c' : Cluster ι} {r : Option q.Reply}
    (h : Cluster.Serves svc reach q c r c') (hq : q.Steady counts)
    (hcounts : c.metadata.store.CountedBy counts) : c'.metadata.store.CountedBy counts := by
  cases h with
  | metadata h => exact h.countedBy hq hcounts
  | storage => exact hcounts

end Calls

/-! ## The selection -/

/-- Least-used selection passes a node over for enough nodes with smaller counts. -/
theorem MetadataService.Serves.selected_behind {cfg : ClusterConfig} {req : SelectNodesRequest}
    {n n' : MetadataNode} {resp : SelectNodesResponse} {counts : Str → UInt64}
    (h : Serves cfg (.selectNodes req) n resp n')
    (hstrategy : strategyOf cfg req.strategy = .leastUsed)
    (hcounts : n.store.CountedBy counts) :
    ∀ node ∈ resp.nodes,
      (n.store.nodes.onlineIds.filter fun id => counts id < counts node.nodeId).card <
        req.count.toNat := by
  obtain ⟨order, horder, hnodes, -⟩ := h.select_nodes
  rw [hstrategy] at horder hnodes
  intro node hnode
  rw [hnodes, List.mem_map] at hnode
  obtain ⟨info, hinfo, rfl⟩ := hnode
  have hcount : info.chunkCount = counts info.id := hcounts (selectNodes_online horder hinfo).1
  rw [selectNodes_taken horder (by simp)] at hinfo
  have hsorted : order.arranged.Pairwise fun a b => a.chunkCount.toNat ≤ b.chunkCount.toNat :=
    (horder.sorted rfl).imp UInt64.le_iff_toNat_le.mp
  refine lt_of_le_of_lt ?_ (countP_lt_of_mem_take hsorted hinfo)
  -- the nodes with smaller counts are among those that selection has arranged
  have hsub : (n.store.nodes.onlineIds.filter fun id => counts id < counts info.id) ⊆
      ((order.arranged.filter fun b =>
        decide (b.chunkCount.toNat < info.chunkCount.toNat)).map NodeInfo.id).toFinset := by
    intro id hid
    obtain ⟨honline, hless⟩ := Finset.mem_filter.mp hid
    obtain ⟨b, hfind, hb⟩ := NodeTable.mem_onlineIds.mp honline
    have hvisited : b ∈ order.visited :=
      (horder.visits.2 b).mpr (by rw [NodeTable.find_id hfind]; exact hfind)
    have harranged : b ∈ order.arranged :=
      horder.perm.mem_iff.mpr (List.mem_filter.mpr ⟨hvisited, hb⟩)
    rw [List.mem_toFinset, List.mem_map]
    refine ⟨b, List.mem_filter.mpr ⟨harranged, ?_⟩, NodeTable.find_id hfind⟩
    rw [decide_eq_true_eq, hcounts hfind, hcount]
    exact UInt64.lt_iff_toNat_lt.mp hless
  refine (Finset.card_le_card hsub).trans ((List.toFinset_card_le _).trans ?_)
  rw [List.length_map, List.countP_eq_length_filter]

/-! ## What runs -/

/-- A heartbeat reports the count of its node. -/
def Chore.Steady (counts : Str → UInt64) : Chore → Prop
  | .heartbeat m _ chunkCount => chunkCount = counts m.nodeId
  | .other program _ => program.Issues (Rpc.Steady counts)
  | _ => True

/-- The configurations of the runs from a cluster. -/
def Cluster.Steady {ι : Type} [DecidableEq ι] (svc : ClusterConfig) (reach : Str → Option ι)
    (counts : Str → UInt64) (c : Cluster ι)
    (config : Lib.Remote.Config Rpc Rpc.Reply (Cluster ι)
      { chore : Chore // chore.Steady counts } Outcome) : Prop :=
  Reachable (fun _ => Cluster.Serves svc reach) (fun chore => chore.1.program) Cluster.Fails c
    config

theorem Chore.Steady.issues {counts : Str → UInt64} {chore : Chore} (h : chore.Steady counts) :
    chore.program.Issues (Rpc.Steady counts) := by
  cases chore with
  | put =>
    exact ((StorageClient.put_leavesNodes _ _ _ _).imp Rpc.LeavesNodes.steady).bind
      fun _ => .done _
  | get =>
    exact ((StorageClient.get_leavesNodes _).imp Rpc.LeavesNodes.steady).bind fun _ => .done _
  | delete =>
    exact ((StorageClient.deleteObject_leavesNodes _).imp Rpc.LeavesNodes.steady).bind
      fun _ => .done _
  | repair =>
    exact ((RecoveryManager.repair_leavesNodes _ _ _).imp Rpc.LeavesNodes.steady).bind
      fun _ => .done _
  | heartbeat => exact .call h fun _ => .done _
  | other => exact Prog.Issues.bind h fun _ => .done _

/-- The nodes of the start are kept, with these counts. -/
def loadDiscipline (ι : Type) (start : MetadataStore) (counts : Str → UInt64) :
    Discipline (Cluster ι) where
  valid c := start.KeepsNodes c.metadata.store ∧ c.metadata.store.CountedBy counts
  grows _ _ := True
  refl _ := trivial
  trans _ _ := trivial

/-! ## Placement -/

variable {ι : Type} [DecidableEq ι] {svc : ClusterConfig} {reach : Str → Option ι}

theorem safeCall_steady {counts : Str → UInt64} {start : MetadataStore} {q : Rpc} {c : Cluster ι}
    (hq : q.Steady counts) :
    SafeCall (loadDiscipline ι start counts) (Cluster.Serves svc reach) q c :=
  fun _ _ _ hvalid _ hserves => ⟨⟨hvalid.1.trans (hserves.keepsNodes hq.isUnattended),
    hserves.countedBy hq hvalid.2⟩, trivial⟩

/-- Whatever is stored, the chunk counts in the registry stay the same.  So if as many nodes
online at the start as a request asks for have smaller counts than some node, least-used selection
never returns that node. -/
theorem placement_static {counts : Str → UInt64} {c : Cluster ι}
    (hcounts : c.metadata.store.CountedBy counts)
    {config : Lib.Remote.Config Rpc Rpc.Reply (Cluster ι)
      { chore : Chore // chore.Steady counts } Outcome}
    (h : c.Steady svc reach counts config) :
    config.state.metadata.store.CountedBy counts ∧
    ∀ req resp n',
      MetadataService.Serves svc (.selectNodes req) config.state.metadata resp n' →
      MetadataService.strategyOf svc req.strategy = .leastUsed →
      ∀ node ∈ resp.nodes,
        (c.metadata.store.nodes.onlineIds.filter fun id =>
          counts id < counts node.nodeId).card < req.count.toNat := by
  have hstart : (loadDiscipline ι c.metadata.store counts).valid c := ⟨.of_eq rfl, hcounts⟩
  have hsafe : SafeConfig (loadDiscipline ι c.metadata.store counts)
      (fun _ => Cluster.Serves svc reach) (fun _ _ _ => True) config := by
    refine Reachable.safe
      (fun chore _ _ => .of_issues (chore.2.issues.imp fun _ => safeCall_steady))
      (fun s s' hvalid hfails => ⟨?_, trivial⟩) hstart h
    show c.metadata.store.KeepsNodes s'.metadata.store ∧ s'.metadata.store.CountedBy counts
    rw [show s'.metadata = s.metadata from hfails]
    exact hvalid
  obtain ⟨hkeeps, hcounted⟩ : c.metadata.store.KeepsNodes config.state.metadata.store ∧
      config.state.metadata.store.CountedBy counts := hsafe.valid
  refine ⟨hcounted, fun req resp n' hserves hstrategy node hnode => ?_⟩
  refine lt_of_le_of_lt (Finset.card_le_card ?_)
    (hserves.selected_behind hstrategy hcounted node hnode)
  exact Finset.filter_subset_filter _ hkeeps.online

/-- Two nodes, of which the second was started with five chunks. -/
private def startedStore : MetadataStore :=
  { nodes := (NodeTable.empty.set { id := str "n1", online := true }).set
      { id := str "n2", online := true, chunkCount := 5 } }

private def startedCounts (id : Str) : UInt64 :=
  if id = str "n2" then 5 else 0

private theorem startedStore_countedBy : startedStore.CountedBy startedCounts := by
  intro id node hnode
  simp only [startedStore, NodeTable.find_set, NodeTable.find_empty] at hnode
  split at hnode
  · next hid =>
    cases hnode
    rw [hid]
    rfl
  · next hid =>
    split at hnode
    · cases hnode
      exact (if_neg hid).symm
    · cases hnode

/-- Its heartbeat, and an upload. -/
private def startedChores : Fin 2 → { chore : Chore // chore.Steady startedCounts }
  | 0 => ⟨.heartbeat { nodeId := str "n2" } 0 5, rfl⟩
  | 1 => ⟨.put {} (str "a.txt") [] (str "default"), trivial⟩

/-- The second node goes on sending heartbeats, a file is put, and the second node is not
selected. -/
theorem placement_static_two_nodes :
    ∃ (config : Lib.Remote.Config Rpc Rpc.Reply (Cluster Unit)
        { chore : Chore // chore.Steady startedCounts } Outcome),
      Cluster.Steady {} (fun _ => none) startedCounts
        ⟨{ store := startedStore }, fun _ => (ChunkStore.construct (str "/data") ∅ [], ∅)⟩
        config ∧
      config.running.length = 2 ∧
      ∀ resp n', MetadataService.Serves {} (.selectNodes { count := 1 }) config.state.metadata
        resp n' → ∀ node ∈ resp.nodes, node.nodeId ≠ str "n2" := by
  have hheartbeat : Runs (Cluster.Serves {} fun _ => (none : Option Unit))
      (startedChores 0).1.program
      ⟨{ store := startedStore }, fun _ => (ChunkStore.construct (str "/data") ∅ [], ∅)⟩ _ _ _ :=
    runs_rpc.mpr ⟨_, _, _, _, .answered (.metadata (.nodeHeartbeat _ _ 0)), .done _ _, rfl⟩
  obtain ⟨trace, outcome, hput, -⟩ := exists_runs_lost
    (Cluster.Serves {} fun _ => (none : Option Unit))
    (startedChores 1).1.program _
  have hrun : Cluster.Steady {} (fun _ => none) startedCounts
      ⟨{ store := startedStore }, fun _ => (ChunkStore.construct (str "/data") ∅ [], ∅)⟩ _ :=
    Reachable.run (Reachable.run .refl hheartbeat) hput
  obtain ⟨-, hbehind⟩ := placement_static startedStore_countedBy hrun
  refine ⟨_, hrun, rfl, fun resp n' hserves node hnode hid => ?_⟩
  have hfew := hbehind _ resp n' hserves (MetadataService.strategyOf_nil _) node hnode
  rw [hid] at hfew
  revert hfew
  decide

end StorageEngine
