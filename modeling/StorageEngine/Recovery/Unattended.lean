import StorageEngine.Client.DeleteRace
import StorageEngine.Client.Leaks
import StorageEngine.Integrity.System
import StorageEngine.Metadata.Selection
import StorageEngine.Recovery.Detection
import StorageEngine.Recovery.RepairPass

/-!
# The cluster without an operator

The metadata service takes a node for offline when it is told to, by `MarkNodeOffline` or by a
`TriggerRecovery` of the leader, and for known when it is told to, by `RegisterNode`.  Nothing
else in the program does either: no heartbeat is missed, and a heartbeat of an unknown node is
refused.

* `MetadataStore.KeepsNodes`: what the other calls do to the registry.
* `Chore` is what runs without an operator, and `Cluster.Unattended` are the runs, with any loss
  on the machines.
* `unattended`: no failure is noticed, and a registry that a restart has emptied stays empty.
-/

namespace StorageEngine

open Lib.Remote MetadataStore StorageClient

/-! ## The registry -/

theorem MetadataStore.isLive_iff {s : MetadataStore} {r : ReplicaInfo} :
    s.isLive r = true ↔ r.nodeId ∈ s.nodes.onlineIds := by
  rw [NodeTable.mem_onlineIds, MetadataStore.isLive]
  cases s.nodes.find r.nodeId <;> simp

/-- The same nodes are registered at the same addresses, and the online ones are online. -/
structure MetadataStore.KeepsNodes (s s' : MetadataStore) : Prop where
  addresses : ∀ id, (s'.nodes.find id).map NodeInfo.address =
    (s.nodes.find id).map NodeInfo.address
  online : s.nodes.onlineIds ⊆ s'.nodes.onlineIds

namespace MetadataStore.KeepsNodes

variable {s s' s'' : MetadataStore}

theorem of_eq (h : s'.nodes = s.nodes) : s.KeepsNodes s' := by
  refine ⟨fun id => ?_, ?_⟩
  · rw [h]
  · rw [h]

theorem trans (h : s.KeepsNodes s') (h' : s'.KeepsNodes s'') : s.KeepsNodes s'' :=
  ⟨fun id => (h'.addresses id).trans (h.addresses id), h.online.trans h'.online⟩

/-- A node that is known is set online, under its address. -/
theorem set {node known : NodeInfo} (hnodes : s'.nodes = s.nodes.set node)
    (hknown : s.nodes.find node.id = some known) (haddress : node.address = known.address)
    (honline : node.online = true) : s.KeepsNodes s' := by
  refine ⟨fun id => ?_, fun id hid => ?_⟩
  · rw [hnodes, NodeTable.find_set]
    split
    · next heq =>
      rw [heq, hknown, Option.map_some, Option.map_some, haddress]
    · rfl
  · rw [NodeTable.mem_onlineIds] at hid ⊢
    rw [hnodes, NodeTable.find_set]
    split
    · exact ⟨node, rfl, honline⟩
    · exact hid

/-- What counts as live goes on counting. -/
theorem isLive (h : s.KeepsNodes s') {r : ReplicaInfo} (hlive : s.isLive r = true) :
    s'.isLive r = true :=
  isLive_iff.mpr (h.online (isLive_iff.mp hlive))

/-- An empty registry stays empty. -/
theorem empty (h : s.KeepsNodes s') (hempty : s.nodes = .empty) (id : Str) :
    s'.nodes.find id = none := by
  have haddress := h.addresses id
  rw [hempty, NodeTable.find_empty, Option.map_none] at haddress
  exact Option.map_eq_none_iff.mp haddress

end MetadataStore.KeepsNodes

/-! ## The calls -/

/-- The call registers no node and takes none offline. -/
def Rpc.Unattended : Rpc → Prop
  | .metadata (.registerNode _) | .metadata (.markNodeOffline _) => False
  | _ => True

/-- What such a call does to the registry: nothing, or a node that is known is heard of. -/
theorem MetadataService.Serves.nodes_cases {cfg : ClusterConfig} {q : MetadataRpc}
    {n n' : MetadataNode} {r : q.Reply} (h : Serves cfg q n r n')
    (hq : Rpc.Unattended (.metadata q)) :
    n'.store.nodes = n.store.nodes ∨ ∃ req node now, q = .nodeHeartbeat req ∧
      n.store.nodes.find req.nodeId = some node ∧ n'.store.nodes = n.store.nodes.set
        { node with
          online := true
          freeBytes := req.freeBytes
          chunkCount := req.chunkCount
          lastHeartbeat := now } := by
  cases h with
  | createObject hdraws hnodup hfresh hcreate =>
    rcases (Serves.createObject hdraws hnodup hfresh hcreate).create_cases with
      ⟨-, hsame, -⟩ | ⟨obj, -, hcreated⟩
    · rw [hsame]
      exact .inl rfl
    · rw [hcreated.store]
      exact .inl rfl
  | deleteObject _ req =>
    rcases deleteObject_cases n.store req with heq | ⟨objectId, heq⟩
    · rw [heq]
      exact .inl rfl
    · rw [heq]
      exact .inl (deleteObject_nodes _ _)
  | locateObject => exact .inl rfl
  | updateChunk _ req now => exact .inl (updateChunk_nodes _ _ _ _)
  | registerNode => exact hq.elim
  | nodeHeartbeat _ req now =>
    rcases updateNodeHeartbeat_cases now n.store req.nodeId req.freeBytes req.chunkCount with
      heq | ⟨node, hknown, heq⟩
    · simp only [MetadataService.nodeHeartbeat, heq]
      exact .inl trivial
    · simp only [MetadataService.nodeHeartbeat, heq]
      exact .inr ⟨req, node, now, rfl, hknown, rfl⟩
  | selectNodes => exact .inl (selectNodes_nodes _ _ _ _)
  | markNodeOffline => exact hq.elim
  | getUnderReplicatedChunks => exact .inl rfl

theorem MetadataService.Serves.keepsNodes {cfg : ClusterConfig} {q : MetadataRpc}
    {n n' : MetadataNode} {r : q.Reply} (h : Serves cfg q n r n')
    (hq : Rpc.Unattended (.metadata q)) : n.store.KeepsNodes n'.store := by
  rcases h.nodes_cases hq with hsame | ⟨req, node, now, -, hknown, hset⟩
  · exact .of_eq hsame
  · have hself : n.store.nodes.find node.id = some node := by
      rw [NodeTable.find_id hknown]
      exact hknown
    exact .set hset hself rfl rfl

/-- Without nodes, none is selected. -/
theorem MetadataService.Serves.select_none {cfg : ClusterConfig} {req : SelectNodesRequest}
    {n n' : MetadataNode} {resp : SelectNodesResponse}
    (h : Serves cfg (.selectNodes req) n resp n') (hempty : ∀ id, n.store.nodes.find id = none) :
    resp.nodes = [] := by
  obtain ⟨order, horder, hnodes, -⟩ := h.select_nodes
  have hnone : n.store.nodes.onlineIds.card = 0 := by
    simp [Finset.eq_empty_iff_forall_notMem, NodeTable.mem_onlineIds, hempty]
  rw [hnodes, selectNodes_of_none_online horder hnone, List.map_nil]

variable {ι : Type} [DecidableEq ι] {svc : ClusterConfig} {reach : Str → Option ι}

theorem Cluster.Serves.keepsNodes {q : Rpc} {c c' : Cluster ι} {r : Option q.Reply}
    (h : Cluster.Serves svc reach q c r c') (hq : q.Unattended) :
    c.metadata.store.KeepsNodes c'.metadata.store := by
  cases h with
  | metadata h => exact h.keepsNodes hq
  | storage => exact .of_eq rfl

/-! ## The calls of the programs -/

/-- The call says nothing about a node. -/
def Rpc.LeavesNodes : Rpc → Prop
  | .metadata (.registerNode _) | .metadata (.nodeHeartbeat _)
  | .metadata (.markNodeOffline _) => False
  | _ => True

theorem Rpc.LeavesNodes.isUnattended (q : Rpc) (h : q.LeavesNodes) : q.Unattended := by
  cases q with
  | metadata q => cases q <;> first | exact h.elim | exact trivial
  | storage => exact trivial

theorem leavesNodes_of_putCalls {objectId : Str} (q : Rpc) (h : PutCalls objectId q) :
    q.LeavesNodes := by
  cases q with
  | metadata q => cases q <;> first | exact h.elim | exact trivial
  | storage => exact trivial

theorem leavesNodes_of_copies (q : Rpc) (h : RepairPass.Copies q) : q.LeavesNodes := by
  cases q with
  | metadata q => cases q <;> first | exact h.elim | exact trivial
  | storage => exact trivial

namespace StorageClient

/-- The calls of a put: the first one, and those for its chunks. -/
theorem put_issues {allowed : Rpc → Prop} {cfg : ClusterConfig} {filename owner : Str}
    {data : Bytes}
    (hcreate : allowed (.metadata (.createObject (createRequest cfg filename data owner))))
    (hcalls : ∀ objectId q, PutCalls objectId q → allowed q) :
    (put cfg filename data owner).Issues allowed := by
  refine .call hcreate fun r => ?_
  cases r with
  | none => exact .done _
  | some created =>
    simp only [Prog.bind]
    split
    · exact .done _
    · refine Prog.Issues.bind ((putChunks_issues _ _ _ _ _).imp (hcalls _)) fun failure => ?_
      cases failure <;> exact .done _

theorem put_leavesNodes (cfg : ClusterConfig) (filename : Str) (data : Bytes) (owner : Str) :
    (put cfg filename data owner).Issues Rpc.LeavesNodes :=
  put_issues trivial fun _ => leavesNodes_of_putCalls

theorem readChunkFromReplicas_issues {allowed : Rpc → Prop}
    (hread : ∀ address req, allowed (.storage address (.readChunk req))) (chunk : ChunkInfo)
    (reps : List ReplicaInfo) : (readChunkFromReplicas chunk reps).Issues allowed := by
  induction reps with
  | nil => exact .done _
  | cons rep reps ih =>
    refine .call (hread _ _) fun r => ?_
    cases r with
    | none => exact ih
    | some resp =>
      simp only [Prog.bind]
      split
      · exact ih
      · split
        · exact ih
        · exact .done _

theorem getChunks_issues {allowed : Rpc → Prop}
    (hread : ∀ address req, allowed (.storage address (.readChunk req)))
    (chunks : List ChunkMetadata) (data : Bytes) : (getChunks chunks data).Issues allowed := by
  induction chunks generalizing data with
  | nil => exact .done _
  | cons chunkPb chunks ih =>
    refine (readChunkFromReplicas_issues hread _ _).bind fun read => ?_
    cases read with
    | none => exact .done _
    | some chunkData => exact ih _

/-- A get locates the object, and reads. -/
theorem get_issues {allowed : Rpc → Prop} {filename : Str}
    (hlocate : allowed (.metadata (.locateObject { filename := filename })))
    (hread : ∀ address req, allowed (.storage address (.readChunk req))) :
    (get filename).Issues allowed := by
  refine .call hlocate fun r => ?_
  cases r with
  | none => exact .done _
  | some located =>
    simp only [Prog.bind]
    split
    · exact .done _
    · refine Prog.Issues.bind (getChunks_issues hread _ _) fun read => ?_
      obtain ⟨failure, data⟩ := read
      cases failure <;> exact .done _

theorem get_leavesNodes (filename : Str) : (get filename).Issues Rpc.LeavesNodes :=
  get_issues trivial fun _ _ => trivial

theorem deleteObject_leavesNodes (filename : Str) :
    (deleteObject filename).Issues Rpc.LeavesNodes := by
  refine (ClientCall.deleteObject_keeps filename).issues fun _ q hq => ?_
  cases q with
  | metadata q => cases q <;> first | exact hq.elim | exact trivial
  | storage => exact trivial

end StorageClient

namespace RecoveryManager

/-- The turns of a repair copy chunks and record them. -/
theorem repairChunks_issues {allowed : Rpc → Prop} (hcopies : ∀ q, RepairPass.Copies q → allowed q)
    (hupdate : ∀ req, allowed (.metadata (.updateChunk req))) (cfg : ClusterConfig)
    (m : ReplicationManager) (excludeNode : Str) (now : ℕ → TimestampMs)
    (chunks : List ChunkMetadata) (recovered : UInt32) :
    (repairChunks cfg m excludeNode now chunks recovered).Issues allowed := by
  induction chunks generalizing now recovered with
  | nil => exact .done _
  | cons pbChunk chunks ih =>
    refine Prog.Issues.bind ?_ fun ok => ih _ _
    refine Prog.Issues.bind ((RepairPass.fetchChunkFromReplica_issues _ _ _).imp hcopies)
      fun fetched => ?_
    cases fetched with
    | none => exact .done _
    | some data =>
      refine Prog.Issues.bind ((RepairPass.replicateChunk_issues _ _ _ _ _ _).imp hcopies)
        fun result => ?_
      split
      · exact .call (hupdate _) fun _ => .done _
      · exact .done _

theorem repair_leavesNodes (cfg : ClusterConfig) (m : ReplicationManager)
    (now : ℕ → TimestampMs) :
    (repairUnderReplicatedChunks cfg m now).Issues Rpc.LeavesNodes := by
  refine .call trivial fun r => ?_
  cases r with
  | none => exact .done _
  | some resp =>
    exact (repairChunks_issues leavesNodes_of_copies (fun _ => trivial) _ _ _ _ _ _).bind
      fun _ => .done _

end RecoveryManager

/-! ## What runs -/

/-- What runs when no operator registers nodes and none recovers a failed one. -/
inductive Chore where
  | put (cfg : ClusterConfig) (filename : Str) (data : Bytes) (owner : Str)
  | get (filename : Str)
  | delete (filename : Str)
  | repair (cfg : ClusterConfig) (m : ReplicationManager) (now : ℕ → TimestampMs)
  | heartbeat (m : HeartbeatManager) (freeBytes chunkCount : UInt64)
  | other (program : ClusterProg Unit) (hprogram : program.Issues Rpc.Unattended)

def Chore.program : Chore → ClusterProg Outcome
  | .put cfg filename data owner => do
    return .put (← StorageClient.put cfg filename data owner)
  | .get filename => do return .got (← StorageClient.get filename)
  | .delete filename => do
    let _ ← StorageClient.deleteObject filename
    return .reported
  | .repair cfg m now => do
    return .repaired (← RecoveryManager.repairUnderReplicatedChunks cfg m now)
  | .heartbeat m freeBytes chunkCount => do
    m.heartbeat freeBytes chunkCount
    return .reported
  | .other program _ => do
    program
    return .reported

/-- What happens to the machines: the storage nodes may lose anything. -/
def Cluster.Fails (c c' : Cluster ι) : Prop :=
  c'.metadata = c.metadata

/-- The configurations of the runs from a cluster. -/
def Cluster.Unattended (svc : ClusterConfig) (reach : Str → Option ι) (c : Cluster ι)
    (config : Lib.Remote.Config Rpc Rpc.Reply (Cluster ι) Chore Outcome) : Prop :=
  Reachable (fun _ => Cluster.Serves svc reach) Chore.program Cluster.Fails c config

/-! ## The rules -/

/-- The nodes of the start are kept. -/
def registryDiscipline (ι : Type) (start : MetadataStore) : Discipline (Cluster ι) where
  valid c := start.KeepsNodes c.metadata.store
  grows _ _ := True
  refl _ := trivial
  trans _ _ := trivial

namespace Chore

variable {start : MetadataStore} {α : Type} {c : Cluster ι}

/-- The program keeps the nodes, and its value satisfies `post`. -/
abbrev Keeps (svc : ClusterConfig) (reach : Str → Option ι) (start : MetadataStore)
    (post : α → Prop) (prog : ClusterProg α) (c : Cluster ι) : Prop :=
  Safe (registryDiscipline ι start) (Cluster.Serves svc reach) (fun a _ => post a) prog c

theorem safeCall {q : Rpc} (hq : q.Unattended) :
    SafeCall (registryDiscipline ι start) (Cluster.Serves svc reach) q c :=
  fun _ _ _ hkeeps _ hserves => ⟨hkeeps.trans (hserves.keepsNodes hq), trivial⟩

namespace Keeps

theorem value {post : α → Prop} {a : α} (hpost : post a) :
    Keeps svc reach start post (.done a) c :=
  .done fun _ _ _ => hpost

theorem call {q : Rpc} {f : Option q.Reply → ClusterProg α} {post : α → Prop}
    (hq : q.Unattended)
    (hnext : ∀ r c', start.KeepsNodes c'.metadata.store →
      (∀ resp, r = some resp → ∃ c₁ : Cluster ι, start.KeepsNodes c₁.metadata.store ∧
        Cluster.Serves svc reach q c₁ (some resp) c') → Keeps svc reach start post (f r) c') :
    Keeps svc reach start post (Prog.rpc q >>= f) c := by
  refine Safe.call (safeCall hq) (fun c₁ r c₂ hkeeps _ hserves => ?_)
    fun c₁ hkeeps _ => hnext none c₁ hkeeps fun resp hr => by cases hr
  refine hnext r c₂ (hkeeps.trans (hserves.keepsNodes hq)) fun resp hr => ?_
  subst hr
  exact ⟨c₁, hkeeps, hserves⟩

/-- The calls alone keep the nodes. -/
theorem of_issues {post : α → Prop} {prog : ClusterProg α} (h : prog.Issues Rpc.Unattended)
    (hpost : ∀ a, post a) : Keeps svc reach start post prog c :=
  (Safe.of_issues (h.imp fun _ hq => safeCall hq)).imp fun a _ _ => hpost a

end Keeps

/-! ## Put -/

/-- Without nodes, no chunk gets a replica. -/
theorem keeps_putChunk {cfg : ClusterConfig} {data : Bytes} {obj : ObjectMetadata}
    {chunkPb : ChunkMetadata} {offset : UInt64} (hempty : start.nodes = .empty)
    (hrequired : 0 < cfg.writeAck.required cfg.replicationFactor) :
    Keeps svc reach start (fun failure => failure ≠ none)
      (putChunk cfg data obj chunkPb offset) c := by
  refine Keeps.call trivial fun r c₁ _ hserved => ?_
  cases r with
  | none => exact Keeps.value (by simp)
  | some selected =>
    obtain ⟨c₀, hkeeps, hserves⟩ := hserved selected rfl
    obtain ⟨-, resp, hresp, hserves⟩ := hserves.metadata_cases
    cases hresp
    have hnone : selected.nodes = [] := hserves.select_none (hkeeps.empty hempty)
    have hfew : ({} : WriteProgress).successCount <
        cfg.writeAck.required cfg.replicationFactor := hrequired
    simp only [hnone, writeToNodes, Prog.pure_eq, Prog.done_bind, if_pos hfew]
    exact Keeps.call trivial fun _ _ _ _ => Keeps.value (by simp)

/-- The first chunk ends the upload. -/
theorem keeps_putChunks {cfg : ClusterConfig} {data : Bytes} {obj : ObjectMetadata}
    {chunks : List ChunkMetadata} {offset : UInt64} (hkeeps : start.KeepsNodes c.metadata.store)
    (hempty : start.nodes = .empty)
    (hrequired : 0 < cfg.writeAck.required cfg.replicationFactor) (hsome : chunks ≠ []) :
    Keeps svc reach start (fun failure => failure ≠ none)
      (putChunks cfg data obj chunks offset) c := by
  obtain ⟨chunkPb, rest, rfl⟩ := List.exists_cons_of_ne_nil hsome
  refine Safe.bind (keeps_putChunk hempty hrequired) hkeeps fun failure c₁ _ _ hfailure => ?_
  cases failure with
  | none => exact absurd rfl hfailure
  | some message => exact Keeps.value (by simp)

/-- Without nodes, every put fails. -/
theorem keeps_put {cfg : ClusterConfig} {filename : Str} {data : Bytes} {owner : Str} :
    Keeps svc reach start
      (fun result => start.nodes = .empty →
        0 < cfg.writeAck.required cfg.replicationFactor → result.success = false)
      (StorageClient.put cfg filename data owner) c := by
  by_cases hdead : start.nodes = .empty ∧ 0 < cfg.writeAck.required cfg.replicationFactor
  · refine Keeps.call trivial fun r c₁ hkeeps₁ hserved => ?_
    cases r with
    | none => exact Keeps.value fun _ _ => rfl
    | some created =>
      dsimp only
      split
      · exact Keeps.value fun _ _ => rfl
      · next hsuccess =>
        obtain ⟨c₀, -, hserves⟩ := hserved created rfl
        obtain ⟨-, resp, hresp, hserves⟩ := hserves.metadata_cases
        cases hresp
        rcases hserves.create_cases with ⟨hfailed, -⟩ | ⟨obj, hcreated, hobject⟩
        · exact absurd hfailed hsuccess
        have hchunks : created.object.chunks ≠ [] := by
          rw [hcreated]
          exact fun hnil => hobject.nonempty (List.map_eq_nil_iff.mp hnil)
        refine Safe.bind (keeps_putChunks hkeeps₁ hdead.1 hdead.2 hchunks) hkeeps₁
          fun failure c₂ _ _ hfailure => ?_
        cases failure with
        | none => exact absurd rfl hfailure
        | some message => exact Keeps.value fun _ _ => rfl
  · exact Keeps.of_issues ((put_leavesNodes _ _ _ _).imp Rpc.LeavesNodes.isUnattended)
      fun result hempty hrequired => absurd ⟨hempty, hrequired⟩ hdead

/-! ## Repair -/

section Repair

variable {cfg : ClusterConfig} {m : ReplicationManager}

/-- Without nodes, no chunk is replicated. -/
theorem keeps_replicateChunk {now : TimestampMs} {chunk : ChunkInfo} {data : Bytes}
    {replicationFactor : UInt32} {ackPolicy : WriteAckPolicy} :
    Keeps svc reach start (fun result => start.nodes = .empty → result.success = false)
      (m.replicateChunk now chunk data replicationFactor ackPolicy) c := by
  refine Keeps.call trivial fun r c₁ _ hserved => ?_
  cases r with
  | none => exact Keeps.value fun _ => rfl
  | some selected =>
    dsimp only
    split
    · exact Keeps.value fun _ => rfl
    · next hsome =>
      refine Keeps.of_issues (.bind ((RepairPass.writeToNodes_places
        (RepairPass.writeToSelected_places m _ data) _ _).imp fun q hq =>
          (leavesNodes_of_copies q hq.copies).isUnattended) fun p => .done _)
        fun result hempty => ?_
      obtain ⟨c₀, hkeeps, hserves⟩ := hserved selected rfl
      obtain ⟨-, resp, hresp, hserves⟩ := hserves.metadata_cases
      cases hresp
      exact absurd (hserves.select_none (hkeeps.empty hempty)) hsome

theorem keeps_repairChunk {now : TimestampMs} {excludeNode : Str} {chunk : ChunkInfo}
    (hkeeps : start.KeepsNodes c.metadata.store) :
    Keeps svc reach start (fun ok => start.nodes = .empty → ok = false)
      (RecoveryManager.repairChunk cfg m now excludeNode chunk) c := by
  have hfetch : Keeps svc reach start (fun _ => True)
      (RecoveryManager.fetchChunkFromReplica chunk excludeNode chunk.replicas) c :=
    Keeps.of_issues ((RepairPass.fetchChunkFromReplica_issues _ _ _).imp fun q hq =>
      (leavesNodes_of_copies q hq).isUnattended) fun _ => trivial
  refine Safe.bind hfetch hkeeps fun fetched c₁ hkeeps₁ _ _ => ?_
  cases fetched with
  | none => exact Keeps.value fun _ => rfl
  | some data =>
    refine Safe.bind keeps_replicateChunk hkeeps₁ fun result c₂ _ _ hresult => ?_
    split
    · next hsuccess =>
      refine Keeps.call trivial fun _ _ _ _ => Keeps.value fun hempty => ?_
      rw [hresult hempty] at hsuccess
      cases hsuccess
    · exact Keeps.value fun _ => rfl

theorem keeps_repairChunks {excludeNode : Str} {now : ℕ → TimestampMs}
    (hkeeps : start.KeepsNodes c.metadata.store) {chunks : List ChunkMetadata}
    {recovered : UInt32} :
    Keeps svc reach start (fun recovered' => start.nodes = .empty → recovered' = recovered)
      (RecoveryManager.repairChunks cfg m excludeNode now chunks recovered) c := by
  induction chunks generalizing c now recovered with
  | nil => exact Keeps.value fun _ => rfl
  | cons pbChunk chunks ih =>
    refine Safe.bind (keeps_repairChunk hkeeps) hkeeps fun ok c₁ hkeeps₁ _ hok => ?_
    refine Safe.imp (ih hkeeps₁) fun recovered' _ hrecovered hempty => ?_
    rw [hrecovered hempty, hok hempty]
    rfl

/-- Without nodes, no chunk is recovered. -/
theorem keeps_repair {now : ℕ → TimestampMs} :
    Keeps svc reach start (fun result => start.nodes = .empty → result.chunksRecovered = 0)
      (RecoveryManager.repairUnderReplicatedChunks cfg m now) c := by
  refine Keeps.call trivial fun r c₁ hkeeps₁ _ => ?_
  cases r with
  | none => exact Keeps.value fun _ => rfl
  | some resp =>
    refine Safe.bind (keeps_repairChunks hkeeps₁) hkeeps₁ fun recovered c₂ _ _ hrecovered => ?_
    exact Keeps.value hrecovered

end Repair

/-! ## Every chore -/

/-- What a chore returns when no node was registered at the start. -/
def Post (start : MetadataStore) : Chore → Outcome → Prop
  | .put cfg _ _ _, .put result => start.nodes = .empty →
    0 < cfg.writeAck.required cfg.replicationFactor → result.success = false
  | .repair _ _ _, .repaired result => start.nodes = .empty → result.chunksRecovered = 0
  | _, _ => True

theorem keeps (chore : Chore) (hkeeps : start.KeepsNodes c.metadata.store) :
    Keeps svc reach start (chore.Post start) chore.program c := by
  cases chore with
  | put cfg filename data owner =>
    exact Safe.bind keeps_put hkeeps fun _ _ _ _ hresult => Keeps.value hresult
  | get filename =>
    exact Keeps.of_issues (((get_leavesNodes filename).imp
      Rpc.LeavesNodes.isUnattended).bind fun _ => .done _) fun _ => trivial
  | delete filename =>
    exact Keeps.of_issues (((deleteObject_leavesNodes filename).imp
      Rpc.LeavesNodes.isUnattended).bind fun _ => .done _) fun _ => trivial
  | repair cfg m now =>
    exact Safe.bind keeps_repair hkeeps fun _ _ _ _ hresult => Keeps.value hresult
  | heartbeat m freeBytes chunkCount =>
    exact Keeps.call trivial fun _ _ _ _ => Keeps.value trivial
  | other program hprogram =>
    exact Keeps.of_issues (hprogram.bind fun _ => .done _) fun _ => trivial

end Chore

/-! ## No failure is noticed -/

/-- Whatever the machines lose: the registered nodes are the same, and the online ones are
online.  So no chunk is ever reported that has enough entries for nodes online at the start,
and if no node was registered then, no put succeeds and no chunk is recovered. -/
theorem unattended {c : Cluster ι}
    {config : Lib.Remote.Config Rpc Rpc.Reply (Cluster ι) Chore Outcome}
    (h : c.Unattended svc reach config) :
    c.metadata.store.KeepsNodes config.state.metadata.store ∧
    (∀ resp n', MetadataService.Serves svc .getUnderReplicatedChunks config.state.metadata
      resp n' → ∀ chunk ∈ resp.chunks,
        chunk.fromProto.replicas.countP c.metadata.store.isLive <
          svc.replicationFactor.toNat) ∧
    (c.metadata.store.nodes = .empty →
      (∀ cfg filename data owner result,
        (.put cfg filename data owner, .done (.put result)) ∈ config.running →
          0 < cfg.writeAck.required cfg.replicationFactor → result.success = false) ∧
      ∀ cfg m now result, (.repair cfg m now, .done (.repaired result)) ∈ config.running →
        result.chunksRecovered = 0) := by
  have hsafe : SafeConfig (registryDiscipline ι c.metadata.store)
      (fun _ => Cluster.Serves svc reach)
      (fun chore outcome _ => chore.Post c.metadata.store outcome) config := by
    refine Reachable.safe (fun chore _ hkeeps => chore.keeps hkeeps)
      (fun s s' hkeeps hfails => ⟨?_, trivial⟩) (KeepsNodes.of_eq rfl) h
    show c.metadata.store.KeepsNodes s'.metadata.store
    rw [show s'.metadata = s.metadata from hfails]
    exact hkeeps
  have hkeeps : c.metadata.store.KeepsNodes config.state.metadata.store := hsafe.valid
  refine ⟨hkeeps, fun resp n' hserves chunk hchunk => ?_, fun hempty => ⟨?_, ?_⟩⟩
  · obtain ⟨obj, info, -, hfew, rfl⟩ := hserves.mem_reported.mp hchunk
    rw [ChunkInfo.fromProto_toProto]
    refine lt_of_le_of_lt (List.countP_mono_left fun r _ hlive => ?_) hfew
    exact hkeeps.isLive hlive
  · exact fun cfg filename data owner result hdone => hsafe.post_of_done hdone hempty
  · exact fun cfg m now result hdone => hsafe.post_of_done hdone hempty

/-- The metadata node has restarted.  A node that it has forgotten goes on sending heartbeats,
and an upload fails. -/
theorem unattended_restarted :
    ∃ (config : Lib.Remote.Config Rpc Rpc.Reply (Cluster Unit) Chore Outcome)
      (result : PutResult), Cluster.Unattended {} (fun _ => none)
        ⟨{}, fun _ => (ChunkStore.construct (str "/data") ∅ [], ∅)⟩ config ∧
      (.heartbeat { nodeId := str "n1" } 0 0, .done .reported) ∈ config.running ∧
      (.put {} (str "a.txt") [] (str "default"), .done (.put result)) ∈ config.running ∧
      config.state.metadata.store.nodes.find (str "n1") = none ∧ result.success = false := by
  have hvisits : NodeTable.empty.Visits [] := ⟨List.nodup_nil, fun node => by simp⟩
  have hpossible : NodeOrder.Possible
      (emptyCreated {} {} (str "a.txt") (str "default") {}).store
      (MetadataService.strategyOf {} []) {} :=
    ⟨hvisits, List.Perm.refl _, fun _ => List.Pairwise.nil⟩
  have hturn : Runs (Cluster.Serves {} fun _ => (none : Option Unit))
      (putChunk {} [] (emptyObject {} {} (str "a.txt") (str "default")).toProto
        { chunkId := draw 1, objectId := draw 0, version := 1 } 0)
      ⟨emptyCreated {} {} (str "a.txt") (str "default") {},
        fun _ => (ChunkStore.construct (str "/data") ∅ [], ∅)⟩ _ _ _ :=
    putChunk_runs_delete (.metadata (.selectNodes hpossible)) (.done _ _) (by decide)
      (.answered (.metadata (.deleteObject _ _)))
  have hput : Runs (Cluster.Serves {} fun _ => none)
      (Chore.put {} (str "a.txt") [] (str "default")).program _ _ _ _ :=
    runs_bind.mpr ⟨_, _, _, _, put_empty_runs Finmap.notMem_empty hturn, .done _ _, rfl⟩
  have hheartbeat : Runs (Cluster.Serves {} fun _ => (none : Option Unit))
      (Chore.heartbeat { nodeId := str "n1" } 0 0).program
      ⟨{}, fun _ => (ChunkStore.construct (str "/data") ∅ [], ∅)⟩ _ _ _ :=
    runs_rpc.mpr ⟨_, _, _, _, .answered (.metadata (.nodeHeartbeat {} _ 0)), .done _ _, rfl⟩
  have hrun : Cluster.Unattended {} (fun _ => none)
      ⟨{}, fun _ => (ChunkStore.construct (str "/data") ∅ [], ∅)⟩ _ :=
    Reachable.run (Reachable.run .refl hheartbeat) hput
  obtain ⟨hkeeps, -, hforgotten⟩ := unattended hrun
  refine ⟨_, _, hrun, List.mem_cons_of_mem _ List.mem_cons_self, List.mem_cons_self,
    hkeeps.empty rfl _, ?_⟩
  exact (hforgotten rfl).1 _ _ _ _ _ List.mem_cons_self (by decide)

end StorageEngine
