import StorageEngine.FileMap.Refinement
import StorageEngine.Recovery.Unattended

/-!
# Which settings of the metadata node matter

The metadata node has a configuration of its own, and so has every client.

* `Rpc.SameUnder`: two configurations of the metadata node make no difference to a call.
* `settings_unseen`: of two that select nodes alike, clients and nodes cannot tell which one the
  metadata node has.  Only a repair sees the replication factor too.
-/

namespace StorageEngine

open Lib.Remote MetadataService StorageClient

/-! ## Calls -/

/-- The two configurations of the metadata node make no difference to the call. -/
def Rpc.SameUnder (svc svc' : ClusterConfig) : Rpc → Prop
  | .metadata (.createObject req) =>
    (req.chunkSizeMb = 0 → svc.chunkSizeMb = svc'.chunkSizeMb) ∧
      (req.replicationFactor = 0 → svc.replicationFactor = svc'.replicationFactor)
  | .metadata (.selectNodes _) => svc.loadBalance = svc'.loadBalance
  | .metadata .getUnderReplicatedChunks => svc.replicationFactor = svc'.replicationFactor
  | _ => True

variable {svc svc' : ClusterConfig}

theorem Rpc.SameUnder.symm {q : Rpc} (h : q.SameUnder svc svc') : q.SameUnder svc' svc := by
  cases q with
  | storage => exact trivial
  | metadata q =>
    cases q with
    | createObject req => exact ⟨fun hzero => (h.1 hzero).symm, fun hzero => (h.2 hzero).symm⟩
    | selectNodes => exact Eq.symm h
    | getUnderReplicatedChunks => exact Eq.symm h
    | _ => exact trivial

/-- A request that leaves no setting open is planned alike. -/
theorem MetadataService.createObject_congr {req : CreateObjectRequest}
    (h : Rpc.SameUnder svc svc' (.metadata (.createObject req))) (uuid : ℕ → Str)
    (now : TimestampMs) (s : MetadataStore) :
    createObject svc uuid now s req = createObject svc' uuid now s req := by
  have hchunk : (if req.chunkSizeMb > 0 then req.chunkSizeMb else svc.chunkSizeMb) =
      if req.chunkSizeMb > 0 then req.chunkSizeMb else svc'.chunkSizeMb := by
    split
    · rfl
    · next hzero => exact h.1 (by simpa using hzero)
  have hfactor : (if req.replicationFactor > 0 then req.replicationFactor
      else svc.replicationFactor) =
      if req.replicationFactor > 0 then req.replicationFactor else svc'.replicationFactor := by
    split
    · rfl
    · next hzero => exact h.2 (by simpa using hzero)
  simp only [createObject, hchunk, hfactor]

theorem MetadataService.strategyOf_congr (h : svc.loadBalance = svc'.loadBalance) (name : Str) :
    strategyOf svc name = strategyOf svc' name := by
  rw [strategyOf, strategyOf, h]

/-- Such a call is served alike. -/
theorem MetadataService.Serves.same {q : MetadataRpc} {n n' : MetadataNode} {r : q.Reply}
    (hserves : Serves svc q n r n') (h : Rpc.SameUnder svc svc' (.metadata q)) :
    Serves svc' q n r n' := by
  cases hserves with
  | createObject hdraws hnodup hfresh hcreate =>
    rw [createObject_congr h] at hcreate
    exact .createObject hdraws hnodup hfresh hcreate
  | deleteObject _ req => exact .deleteObject n req
  | locateObject _ req => exact .locateObject n req
  | updateChunk _ req now => exact .updateChunk n req now
  | registerNode _ req now => exact .registerNode n req now
  | nodeHeartbeat _ req now => exact .nodeHeartbeat n req now
  | @selectNodes _ req order horder =>
    have hstrategy := strategyOf_congr h req.strategy
    rw [hstrategy] at horder
    rw [MetadataService.selectNodes, hstrategy]
    exact .selectNodes horder
  | markNodeOffline _ req => exact .markNodeOffline n req
  | @getUnderReplicatedChunks _ visited hvisited =>
    have hfactor : svc.replicationFactor = svc'.replicationFactor := h
    rw [MetadataService.getUnderReplicatedChunks, hfactor]
    exact .getUnderReplicatedChunks hvisited

variable {ι : Type} [DecidableEq ι] {reach : Str → Option ι}

theorem Cluster.Serves.same {q : Rpc} {c c' : Cluster ι} {r : Option q.Reply}
    (hserves : Cluster.Serves svc reach q c r c') (h : q.SameUnder svc svc') :
    Cluster.Serves svc' reach q c r c' := by
  cases hserves with
  | metadata hserves => exact .metadata (hserves.same h)
  | storage hi hserves => exact .storage hi hserves

theorem Cluster.serves_congr {q : Rpc} {c c' : Cluster ι} {r : Option q.Reply}
    (h : q.SameUnder svc svc') :
    Cluster.Serves svc reach q c r c' ↔ Cluster.Serves svc' reach q c r c' :=
  ⟨fun hserves => hserves.same h, fun hserves => hserves.same h.symm⟩

/-! ## What runs -/

/-- What clients and nodes run. -/
inductive Job where
  | put (cfg : ClusterConfig) (filename : Str) (data : Bytes) (owner : Str)
  | get (filename : Str)
  | head (filename : Str)
  | delete (filename : Str)
  | register (m : HeartbeatManager) (address : Str) (totalBytes : UInt64)
  | heartbeat (m : HeartbeatManager) (freeBytes chunkCount : UInt64)
  | repair (pass : RepairPass)

namespace Job

/-- What a job returns. -/
inductive Result where
  | put (result : PutResult)
  | got (result : GetResult)
  | head (info : Option ObjectInfo)
  | deleted (ok : Bool)
  | repaired (result : RecoveryManager.RecoveryResult)
  | reported

def program : Job → ClusterProg Result
  | .put cfg filename data owner => do
    return .put (← StorageClient.put cfg filename data owner)
  | .get filename => do return .got (← StorageClient.get filename)
  | .head filename => do return .head (← StorageClient.head filename)
  | .delete filename => do return .deleted (← StorageClient.deleteObject filename)
  | .register m address totalBytes => do
    m.registerWithMetadata address totalBytes
    return .reported
  | .heartbeat m freeBytes chunkCount => do
    m.heartbeat freeBytes chunkCount
    return .reported
  | .repair pass => do return .repaired (← pass.program)

/-- A client asks for a replication factor and a chunk size.  A repair asks which chunks have too
few replicas. -/
def SameUnder (svc svc' : ClusterConfig) : Job → Prop
  | .put cfg _ _ _ => cfg.replicationFactor ≠ 0 ∧ cfg.chunkSizeMb ≠ 0
  | .repair _ => svc.replicationFactor = svc'.replicationFactor
  | _ => True

theorem SameUnder.symm {a : Job} (h : a.SameUnder svc svc') : a.SameUnder svc' svc := by
  cases a with
  | put => exact h
  | repair => exact Eq.symm h
  | _ => exact trivial

theorem SameUnder.issues {a : Job} (h : a.SameUnder svc svc')
    (hbalance : svc.loadBalance = svc'.loadBalance) :
    a.program.Issues (Rpc.SameUnder svc svc') := by
  have hputs : ∀ objectId q, PutCalls objectId q → q.SameUnder svc svc' := by
    intro objectId q hq
    cases q with
    | metadata q =>
      cases q with
      | selectNodes => exact hbalance
      | _ => first | exact hq.elim | exact trivial
    | storage => exact trivial
  have hcopies : ∀ q, RepairPass.Copies q → q.SameUnder svc svc' := by
    intro q hq
    cases q with
    | metadata q =>
      cases q with
      | selectNodes => exact hbalance
      | _ => exact hq.elim
    | storage => exact trivial
  cases a with
  | put cfg filename data owner =>
    have hcreate : Rpc.SameUnder svc svc'
        (.metadata (.createObject (createRequest cfg filename data owner))) :=
      ⟨fun hzero => absurd hzero h.2, fun hzero => absurd hzero h.1⟩
    exact (put_issues hcreate hputs).bind fun _ => .done _
  | get => exact (get_issues trivial fun _ _ => trivial).bind fun _ => .done _
  | head =>
    refine Prog.Issues.bind (.call trivial fun r => ?_) fun _ => .done _
    cases r with
    | none => exact .done _
    | some located =>
      simp only [Prog.bind]
      split <;> exact .done _
  | delete filename =>
    refine Prog.Issues.bind ((ClientCall.deleteObject_keeps filename).issues fun _ q hq => ?_)
      fun _ => .done _
    cases q with
    | metadata q => cases q <;> first | exact hq.elim | exact trivial
    | storage => exact trivial
  | register => exact .call trivial fun _ => .done _
  | heartbeat => exact .call trivial fun _ => .done _
  | repair pass =>
    have hturns := RecoveryManager.repairChunks_issues hcopies fun _ => trivial
    refine Prog.Issues.bind ?_ fun _ => .done _
    rw [RepairPass.program]
    cases pass.failedNodeId with
    | none =>
      refine .call h fun r => ?_
      cases r with
      | none => exact .done _
      | some resp => exact (hturns _ _ _ _ _ _).bind fun _ => .done _
    | some failedNodeId =>
      exact .call trivial fun _ => .call h fun _ => (hturns _ _ _ _ _ _).bind fun _ => .done _

end Job

/-- Of two configurations of the metadata node that select nodes alike, no interleaving tells which
one it has: uploads whose clients ask for a factor and a chunk size, downloads, lookups, deletions,
heartbeats and, if the factors are the same, repairs run and return alike. -/
theorem settings_unseen {svc svc' : ClusterConfig} (hbalance : svc.loadBalance = svc'.loadBalance)
    {reach : Str → Option ι} {changes : Cluster ι → Cluster ι → Prop} {c : Cluster ι}
    {config : Lib.Remote.Config Rpc Rpc.Reply (Cluster ι)
      { a : Job // a.SameUnder svc svc' } Job.Result} :
    Reachable (fun _ => Cluster.Serves svc reach) (fun a => a.1.program) changes c config ↔
      Reachable (fun _ => Cluster.Serves svc' reach) (fun a => a.1.program) changes c config := by
  exact reachable_congr (fun a => a.2.issues hbalance) Cluster.serves_congr

/-- Five replicas, which must all be written. -/
private def fiveReplicas : ClusterConfig :=
  { replicationFactor := 5, writeAck := .all }

private abbrev AnyFactor := { a : Job // a.SameUnder {} fiveReplicas }

/-- Although the metadata node is set to five replicas, a client that asks for one puts a file on
one node. -/
theorem settings_unseen_one_node :
    ∃ (a : AnyFactor) (config : Lib.Remote.Config Rpc Rpc.Reply (Cluster Unit) AnyFactor
        Job.Result),
      Reachable (fun _ => Cluster.Serves fiveReplicas fun _ => some ()) (fun a => a.1.program)
        (fun _ _ => False)
        ⟨{ store := oneNodeStore }, fun _ => (ChunkStore.construct (str "/data") ∅ [], ∅)⟩ config ∧
      config.running = [(a, .done (.put
        { success := true, objectId := draw 0, message := str "Upload complete" }))] := by
  obtain ⟨trace, c', hput, -⟩ := @put_empty_answered Unit _ _ _ _ (str "a.txt")
    (str "default") _ (fun _ => (ChunkStore.construct (str "/data") ∅ [], ∅)) Finmap.notMem_empty
    _ _ oneNode_upload
  let a : AnyFactor := ⟨.put { replicationFactor := 1 } (str "a.txt") [] (str "default"),
    ⟨by decide, by decide⟩⟩
  have hrun : Runs (Cluster.Serves {} fun _ => some ()) a.1.program _ _ _ _ :=
    runs_bind.mpr ⟨_, c', trace, [], hput, .done _ _, rfl⟩
  have hreached := (@settings_unseen Unit _ {} fiveReplicas rfl _ (fun _ _ => False) _ _).mp
    (@Reachable.run _ _ _ _ _ _ _ _ _ _ .refl a _ _ _ hrun)
  exact ⟨a, _, hreached, rfl⟩

end StorageEngine
