import StorageEngine.Lib.Interleaving
import StorageEngine.Recovery.RecoveryManager

/-!
# Repair passes

The two passes of a recovery manager as one type, and the calls that a pass makes:
`RepairPass.keeps`.  A pass updates only chunks that a scan has reported to it.
-/

namespace StorageEngine

open Lib.Remote RecoveryManager

/-- One pass: `recover_failed_node` for a failed node, and
`repair_under_replicated_chunks` for none. -/
structure RepairPass where
  cfg : ClusterConfig
  manager : ReplicationManager
  now : ℕ → TimestampMs
  failedNodeId : Option Str := none

namespace RepairPass

def program (pass : RepairPass) : ClusterProg RecoveryResult :=
  match pass.failedNodeId with
  | none => repairUnderReplicatedChunks pass.cfg pass.manager pass.now
  | some failedNodeId => recoverFailedNode pass.cfg pass.manager pass.now failedNodeId

/-- The node that a pass does not read from. -/
def excludeNode (pass : RepairPass) : Str :=
  pass.failedNodeId.getD []

/-! ## The calls of a pass -/

/-- The chunk is in a response to a scan. -/
def Reported (history : List (Event Rpc Rpc.Reply)) (pb : ChunkMetadata) : Prop :=
  ∃ fate resp, ⟨.metadata .getUnderReplicatedChunks, fate, some resp⟩ ∈ history ∧
    pb ∈ resp.chunks

/-- A pass creates and deletes no object and no chunk, and updates chunks of a scan that
it has made. -/
def Rule (history : List (Event Rpc Rpc.Reply)) : Rpc → Prop
  | .metadata (.updateChunk req) =>
    ∃ pb replicas, Reported history pb ∧ req = updateRequest pb.fromProto replicas
  | .metadata (.createObject _) | .metadata (.deleteObject _) => False
  | .storage _ (.deleteChunk _) => False
  | _ => True

/-- The calls that copy a chunk: reads, the selection of nodes, and writes. -/
def Copies : Rpc → Prop
  | .metadata (.selectNodes _) => True
  | .storage _ (.readChunk _) | .storage _ (.writeChunk _) => True
  | .storage _ (.replicateChunk _) => True
  | _ => False

theorem Copies.rule (history : List (Event Rpc Rpc.Reply)) (q : Rpc) (h : Copies q) :
    Rule history q := by
  cases q with
  | metadata q => cases q <;> first | exact h.elim | exact trivial
  | storage address q => cases q <;> first | exact h.elim | exact trivial

/-- The calls that put the bytes of a chunk on nodes. -/
def Places : Rpc → Prop
  | .metadata (.selectNodes _) => True
  | .storage _ (.writeChunk _) => True
  | .storage _ (.replicateChunk _) => True
  | _ => False

theorem Places.copies (q : Rpc) (h : Places q) : Copies q := by
  cases q with
  | metadata q => cases q <;> first | exact h.elim | exact trivial
  | storage address q => cases q <;> first | exact h.elim | exact trivial

theorem Reported.mono {history later : List (Event Rpc Rpc.Reply)} {pb : ChunkMetadata}
    (h : Reported history pb) : Reported (history ++ later) pb := by
  obtain ⟨fate, resp, hmem, hpb⟩ := h
  exact ⟨fate, resp, List.mem_append_left _ hmem, hpb⟩

theorem fetchChunkFromReplica_issues (chunk : ChunkInfo) (excludeNode : Str)
    (replicas : List ReplicaInfo) :
    (fetchChunkFromReplica chunk excludeNode replicas).Issues Copies := by
  induction replicas with
  | nil => exact .done _
  | cons rep reps ih =>
    rw [fetchChunkFromReplica]
    split
    · exact ih
    · refine .bind (.call trivial fun r => ?_) fun data => ?_
      · cases r <;> exact .done _
      · cases data with
        | none => exact ih
        | some data => exact .done _

theorem writeToSelected_places (m : ReplicationManager) (header : ChunkHeaderData)
    (data : Bytes) (node : ClusterNodeInfo) :
    (m.writeToSelected header data node).Issues Places := by
  rw [ReplicationManager.writeToSelected]
  split
  · exact .call trivial fun r => .done _
  · exact .call trivial fun r => .done _

theorem writeToNodes_places {write : ClusterNodeInfo → ClusterProg Bool} {version : UInt32}
    (hwrite : ∀ node, (write node).Issues Places) (nodes : List ClusterNodeInfo)
    (p : WriteProgress) : (writeToNodes write version nodes p).Issues Places := by
  induction nodes generalizing p with
  | nil => exact .done p
  | cons node nodes ih => exact .bind (hwrite node) fun ok => ih _

theorem replicateChunk_places (m : ReplicationManager) (now : TimestampMs) (chunk : ChunkInfo)
    (data : Bytes) (replicationFactor : UInt32) (ackPolicy : WriteAckPolicy) :
    (m.replicateChunk now chunk data replicationFactor ackPolicy).Issues Places := by
  refine .bind (.call trivial fun r => .done r) fun r => ?_
  cases r with
  | none => exact .done _
  | some selected =>
    dsimp only
    split
    · exact .done _
    · exact .bind (writeToNodes_places (writeToSelected_places m _ data) _ _) fun p => .done _

theorem replicateChunk_issues (m : ReplicationManager) (now : TimestampMs) (chunk : ChunkInfo)
    (data : Bytes) (replicationFactor : UInt32) (ackPolicy : WriteAckPolicy) :
    (m.replicateChunk now chunk data replicationFactor ackPolicy).Issues Copies :=
  (replicateChunk_places _ _ _ _ _ _).imp Places.copies

theorem repairChunk_keeps {history : List (Event Rpc Rpc.Reply)} {pb : ChunkMetadata}
    (hreported : Reported history pb) (cfg : ClusterConfig) (m : ReplicationManager)
    (now : TimestampMs) (excludeNode : Str) :
    (repairChunk cfg m now excludeNode pb.fromProto).Keeps Rule (fun _ _ => True) history := by
  refine ((fetchChunkFromReplica_issues _ _ _).keeps Copies.rule history).bind
    fun data later _ => ?_
  cases data with
  | none => exact .done trivial
  | some data =>
    refine ((replicateChunk_issues _ _ _ _ _ _).keeps Copies.rule _).bind fun result later' _ => ?_
    split
    · refine .call ⟨pb, result.replicas, hreported.mono.mono, rfl⟩ fun fate r => .done trivial
    · exact .done trivial

section Keeps

variable {pass : RepairPass} {rule : List (Event Rpc Rpc.Reply) → Rpc → Prop}

theorem repairChunks_keeps
    (hturn : ∀ history pb now excludeNode, Reported history pb →
      (repairChunk pass.cfg pass.manager now excludeNode pb.fromProto).Keeps rule
        (fun _ _ => True) history)
    {history : List (Event Rpc Rpc.Reply)} {chunks : List ChunkMetadata}
    (hreported : ∀ pb ∈ chunks, Reported history pb) (excludeNode : Str)
    (now : ℕ → TimestampMs) (recovered : UInt32) :
    (repairChunks pass.cfg pass.manager excludeNode now chunks recovered).Keeps rule
      (fun _ _ => True) history := by
  induction chunks generalizing history now recovered with
  | nil => exact .done trivial
  | cons pb rest ih =>
    refine (hturn history pb _ _ (hreported pb List.mem_cons_self)).bind
      fun ok later _ => ih (fun pb' hpb' => ?_) _ _
    exact (hreported pb' (List.mem_cons_of_mem _ hpb')).mono

/-- A pass keeps a rule that allows its start, and that its turns for reported chunks keep. -/
theorem program_keeps
    (hmark : ∀ history req, rule history (.metadata (.markNodeOffline req)))
    (hscan : ∀ history, rule history (.metadata .getUnderReplicatedChunks))
    (hturn : ∀ history pb now excludeNode, Reported history pb →
      (repairChunk pass.cfg pass.manager now excludeNode pb.fromProto).Keeps rule
        (fun _ _ => True) history) :
    pass.program.Keeps rule (fun _ _ => True) [] := by
  have hreported : ∀ (history : List (Event Rpc Rpc.Reply)) fate
      (resp : GetUnderReplicatedChunksResponse), ∀ pb ∈ resp.chunks,
      Reported (history ++ [⟨.metadata .getUnderReplicatedChunks, fate, some resp⟩]) pb :=
    fun history fate resp pb hpb =>
      ⟨fate, resp, List.mem_append_right _ (List.mem_singleton_self _), hpb⟩
  rw [program]
  cases pass.failedNodeId with
  | none =>
    refine .call (hscan _) fun fate r => ?_
    cases r with
    | none => exact .done trivial
    | some resp =>
      exact (repairChunks_keeps hturn (hreported _ fate resp) _ _ _).bind
        fun _ _ _ => .done trivial
  | some failedNodeId =>
    refine .call (hmark _ _) fun _ _ => .call (hscan _) fun fate r => ?_
    cases r with
    | none => exact (repairChunks_keeps hturn (by simp) _ _ _).bind fun _ _ _ => .done trivial
    | some resp =>
      exact (repairChunks_keeps hturn (hreported _ fate resp) _ _ _).bind
        fun _ _ _ => .done trivial

end Keeps

/-- The calls of a pass keep the rule. -/
theorem keeps (pass : RepairPass) : pass.program.Keeps Rule (fun _ _ => True) [] :=
  program_keeps (fun _ _ => trivial) (fun _ => trivial)
    fun _ _ _ _ hreported => repairChunk_keeps hreported _ _ _ _

end RepairPass

end StorageEngine
