import StorageEngine.Lib.Observed
import StorageEngine.Recovery.OneObject
import StorageEngine.Recovery.RepairLoop

/-!
# The two repair paths

`recover_failed_node` next to `MarkNodeOffline` and `repair_under_replicated_chunks`.  The
paths have the same loop, but `recover_failed_node` does not read from the failed node, and
the other path does not read from a replica without a node id.  So they can try
different reads, and what they have in common is the outcome of the calls that came to
something: all calls except the reads that returned no bytes.

* `fetch_observed` and `repairChunks_exclude` move a run of the loop from one excluded node
  to another.
* `recoverFailedNode_ends` and `markThenRepair_ends` say how the paths start, which is where
  they differ: only the second looks at the outcome of the scan.
* `paths_agree_iff` has the outcomes on which the paths agree.
-/

namespace StorageEngine

open Lib.Remote RecoveryManager StorageClient
open MetadataService (Serves)

variable {ι : Type} [DecidableEq ι] {svc cfg : ClusterConfig} {reach : Str → Option ι}

/-! ## Outcomes -/

/-- Whether the call came to something: it is not a read without bytes. -/
def tells : Event Rpc Rpc.Reply → Bool
  | ⟨.storage _ (.readChunk _), _, some resp⟩ => resp.success
  | ⟨.storage _ (.readChunk _), _, none⟩ => false
  | _ => true

/-- A read at the address has returned the bytes of the chunk. -/
def Returned (outcome : List (Event Rpc Rpc.Reply)) (address chunkId : Str) : Prop :=
  ∃ fate resp, ⟨.storage address (.readChunk { chunkId := chunkId }), fate, some resp⟩ ∈ outcome ∧
    resp.success = true

theorem Returned.mono {outcome outcome' : List (Event Rpc Rpc.Reply)} {address chunkId : Str}
    (h : Returned outcome address chunkId) (hsub : outcome ⊆ outcome') :
    Returned outcome' address chunkId := by
  obtain ⟨fate, resp, hmem, hsuccess⟩ := h
  exact ⟨fate, resp, hsub hmem, hsuccess⟩

/-- Some replica at the address is not on the excluded node. -/
def SourceAt (excludeNode : Str) (replicas : List ReplicaInfo) (address : Str) : Prop :=
  ∃ rep ∈ replicas, rep.nodeId ≠ excludeNode ∧ rep.address = address

/-! ## Fetching a chunk -/

/-- What is seen of a fetch: nothing, or one read that returned the bytes. -/
inductive Fetches (svc : ClusterConfig) (reach : Str → Option ι) (c : Cluster ι)
    (excludeNode chunkId : Str) (replicas : List ReplicaInfo) :
    List (Event Rpc Rpc.Reply) → Option Bytes → Prop where
  | nothing : Fetches svc reach c excludeNode chunkId replicas [] none
  | found {rep : ReplicaInfo} {resp : ReadChunkResponse} (hrep : rep ∈ replicas)
      (hne : rep.nodeId ≠ excludeNode) (hsuccess : resp.success = true)
      (hread : Delivers (Cluster.Serves svc reach)
        (.storage rep.address (.readChunk { chunkId := chunkId })) .answered c (some resp) c) :
      Fetches svc reach c excludeNode chunkId replicas
        [⟨.storage rep.address (.readChunk { chunkId := chunkId }), .answered, some resp⟩]
        (some resp.data)

namespace Fetches

variable {c : Cluster ι} {excludeNode chunkId : Str} {rep : ReplicaInfo}
  {replicas : List ReplicaInfo} {events : List (Event Rpc Rpc.Reply)} {result : Option Bytes}

theorem mono {replicas' : List ReplicaInfo} (hsub : replicas ⊆ replicas')
    (h : Fetches svc reach c excludeNode chunkId replicas events result) :
    Fetches svc reach c excludeNode chunkId replicas' events result := by
  cases h with
  | nothing => exact .nothing
  | found hrep hne hsuccess hread => exact .found (hsub hrep) hne hsuccess hread

/-- The bytes come from the first replica, or what is seen is seen of the others. -/
theorem of_cons (h : Fetches svc reach c excludeNode chunkId (rep :: replicas) events result) :
    (rep.nodeId ≠ excludeNode ∧ ∃ data, result = some data ∧
      Fetches svc reach c excludeNode chunkId [rep] events (some data)) ∨
      Fetches svc reach c excludeNode chunkId replicas events result := by
  cases h with
  | nothing => exact .inr .nothing
  | @found rep' resp hrep hne hsuccess hread =>
    rcases List.mem_cons.mp hrep with rfl | hrep
    · exact .inl ⟨hne, resp.data, rfl, .found List.mem_cons_self hne hsuccess hread⟩
    · exact .inr (.found hrep hne hsuccess hread)

/-- The bytes can come from another replica at the address. -/
theorem exclude {otherNode : Str}
    (h : Fetches svc reach c excludeNode chunkId replicas events result)
    (hsource : ∀ address, SourceAt excludeNode replicas address →
      Returned events address chunkId → SourceAt otherNode replicas address) :
    Fetches svc reach c otherNode chunkId replicas events result := by
  cases h with
  | nothing => exact .nothing
  | @found rep resp hrep hne hsuccess hread =>
    obtain ⟨rep', hrep', hne', haddress⟩ := hsource rep.address ⟨rep, hrep, hne, rfl⟩
      ⟨.answered, resp, List.mem_singleton_self _, hsuccess⟩
    rw [← haddress] at hread ⊢
    exact .found hrep' hne' hsuccess hread

end Fetches

theorem readFromReplica_observed {rep : ReplicaInfo} {chunkId excludeNode : Str} {c c' : Cluster ι}
    {events : List (Event Rpc Rpc.Reply)} {result : Option Bytes}
    (hne : rep.nodeId ≠ excludeNode) :
    Observed (Cluster.Serves svc reach) tells (ReplicationManager.readFromReplica rep chunkId) c
        events result c' ↔
      c' = c ∧ Fetches svc reach c excludeNode chunkId [rep] events result := by
  constructor
  · intro h
    obtain ⟨fate, r, c₁, rest, hcall, hrest, rfl⟩ := observed_rpc.mp h
    obtain ⟨rfl, -⟩ := delivers_read hcall
    cases r with
    | none =>
      obtain ⟨rfl, rfl, rfl⟩ := observed_done.mp hrest
      exact ⟨rfl, .nothing⟩
    | some resp =>
      obtain ⟨rfl, rfl, rfl⟩ := observed_done.mp hrest
      obtain rfl := hcall.answered_of_reply (by simp)
      by_cases hsuccess : resp.success = true
      · refine ⟨rfl, ?_⟩
        simp only [tells, hsuccess, if_true]
        exact .found (List.mem_singleton_self _) hne hsuccess hcall
      · refine ⟨rfl, ?_⟩
        simp only [tells, hsuccess]
        exact .nothing
  · rintro ⟨rfl, h⟩
    cases h with
    | nothing =>
      -- the request is lost
      exact observed_rpc.mpr ⟨.requestLost, none, c', [], .requestLost c',
        observed_done.mpr ⟨rfl, rfl, rfl⟩, rfl⟩
    | @found rep' resp hrep _ hsuccess hread =>
      obtain rfl := List.mem_singleton.mp hrep
      refine observed_rpc.mpr ⟨.answered, some resp, c', [], hread, ?_, ?_⟩
      · simp only [hsuccess, if_true]
        exact observed_done.mpr ⟨rfl, rfl, rfl⟩
      · simp only [tells, hsuccess, if_true]

/-- What is seen of a fetch does not tell which reads it tried before. -/
theorem fetch_observed {chunk : ChunkInfo} {excludeNode : Str} {replicas : List ReplicaInfo}
    {c c' : Cluster ι} {events : List (Event Rpc Rpc.Reply)} {result : Option Bytes} :
    Observed (Cluster.Serves svc reach) tells (fetchChunkFromReplica chunk excludeNode replicas) c
        events result c' ↔
      c' = c ∧ Fetches svc reach c excludeNode chunk.chunkId replicas events result := by
  induction replicas generalizing events with
  | nil =>
    rw [fetchChunkFromReplica]
    constructor
    · intro h
      obtain ⟨rfl, rfl, rfl⟩ := observed_done.mp h
      exact ⟨rfl, .nothing⟩
    · rintro ⟨rfl, h⟩
      cases h with
      | nothing => exact observed_done.mpr ⟨rfl, rfl, rfl⟩
      | found hrep => cases hrep
  | cons rep reps ih =>
    rw [fetchChunkFromReplica]
    split
    · next hexclude =>
      rw [ih]
      refine and_congr_right fun _ => ⟨fun h => h.mono (List.subset_cons_self _ _), fun h => ?_⟩
      exact h.of_cons.resolve_left fun hfirst => hfirst.1 hexclude
    · next hne =>
      constructor
      · intro h
        obtain ⟨found, c₁, first, rest, hfirst, hrest, rfl⟩ := observed_bind.mp h
        obtain ⟨rfl, hfetch⟩ := (readFromReplica_observed hne).mp hfirst
        cases found with
        | some data =>
          obtain ⟨rfl, rfl, rfl⟩ := observed_done.mp hrest
          rw [List.append_nil]
          exact ⟨rfl, hfetch.mono (by simp)⟩
        | none =>
          obtain ⟨hsame, hfetch'⟩ := ih.mp hrest
          cases hfetch
          exact ⟨hsame, hfetch'.mono (List.subset_cons_self _ _)⟩
      · rintro ⟨rfl, h⟩
        rcases h.of_cons with ⟨-, data, rfl, hfirst⟩ | hrest
        · exact observed_bind.mpr ⟨some data, c', events, [],
            (readFromReplica_observed hne).mpr ⟨rfl, hfirst⟩, observed_done.mpr ⟨rfl, rfl, rfl⟩,
            (List.append_nil _).symm⟩
        · exact observed_bind.mpr ⟨none, c', [], events,
            (readFromReplica_observed hne).mpr ⟨rfl, .nothing⟩, ih.mpr ⟨rfl, hrest⟩, rfl⟩

/-! ## The loop -/

/-- A turn that does not read from one node can be one that does not read from another. -/
theorem repairChunk_exclude {m : ReplicationManager} {now : TimestampMs}
    {excludeNode otherNode : Str} {chunk : ChunkInfo} {c c' : Cluster ι}
    {events : List (Event Rpc Rpc.Reply)} {ok : Bool}
    (h : Observed (Cluster.Serves svc reach) tells (repairChunk cfg m now excludeNode chunk) c
      events ok c')
    (hsource : ∀ address, SourceAt excludeNode chunk.replicas address →
      Returned events address chunk.chunkId → SourceAt otherNode chunk.replicas address) :
    Observed (Cluster.Serves svc reach) tells (repairChunk cfg m now otherNode chunk) c events ok
      c' := by
  obtain ⟨found, c₁, reads, rest, hfetch, hrest, rfl⟩ := observed_bind.mp h
  obtain ⟨rfl, hfetch⟩ := fetch_observed.mp hfetch
  refine observed_bind.mpr ⟨found, c₁, reads, rest, fetch_observed.mpr ⟨rfl, ?_⟩, hrest, rfl⟩
  exact hfetch.exclude fun address hat hreturned =>
    hsource address hat (hreturned.mono (List.subset_append_left _ _))

theorem repairChunks_exclude {m : ReplicationManager} {excludeNode otherNode : Str}
    {chunks : List ChunkMetadata} {now : ℕ → TimestampMs} {recovered k : UInt32}
    {c c' : Cluster ι} {events : List (Event Rpc Rpc.Reply)}
    (h : Observed (Cluster.Serves svc reach) tells
      (repairChunks cfg m excludeNode now chunks recovered) c events k c')
    (hsource : ∀ pb ∈ chunks, ∀ address, SourceAt excludeNode pb.fromProto.replicas address →
      Returned events address pb.chunkId → SourceAt otherNode pb.fromProto.replicas address) :
    Observed (Cluster.Serves svc reach) tells
      (repairChunks cfg m otherNode now chunks recovered) c events k c' := by
  induction chunks generalizing now recovered c events with
  | nil => exact h
  | cons pb rest ih =>
    obtain ⟨ok, c₁, first, last, hturn, hloop, rfl⟩ := observed_bind.mp h
    refine observed_bind.mpr ⟨ok, c₁, first, last, ?_, ?_, rfl⟩
    · exact repairChunk_exclude hturn fun address hat hreturned =>
        hsource pb List.mem_cons_self address hat
          (hreturned.mono (List.subset_append_left _ _))
    · exact ih hloop fun pb' hpb' address hat hreturned =>
        hsource pb' (List.mem_cons_of_mem _ hpb') address hat
          (hreturned.mono (List.subset_append_right _ _))

/-- The calls of a loop over the chunks: a read asks a replica that is not on the excluded
node, and there is no scan. -/
def Asks (excludeNode : Str) (chunks : List ChunkMetadata) : Rpc → Prop
  | .storage address (.readChunk req) =>
    ∃ pb ∈ chunks, pb.chunkId = req.chunkId ∧ SourceAt excludeNode pb.fromProto.replicas address
  | .metadata .getUnderReplicatedChunks => False
  | _ => True

theorem Asks.of_places {excludeNode : Str} {chunks : List ChunkMetadata} (q : Rpc)
    (h : RepairPass.Places q) : Asks excludeNode chunks q := by
  cases q with
  | metadata q => cases q <;> first | exact h.elim | exact trivial
  | storage address q => cases q <;> first | exact h.elim | exact trivial

theorem fetch_asks {chunks : List ChunkMetadata} {pb : ChunkMetadata} (hpb : pb ∈ chunks)
    (excludeNode : Str) {replicas : List ReplicaInfo} (hsub : replicas ⊆ pb.fromProto.replicas) :
    (fetchChunkFromReplica pb.fromProto excludeNode replicas).Issues
      (Asks excludeNode chunks) := by
  induction replicas with
  | nil => exact .done _
  | cons rep reps ih =>
    have hreps := ih fun rep' hrep' => hsub (List.mem_cons_of_mem _ hrep')
    rw [fetchChunkFromReplica]
    split
    · exact hreps
    · next hne =>
      refine .bind (.call ⟨pb, hpb, rfl, rep, hsub List.mem_cons_self, hne, rfl⟩ fun r => ?_)
        fun data => ?_
      · cases r <;> exact .done _
      · cases data with
        | none => exact hreps
        | some data => exact .done _

theorem repairChunks_asks (cfg : ClusterConfig) (m : ReplicationManager) (excludeNode : Str)
    {chunks left : List ChunkMetadata} (hsub : left ⊆ chunks) (now : ℕ → TimestampMs)
    (recovered : UInt32) :
    (repairChunks cfg m excludeNode now left recovered).Issues (Asks excludeNode chunks) := by
  induction left generalizing now recovered with
  | nil => exact .done _
  | cons pb rest ih =>
    have hpb : pb ∈ chunks := hsub List.mem_cons_self
    refine .bind (.bind (fetch_asks hpb excludeNode (List.Subset.refl _)) fun data => ?_)
      fun ok => ih (fun pb' hpb' => hsub (List.mem_cons_of_mem _ hpb')) _ _
    cases data with
    | none => exact .done _
    | some data =>
      refine .bind ((RepairPass.replicateChunk_places _ _ _ _ _ _).imp Asks.of_places)
        fun result => ?_
      split
      · exact .call trivial fun r => .done _
      · exact .done _

/-! ## How the paths start -/

/-- `MarkNodeOffline`, and then `repair_under_replicated_chunks`. -/
def RecoveryManager.markThenRepair (cfg : ClusterConfig) (m : ReplicationManager)
    (now : ℕ → TimestampMs) (failedNodeId : Str) : ClusterProg RecoveryResult := do
  let _ ← metadataCall (.markNodeOffline { nodeId := failedNodeId })
  repairUnderReplicatedChunks cfg m now

/-- With this outcome the program can report this success and this many chunks, and leave
the cluster `c'`. -/
def Ends (svc : ClusterConfig) (reach : Str → Option ι) (program : ClusterProg RecoveryResult)
    (c : Cluster ι) (outcome : List (Event Rpc Rpc.Reply)) (success : Bool) (recovered : UInt32)
    (c' : Cluster ι) : Prop :=
  ∃ message, Observed (Cluster.Serves svc reach) tells program c outcome
    { success := success, chunksRecovered := recovered, message := message } c'

/-- The outcome starts with the mark and the scan, and the loop is the rest of it. -/
def Started (svc : ClusterConfig) (reach : Str → Option ι) (failedNodeId : Str) (c : Cluster ι)
    (outcome : List (Event Rpc Rpc.Reply)) (under : Option GetUnderReplicatedChunksResponse)
    (c₁ : Cluster ι) (loop : List (Event Rpc Rpc.Reply)) : Prop :=
  ∃ fate r c₀ fate',
    Delivers (Cluster.Serves svc reach)
      (.metadata (.markNodeOffline { nodeId := failedNodeId })) fate c r c₀ ∧
    Delivers (Cluster.Serves svc reach) (.metadata .getUnderReplicatedChunks) fate' c₀ under c₁ ∧
    outcome = ⟨.metadata (.markNodeOffline { nodeId := failedNodeId }), fate, r⟩ ::
      ⟨.metadata .getUnderReplicatedChunks, fate', under⟩ :: loop

/-- The chunks that the loop goes over. -/
def scannedChunks (under : Option GetUnderReplicatedChunksResponse) : List ChunkMetadata :=
  match under with
  | some resp => resp.chunks
  | none => []

section Start

variable {m : ReplicationManager} {now : ℕ → TimestampMs} {failedNodeId : Str} {c c' : Cluster ι}
  {outcome : List (Event Rpc Rpc.Reply)} {success : Bool} {recovered : UInt32}

/-- What a program that starts with the mark and the scan goes on with. -/
theorem started_ends {f : Option GetUnderReplicatedChunksResponse → ClusterProg RecoveryResult} :
    Ends svc reach (metadataCall (.markNodeOffline { nodeId := failedNodeId }) >>=
        fun _ => metadataCall .getUnderReplicatedChunks >>= f) c outcome success recovered c' ↔
      ∃ under c₁ loop, Started svc reach failedNodeId c outcome under c₁ loop ∧
        Ends svc reach (f under) c₁ loop success recovered c' := by
  constructor
  · intro ⟨message, h⟩
    obtain ⟨fate, r, c₀, rest, hmark, hrest, rfl⟩ := (observed_rpc_seen fun _ _ => rfl).mp h
    obtain ⟨fate', under, c₁, loop, hscan, hloop, rfl⟩ :=
      (observed_rpc_seen fun _ _ => rfl).mp hrest
    exact ⟨under, c₁, loop, ⟨fate, r, c₀, fate', hmark, hscan, rfl⟩, message, hloop⟩
  · rintro ⟨under, c₁, loop, ⟨fate, r, c₀, fate', hmark, hscan, rfl⟩, message, hloop⟩
    exact ⟨message, (observed_rpc_seen fun _ _ => rfl).mpr
      ⟨fate, r, c₀, _, hmark, (observed_rpc_seen fun _ _ => rfl).mpr
        ⟨fate', under, c₁, loop, hscan, hloop, rfl⟩, rfl⟩⟩

/-- A path that ends with its loop reports success. -/
theorem loop_ends {excludeNode message : Str} {chunks : List ChunkMetadata} :
    Ends svc reach (repairChunks cfg m excludeNode now chunks 0 >>= fun k =>
        pure { success := true, chunksRecovered := k, message := message })
        c outcome success recovered c' ↔
      success = true ∧ Observed (Cluster.Serves svc reach) tells
        (repairChunks cfg m excludeNode now chunks 0) c outcome recovered c' := by
  constructor
  · intro ⟨_, h⟩
    obtain ⟨k, c₁, loop, last, hloop, hlast, rfl⟩ := observed_bind.mp h
    obtain ⟨rfl, hresult, rfl⟩ := observed_done.mp hlast
    cases hresult
    rw [List.append_nil]
    exact ⟨rfl, hloop⟩
  · rintro ⟨rfl, hloop⟩
    exact ⟨message, observed_bind.mpr ⟨recovered, c', outcome, [], hloop,
      observed_done.mpr ⟨rfl, rfl, rfl⟩, (List.append_nil _).symm⟩⟩

/-- The first path reports success, whatever has become of the scan. -/
theorem recoverFailedNode_ends :
    Ends svc reach (recoverFailedNode cfg m now failedNodeId) c outcome success recovered c' ↔
      ∃ under c₁ loop, Started svc reach failedNodeId c outcome under c₁ loop ∧
        success = true ∧ Observed (Cluster.Serves svc reach) tells
          (repairChunks cfg m failedNodeId now (scannedChunks under) 0) c₁ loop recovered c' := by
  apply started_ends.trans
  refine exists_congr fun under => exists_congr fun c₁ => exists_congr fun loop =>
    and_congr_right fun _ => ?_
  exact loop_ends

/-- The second path reports success only if the scan has been answered. -/
theorem markThenRepair_ends :
    Ends svc reach (markThenRepair cfg m now failedNodeId) c outcome success recovered c' ↔
      ∃ under c₁ loop, Started svc reach failedNodeId c outcome under c₁ loop ∧
        success = under.isSome ∧ Observed (Cluster.Serves svc reach) tells
          (repairChunks cfg m [] now (scannedChunks under) 0) c₁ loop recovered c' := by
  apply started_ends.trans
  refine exists_congr fun under => exists_congr fun c₁ => exists_congr fun loop =>
    and_congr_right fun _ => ?_
  cases under with
  | some resp => exact loop_ends
  | none =>
    constructor
    · intro ⟨message, h⟩
      obtain ⟨rfl, hresult, rfl⟩ := observed_done.mp h
      cases hresult
      exact ⟨rfl, observed_done.mpr ⟨rfl, rfl, rfl⟩⟩
    · rintro ⟨rfl, hloop⟩
      obtain ⟨rfl, rfl, rfl⟩ := observed_done.mp hloop
      exact ⟨str "Failed to query under-replicated chunks", observed_done.mpr ⟨rfl, rfl, rfl⟩⟩

end Start

namespace Started

variable {failedNodeId excludeNode : Str} {c c₁ c₂ : Cluster ι}
  {outcome loop loop' : List (Event Rpc Rpc.Reply)} {chunks : List ChunkMetadata}
  {under under' : Option GetUnderReplicatedChunksResponse}

theorem unique (h : Started svc reach failedNodeId c outcome under c₁ loop)
    (h' : Started svc reach failedNodeId c outcome under' c₂ loop') :
    under' = under ∧ loop' = loop := by
  obtain ⟨fate, r, c₀, fate', -, -, rfl⟩ := h
  obtain ⟨_, _, _, _, -, -, heq⟩ := h'
  cases heq
  exact ⟨rfl, rfl⟩

/-- The only scan is the one that the paths start with. -/
theorem scan_mem_iff (h : Started svc reach failedNodeId c outcome under c₁ loop)
    (hloop : ∀ e ∈ loop, Asks excludeNode chunks e.request)
    {resp : GetUnderReplicatedChunksResponse} :
    (∃ fate, ⟨.metadata .getUnderReplicatedChunks, fate, some resp⟩ ∈ outcome) ↔
      under = some resp := by
  obtain ⟨fate, r, c₀, fate', -, -, rfl⟩ := h
  constructor
  · intro ⟨fate'', hmem⟩
    rcases List.mem_cons.mp hmem with heq | hmem
    · cases heq
    · rcases List.mem_cons.mp hmem with heq | hmem
      · cases heq
        rfl
      · exact (hloop _ hmem).elim
  · rintro rfl
    exact ⟨fate', List.mem_cons_of_mem _ List.mem_cons_self⟩

theorem returned_iff (h : Started svc reach failedNodeId c outcome under c₁ loop)
    {address chunkId : Str} :
    Returned outcome address chunkId ↔ Returned loop address chunkId := by
  obtain ⟨fate, r, c₀, fate', -, -, rfl⟩ := h
  constructor
  · intro ⟨fate'', resp, hmem, hsuccess⟩
    rcases List.mem_cons.mp hmem with heq | hmem
    · cases heq
    · rcases List.mem_cons.mp hmem with heq | hmem
      · cases heq
      · exact ⟨fate'', resp, hmem, hsuccess⟩
  · exact fun hreturned => hreturned.mono fun e he =>
      List.mem_cons_of_mem _ (List.mem_cons_of_mem _ he)

theorem reported_iff (h : Started svc reach failedNodeId c outcome under c₁ loop)
    (hloop : ∀ e ∈ loop, Asks excludeNode chunks e.request) {pb : ChunkMetadata} :
    RepairPass.Reported outcome pb ↔ pb ∈ scannedChunks under := by
  constructor
  · intro ⟨fate, resp, hmem, hpb⟩
    obtain rfl := (h.scan_mem_iff hloop).mp ⟨fate, hmem⟩
    exact hpb
  · intro hpb
    cases under with
    | none => cases hpb
    | some resp =>
      obtain ⟨fate, hmem⟩ := (h.scan_mem_iff hloop).mpr rfl
      exact ⟨fate, resp, hmem, hpb⟩

/-- The scan of a state that the metadata service reaches reports no chunk twice. -/
theorem scanned_nodup (h : Started svc reach failedNodeId c outcome under c₁ loop)
    (hids : c.metadata.ChunkIds) : ((scannedChunks under).map ChunkMetadata.chunkId).Nodup := by
  obtain ⟨fate, r, c₀, fate', hmark, hscan, -⟩ := h
  have hids₀ := delivers_chunkIds hmark hids
  cases under with
  | none => exact List.nodup_nil
  | some resp =>
    rcases delivers_metadata hscan with ⟨-, hr, -⟩ | ⟨-, -, resp', hserves, -, hr⟩
    · cases hr
    · rcases hr with hr | hr
      · cases hr
      · cases hr
        exact hserves.reported_nodup hids₀

end Started

/-! ## Agreement -/

/-- The failed node answers no read: no address of a replica on it has returned bytes. -/
def Silent (failedNodeId : Str) (outcome : List (Event Rpc Rpc.Reply)) : Prop :=
  ∀ pb, RepairPass.Reported outcome pb → ∀ rep ∈ pb.fromProto.replicas,
    rep.nodeId = failedNodeId → ∀ chunkId, ¬Returned outcome rep.address chunkId

/-- The under-replicated chunks could be queried. -/
def Scanned (outcome : List (Event Rpc Rpc.Reply)) : Prop :=
  ∃ fate resp, ⟨.metadata .getUnderReplicatedChunks, fate, some resp⟩ ∈ outcome

/-- The bytes of a chunk come from replicas that have a node id. -/
def NamedSources (outcome : List (Event Rpc Rpc.Reply)) : Prop :=
  ∀ pb, RepairPass.Reported outcome pb → ∀ rep ∈ pb.fromProto.replicas,
    Returned outcome rep.address pb.chunkId → SourceAt [] pb.fromProto.replicas rep.address

/-- With the outcome, both paths can report the same and leave the same cluster. -/
def PathsAgree (svc cfg : ClusterConfig) (reach : Str → Option ι) (m : ReplicationManager)
    (now : ℕ → TimestampMs) (failedNodeId : Str) (c : Cluster ι)
    (outcome : List (Event Rpc Rpc.Reply)) : Prop :=
  ∀ success recovered c',
    Ends svc reach (recoverFailedNode cfg m now failedNodeId) c outcome success recovered c' ↔
      Ends svc reach (markThenRepair cfg m now failedNodeId) c outcome success recovered c'

/-- Some path can have the outcome. -/
def Possible (svc cfg : ClusterConfig) (reach : Str → Option ι) (m : ReplicationManager)
    (now : ℕ → TimestampMs) (failedNodeId : Str) (c : Cluster ι)
    (outcome : List (Event Rpc Rpc.Reply)) : Prop :=
  ∃ success recovered c',
    Ends svc reach (recoverFailedNode cfg m now failedNodeId) c outcome success recovered c' ∨
      Ends svc reach (markThenRepair cfg m now failedNodeId) c outcome success recovered c'

section Agreement

variable {m : ReplicationManager} {now : ℕ → TimestampMs} {failedNodeId : Str} {c : Cluster ι}
  {outcome : List (Event Rpc Rpc.Reply)}

theorem paths_agree (hsilent : Silent failedNodeId outcome) (hscanned : Scanned outcome)
    (hnamed : NamedSources outcome) :
    PathsAgree svc cfg reach m now failedNodeId c outcome := by
  intro success recovered c'
  obtain ⟨fate, resp, hscan⟩ := hscanned
  rw [recoverFailedNode_ends, markThenRepair_ends]
  constructor
  · rintro ⟨under, c₁, loop, hstart, rfl, hloop⟩
    have hasks := hloop.allowed (repairChunks_asks cfg m _ (List.Subset.refl _) now 0)
    obtain rfl := (hstart.scan_mem_iff hasks).mp ⟨fate, hscan⟩
    refine ⟨some resp, c₁, loop, hstart, rfl, repairChunks_exclude hloop ?_⟩
    rintro pb hpb _ ⟨rep, hrep, -, rfl⟩ hreturned
    exact hnamed pb ((hstart.reported_iff hasks).mpr hpb) rep hrep
      (hstart.returned_iff.mpr hreturned)
  · rintro ⟨under, c₁, loop, hstart, hsuccess, hloop⟩
    have hasks := hloop.allowed (repairChunks_asks cfg m _ (List.Subset.refl _) now 0)
    obtain rfl := (hstart.scan_mem_iff hasks).mp ⟨fate, hscan⟩
    refine ⟨some resp, c₁, loop, hstart, hsuccess, repairChunks_exclude hloop ?_⟩
    rintro pb hpb _ ⟨rep, hrep, -, rfl⟩ hreturned
    exact ⟨rep, hrep, fun hfailed => hsilent pb ((hstart.reported_iff hasks).mpr hpb) rep hrep
      hfailed _ (hstart.returned_iff.mpr hreturned), rfl⟩

theorem scanned_of_agree (hids : c.metadata.ChunkIds)
    (hpossible : Possible svc cfg reach m now failedNodeId c outcome)
    (hagree : PathsAgree svc cfg reach m now failedNodeId c outcome) :
    Scanned outcome ∧ NamedSources outcome := by
  obtain ⟨success, recovered, c', hends⟩ := hpossible
  have hsame := hagree success recovered c'
  have hfirst := hends.elim id hsame.mpr
  obtain ⟨_, _, _, -, rfl, -⟩ := recoverFailedNode_ends.mp hfirst
  obtain ⟨under, c₁, loop, hstart, hsuccess, hloop⟩ := markThenRepair_ends.mp (hsame.mp hfirst)
  have hasks := hloop.allowed (repairChunks_asks cfg m _ (List.Subset.refl _) now 0)
  obtain ⟨resp, rfl⟩ := Option.isSome_iff_exists.mp hsuccess.symm
  obtain ⟨fate, hscan⟩ := (hstart.scan_mem_iff hasks).mpr rfl
  refine ⟨⟨fate, resp, hscan⟩, fun pb hpb rep hrep hreturned => ?_⟩
  have hmem := (hstart.reported_iff hasks).mp hpb
  obtain ⟨_, _, hread, -⟩ := hstart.returned_iff.mp hreturned
  obtain ⟨pb', hpb', hid, hat⟩ := hasks _ hread
  -- the second path has read the same chunk
  obtain rfl := List.inj_on_of_nodup_map (hstart.scanned_nodup hids) hpb' hmem hid
  exact hat

/-- The paths agree when the scan is answered and no bytes come from a replica without a
node id, and in a state that the metadata service reaches they agree only then. -/
theorem paths_agree_iff (hsilent : Silent failedNodeId outcome) :
    (Scanned outcome ∧ NamedSources outcome →
      PathsAgree svc cfg reach m now failedNodeId c outcome) ∧
    (c.metadata.Reached svc (fun _ => True) →
      Possible svc cfg reach m now failedNodeId c outcome →
      (PathsAgree svc cfg reach m now failedNodeId c outcome ↔
        Scanned outcome ∧ NamedSources outcome)) := by
  have henough : Scanned outcome ∧ NamedSources outcome →
      PathsAgree svc cfg reach m now failedNodeId c outcome :=
    fun h => paths_agree hsilent h.1 h.2
  exact ⟨henough, fun hreached hpossible =>
    ⟨scanned_of_agree hreached.chunkIds hpossible, henough⟩⟩

end Agreement

section TwoNodes

private def failedEntries : List (Str × Str) := [(str "n1", str "n1:1"), (str "n2", str "n2:1")]

/-- A chunk on both nodes. -/
private def failedChunk : ChunkInfo :=
  { chunkId := draw 1
    objectId := draw 0
    version := 1
    replicas := failedEntries.map fun entry =>
      { nodeId := entry.1, address := entry.2, version := 1 } }

/-- Two storage nodes, and one object whose only chunk is on both, for three replicas. -/
private def failedCluster : Cluster Unit :=
  { metadata := oneObject {} failedEntries failedChunk
    nodes := fun _ => ({ basePath := str "/data" }, ∅) }

/-- The cluster when the first node is marked. -/
private def failedMarked : Cluster Unit :=
  { failedCluster with
    metadata :=
      { failedCluster.metadata with
        store := (failedCluster.metadata.store.markNodeOffline (str "n1")).2 } }

private def failedMark : Event Rpc Rpc.Reply :=
  ⟨.metadata (.markNodeOffline { nodeId := str "n1" }), .answered,
    some { success := true, message := str "Marked offline" }⟩

private def failedManager : ReplicationManager :=
  { localNodeId := str "n2", localAddress := str "n2:1" }

private def anywhere : Str → Option Unit := fun _ => some ()

private theorem failedCluster_reached : failedCluster.metadata.Reached {} (fun _ => True) :=
  (oneObject_reached rfl rfl).mono fun _ _ => trivial

private theorem failedCluster_find : failedCluster.metadata.store.nodes.find (str "n1") =
    some (newNode (str "n1", str "n1:1")) := by
  have hnodup : (failedEntries.map Prod.fst).Nodup := by decide
  rw [failedCluster, oneObject_nodes]
  exact (find_registered hnodup).mpr List.mem_cons_self

private theorem failedCluster_mark : Delivers (Cluster.Serves {} anywhere)
    (.metadata (.markNodeOffline { nodeId := str "n1" })) .answered failedCluster
    failedMark.reply failedMarked := by
  have hserves := @Serves.markNodeOffline {} failedCluster.metadata { nodeId := str "n1" }
  have hresp : (MetadataService.markNodeOffline failedCluster.metadata.store
      { nodeId := str "n1" }).1 = { success := true, message := str "Marked offline" } := by
    rw [MetadataService.markNodeOffline, MetadataStore.markNodeOffline, failedCluster_find]
    rfl
  rw [hresp] at hserves
  exact .answered (.metadata hserves)

private theorem failedMarked_scan : Delivers (Cluster.Serves {} anywhere)
    (.metadata .getUnderReplicatedChunks) .answered failedMarked
    (some { chunks := [failedChunk.toProto] }) failedMarked := by
  have hobjects : failedMarked.metadata.store.objectsById =
      failedCluster.metadata.store.objectsById :=
    (MetadataStore.markNodeOffline_sameObjects _ _).1
  have hlength : failedChunk.replicas.length = 2 := rfl
  have hfew : failedChunk.replicas.countP failedMarked.metadata.store.isLive <
      (3 : UInt32).toNat := by
    have hcount := List.countP_le_length (p := failedMarked.metadata.store.isLive)
      (l := failedChunk.replicas)
    have hthree : (3 : UInt32).toNat = 3 := rfl
    omega
  exact .answered (.metadata (@serves_scan_oneObject {} failedEntries failedChunk _ hobjects hfew))

/-- All reads of the chunk are lost. -/
private def failedReads : List (Event Rpc Rpc.Reply) :=
  [failedMark, ⟨.metadata .getUnderReplicatedChunks, .answered,
    some { chunks := [failedChunk.toProto] }⟩]

private theorem failedReads_silent : Silent (str "n1") failedReads := by
  rintro pb - rep - - chunkId ⟨fate, resp, hmem, -⟩
  simp [failedReads, failedMark] at hmem

private theorem failedReads_loop : Observed (Cluster.Serves {} anywhere) tells
    (repairChunks {} failedManager (str "n1") (fun _ => 0) [failedChunk.toProto] 0) failedMarked []
    0 failedMarked :=
  observed_bind.mpr ⟨false, failedMarked, [], [], observed_bind.mpr ⟨none, failedMarked, [], [],
    fetch_observed.mpr ⟨rfl, .nothing⟩, observed_done.mpr ⟨rfl, rfl, rfl⟩, rfl⟩,
    observed_done.mpr ⟨rfl, rfl, rfl⟩, rfl⟩

/-- A scan that is answered is enough, if no read is. -/
theorem paths_agree_unread : Possible {} {} anywhere failedManager (fun _ => 0) (str "n1")
      failedCluster failedReads ∧
    PathsAgree {} {} anywhere failedManager (fun _ => 0) (str "n1") failedCluster failedReads := by
  have hpossible : Possible {} {} anywhere failedManager (fun _ => 0) (str "n1") failedCluster
      failedReads :=
    ⟨true, 0, failedMarked, .inl (recoverFailedNode_ends.mpr ⟨_, failedMarked, [],
      ⟨_, _, failedMarked, _, failedCluster_mark, failedMarked_scan, rfl⟩, rfl,
      failedReads_loop⟩)⟩
  refine ⟨hpossible, ((paths_agree_iff failedReads_silent).2 failedCluster_reached hpossible).mpr
    ⟨⟨.answered, _, List.mem_cons_of_mem _ List.mem_cons_self⟩, ?_⟩⟩
  rintro pb - rep - ⟨fate, resp, hmem, -⟩
  simp [failedReads, failedMark] at hmem

/-- The scan is lost after the mark. -/
private def failedScan : List (Event Rpc Rpc.Reply) :=
  [failedMark, ⟨.metadata .getUnderReplicatedChunks, .requestLost, none⟩]

/-- A chunk has lost a node, the scan for it is lost, and `recover_failed_node` reports that it
has recovered. -/
theorem paths_disagree :
    failedCluster.metadata.Reached {} (fun _ => True) ∧
      ⟨.metadata (.markNodeOffline { nodeId := str "n1" }), .answered,
        some { success := true, message := str "Marked offline" }⟩ ∈ failedScan ∧
      Silent (str "n1") failedScan ∧
      Ends {} anywhere (recoverFailedNode {} failedManager (fun _ => 0) (str "n1")) failedCluster
        failedScan true 0 failedMarked ∧
      Ends {} anywhere (markThenRepair {} failedManager (fun _ => 0) (str "n1")) failedCluster
        failedScan false 0 failedMarked ∧
      ¬PathsAgree {} {} anywhere failedManager (fun _ => 0) (str "n1") failedCluster
        failedScan := by
  have hstart : Started {} anywhere (str "n1") failedCluster failedScan none failedMarked [] :=
    ⟨_, _, failedMarked, _, failedCluster_mark, .requestLost _, rfl⟩
  have hfirst : Ends {} anywhere (recoverFailedNode {} failedManager (fun _ => 0) (str "n1"))
      failedCluster failedScan true 0 failedMarked :=
    recoverFailedNode_ends.mpr ⟨none, failedMarked, [], hstart, rfl,
      observed_done.mpr ⟨rfl, rfl, rfl⟩⟩
  have hsecond : Ends {} anywhere (markThenRepair {} failedManager (fun _ => 0) (str "n1"))
      failedCluster failedScan false 0 failedMarked :=
    markThenRepair_ends.mpr ⟨none, failedMarked, [], hstart, rfl,
      observed_done.mpr ⟨rfl, rfl, rfl⟩⟩
  refine ⟨failedCluster_reached, List.mem_cons_self, ?_, hfirst, hsecond, fun hagree => ?_⟩
  · rintro pb - rep - - chunkId ⟨fate, resp, hmem, -⟩
    simp [failedScan, failedMark] at hmem
  · obtain ⟨under, _, _, hstart', hsuccess, -⟩ :=
      markThenRepair_ends.mp ((hagree true 0 failedMarked).mp hfirst)
    obtain ⟨rfl, -⟩ := hstart.unique hstart'
    cases hsuccess

end TwoNodes

end StorageEngine
