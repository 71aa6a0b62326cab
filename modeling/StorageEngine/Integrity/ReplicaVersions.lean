import StorageEngine.Cluster.Layout
import StorageEngine.Lib.Interleaving
import StorageEngine.Recovery.Leaks
import StorageEngine.Recovery.OneObject

/-!
# The versions of the replicas

A version is in three places: in the chunk of the metadata, in each of its replicas, and in
the header on the node of the replica.  A put writes 1 in all three.  A repair writes the
version that its scan has reported to the nodes and to the replicas, and the next one to the
chunk.

* `VersionsTrack` says that the three agree.
* `WriterCall` is what runs: puts, repair passes and messages about nodes, which take turns,
  so that calls one after another are a case of it.
* `RepairReplaces`: a repair pass updates a chunk that is stored.
* `versions_track_iff`: the versions agree in every state of a run exactly if no step of it
  does that.
-/

namespace StorageEngine

open Lib Lib.Remote MetadataStore MetadataService RecoveryManager StorageClient

/-! ## Versions on the nodes -/

/-- The header of the chunk on the node has this version. -/
def StorageNode.HasVersion (n : StorageNode) (chunkId : Str) (version : UInt32) : Prop :=
  ∃ header data, n.1.readChunk n.2 chunkId = some (header, data) ∧ header.version = version

/-- The node at the address has a header of the chunk with this version. -/
def Cluster.HasVersion {ι : Type} (reach : Str → Option ι) (c : Cluster ι)
    (address chunkId : Str) (version : UInt32) : Prop :=
  ∃ i, reach address = some i ∧ (c.nodes i).HasVersion chunkId version

/-- Each replica of a stored chunk has the version of the chunk, and so has the header on
the node of the replica. -/
def VersionsTrack {ι : Type} (reach : Str → Option ι) (c : Cluster ι) : Prop :=
  ∀ key chunk, c.metadata.Holds key chunk → ∀ r ∈ chunk.replicas,
    r.version = chunk.version ∧ c.HasVersion reach r.address chunk.chunkId chunk.version

theorem StorageNode.HasVersion.congr {n n' : StorageNode} {chunkId : Str} {version : UInt32}
    (hfile : n'.file chunkId = n.file chunkId) (h : n.HasVersion chunkId version) :
    n'.HasVersion chunkId version := by
  obtain ⟨header, data, hread, hversion⟩ := h
  rw [StorageNode.readChunk_eq] at hread
  refine ⟨header, data, ?_, hversion⟩
  rw [StorageNode.readChunk_eq, hfile]
  exact hread

theorem Cluster.HasVersion.congr {ι : Type} {reach : Str → Option ι} {c c' : Cluster ι}
    {address chunkId : Str} {version : UInt32} (hnodes : c'.nodes = c.nodes)
    (h : c.HasVersion reach address chunkId version) :
    c'.HasVersion reach address chunkId version := by
  obtain ⟨i, hreach, hi⟩ := h
  rw [← hnodes] at hi
  exact ⟨i, hreach, hi⟩

/-- The call deletes nothing, and what it writes has this version, and ids that fit. -/
structure StorageRpc.WritesVersion (q : StorageRpc) (version : UInt32) : Prop where
  kept : q.deleted = none
  fits : ∀ {header data}, q.written = some (header, data) →
    header.chunkId.length < 2 ^ 32 ∧ header.objectId.length < 2 ^ 32 ∧ header.version = version

/-- What such a call writes is there with its version, and what was there stays. -/
theorem StorageService.Serves.hasVersion {q : StorageRpc} {n n' : StorageNode}
    {r : Option q.Reply} {version : UInt32} (h : Serves q n r n') (hq : q.WritesVersion version) :
    (∀ chunkId, n.HasVersion chunkId version → n'.HasVersion chunkId version) ∧
      ∀ header data, q.acknowledged r = true → q.written = some (header, data) →
        n'.HasVersion header.chunkId version := by
  cases h.fileChange with
  | same hrefused _ hfiles =>
    refine ⟨fun chunkId hn => hn.congr (hfiles chunkId), fun header data hack _ => ?_⟩
    rw [hrefused] at hack
    cases hack
  | @wrote header data now hwritten _ haccepts hfiles =>
    obtain ⟨hchunk, hobject, hversion⟩ := hq.fits hwritten
    have hnew : n'.HasVersion header.chunkId version := by
      obtain ⟨hfits, hsize, hchecksum⟩ :=
        @ChunkStore.storable_of_accepts now header.toData data hchunk hobject haccepts
      refine ⟨ChunkStore.filledHeader now header.toData data, data, ?_, hversion⟩
      rw [StorageNode.readChunk_eq, hfiles, if_pos rfl, Option.bind_some]
      exact ChunkFormat.deserialize_serialize hfits hsize hchecksum
    refine ⟨fun chunkId hn => ?_, fun header' data' _ hwritten' => ?_⟩
    · by_cases hid : chunkId = header.chunkId
      · rw [hid]
        exact hnew
      · exact hn.congr ((hfiles chunkId).trans (if_neg hid))
    · rw [hwritten] at hwritten'
      cases hwritten'
      exact hnew
  | deleted hdeleted _ _ =>
    rw [hq.kept] at hdeleted
    cases hdeleted

/-- The node at the address has acknowledged a write of the chunk. -/
def Acknowledges (e : Event Rpc Rpc.Reply) (address chunkId : Str) : Prop :=
  ∃ q fate r header data, e = ⟨.storage address q, fate, r⟩ ∧
    StorageRpc.acknowledged q r = true ∧ q.written = some (header, data) ∧
      header.chunkId = chunkId

section Delivery

variable {ι : Type} [DecidableEq ι] {svc : ClusterConfig} {reach : Str → Option ι}

/-- The same for a call to an address, whatever becomes of it. -/
theorem delivers_hasVersion {c c' : Cluster ι} {address : Str} {q : StorageRpc} {fate : Fate}
    {r : Option (Rpc.Reply (.storage address q))} {version : UInt32}
    (h : Delivers (Cluster.Serves svc reach) (.storage address q) fate c r c')
    (hq : q.WritesVersion version) :
    (∀ address' chunkId, c.HasVersion reach address' chunkId version →
        c'.HasVersion reach address' chunkId version) ∧
      ∀ address' chunkId, Acknowledges ⟨.storage address q, fate, r⟩ address' chunkId →
        c'.HasVersion reach address' chunkId version := by
  have hserved : ∀ {r}, Cluster.Serves svc reach (.storage address q) c r c' →
      (∀ address' chunkId, c.HasVersion reach address' chunkId version →
        c'.HasVersion reach address' chunkId version) ∧
      ∀ header data, q.acknowledged r = true → q.written = some (header, data) →
        c'.HasVersion reach address header.chunkId version := by
    intro r h
    obtain ⟨i, n, hreach, hserves, rfl⟩ := h.storage_cases
    obtain ⟨hkeeps, hwrites⟩ := hserves.hasVersion hq
    refine ⟨fun address' chunkId hc => ?_, fun header data hack hwritten => ?_⟩
    · obtain ⟨j, hj, hversion⟩ := hc
      refine ⟨j, hj, ?_⟩
      by_cases hji : j = i
      · subst hji
        rw [Cluster.setNode_self]
        exact hkeeps chunkId hversion
      · rwa [Cluster.setNode_of_ne _ _ hji]
    · refine ⟨i, hreach, ?_⟩
      rw [Cluster.setNode_self]
      exact hwrites header data hack hwritten
  have hlost : ∀ {fate}, ∀ address' chunkId,
      ¬Acknowledges ⟨.storage address q, fate, none⟩ address' chunkId := by
    rintro fate address' chunkId ⟨q', fate', r', header, data, heq, hack, -⟩
    cases heq
    rw [StorageRpc.acknowledged_none] at hack
    cases hack
  cases h with
  | answered h =>
    obtain ⟨hkeeps, hwrites⟩ := hserved h
    refine ⟨hkeeps, fun address' chunkId hacknowledged => ?_⟩
    obtain ⟨q', fate', r', header, data, heq, hack, hwritten, hid⟩ := hacknowledged
    cases heq
    rw [← hid]
    exact hwrites header data hack hwritten
  | replyLost h =>
    exact ⟨(hserved h).1, fun address' chunkId hack => absurd hack (hlost address' chunkId)⟩
  | requestLost =>
    exact ⟨fun _ _ hc => hc, fun address' chunkId hack => absurd hack (hlost address' chunkId)⟩

end Delivery

/-! ## The writers -/

/-- What takes part: the two writers of versions, and the messages about nodes. -/
inductive WriterCall where
  | put (cfg : ClusterConfig) (filename : Str) (data : Bytes) (owner : Str)
  | repair (pass : RepairPass)
  | registry (q : MetadataRpc) (hq : q.AboutNodes)

namespace WriterCall

def program : WriterCall → ClusterProg Unit
  | .put cfg filename data owner => do
    let _ ← StorageClient.put cfg filename data owner
    return ()
  | .repair pass => do
    let _ ← pass.program
    return ()
  | .registry q _ => do
    let _ ← metadataCall q
    return ()

/-- A step of calls that take turns. -/
abbrev Turn (P ι : Type) :=
  Transition (Threads P Rpc Rpc.Reply (Cluster ι) Unit) (Action P Rpc Rpc.Reply)

/-- A repair pass updates a chunk that is stored. -/
def RepairReplaces {P ι : Type} (calls : P → WriterCall) (step : Turn P ι) : Prop :=
  ∃ pass req, calls step.label.process = .repair pass ∧
    step.label.event.request = .metadata (.updateChunk req) ∧
    step.label.event.fate ≠ .requestLost ∧
    ∃ old, step.source.state.metadata.Holds req.objectId old ∧ old.chunkId = req.chunk.chunkId

/-- The reply has sent a chunk with these ids, which its receiver writes under this version. -/
inductive Offers : Event Rpc Rpc.Reply → Str → Str → UInt32 → Prop where
  | created {req : CreateObjectRequest} {fate : Fate} {resp : CreateObjectResponse}
      {pb : ChunkMetadata} (hok : resp.success = true) (hpb : pb ∈ resp.object.chunks) :
      Offers ⟨.metadata (.createObject req), fate, some resp⟩ pb.chunkId resp.object.objectId 1
  | reported {fate : Fate} {resp : GetUnderReplicatedChunksResponse} {pb : ChunkMetadata}
      (hpb : pb ∈ resp.chunks) :
      Offers ⟨.metadata .getUnderReplicatedChunks, fate, some resp⟩ pb.chunkId pb.objectId
        pb.version

/-- A call to a node deletes nothing, and writes what was offered. -/
structure WritesOffered (history : List (Event Rpc Rpc.Reply)) (q : StorageRpc) : Prop where
  kept : q.deleted = none
  offered : ∀ {header data}, q.written = some (header, data) →
    ∃ e ∈ history, Offers e header.chunkId header.objectId header.version

/-- A selection of no nodes has returned one. -/
def SelectsTooMany (history : List (Event Rpc Rpc.Reply)) : Prop :=
  ∃ fate resp, ⟨.metadata (.selectNodes (selectRequest 0)), fate, some resp⟩ ∈ history ∧
    resp.nodes ≠ []

/-- What a writer sends in an update. -/
inductive UpdateRule (history : List (Event Rpc Rpc.Reply)) :
    WriterCall → UpdateChunkRequest → Prop where
  | put {cfg : ClusterConfig} {filename owner : Str} {data : Bytes} {req : UpdateChunkRequest}
      (hown : req.chunk.objectId = req.objectId) (hversion : req.chunk.fromProto.version = 1)
      (hreplicas : ∀ r ∈ req.chunk.fromProto.replicas, r.version = 1 ∧
        ∃ e ∈ history, Acknowledges e r.address req.chunk.chunkId) :
      UpdateRule history (.put cfg filename data owner) req
  | repair {pass : RepairPass} {pb : ChunkMetadata} {replicas : List ReplicaInfo}
      (hreplicas : ∀ r ∈ replicas, r.version = pb.version)
      (hnone : replicas = [] → SelectsTooMany history) :
      UpdateRule history (.repair pass) (updateRequest pb.fromProto replicas)

/-- What a writer sends. -/
def Rule (call : WriterCall) (history : List (Event Rpc Rpc.Reply)) : Rpc → Prop
  | .metadata (.updateChunk req) => UpdateRule history call req
  | .metadata _ => True
  | .storage _ q => WritesOffered history q

theorem WritesOffered.of_read (history : List (Event Rpc Rpc.Reply)) (req : ReadChunkRequest) :
    WritesOffered history (.readChunk req) where
  kept := rfl
  offered hwritten := by cases hwritten

/-! ### A put -/

/-- All replicas that the loop of a put has recorded are acknowledged. -/
def RecordedAt (chunkId : Str) (p : WriteProgress) (history : List (Event Rpc Rpc.Reply)) : Prop :=
  ∀ r ∈ p.replicas, r.version = 1 ∧ ∃ e ∈ history, Acknowledges e r.address chunkId

theorem RecordedAt.mono {chunkId : Str} {p : WriteProgress}
    {history : List (Event Rpc Rpc.Reply)} (h : RecordedAt chunkId p history)
    (e : Event Rpc Rpc.Reply) : RecordedAt chunkId p (history ++ [e]) := by
  intro r hr
  obtain ⟨hversion, e', he', hack⟩ := h r hr
  exact ⟨hversion, e', List.mem_append_left _ he', hack⟩

theorem RecordedAt.record {chunkId : Str} {p : WriteProgress}
    {history : List (Event Rpc Rpc.Reply)} (h : RecordedAt chunkId p history)
    {e : Event Rpc Rpc.Reply} (he : e ∈ history) {node : ClusterNodeInfo}
    (hack : Acknowledges e node.address chunkId) :
    RecordedAt chunkId (p.record node 1) history := by
  intro r hr
  rcases List.mem_append.mp hr with hr | hr
  · exact h r hr
  · rw [List.mem_singleton.mp hr]
    exact ⟨rfl, e, he, hack⟩

/-- A put records the nodes that acknowledge what it has been offered. -/
theorem writeChunk_keeps (call : WriterCall) {history : List (Event Rpc Rpc.Reply)}
    {chunk : ChunkInfo} {objectId : Str} (hversion : chunk.version = 1)
    (hoffered : ∃ e ∈ history, Offers e chunk.chunkId objectId 1) (data : Bytes)
    (nodes : List ClusterNodeInfo) :
    (writeToNodes (fun node => writeChunkToNode node.address chunk data objectId) 1 nodes
      {}).Keeps call.Rule (RecordedAt chunk.chunkId) history := by
  obtain ⟨e, he, hoffers⟩ := hoffered
  refine writeToNodes_keeps (fun node p later hp => ?_) nodes (fun r hr => by cases hr)
  refine .call ⟨rfl, fun {header data'} hwritten => ?_⟩ fun fate r => .done ?_
  · cases hwritten
    refine ⟨e, List.mem_append_left _ he, ?_⟩
    dsimp only
    rw [hversion]
    exact hoffers
  · split
    · next hok =>
      refine (hp.mono _).record (List.mem_append_right _ (List.mem_singleton_self _)) ?_
      refine ⟨_, fate, r, _, _, rfl, ?_, rfl, rfl⟩
      cases r with
      | none => cases hok
      | some resp => exact hok
    · exact hp.mono _

theorem putChunk_keeps (cfg : ClusterConfig) (filename owner : Str) (file : Bytes)
    {history : List (Event Rpc Rpc.Reply)} {obj : ObjectMetadata} {chunkPb : ChunkMetadata}
    (hoffered : ∃ e ∈ history, Offers e chunkPb.chunkId obj.objectId 1) (data : Bytes)
    (offset : UInt64) :
    (putChunk cfg data obj chunkPb offset).Keeps (Rule (.put cfg filename file owner))
      (fun _ _ => True) history := by
  obtain ⟨e, he, hoffers⟩ := hoffered
  refine .call trivial fun fate r => ?_
  cases r with
  | none => exact .done trivial
  | some selected =>
    have hloop := @writeChunk_keeps (.put cfg filename file owner)
      (history ++ [⟨.metadata (.selectNodes { count := cfg.replicationFactor }), fate,
        some selected⟩])
      (uploadOf obj chunkPb (chunkDataOf data offset chunkPb.size)) obj.objectId rfl
      ⟨e, List.mem_append_left _ he, hoffers⟩ (chunkDataOf data offset chunkPb.size) selected.nodes
    refine hloop.bind fun progress later hrecorded => ?_
    split
    · exact .call trivial fun fate r => .done trivial
    · refine .call (.put rfl rfl fun r hr => ?_) fun fate r => .done trivial
      rw [ChunkInfo.fromProto_toProto] at hr
      exact hrecorded r hr

theorem put_keeps (cfg : ClusterConfig) (filename : Str) (data : Bytes) (owner : Str) :
    (StorageClient.put cfg filename data owner).Keeps (Rule (.put cfg filename data owner))
      (fun _ _ => True) [] := by
  apply put_keeps_rule trivial
  rintro history obj pb offset ⟨req, fate, created, hmem, hok, rfl, hpb⟩
  exact putChunk_keeps cfg filename owner data ⟨_, hmem, .created hok hpb⟩ data offset

/-! ### A repair pass -/

/-- The replicas of the loop have this version, and are counted. -/
structure CountedAt (version : UInt32) (p : WriteProgress) : Prop where
  version : ∀ r ∈ p.replicas, r.version = version
  count : p.successCount = UInt32.ofNat p.replicas.length

theorem CountedAt.record {version : UInt32} {p : WriteProgress} (h : CountedAt version p)
    (node : ClusterNodeInfo) : CountedAt version (p.record node version) where
  version r hr := by
    rcases List.mem_append.mp hr with hr | hr
    · exact h.version r hr
    · rw [List.mem_singleton.mp hr]
  count := by
    rw [WriteProgress.record, h.count, List.length_append, List.length_singleton, UInt32.ofNat_add]
    rfl

/-- Without replicas, a quorum is one of no nodes. -/
theorem CountedAt.factor_zero {version : UInt32} {p : WriteProgress} (h : CountedAt version p)
    {cfg : ClusterConfig} (hquorum : cfg.writeAck.required cfg.replicationFactor ≤ p.successCount)
    (hnil : p.replicas = []) : cfg.replicationFactor = 0 := by
  have hcount := h.count
  rw [hnil, List.length_nil] at hcount
  rw [hcount, UInt32.le_iff_toNat_le, required_toNat] at hquorum
  by_contra hne
  have hpos : 0 < cfg.replicationFactor.toNat :=
    Nat.pos_of_ne_zero fun hzero => hne (UInt32.toNat_inj.mp hzero)
  exact absurd hquorum (Nat.not_le.mpr (quorumSize_pos _ hpos))

/-- The write to a selected node sends the header that it is given, up to its time. -/
theorem writeToSelected_eq (m : ReplicationManager) (header : ChunkHeaderData) (data : Bytes)
    (node : ClusterNodeInfo) : ∃ address q created, m.writeToSelected header data node =
      .call (.storage address q) (fun r => .done (q.acknowledged r)) ∧ q.deleted = none ∧
      q.written = some (ChunkHeader.ofData { header with createdAtMs := created }, data) := by
  rw [ReplicationManager.writeToSelected]
  split
  · refine ⟨m.localAddress, .writeChunk _, 0, congrArg (Prog.call _) (funext fun r => ?_), rfl, rfl⟩
    cases r <;> rfl
  · refine ⟨node.address, .replicateChunk _, header.createdAtMs,
      congrArg (Prog.call _) (funext fun r => ?_), rfl, rfl⟩
    cases r <;> rfl

/-- Replication returns the replicas of one loop, which are enough, or it fails. -/
theorem replicateChunk_keeps (call : WriterCall) {history : List (Event Rpc Rpc.Reply)}
    {chunk : ChunkInfo}
    (hoffered : ∃ e ∈ history, Offers e chunk.chunkId chunk.objectId chunk.version)
    (m : ReplicationManager) (now : TimestampMs) (data : Bytes) (cfg : ClusterConfig) :
    (m.replicateChunk now chunk data cfg.replicationFactor cfg.writeAck).Keeps call.Rule
      (fun result later => (∀ r ∈ result.replicas, r.version = chunk.version) ∧
        (result.success = true → result.replicas = [] → SelectsTooMany later)) history := by
  obtain ⟨e, he, hoffers⟩ := hoffered
  have hfailed : ∀ (message : Str) (later : List (Event Rpc Rpc.Reply)),
      (∀ r ∈ ({ message := message } : ReplicationManager.ReplicationResult).replicas,
          r.version = chunk.version) ∧
        (false = true → ([] : List ReplicaInfo) = [] → SelectsTooMany later) :=
    fun message later => ⟨by simp, fun h => by cases h⟩
  refine .call trivial fun fate r => ?_
  cases r with
  | none => exact .done (hfailed _ _)
  | some selected =>
    simp only [Prog.bind]
    split
    · exact .done (hfailed _ _)
    · next hne =>
      have hloop : ∀ later, (writeToNodes (m.writeToSelected (ReplicationManager.headerOf now chunk
          data) data) chunk.version selected.nodes {}).Keeps call.Rule
          (fun p _ => CountedAt chunk.version p) (history ++ later) := by
        intro later
        refine writeToNodes_keeps (fun node p more hp => ?_) selected.nodes ⟨by simp, rfl⟩
        obtain ⟨address, q, created, hwrite, hkept, hwritten⟩ := writeToSelected_eq m
          (ReplicationManager.headerOf now chunk data) data node
        rw [hwrite]
        refine .call ⟨hkept, fun {header data'} hsent => ?_⟩ fun fate r => .done ?_
        · rw [hwritten] at hsent
          cases hsent
          exact ⟨e, by simp [he], hoffers⟩
        · split
          · exact hp.record node
          · exact hp
      refine (hloop _).bind fun progress later hcounted => .done ⟨hcounted.version, ?_⟩
      intro hsuccess hnil
      have hzero := hcounted.factor_zero (of_decide_eq_true hsuccess) hnil
      refine ⟨fate, selected, ?_, hne⟩
      rw [← hzero]
      simp [selectRequest]

theorem fetch_keeps (call : WriterCall) (chunk : ChunkInfo) (excludeNode : Str)
    (replicas : List ReplicaInfo) (history : List (Event Rpc Rpc.Reply)) :
    (fetchChunkFromReplica chunk excludeNode replicas).Keeps call.Rule (fun _ _ => True)
      history := by
  induction replicas generalizing history with
  | nil => exact .done trivial
  | cons rep reps ih =>
    rw [fetchChunkFromReplica]
    split
    · exact ih history
    · refine .bind (.call (.of_read _ _) fun fate r => ?_ : Prog.Keeps _ (fun _ _ => True) _ _)
        fun data later _ => ?_
      · cases r <;> exact .done trivial
      · cases data with
        | none => exact ih _
        | some data => exact .done trivial

theorem repairChunk_keeps {pass : RepairPass} {history : List (Event Rpc Rpc.Reply)}
    {pb : ChunkMetadata} (hoffered : ∃ e ∈ history, Offers e pb.chunkId pb.objectId pb.version)
    (now : TimestampMs) (excludeNode : Str) :
    (repairChunk pass.cfg pass.manager now excludeNode pb.fromProto).Keeps (Rule (.repair pass))
      (fun _ _ => True) history := by
  obtain ⟨e, he, hoffers⟩ := hoffered
  refine (fetch_keeps _ _ _ _ history).bind fun data later _ => ?_
  cases data with
  | none => exact .done trivial
  | some data =>
    have hreplicate := @replicateChunk_keeps (.repair pass) (history ++ later) pb.fromProto
      ⟨e, List.mem_append_left _ he, hoffers⟩ pass.manager now data pass.cfg
    refine hreplicate.bind fun result more hresult => ?_
    split
    · next hok => exact .call (.repair hresult.1 (hresult.2 hok)) fun fate r => .done trivial
    · exact .done trivial

theorem repair_keeps (pass : RepairPass) :
    pass.program.Keeps (Rule (.repair pass)) (fun _ _ => True) [] := by
  apply RepairPass.program_keeps (fun _ _ => trivial) (fun _ => trivial)
  intro history pb now excludeNode hreported
  obtain ⟨fate, resp, hmem, hpb⟩ := hreported
  exact repairChunk_keeps ⟨_, hmem, .reported hpb⟩ _ _

/-- All calls keep the rule. -/
theorem keeps (call : WriterCall) : call.program.Keeps call.Rule (fun _ _ => True) [] := by
  cases call with
  | put cfg filename data owner =>
    exact (put_keeps cfg filename data owner).bind fun _ _ _ => .done trivial
  | repair pass => exact (repair_keeps pass).bind fun _ _ _ => .done trivial
  | registry q hq =>
    refine .call ?_ fun fate r => .done trivial
    cases q with
    | updateChunk req => exact hq.elim
    | _ => exact trivial

/-! ## Steps -/

section Step

variable {P ι : Type} {reach : Str → Option ι}

/-- What holds after the steps of `before`, as long as no repair replaces a chunk: every
version is 1. -/
structure Inv (reach : Str → Option ι) (before : List (Turn P ι)) (c : Cluster ι) : Prop where
  chunkIds : c.metadata.ChunkIds
  parented : c.metadata.Parented
  offered : ∀ t ∈ before, ∀ {chunkId objectId version},
    Offers t.label.event chunkId objectId version →
      chunkId.length < 2 ^ 32 ∧ objectId.length < 2 ^ 32 ∧ version = 1
  acknowledged : ∀ t ∈ before, ∀ {address chunkId}, Acknowledges t.label.event address chunkId →
    c.HasVersion reach address chunkId 1
  stored : ∀ {key chunk}, c.metadata.Holds key chunk → chunk.version = 1 ∧
    ∀ r ∈ chunk.replicas, r.version = 1 ∧ c.HasVersion reach r.address chunk.chunkId 1

theorem Inv.versionsTrack {before : List (Turn P ι)} {c : Cluster ι} (h : Inv reach before c) :
    VersionsTrack reach c := by
  intro key chunk hc r hr
  obtain ⟨hversion, hreplicas⟩ := h.stored hc
  rw [hversion]
  exact hreplicas r hr

theorem inv_start {c : Cluster ι} {nodes : NodeTable}
    (hstart : c.metadata = { store := { nodes := nodes } }) :
    Inv reach ([] : List (Turn P ι)) c := by
  have hnone : ∀ key chunk, ¬c.metadata.Holds key chunk := by
    intro key chunk hc
    obtain ⟨obj, hobj, -⟩ := hc
    rw [hstart] at hobj
    simp at hobj
  refine ⟨?_, ?_, by simp, by simp, fun {key chunk} hc => absurd hc (hnone key chunk)⟩
  · rw [hstart]
    exact (MetadataNode.numbered_start nodes).ids
  · rw [hstart]
    exact (MetadataNode.numbered_start nodes).parented

/-- One more step, and the chunks that it stores. -/
theorem Inv.append {before : List (Turn P ι)} {c c' : Cluster ι} (h : Inv reach before c)
    {t : Turn P ι} (hids : c'.metadata.ChunkIds) (hparented : c'.metadata.Parented)
    (hoffered : ∀ {chunkId objectId version}, Offers t.label.event chunkId objectId version →
      chunkId.length < 2 ^ 32 ∧ objectId.length < 2 ^ 32 ∧ version = 1)
    (hkeeps : ∀ address chunkId, c.HasVersion reach address chunkId 1 →
      c'.HasVersion reach address chunkId 1)
    (hack : ∀ address chunkId, Acknowledges t.label.event address chunkId →
      c'.HasVersion reach address chunkId 1)
    (hstored : ∀ {key chunk}, c'.metadata.Holds key chunk → c.metadata.Holds key chunk ∨
      chunk.version = 1 ∧
        ∀ r ∈ chunk.replicas, r.version = 1 ∧ c.HasVersion reach r.address chunk.chunkId 1) :
    Inv reach (before ++ [t]) c' := by
  have hmem : ∀ {u}, u ∈ before ++ [t] → u ∈ before ∨ u = t := fun hu =>
    (List.mem_append.mp hu).imp_right List.mem_singleton.mp
  refine ⟨hids, hparented, fun u hu {chunkId objectId version} hoffers => ?_,
    fun u hu {address chunkId} hacknowledges => ?_, fun {key chunk} hc => ?_⟩
  · rcases hmem hu with hu | rfl
    · exact h.offered u hu hoffers
    · exact hoffered hoffers
  · rcases hmem hu with hu | rfl
    · exact hkeeps _ _ (h.acknowledged u hu hacknowledges)
    · exact hack _ _ hacknowledges
  · have hversions : chunk.version = 1 ∧
        ∀ r ∈ chunk.replicas, r.version = 1 ∧ c.HasVersion reach r.address chunk.chunkId 1 := by
      rcases hstored hc with hc | hnew
      · exact h.stored hc
      · exact hnew
    refine ⟨hversions.1, fun r hr => ?_⟩
    obtain ⟨hversion, hheader⟩ := hversions.2 r hr
    exact ⟨hversion, hkeeps _ _ hheader⟩

/-- A reply offers chunks of version 1. -/
theorem Inv.offers {before : List (Turn P ι)} {c : Cluster ι} (h : Inv reach before c)
    {svc : ClusterConfig} {q : MetadataRpc} {fate : Fate} {resp : q.Reply} {n' : MetadataNode}
    (hserves : Serves svc q c.metadata resp n') {chunkId objectId : Str} {version : UInt32}
    (hoffers : Offers ⟨.metadata q, fate, some resp⟩ chunkId objectId version) :
    chunkId.length < 2 ^ 32 ∧ objectId.length < 2 ^ 32 ∧ version = 1 := by
  cases hoffers with
  | created hok hpb =>
    rcases hserves.create_cases with ⟨hrefused, -⟩ | ⟨obj, rfl, hcreated⟩
    · rw [hrefused] at hok
      cases hok
    · exact ⟨hcreated.chunkId_length _ hpb, hcreated.objectId_length, rfl⟩
  | reported hpb =>
    obtain ⟨obj, chunk, ⟨⟨key, hkey⟩, hchunk⟩, -, rfl⟩ := hserves.mem_reported.mp hpb
    have hholds : c.metadata.Holds key chunk := ⟨obj, hkey, hchunk⟩
    refine ⟨h.chunkIds.chunkId_length hholds, ?_, (h.stored hholds).1⟩
    rw [ChunkInfo.toProto_objectId, MetadataNode.Parented.of_holds h.parented hholds]
    exact h.chunkIds.key_length hholds

/-- What a writer sends to a node has version 1. -/
theorem Inv.writesVersion [DecidableEq P] {before : List (Turn P ι)} {c : Cluster ι}
    (h : Inv reach before c) {p : P} {q : StorageRpc} (hq : WritesOffered (callsOf p before) q) :
    q.WritesVersion 1 where
  kept := hq.kept
  fits hwritten := by
    obtain ⟨e, he, hoffers⟩ := hq.offered hwritten
    obtain ⟨t, ht, hlabel⟩ := mem_callsOf.mp he
    exact h.offered t ht (by rw [hlabel]; exact hoffers)

theorem Rule.ownChunk {call : WriterCall} {history : List (Event Rpc Rpc.Reply)}
    {q : MetadataRpc} (h : call.Rule history (.metadata q)) : q.OwnChunk := by
  cases q with
  | updateChunk req =>
    cases h with
    | put hown _ _ => exact hown
    | repair _ _ => exact rfl
  | _ => exact trivial

variable [DecidableEq P] [DecidableEq ι] {svc : ClusterConfig} {calls : P → WriterCall}
  {before : List (Turn P ι)} {step : Turn P ι}

omit [DecidableEq ι] in
/-- The chunks that are stored after a metadata call, when no repair replaces one. -/
theorem Inv.stored_after {c : Cluster ι} (h : Inv reach before c) {p : P} {q : MetadataRpc}
    {resp : q.Reply} {n' : MetadataNode} (hserves : Serves svc q c.metadata resp n')
    (hrule : (calls p).Rule (callsOf p before) (.metadata q))
    (hcond : ∀ pass req, calls p = .repair pass → q = .updateChunk req →
      ∀ old, c.metadata.Holds req.objectId old → old.chunkId ≠ req.chunk.chunkId)
    {key : Str} {chunk : ChunkInfo} (hc : n'.Holds key chunk) :
    c.metadata.Holds key chunk ∨ chunk.version = 1 ∧
      ∀ r ∈ chunk.replicas, r.version = 1 ∧ c.HasVersion reach r.address chunk.chunkId 1 := by
  rcases MetadataNode.holds_serve hserves hc with
    hold | ⟨-, hplanned⟩ | ⟨req, old, rfl, rfl, rfl, hold, hid⟩
  · exact .inl hold
  · refine .inr ⟨hplanned.version, ?_⟩
    rw [hplanned.replicas]
    simp
  · have hupdate : UpdateRule (callsOf p before) (calls p) req := hrule
    generalize hcall : calls p = call at hupdate
    cases hupdate with
    | put _ hversion hreplicas =>
      refine .inr ⟨hversion, fun r hr => ?_⟩
      obtain ⟨hr1, e, he, hack⟩ := hreplicas r hr
      obtain ⟨t, ht, hlabel⟩ := mem_callsOf.mp he
      exact ⟨hr1, h.acknowledged t ht (by rw [hlabel]; exact hack)⟩
    | repair _ _ => exact absurd hid (hcond _ _ hcall rfl old hold)

theorem Inv.after (h : Inv reach before step.source.state)
    (hstep : Threads.Step (Cluster.Serves svc reach) step.source step.label step.target)
    (hrule : (calls step.label.process).Rule (callsOf step.label.process before)
      step.label.event.request) (hcond : ¬RepairReplaces calls step) :
    Inv reach (before ++ [step]) step.target.state := by
  have hdelivers := hstep.delivers
  have hids := delivers_chunkIds hdelivers h.chunkIds
  obtain ⟨source, ⟨process, q, fate, r⟩, target⟩ := step
  cases q with
  | storage address q =>
    have hmetadata := delivers_storage_metadata hdelivers
    obtain ⟨hkeeps, hack⟩ := delivers_hasVersion hdelivers (h.writesVersion hrule)
    refine h.append hids ?_ (fun hoffers => by cases hoffers) hkeeps hack fun hc => .inl ?_
    · rw [hmetadata]
      exact h.parented
    · rwa [hmetadata] at hc
  | metadata q =>
    have hnoAck : ∀ address chunkId,
        ¬Acknowledges ⟨.metadata q, fate, r⟩ address chunkId := by
      rintro address chunkId ⟨_, _, _, _, _, heq, -⟩
      cases heq
    rcases delivers_metadata hdelivers with ⟨-, hr, hsame⟩ | ⟨hfate, hnodes, resp, hserves, -, hr⟩
    · simp only at hsame hr
      subst hr
      rw [hsame] at hids ⊢
      exact h.append hids h.parented (fun hoffers => by cases hoffers) (fun _ _ hc => hc)
        (fun _ _ hack => absurd hack (hnoAck _ _)) .inl
    · have hparented : target.state.metadata.Parented :=
        @MetadataNode.Parented.serve _ _ h.parented _ _ _ (Rule.ownChunk hrule) hserves
      refine h.append hids hparented (fun hoffers => ?_)
        (fun _ _ hc => hc.congr hnodes) (fun _ _ hack => absurd hack (hnoAck _ _))
        (h.stored_after hserves hrule fun pass req hcall hq old hold hid => ?_)
      · rcases hr with rfl | rfl
        · cases hoffers
        · exact h.offers hserves hoffers
      · subst hq
        exact hcond ⟨pass, req, hcall, rfl, hfate, old, hold, hid⟩

/-- A repair that replaces a chunk stores the next version with replicas of the last. -/
theorem RepairReplaces.not_versionsTrack (h : RepairReplaces calls step)
    (hids : step.source.state.metadata.ChunkIds)
    (hstep : Threads.Step (Cluster.Serves svc reach) step.source step.label step.target)
    (hrule : (calls step.label.process).Rule (callsOf step.label.process before)
      step.label.event.request)
    (hselects : ¬SelectsTooMany (callsOf step.label.process before)) :
    ¬VersionsTrack reach step.target.state := by
  intro htrack
  obtain ⟨pass, req, hcall, hreq, hfate, old, hold, hid⟩ := h
  have hdelivers := hstep.delivers
  obtain ⟨source, ⟨process, q, fate, r⟩, target⟩ := step
  simp only at hreq hcall
  subst hreq
  have hupdate : UpdateRule (callsOf process before) (.repair pass) req := hcall ▸ hrule
  cases hupdate with
  | @repair _ pb replicas hreplicas hnone =>
    rcases (delivers_update hids hdelivers).2 with ⟨-, habsent⟩ | hreplaces
    · exact habsent hfate ⟨old, hold, hid⟩
    · have hnew := (hreplaces.holds _ _).mpr (.inl ⟨rfl, rfl⟩)
      cases replicas with
      | nil => exact hselects (hnone rfl)
      | cons first rest =>
        have hfirst := hreplicas first List.mem_cons_self
        have hnext := (htrack _ _ hnew first (by
          rw [updateRequest, ChunkInfo.fromProto_toProto]
          exact List.mem_cons_self)).1
        rw [updateRequest, ChunkInfo.fromProto_toProto, hfirst] at hnext
        have hversion : pb.version = pb.version + 1 := hnext
        simp at hversion

/-- A selection of no nodes returns none. -/
theorem not_selectsTooMany {p : P}
    (hsteps : ∀ t ∈ before, Threads.Step (Cluster.Serves svc reach) t.source t.label t.target) :
    ¬SelectsTooMany (callsOf p before) := by
  rintro ⟨fate, resp, hmem, hne⟩
  obtain ⟨t, ht, hlabel⟩ := mem_callsOf.mp hmem
  have hdelivers := (hsteps t ht).delivers
  rw [hlabel] at hdelivers
  rcases delivers_metadata hdelivers with ⟨-, hr, -⟩ | ⟨-, -, resp', hserves, -, hr⟩
  · cases hr
  · obtain rfl : resp = resp' := by simpa using hr
    obtain ⟨-, nodes, hselected, hnodes⟩ := hserves.select_leastUsed
    have hlength := hselected.length_eq
    rw [UInt32.toNat_zero, Nat.zero_min, List.length_eq_zero_iff] at hlength
    rw [hlength] at hnodes
    exact hne hnodes

end Step

/-! ## Runs -/

section Runs

variable {P ι : Type} [DecidableEq P] [DecidableEq ι] {svc : ClusterConfig}
  {reach : Str → Option ι} {trace : List (Turn P ι)}
  {t' : Threads P Rpc Rpc.Reply (Cluster ι) Unit}

/-- The invariant holds at the end of every run in which no repair replaces a chunk. -/
theorem run_inv (calls : P → WriterCall) (c : Cluster ι) {nodes : NodeTable}
    (hstart : c.metadata = { store := { nodes := nodes } })
    (hrun : Run (Threads.Step (Cluster.Serves svc reach)) ⟨c, fun p => (calls p).program⟩ trace t')
    (hcond : ∀ step ∈ trace, ¬RepairReplaces calls step) : Inv reach trace t'.state := by
  have hrule := Run.keeps hrun (fun _ => []) fun p => (calls p).keeps
  have hend := @Run.invariant_trace _ _ _
    (fun before (t : Threads P Rpc Rpc.Reply (Cluster ι) Unit) => Inv reach before t.state) _ _ _
    hrun
  refine hend (inv_start hstart) fun before step after htrace hstep h => ?_
  exact h.after hstep (hrule before step after htrace) (hcond step (by simp [htrace]))

/-- In every interleaving of puts and repair passes, whatever becomes of their calls, the
versions agree in every state that is reached exactly if no repair replaces a stored chunk. -/
theorem versions_track_iff (calls : P → WriterCall) (c : Cluster ι) {nodes : NodeTable}
    (hstart : c.metadata = { store := { nodes := nodes } })
    (hrun : Run (Threads.Step (Cluster.Serves svc reach)) ⟨c, fun p => (calls p).program⟩ trace
      t') :
    (∀ step ∈ trace, VersionsTrack reach step.target.state) ↔
      ∀ step ∈ trace, ¬RepairReplaces calls step := by
  constructor
  · intro htrack step hmem hreplaces
    have hsteps := hrun.step_of_mem
    obtain ⟨before, after, htrace⟩ := List.append_of_mem hmem
    have hrule := Run.keeps hrun (fun _ => []) (fun p => (calls p).keeps) before step after htrace
    have hselects : ¬SelectsTooMany (callsOf step.label.process before) :=
      not_selectsTooMany fun t ht => hsteps t (by simp [htrace, ht])
    rw [htrace] at hrun
    obtain ⟨hbefore, hstep, -⟩ := hrun.split_step
    have hids : step.source.state.metadata.ChunkIds := by
      refine run_chunkIds hbefore ?_
      rw [hstart]
      exact (MetadataNode.numbered_start nodes).ids
    exact hreplaces.not_versionsTrack hids hstep hrule hselects (htrack step hmem)
  · intro hcond step hmem
    obtain ⟨before, after, htrace⟩ := List.append_of_mem hmem
    have hsplit : trace = (before ++ [step]) ++ after := by simp [htrace]
    rw [hsplit] at hrun
    obtain ⟨s, hfirst, -⟩ := hrun.split
    obtain ⟨-, -, hlast⟩ := hfirst.split_step
    have hinv := run_inv calls c hstart hfirst fun t ht => hcond t (by
      rw [hsplit]
      exact List.mem_append_left _ ht)
    rw [hlast.eq_of_nil]
    exact hinv.versionsTrack

end Runs

/-! ## A put and a repair -/

section PutThenRepair

private def bothNodes : List (Str × Str) :=
  [(str "n1", str "n1:1"), (str "n2", str "n2:1")]

private def addressHome (address : Str) : Option Bool :=
  if address = str "n1:1" then some true
  else if address = str "n2:1" then some false
  else none

/-- Two registered nodes that store nothing. -/
private def unused : Cluster Bool :=
  ⟨{ store := { nodes := registered bothNodes } },
    fun _ => (ChunkStore.construct (str "/data") ∅ [], ∅)⟩

/-- Both nodes accept. -/
private def bothAccept : List (ClusterNodeInfo × Bool) :=
  bothNodes.map fun entry => ((newNode entry).toProto, true)

/-- The chunk of an empty file on both nodes. -/
private def onBoth : ChunkInfo :=
  { uploadOf (emptyObject {} {} (str "a.txt") (str "default")).toProto
      { chunkId := draw 1, objectId := draw 0, version := 1 } [] with
    replicas := (recordAll 1 bothAccept {}).replicas }

private def secondPass : RepairPass :=
  { cfg := {}
    manager := { localNodeId := str "n1", localAddress := str "n1:1" }
    now := fun _ => 0 }

private def putThenRepair (p : Bool) : WriterCall :=
  if p then .put {} (str "a.txt") [] (str "default") else .repair secondPass

/-- The put stores the chunk on both nodes. -/
private theorem put_both_runs : ∃ trace result c,
    Runs (Cluster.Serves {} addressHome) (StorageClient.put {} (str "a.txt") [] (str "default"))
        unused trace result c ∧
      c.metadata = oneObject {} bothNodes onBoth ∧ (c.nodes true).Reads (draw 1) [] := by
  obtain ⟨order, hpossible, hnodes⟩ := @leastUsed_registered { nodes := registered bothNodes }
    bothNodes bothNodes rfl (by decide) (.refl _) 3
  have hasked : bothAccept.map Prod.fst = (({ nodes := registered bothNodes } :
      MetadataStore).selectNodes order 3 .leastUsed).1.map NodeInfo.toProto := by
    rw [← hnodes]
    rfl
  obtain ⟨selected, writes, c₁, c₂, hselect, hwrites, hstored, -, -⟩ :=
    @empty_upload_runs _ _ {} {} addressHome (str "a.txt") (str "default")
      { nodes := registered bothNodes } unused.nodes order bothAccept hpossible hasked (by decide)
  -- the selection and the writes leave the metadata
  have hmetadata : c₂.metadata =
      emptyCreated {} {} (str "a.txt") (str "default") { nodes := registered bothNodes } := by
    obtain ⟨-, resp, -, hserves⟩ := hselect.metadata_cases
    obtain ⟨order', -, -, hn⟩ := hserves.select_nodes
    rw [strategyOf_nil, selectNodes_leastUsed_store] at hn
    rw [hstored.overwrites.metadata, hn]
  have hserves := @serves_update_empty {} {} (str "a.txt") (str "default")
    { nodes := registered bothNodes } onBoth rfl
  rw [← hmetadata] at hserves
  have hupdate : Delivers (Cluster.Serves {} addressHome) (.metadata (.updateChunk
      { objectId := draw 0, chunk := onBoth.toProto })) .answered c₂ _ _ :=
    .answered (.metadata hserves)
  refine ⟨_, _, _, put_empty_runs Finmap.notMem_empty (putChunk_runs_update hselect hwrites
    (by decide) rfl hupdate), rfl, ?_⟩
  obtain ⟨i, hi, hwritten⟩ := hstored.stored (newNode (str "n1", str "n1:1")).toProto (by decide)
  obtain rfl : true = i := Option.some.inj hi
  exact (hwritten.stores (draw_length 1) (draw_length 0)).reads

/-- Then the repair replaces the chunk, since two replicas are fewer than three. -/
private theorem repair_both_runs {c : Cluster Bool}
    (hmetadata : c.metadata = oneObject {} bothNodes onBoth)
    (hread : (c.nodes true).Reads (draw 1) []) : ∃ trace result c',
    Runs (Cluster.Serves {} addressHome) secondPass.program c trace result c' ∧
      c'.metadata.Holds (draw 0) (repairedChunk onBoth bothAccept) := by
  have hids : c.metadata.ChunkIds := by
    have hreached : (oneObject {} bothNodes onBoth).Reached {} MetadataRpc.OwnChunk :=
      oneObject_reached rfl rfl
    rw [hmetadata]
    exact hreached.chunkIds
  have hholds : c.metadata.Holds (draw 0) onBoth := by
    rw [hmetadata]
    exact oneObject_holds.mpr ⟨rfl, rfl⟩
  have hreports : c.metadata.Reports {} onBoth := by
    have hcount : onBoth.replicas.countP c.metadata.store.isLive ≤ 2 := List.countP_le_length
    exact ⟨⟨_, hholds⟩, hcount.trans_lt (by decide)⟩
  have hfetched : Fetched addressHome c [] onBoth [] :=
    ⟨_, List.mem_cons_self, by decide, true, rfl, hread⟩
  have hleast : c.metadata.store.LeastUsed 3 (bothNodes.map newNode) :=
    leastUsed_registered (by rw [hmetadata, oneObject_nodes]) (by decide) (.refl bothNodes) 3
  have hturn : ∀ now, ∃ turn ok c', Runs (Cluster.Serves {} addressHome)
      (repairChunk secondPass.cfg secondPass.manager now secondPass.excludeNode onBoth)
        { c with metadata := c.metadata } turn ok c' ∧
      c'.metadata.Holds (draw 0) (repairedChunk onBoth bothAccept) := by
    intro now
    obtain ⟨turn, r, writes, c₁, c', hrun, -, -, -, hreplaces, -⟩ :=
      @RepairPass.repairChunk_runs_updated _ _ {} addressHome secondPass.cfg secondPass.manager now
        [] onBoth [] c _ bothAccept hids hholds hfetched hleast (by decide) rfl (by decide)
        (Nat.le_refl 2)
    exact ⟨turn, true, c', hrun, (hreplaces.holds _ _).mpr (.inl ⟨rfl, rfl⟩)⟩
  obtain ⟨trace, result, turn, c', hrun, hheld, -⟩ :=
    @RepairPass.runs_one _ _ {} addressHome secondPass c _ (.inl rfl) _ hreports
      (fun _ c' => c'.metadata.Holds (draw 0) (repairedChunk onBoth bothAccept)) hturn
  exact ⟨trace, result, c', hrun, hheld⟩

/-- After a put to two nodes the versions agree. -/
theorem versions_track_one_put : ∃ (t' : Threads Bool Rpc Rpc.Reply (Cluster Bool) Unit)
    (trace : List (Turn Bool Bool)),
    Run (Threads.Step (Cluster.Serves {} addressHome)) ⟨unused, fun p => (putThenRepair p).program⟩
        trace t' ∧
      t'.state.metadata.Holds (draw 0) onBoth ∧ onBoth.replicas.length = 2 ∧
      ∀ step ∈ trace, VersionsTrack addressHome step.target.state := by
  obtain ⟨events, result, c, hput, hmetadata, -⟩ := put_both_runs
  obtain ⟨trace, hrun, hlabels⟩ := ((Advances.of_runs hput).bind fun _ => .done ()).run true
    (fun p => (putThenRepair p).program) rfl
  refine ⟨_, trace, hrun, ?_, rfl, (versions_track_iff putThenRepair unused rfl hrun).mpr ?_⟩
  · rw [hmetadata]
    exact oneObject_holds.mpr ⟨rfl, rfl⟩
  · rintro step hstep ⟨pass, req, hcall, -⟩
    have hlabel := List.mem_map_of_mem (f := Transition.label) hstep
    rw [hlabels] at hlabel
    obtain ⟨e, -, heq⟩ := List.mem_map.mp hlabel
    rw [← heq] at hcall
    cases hcall

/-- A repair that runs after the put leaves version 2 in the chunk and version 1 in its
replicas. -/
theorem repair_outdates_replicas : ∃ (t' : Threads Bool Rpc Rpc.Reply (Cluster Bool) Unit)
    (trace : List (Turn Bool Bool)),
    Run (Threads.Step (Cluster.Serves {} addressHome)) ⟨unused, fun p => (putThenRepair p).program⟩
        trace t' ∧
      (∀ p, t'.programs p = .done ()) ∧ ¬VersionsTrack addressHome t'.state := by
  obtain ⟨events, result, c, hput, hmetadata, hread⟩ := put_both_runs
  obtain ⟨trace, hfirst, -⟩ := ((Advances.of_runs hput).bind fun _ => .done ()).run true
    (fun p => (putThenRepair p).program) rfl
  obtain ⟨events', result', c', hrepair, hheld⟩ := repair_both_runs hmetadata hread
  have hwaiting : Function.update (fun p => (putThenRepair p).program) true (.done ()) false =
      (putThenRepair false).program := Function.update_of_ne Bool.false_ne_true _ _
  obtain ⟨trace', hsecond, -⟩ := ((Advances.of_runs hrepair).bind fun _ => .done ()).run false _
    hwaiting
  refine ⟨_, _, hfirst.trans hsecond, fun p => ?_, fun htrack => ?_⟩
  · cases p <;> rfl
  · have hversion := (htrack _ _ hheld _ List.mem_cons_self).1
    exact absurd hversion (by decide)

end PutThenRepair

end WriterCall

end StorageEngine
