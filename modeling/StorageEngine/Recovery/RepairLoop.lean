import StorageEngine.Cluster.Accounted
import StorageEngine.Recovery.Detection
import StorageEngine.Recovery.RepairRun

/-!
# The loop of a repair pass

A pass has one turn for each reported chunk, and no turn touches the chunk of another.  So
what a pass does to a chunk is what one turn does to it, from the state before the pass.

* `RepairLoop.exists_turn`: the turn of a chunk.
* `RepairPass.run`: a pass is a loop over the chunks of its scan.
* `RepairPass.runs_one`: a pass that loses all reads but those of one chunk.
-/

namespace StorageEngine

open Lib Lib.Remote MetadataStore MetadataService RecoveryManager StorageClient

/-- The chunk after a repair that these nodes have accepted. -/
def repairedChunk (chunk : ChunkInfo) (answers : List (ClusterNodeInfo × Bool)) : ChunkInfo :=
  { chunk with
    version := chunk.version + 1
    replicas := (recordAll chunk.version answers {}).replicas }

theorem updateRequest_fromProto (chunk : ChunkInfo) (answers : List (ClusterNodeInfo × Bool)) :
    (updateRequest chunk (recordAll chunk.version answers {}).replicas).chunk.fromProto =
      repairedChunk chunk answers :=
  ChunkInfo.fromProto_toProto _

theorem MetadataStore.isLive_congr {s s' : MetadataStore} (h : s'.nodes = s.nodes) :
    s'.isLive = s.isLive := by
  funext r
  rw [isLive, isLive, h]

namespace Copied

variable {ι : Type} {cfg : ClusterConfig} {reach : Str → Option ι} {m : ReplicationManager}
  {chunk : ChunkInfo} {data : Bytes} {c c' : Cluster ι} {nodes : List NodeInfo}
  {answers : List (ClusterNodeInfo × Bool)} {writes : List (Event Rpc Rpc.Reply)}

/-- The recorded replicas are on nodes that are online. -/
theorem replicas_live (h : Copied cfg reach m chunk data c nodes answers writes c') :
    ∀ rep ∈ (repairedChunk chunk answers).replicas, c.metadata.store.isLive rep = true := by
  intro rep hrep
  have hmem : rep.nodeId ∈ (acceptedOf answers).map ClusterNodeInfo.nodeId := by
    rw [← recordAll_nodeIds chunk.version]
    exact List.mem_map_of_mem hrep
  obtain ⟨accepted, hsub, heq⟩ := h.accepted_sublist
  rw [heq, List.map_map] at hmem
  obtain ⟨node, hnode, hid⟩ := List.mem_map.mp hmem
  obtain ⟨hfind, honline⟩ := h.selected.online (hsub.subset hnode)
  have hid' : node.id = rep.nodeId := hid
  rw [isLive, ← hid', hfind]
  exact honline

/-- No node is recorded twice. -/
theorem replicas_nodup (h : Copied cfg reach m chunk data c nodes answers writes c') :
    ((repairedChunk chunk answers).replicas.map ReplicaInfo.nodeId).Nodup := by
  obtain ⟨accepted, hsub, heq⟩ := h.accepted_sublist
  have hids : (acceptedOf answers).map ClusterNodeInfo.nodeId = accepted.map NodeInfo.id := by
    rw [heq, List.map_map]
    rfl
  rw [repairedChunk, recordAll_nodeIds, hids]
  exact h.selected.ids_nodup.sublist (hsub.map _)

end Copied

theorem repairedChunk_length (chunk : ChunkInfo) (answers : List (ClusterNodeInfo × Bool)) :
    (repairedChunk chunk answers).replicas.length = (acceptedOf answers).length := by
  have hlength := congrArg List.length (recordAll_replicas chunk.version answers)
  rwa [List.length_map, List.length_map] at hlength

/-! ## One turn -/

/-- The call updates or writes the chunk. -/
def Concerns (id : Str) (e : Event Rpc Rpc.Reply) : Prop :=
  (∃ req, e.request = .metadata (.updateChunk req) ∧ req.chunk.chunkId = id) ∨
    ∃ address q fate r header data, e = ⟨.storage address q, fate, r⟩ ∧
      q.written = some (header, data) ∧ header.chunkId = id

theorem ReadsOnly.not_update {chunkId : Str} {reads : List (Event Rpc Rpc.Reply)}
    (h : ReadsOnly chunkId reads) {e : Event Rpc Rpc.Reply} (he : e ∈ reads)
    (req : UpdateChunkRequest) : e.request ≠ .metadata (.updateChunk req) := by
  obtain ⟨address, hrequest⟩ := h e he
  simp [hrequest]

theorem ReadsOnly.not_write {chunkId : Str} {reads : List (Event Rpc Rpc.Reply)}
    (h : ReadsOnly chunkId reads) {address : Str} {q : StorageRpc} {fate : Fate}
    {r : Option (Rpc.Reply (.storage address q))} (he : ⟨.storage address q, fate, r⟩ ∈ reads) :
    q.written = none := by
  obtain ⟨address', hrequest⟩ := h _ he
  cases hrequest
  rfl

theorem Copied.not_update {ι : Type} {cfg : ClusterConfig} {reach : Str → Option ι}
    {m : ReplicationManager} {chunk : ChunkInfo} {data : Bytes} {c c' : Cluster ι}
    {nodes : List NodeInfo} {answers : List (ClusterNodeInfo × Bool)}
    {writes : List (Event Rpc Rpc.Reply)}
    (h : Copied cfg reach m chunk data c nodes answers writes c') {e : Event Rpc Rpc.Reply}
    (he : e ∈ writes) (req : UpdateChunkRequest) : e.request ≠ .metadata (.updateChunk req) := by
  obtain ⟨address, q, fate, r, rfl, -⟩ := h.asked.writes e he
  simp

section Turn

variable {ι : Type} [DecidableEq ι] {svc cfg : ClusterConfig} {reach : Str → Option ι}
  {m : ReplicationManager} {excludeNode : Str} {chunk : ChunkInfo} {c c' : Cluster ι}
  {trace : List (Event Rpc Rpc.Reply)} {ok : Bool}

namespace RepairTurn

theorem chunkIds (h : RepairTurn svc cfg reach m excludeNode chunk c trace ok c')
    (hids : c.metadata.ChunkIds) : c'.metadata.ChunkIds := by
  cases h with
  | unread => exact hids
  | unselected => exact hids
  | refused _ _ hcopied => exact hcopied.asked.overwrites.metadata ▸ hids
  | updated _ _ hcopied _ _ hupdate =>
    exact delivers_chunkIds hupdate (hcopied.asked.overwrites.metadata ▸ hids)

/-- A turn leaves the registry of the nodes. -/
theorem nodes (h : RepairTurn svc cfg reach m excludeNode chunk c trace ok c')
    (hids : c.metadata.ChunkIds) : c'.metadata.store.nodes = c.metadata.store.nodes := by
  cases h with
  | unread => rfl
  | unselected => rfl
  | refused _ _ hcopied => rw [hcopied.asked.overwrites.metadata]
  | updated _ _ hcopied _ _ hupdate =>
    have hmetadata := hcopied.asked.overwrites.metadata
    rcases delivers_update (hmetadata ▸ hids) hupdate with ⟨-, ⟨rfl, -⟩ | hreplaces⟩
    · rw [hmetadata]
    · rw [hreplaces.nodes, hmetadata]

/-- A turn leaves all other chunks. -/
theorem agreesOn (h : RepairTurn svc cfg reach m excludeNode chunk c trace ok c')
    (hids : c.metadata.ChunkIds) {id : Str} (hne : id ≠ chunk.chunkId) : c.AgreesOn id c' := by
  cases h with
  | unread => exact .refl c
  | unselected => exact .refl c
  | refused _ _ hcopied => exact .of_overwrites hcopied.asked.overwrites hne
  | updated _ _ hcopied _ hreq hupdate =>
    subst hreq
    have hoverwrites := hcopied.asked.overwrites
    have hcopies := Cluster.AgreesOn.of_overwrites hoverwrites hne
    obtain ⟨hnodes, ⟨rfl, -⟩ | hreplaces⟩ := delivers_update (hoverwrites.metadata ▸ hids) hupdate
    · exact hcopies
    · rw [updateRequest_fromProto] at hreplaces
      exact hcopies.trans (.of_replaces hreplaces hnodes hne)

/-- The update of a turn comes after a copy that enough nodes have accepted. -/
theorem of_update (h : RepairTurn svc cfg reach m excludeNode chunk c trace ok c')
    {e : Event Rpc Rpc.Reply} (he : e ∈ trace) {req : UpdateChunkRequest}
    (hreq : e.request = .metadata (.updateChunk req)) :
    ∃ data nodes answers writes c₁ fate r, Fetched reach c excludeNode chunk data ∧
      Copied cfg reach m chunk data c nodes answers writes c₁ ∧ Quorum cfg answers ∧
      e = ⟨.metadata (.updateChunk (updateRequest chunk
        (recordAll chunk.version answers {}).replicas)), fate, r⟩ ∧
      Delivers (Cluster.Serves svc reach) (.metadata (.updateChunk (updateRequest chunk
        (recordAll chunk.version answers {}).replicas))) fate c₁ r c' := by
  cases h with
  | unread hreads => exact absurd hreq (hreads.not_update he req)
  | unselected hreads =>
    rcases List.mem_append.mp he with he | he
    · exact absurd hreq (hreads.not_update he req)
    · rw [List.mem_singleton.mp he] at hreq
      cases hreq
  | refused hreads _ hcopied =>
    rcases List.mem_append.mp he with he | he
    · exact absurd hreq (hreads.not_update he req)
    · rcases List.mem_cons.mp he with rfl | he
      · cases hreq
      · exact absurd hreq (hcopied.not_update he req)
  | updated hreads hfetched hcopied hquorum hupdated hupdate =>
    subst hupdated
    rcases List.mem_append.mp he with he | he
    · exact absurd hreq (hreads.not_update he req)
    · rcases List.mem_cons.mp he with rfl | he
      · cases hreq
      · rcases List.mem_append.mp he with he | he
        · exact absurd hreq (hcopied.not_update he req)
        · exact ⟨_, _, _, _, _, _, _, hfetched, hcopied, hquorum, List.mem_singleton.mp he, hupdate⟩

/-- What a turn writes is what it has fetched. -/
theorem of_write (h : RepairTurn svc cfg reach m excludeNode chunk c trace ok c')
    {e : Event Rpc Rpc.Reply} (he : e ∈ trace) {address : Str} {q : StorageRpc} {fate : Fate}
    {r : Option (Rpc.Reply (.storage address q))} (heq : e = ⟨.storage address q, fate, r⟩)
    {header : ChunkHeader} {data : Bytes} (hwritten : q.written = some (header, data)) :
    header.chunkId = chunk.chunkId ∧ Fetched reach c excludeNode chunk data ∧
      ∃ nodes answers writes c₁, Copied cfg reach m chunk data c nodes answers writes c₁ := by
  subst heq
  have hread : ∀ {reads}, ReadsOnly chunk.chunkId reads → (⟨.storage address q, fate, r⟩ :
      Event Rpc Rpc.Reply) ∉ reads := by
    intro reads hreads he
    rw [hreads.not_write he] at hwritten
    cases hwritten
  have hwrite : ∀ {data' nodes answers writes c₁}, Fetched reach c excludeNode chunk data' →
      Copied cfg reach m chunk data' c nodes answers writes c₁ →
      (⟨.storage address q, fate, r⟩ : Event Rpc Rpc.Reply) ∈ writes →
      header.chunkId = chunk.chunkId ∧ Fetched reach c excludeNode chunk data ∧
        ∃ nodes answers writes c₁, Copied cfg reach m chunk data c nodes answers writes c₁ := by
    intro data' nodes answers writes c₁ hfetched hcopied he
    obtain ⟨_, _, _, _, heq, header', hwritten', hid, -⟩ := hcopied.asked.writes _ he
    cases heq
    rw [hwritten] at hwritten'
    cases hwritten'
    exact ⟨hid, hfetched, nodes, answers, writes, c₁, hcopied⟩
  cases h with
  | unread hreads => exact absurd he (hread hreads)
  | unselected hreads => simp [hread hreads] at he
  | refused hreads hfetched hcopied =>
    simp only [List.mem_append, hread hreads, false_or, List.mem_cons] at he
    rcases he with he | he
    · cases he
    · exact hwrite hfetched hcopied he
  | updated hreads hfetched hcopied =>
    simp only [List.mem_append, hread hreads, false_or, List.mem_cons, List.not_mem_nil,
      or_false] at he
    rcases he with he | he | he
    · cases he
    · exact hwrite hfetched hcopied he
    · cases he

/-- A turn concerns its chunk only. -/
theorem concerns (h : RepairTurn svc cfg reach m excludeNode chunk c trace ok c')
    {e : Event Rpc Rpc.Reply} (he : e ∈ trace) {id : Str} (hid : Concerns id e) :
    id = chunk.chunkId := by
  rcases hid with ⟨req, hreq, rfl⟩ | ⟨address, q, fate, r, header, data, rfl, hwritten, rfl⟩
  · obtain ⟨_, _, _, _, _, _, _, -, -, -, rfl, -⟩ := h.of_update he hreq
    cases hreq
    rfl
  · exact (h.of_write he rfl hwritten).1

end RepairTurn

end Turn

/-! ## The loop -/

/-- The turns of the chunks, one after another. -/
inductive RepairLoop {ι : Type} [DecidableEq ι] (svc cfg : ClusterConfig)
    (reach : Str → Option ι) (m : ReplicationManager) (excludeNode : Str) :
    List ChunkInfo → Cluster ι → List (Event Rpc Rpc.Reply) → Cluster ι → Prop where
  | nil (c : Cluster ι) : RepairLoop svc cfg reach m excludeNode [] c [] c
  | cons {chunk : ChunkInfo} {rest : List ChunkInfo} {c c₁ c' : Cluster ι}
      {first later : List (Event Rpc Rpc.Reply)} {ok : Bool}
      (hturn : RepairTurn svc cfg reach m excludeNode chunk c first ok c₁)
      (hrest : RepairLoop svc cfg reach m excludeNode rest c₁ later c') :
      RepairLoop svc cfg reach m excludeNode (chunk :: rest) c (first ++ later) c'

section Loop

variable {ι : Type} [DecidableEq ι] {svc cfg : ClusterConfig} {reach : Str → Option ι}
  {m : ReplicationManager} {excludeNode : Str}

theorem repairChunks_run {pbs : List ChunkMetadata} {now : ℕ → TimestampMs}
    {recovered n : UInt32} {c c' : Cluster ι} {trace : List (Event Rpc Rpc.Reply)}
    (hrun : Runs (Cluster.Serves svc reach) (repairChunks cfg m excludeNode now pbs recovered) c
      trace n c') :
    RepairLoop svc cfg reach m excludeNode (pbs.map ChunkMetadata.fromProto) c trace c' := by
  induction pbs generalizing now recovered c trace with
  | nil =>
    obtain ⟨rfl, rfl, rfl⟩ := runs_done.mp hrun
    exact .nil _
  | cons pb rest ih =>
    obtain ⟨ok, c₁, first, later, hfirst, hrest, rfl⟩ := runs_bind.mp hrun
    exact .cons (repairChunk_run hfirst) (ih hrest)

/-- The turn of a chunk in a loop from `c` to `c'`: from the cluster `c₁` to `c₂`. -/
structure TurnOf (svc cfg : ClusterConfig) (reach : Str → Option ι) (m : ReplicationManager)
    (excludeNode : Str) (c c' : Cluster ι) (chunk : ChunkInfo) (c₁ : Cluster ι)
    (turn : List (Event Rpc Rpc.Reply)) (ok : Bool) (c₂ : Cluster ι) : Prop where
  turn : RepairTurn svc cfg reach m excludeNode chunk c₁ turn ok c₂
  before : c.AgreesOn chunk.chunkId c₁
  after : c₂.AgreesOn chunk.chunkId c'
  nodes : c₁.metadata.store.nodes = c.metadata.store.nodes
  chunkIds : c₁.metadata.ChunkIds

namespace RepairLoop

variable {chunks : List ChunkInfo} {c c' : Cluster ι} {trace : List (Event Rpc Rpc.Reply)}

theorem chunkIds (h : RepairLoop svc cfg reach m excludeNode chunks c trace c')
    (hids : c.metadata.ChunkIds) : c'.metadata.ChunkIds := by
  induction h with
  | nil c => exact hids
  | cons hturn _ ih => exact ih (hturn.chunkIds hids)

theorem nodes (h : RepairLoop svc cfg reach m excludeNode chunks c trace c')
    (hids : c.metadata.ChunkIds) : c'.metadata.store.nodes = c.metadata.store.nodes := by
  induction h with
  | nil c => rfl
  | cons hturn _ ih => exact (ih (hturn.chunkIds hids)).trans (hturn.nodes hids)

/-- The loop leaves all chunks that have no turn. -/
theorem agreesOn (h : RepairLoop svc cfg reach m excludeNode chunks c trace c')
    (hids : c.metadata.ChunkIds) {id : Str} (hid : id ∉ chunks.map ChunkInfo.chunkId) :
    c.AgreesOn id c' := by
  induction h with
  | nil c => exact .refl c
  | cons hturn _ ih =>
    rw [List.map_cons, List.mem_cons, not_or] at hid
    exact (hturn.agreesOn hids hid.1).trans (ih (hturn.chunkIds hids) hid.2)

/-- Every call of the loop is one of a turn, and every chunk has its turn, with all calls
that concern it. -/
theorem exists_turn (h : RepairLoop svc cfg reach m excludeNode chunks c trace c')
    (hids : c.metadata.ChunkIds) (hnodup : (chunks.map ChunkInfo.chunkId).Nodup) :
    (∀ e ∈ trace, ∃ chunk ∈ chunks, ∃ c₁ turn ok c₂, e ∈ turn ∧
      TurnOf svc cfg reach m excludeNode c c' chunk c₁ turn ok c₂) ∧
    ∀ chunk ∈ chunks, ∃ c₁ turn ok c₂, turn ⊆ trace ∧
      (∀ e ∈ trace, Concerns chunk.chunkId e → e ∈ turn) ∧
      TurnOf svc cfg reach m excludeNode c c' chunk c₁ turn ok c₂ := by
  induction h with
  | nil c => simp
  | @cons chunk rest c c₁ c' first later ok hturn hrest ih =>
    rw [List.map_cons, List.nodup_cons] at hnodup
    have hids₁ := hturn.chunkIds hids
    obtain ⟨hcalls, hturns⟩ := ih hids₁ hnodup.2
    have hfirst : TurnOf svc cfg reach m excludeNode c c' chunk c first ok c₁ :=
      ⟨hturn, .refl c, hrest.agreesOn hids₁ hnodup.1, rfl, hids⟩
    -- the turn of a later chunk starts from a cluster that agrees with this one on it
    have hlift : ∀ {other c₂ turn ok' c₃}, other ∈ rest →
        TurnOf svc cfg reach m excludeNode c₁ c' other c₂ turn ok' c₃ →
        TurnOf svc cfg reach m excludeNode c c' other c₂ turn ok' c₃ := by
      intro other c₂ turn ok' c₃ hother h
      have hne : other.chunkId ≠ chunk.chunkId := fun heq =>
        hnodup.1 (heq ▸ List.mem_map_of_mem hother)
      exact ⟨h.turn, (hturn.agreesOn hids hne).trans h.before, h.after,
        h.nodes.trans (hturn.nodes hids), h.chunkIds⟩
    constructor
    · intro e he
      rcases List.mem_append.mp he with he | he
      · exact ⟨chunk, List.mem_cons_self, c, first, ok, c₁, he, hfirst⟩
      · obtain ⟨other, hother, c₂, turn, ok', c₃, he, h⟩ := hcalls e he
        exact ⟨other, List.mem_cons_of_mem _ hother, c₂, turn, ok', c₃, he, hlift hother h⟩
    · intro other hother
      rcases List.mem_cons.mp hother with rfl | hother
      · refine ⟨c, first, ok, c₁, List.subset_append_left _ _, fun e he hconcerns => ?_, hfirst⟩
        refine (List.mem_append.mp he).resolve_right fun he => ?_
        obtain ⟨later, hlater, c₂, turn, ok', c₃, he, h⟩ := hcalls e he
        exact hnodup.1 (h.turn.concerns he hconcerns ▸ List.mem_map_of_mem hlater)
      · obtain ⟨c₂, turn, ok', c₃, hsub, hall, h⟩ := hturns other hother
        refine ⟨c₂, turn, ok', c₃, List.subset_append_of_subset_right _ hsub,
          fun e he hconcerns => ?_, hlift hother h⟩
        refine hall e ((List.mem_append.mp he).resolve_left fun he => ?_) hconcerns
        exact hnodup.1 (hturn.concerns he hconcerns ▸ List.mem_map_of_mem hother)

end RepairLoop

omit [DecidableEq ι] in
theorem Cluster.AgreesOn.fetched {chunk : ChunkInfo} {c c' : Cluster ι}
    (h : c.AgreesOn chunk.chunkId c') {data : Bytes} :
    Fetched reach c' excludeNode chunk data ↔ Fetched reach c excludeNode chunk data := by
  simp only [Fetched, h.readsAt]

/-- A loop that can fetch none of its chunks does nothing. -/
theorem RepairLoop.idle {chunks : List ChunkInfo} {c c' : Cluster ι}
    {trace : List (Event Rpc Rpc.Reply)}
    (h : RepairLoop svc cfg reach m excludeNode chunks c trace c')
    (hnone : ∀ chunk ∈ chunks, ∀ data, ¬Fetched reach c excludeNode chunk data) : c' = c := by
  induction h with
  | nil c => rfl
  | cons hturn _ ih =>
    rw [List.forall_mem_cons] at hnone
    cases hturn with
    | unread => exact ih hnone.2
    | unselected => exact ih hnone.2
    | refused _ hfetched => exact absurd hfetched (hnone.1 _)
    | updated _ hfetched => exact absurd hfetched (hnone.1 _)

end Loop

/-! ## The pass -/

/-- The scan of the metadata node reports the chunk. -/
def MetadataNode.Reports (svc : ClusterConfig) (n : MetadataNode) (chunk : ChunkInfo) : Prop :=
  (∃ key, n.Holds key chunk) ∧
    chunk.replicas.countP n.store.isLive < svc.replicationFactor.toNat

/-- The chunks in a response to the scan. -/
def reportedChunks (r : Option GetUnderReplicatedChunksResponse) : List ChunkInfo :=
  match r with
  | some resp => resp.chunks.map ChunkMetadata.fromProto
  | none => []

theorem MetadataService.Serves.mem_reportedChunks {svc : ClusterConfig} {n n' : MetadataNode}
    {resp : GetUnderReplicatedChunksResponse}
    (h : Serves svc .getUnderReplicatedChunks n resp n') {chunk : ChunkInfo} :
    chunk ∈ reportedChunks (some resp) ↔ n.Reports svc chunk := by
  rw [reportedChunks, List.mem_map]
  constructor
  · rintro ⟨pb, hpb, rfl⟩
    obtain ⟨obj, stored, ⟨⟨key, hkey⟩, hmem⟩, hcount, rfl⟩ := h.mem_reported.mp hpb
    rw [ChunkInfo.fromProto_toProto]
    exact ⟨⟨key, obj, hkey, hmem⟩, hcount⟩
  · rintro ⟨⟨key, obj, hkey, hmem⟩, hcount⟩
    exact ⟨chunk.toProto, h.mem_reported.mpr ⟨obj, chunk, ⟨⟨key, hkey⟩, hmem⟩, hcount, rfl⟩,
      ChunkInfo.fromProto_toProto chunk⟩

theorem MetadataService.Serves.mark_store {svc : ClusterConfig} {nodeId : Str}
    {n n' : MetadataNode} {resp : StatusResponse}
    (h : Serves svc (.markNodeOffline { nodeId := nodeId }) n resp n') :
    n' = { n with store := (n.store.markNodeOffline nodeId).2 } := by
  cases h with
  | markNodeOffline => rfl

namespace RepairPass

/-- The metadata when the pass scans it. -/
def marked (pass : RepairPass) (n : MetadataNode) : MetadataNode :=
  match pass.failedNodeId with
  | none => n
  | some failedNodeId => { n with store := (n.store.markNodeOffline failedNodeId).2 }

/-- The call that marks the failed node can be lost. -/
def Marks (pass : RepairPass) (n n' : MetadataNode) : Prop :=
  n' = n ∨ n' = pass.marked n

theorem marked_sameObjects (pass : RepairPass) (n : MetadataNode) :
    SameObjects n.store (pass.marked n).store := by
  rw [marked]
  split
  · exact .refl _
  · exact markNodeOffline_sameObjects _ _

theorem Marks.holds {pass : RepairPass} {n n' : MetadataNode} (h : pass.Marks n n') {key : Str}
    {chunk : ChunkInfo} : n'.Holds key chunk ↔ n.Holds key chunk := by
  rcases h with rfl | rfl
  · rfl
  · exact MetadataNode.holds_same (pass.marked_sameObjects n)

theorem Marks.chunkIds {pass : RepairPass} {n n' : MetadataNode} (h : pass.Marks n n')
    (hids : n.ChunkIds) : n'.ChunkIds := by
  rcases h with rfl | rfl
  · exact hids
  · rw [marked]
    split
    · exact hids
    · exact hids.serve (@Serves.markNodeOffline pass.cfg n _)

/-- The calls with which a pass starts. -/
def Starts : Rpc → Prop
  | .metadata (.markNodeOffline _) => True
  | .metadata .getUnderReplicatedChunks => True
  | _ => False

variable {ι : Type} [DecidableEq ι] {svc : ClusterConfig} {reach : Str → Option ι}

/-- What a run of a pass does: its loop goes over the chunks that the scan of `c₀` has
reported. -/
structure Ran (svc : ClusterConfig) (reach : Str → Option ι) (pass : RepairPass) (c : Cluster ι)
    (trace : List (Event Rpc Rpc.Reply)) (c' c₀ : Cluster ι) (chunks : List ChunkInfo)
    (start loop : List (Event Rpc Rpc.Reply)) : Prop where
  calls : trace = start ++ loop
  starts : ∀ e ∈ start, Starts e.request
  nodes : c₀.nodes = c.nodes
  marks : pass.Marks c.metadata c₀.metadata
  reports : ∀ chunk ∈ chunks, c₀.metadata.Reports svc chunk
  nodup : (chunks.map ChunkInfo.chunkId).Nodup
  loop : RepairLoop svc pass.cfg reach pass.manager pass.excludeNode chunks c₀ loop c'
  complete : (∀ e ∈ start, Responds reach e) → c₀.metadata = pass.marked c.metadata ∧
    ∀ chunk, c₀.metadata.Reports svc chunk → chunk ∈ chunks

theorem Ran.chunkIds {pass : RepairPass} {c c' c₀ : Cluster ι} {chunks : List ChunkInfo}
    {trace start loop : List (Event Rpc Rpc.Reply)}
    (h : Ran svc reach pass c trace c' c₀ chunks start loop) (hids : c.metadata.ChunkIds) :
    c₀.metadata.ChunkIds :=
  h.marks.chunkIds hids

/-- A scan leaves the cluster, and an answered one reports what there is to report. -/
theorem delivers_scan {c c' : Cluster ι} {fate : Fate}
    {r : Option GetUnderReplicatedChunksResponse}
    (h : Delivers (Cluster.Serves svc reach) (.metadata .getUnderReplicatedChunks) fate c r c')
    (hids : c.metadata.ChunkIds) :
    c' = c ∧ (∀ chunk ∈ reportedChunks r, c.metadata.Reports svc chunk) ∧
      ((reportedChunks r).map ChunkInfo.chunkId).Nodup ∧ (fate = .answered → r ≠ none ∧
        ∀ chunk, c.metadata.Reports svc chunk → chunk ∈ reportedChunks r) := by
  rcases delivers_metadata h with ⟨rfl, rfl, rfl⟩ | ⟨-, hnodes, resp, hserves, hanswer, hr⟩
  · exact ⟨rfl, by simp [reportedChunks], by simp [reportedChunks], by simp⟩
  · refine ⟨Cluster.ext hserves.reported.1 hnodes, ?_⟩
    have hproto : ChunkInfo.chunkId ∘ ChunkMetadata.fromProto = ChunkMetadata.chunkId := rfl
    rcases hr with rfl | rfl
    · refine ⟨by simp [reportedChunks], by simp [reportedChunks], fun hfate => ?_⟩
      cases hanswer hfate
    · refine ⟨fun chunk => hserves.mem_reportedChunks.mp, ?_,
        fun _ => ⟨by simp, fun chunk => hserves.mem_reportedChunks.mpr⟩⟩
      rw [reportedChunks, List.map_map, hproto]
      exact hserves.reported_nodup hids

theorem run {pass : RepairPass} {c c' : Cluster ι} {trace : List (Event Rpc Rpc.Reply)}
    {result : RecoveryResult} (hids : c.metadata.ChunkIds)
    (hrun : Runs (Cluster.Serves svc reach) pass.program c trace result c') :
    ∃ c₀ chunks start loop, Ran svc reach pass c trace c' c₀ chunks start loop := by
  rw [program] at hrun
  cases hfailed : pass.failedNodeId with
  | none =>
    rw [hfailed] at hrun
    have hmarked : pass.marked c.metadata = c.metadata := by rw [marked, hfailed]
    have hexclude : pass.excludeNode = [] := by rw [excludeNode, hfailed, Option.getD_none]
    obtain ⟨fate, r, c₁, rest, hscan, hrest, rfl⟩ := runs_rpc.mp hrun
    obtain ⟨rfl, hreports, hnodup, hanswer⟩ := delivers_scan hscan hids
    cases r with
    | none =>
      obtain ⟨rfl, rfl, rfl⟩ := runs_done.mp hrest
      refine ⟨c', [], [_], [], rfl, by simp [Starts], rfl, .inl rfl, by simp, by simp, .nil _,
        fun hresponds => ?_⟩
      have hfate := responds_metadata (hresponds _ (List.mem_singleton_self _))
      exact absurd rfl (hanswer hfate).1
    | some resp =>
      obtain ⟨n, c₂, loop, last, hloop, hlast, rfl⟩ := runs_bind.mp hrest
      obtain ⟨rfl, rfl, rfl⟩ := runs_done.mp hlast
      refine ⟨c₁, reportedChunks (some resp), [_], loop, by rw [List.append_nil]; rfl,
        by simp [Starts], rfl, .inl rfl, hreports, hnodup, hexclude ▸ repairChunks_run hloop,
        fun hresponds => ⟨hmarked.symm, ?_⟩⟩
      exact (hanswer (responds_metadata (hresponds _ (List.mem_singleton_self _)))).2
  | some failedNodeId =>
    rw [hfailed] at hrun
    have hmarked : pass.marked c.metadata =
        { c.metadata with store := (c.metadata.store.markNodeOffline failedNodeId).2 } := by
      rw [marked, hfailed]
    have hexclude : pass.excludeNode = failedNodeId := by
      rw [excludeNode, hfailed, Option.getD_some]
    obtain ⟨fate, r, c₁, rest, hmark, hrest, rfl⟩ := runs_rpc.mp hrun
    have hmarks : c₁.nodes = c.nodes ∧ (c₁.metadata = c.metadata ∧ fate = .requestLost ∨
        c₁.metadata = pass.marked c.metadata) := by
      rcases delivers_metadata hmark with ⟨rfl, -, rfl⟩ | ⟨-, hnodes, resp, hserves, -⟩
      · exact ⟨rfl, .inl ⟨rfl, rfl⟩⟩
      · exact ⟨hnodes, .inr (hserves.mark_store.trans hmarked.symm)⟩
    obtain ⟨hnodes, hmetadata⟩ := hmarks
    have hmarks : pass.Marks c.metadata c₁.metadata := hmetadata.imp_left And.left
    obtain ⟨fate', r', c₂, rest', hscan, hrest', rfl⟩ := runs_rpc.mp hrest
    obtain ⟨rfl, hreports, hnodup, hanswer⟩ := delivers_scan hscan (hmarks.chunkIds hids)
    obtain ⟨n, c₃, loop, last, hloop, hlast, rfl⟩ := runs_bind.mp hrest'
    obtain ⟨rfl, rfl, rfl⟩ := runs_done.mp hlast
    refine ⟨c₂, reportedChunks r', [_, _], loop, by rw [List.append_nil]; rfl, by simp [Starts],
      hnodes, hmarks, hreports, hnodup, ?_, fun hresponds => ?_⟩
    · rw [hexclude]
      cases r' with
      | none => exact repairChunks_run hloop
      | some resp => exact repairChunks_run hloop
    · rw [List.forall_mem_cons, List.forall_mem_singleton] at hresponds
      have hfate := responds_metadata hresponds.1
      refine ⟨hmetadata.resolve_left fun h => ?_, (hanswer (responds_metadata hresponds.2)).2⟩
      rw [h.2] at hfate
      cases hfate

/-! ## The runs that there are -/

/-- A loop over the chunks of a scan, after the node is marked or the call is lost. -/
theorem runs_of_loop {pass : RepairPass} {c c' : Cluster ι} {n : MetadataNode} {k : UInt32}
    {loop : List (Event Rpc Rpc.Reply)} {resp : GetUnderReplicatedChunksResponse}
    (hmarks : pass.Marks c.metadata n) (hscan : Serves svc .getUnderReplicatedChunks n resp n)
    (hloop : Runs (Cluster.Serves svc reach)
      (repairChunks pass.cfg pass.manager pass.excludeNode pass.now resp.chunks 0)
      { c with metadata := n } loop k c') :
    ∃ start result, Runs (Cluster.Serves svc reach) pass.program c (start ++ loop) result c' ∧
      (∀ e ∈ start, Starts e.request) ∧
      (n = pass.marked c.metadata → ∀ e ∈ start, e.fate = .answered) := by
  have hcall : Delivers (Cluster.Serves svc reach) (.metadata .getUnderReplicatedChunks) .answered
      { c with metadata := n } (some resp) { c with metadata := n } := .answered (.metadata hscan)
  rw [program]
  cases hfailed : pass.failedNodeId with
  | none =>
    have hn : n = c.metadata := by
      rcases hmarks with hn | hn
      · exact hn
      · rw [hn, marked, hfailed]
    subst hn
    rw [excludeNode, hfailed] at hloop
    exact ⟨[_], _, runs_rpc.mpr ⟨_, _, _, _, hcall, runs_bind.mpr ⟨k, c', loop, [], hloop,
      .done _ _, (List.append_nil _).symm⟩, rfl⟩, by simp [Starts], by simp⟩
  | some failedNodeId =>
    have hmark : ∃ fate r, Delivers (Cluster.Serves svc reach)
        (.metadata (.markNodeOffline { nodeId := failedNodeId })) fate c r
          { c with metadata := n } ∧ (n = pass.marked c.metadata → fate = .answered) := by
      by_cases hn : n = pass.marked c.metadata
      · have hserves := @Serves.markNodeOffline svc c.metadata { nodeId := failedNodeId }
        rw [marked, hfailed] at hn
        subst hn
        exact ⟨.answered, _, .answered (.metadata hserves), fun _ => rfl⟩
      · obtain rfl : n = c.metadata := hmarks.resolve_right hn
        exact ⟨.requestLost, none, .requestLost c, fun h => absurd h hn⟩
    obtain ⟨fate, r, hmark, hfate⟩ := hmark
    rw [excludeNode, hfailed] at hloop
    refine ⟨[_, _], _, runs_rpc.mpr ⟨fate, r, _, _, hmark, runs_rpc.mpr ⟨_, _, _, _, hcall,
      runs_bind.mpr ⟨k, c', loop, [], hloop, .done _ _, (List.append_nil _).symm⟩, rfl⟩, rfl⟩,
      by simp [Starts], fun hn => ?_⟩
    rw [List.forall_mem_cons, List.forall_mem_singleton]
    exact ⟨hfate hn, rfl⟩

/-- A turn can lose all its reads. -/
theorem repairChunk_runs_lost (cfg : ClusterConfig) (m : ReplicationManager) (now : TimestampMs)
    (excludeNode : Str) (chunk : ChunkInfo) (c : Cluster ι) :
    ∃ trace, Runs (Cluster.Serves svc reach) (repairChunk cfg m now excludeNode chunk) c trace
      false c := by
  obtain ⟨trace, hfetch⟩ := @fetch_runs_lost _ _ svc reach chunk excludeNode chunk.replicas c
  exact ⟨trace ++ [], runs_bind.mpr ⟨none, c, trace, [], hfetch, .done _ _, rfl⟩⟩

/-- A turn can end with an update that is served. -/
theorem repairChunk_runs_updated {cfg : ClusterConfig} {m : ReplicationManager}
    (now : TimestampMs) {excludeNode : Str} {chunk : ChunkInfo} {data : Bytes} {c : Cluster ι}
    {nodes : List NodeInfo} {answers : List (ClusterNodeInfo × Bool)}
    (hids : c.metadata.ChunkIds) (hholds : c.metadata.Holds chunk.objectId chunk)
    (hfetched : Fetched reach c excludeNode chunk data)
    (hselected : c.metadata.store.LeastUsed cfg.replicationFactor nodes) (hne : nodes ≠ [])
    (hall : answers.map Prod.fst = nodes.map NodeInfo.toProto)
    (hreach : ∀ node ∈ acceptedOf answers, ∃ i, reach (m.target node) = some i)
    (hquorum : Quorum cfg answers) :
    ∃ turn r writes c₁ c', Runs (Cluster.Serves svc reach) (repairChunk cfg m now excludeNode
        chunk) c turn true c' ∧
      ⟨.metadata (.updateChunk (updateRequest chunk
        (recordAll chunk.version answers {}).replicas)), .answered, r⟩ ∈ turn ∧
      Copied cfg reach m chunk data c nodes answers writes c₁ ∧ c'.nodes = c₁.nodes ∧
      c.metadata.Replaces c'.metadata chunk.objectId (repairedChunk chunk answers) ∧
      c'.metadata.ChunkIds := by
  obtain ⟨rep, hrep, hexclude, hread⟩ := hfetched
  obtain ⟨reads, hfetch⟩ := @fetch_runs _ _ svc reach chunk excludeNode chunk.replicas c data rep
    hrep hexclude hread
  obtain ⟨writes, c₁, hcopied, -, hupdated⟩ := @repairChunk_runs _ _ svc cfg reach m now
    excludeNode chunk data c nodes reads answers hfetch hread.length_lt hselected hne hall hreach
  have hserves : Cluster.Serves svc reach (.metadata (.updateChunk (updateRequest chunk
      (recordAll chunk.version answers {}).replicas))) c₁ _ _ :=
    .metadata (.updateChunk c₁.metadata _ 0)
  have hmetadata := hcopied.asked.overwrites.metadata
  have hids₁ : c₁.metadata.ChunkIds := hmetadata ▸ hids
  have hupdate := hupdated _ _ _ hquorum (.answered hserves)
  have hlast : ∀ {before : List (Event Rpc Rpc.Reply)} {select e : Event Rpc Rpc.Reply},
      e ∈ before ++ select :: (writes ++ [e]) := by simp
  refine ⟨_, _, _, _, _, hupdate, hlast, hcopied, rfl, ?_,
    delivers_chunkIds (.answered hserves) hids₁⟩
  rcases (delivers_update hids₁ (.answered hserves)).2 with ⟨-, hnone⟩ | hreplaces
  · exact absurd ⟨chunk, hmetadata ▸ hholds, rfl⟩ (hnone (by simp))
  · rw [updateRequest_fromProto] at hreplaces
    rw [← hmetadata]
    exact hreplaces

theorem repairChunks_runs_lost (cfg : ClusterConfig) (m : ReplicationManager) (excludeNode : Str)
    (now : ℕ → TimestampMs) (pbs : List ChunkMetadata) (k : UInt32) (c : Cluster ι) :
    ∃ trace, Runs (Cluster.Serves svc reach) (repairChunks cfg m excludeNode now pbs k) c trace k
      c := by
  induction pbs generalizing now with
  | nil => exact ⟨[], .done _ _⟩
  | cons pb rest ih =>
    obtain ⟨first, hfirst⟩ := @repairChunk_runs_lost _ _ svc reach cfg m (now 0) excludeNode
      pb.fromProto c
    obtain ⟨later, hlater⟩ := ih fun n => now (n + 1)
    exact ⟨first ++ later, runs_bind.mpr ⟨false, c, first, later, hfirst, hlater, rfl⟩⟩

/-- A loop that loses all reads but those of one chunk. -/
theorem repairChunks_runs_one {cfg : ClusterConfig} {m : ReplicationManager} {excludeNode : Str}
    {chunk : ChunkInfo} {c : Cluster ι} {good : List (Event Rpc Rpc.Reply) → Cluster ι → Prop}
    (hturn : ∀ now, ∃ turn ok c', Runs (Cluster.Serves svc reach)
      (repairChunk cfg m now excludeNode chunk) c turn ok c' ∧ good turn c')
    {pbs : List ChunkMetadata} (hmem : chunk ∈ pbs.map ChunkMetadata.fromProto)
    (now : ℕ → TimestampMs) (k : UInt32) : ∃ before turn after k' c',
      Runs (Cluster.Serves svc reach) (repairChunks cfg m excludeNode now pbs k) c
        (before ++ (turn ++ after)) k' c' ∧ good turn c' := by
  induction pbs generalizing now k with
  | nil => cases hmem
  | cons pb rest ih =>
    rw [List.map_cons, List.mem_cons] at hmem
    rcases hmem with rfl | hmem
    · obtain ⟨turn, ok, c', hfirst, hgood⟩ := hturn (now 0)
      obtain ⟨after, hafter⟩ := @repairChunks_runs_lost _ _ svc reach cfg m excludeNode
        (fun n => now (n + 1)) rest (if ok then k + 1 else k) c'
      exact ⟨[], turn, after, _, c', runs_bind.mpr ⟨ok, c', turn, after, hfirst, hafter, rfl⟩,
        hgood⟩
    · obtain ⟨first, hfirst⟩ := @repairChunk_runs_lost _ _ svc reach cfg m (now 0) excludeNode
        pb.fromProto c
      obtain ⟨before, turn, after, k', c', hrest, hgood⟩ := ih hmem (fun n => now (n + 1)) k
      exact ⟨first ++ before, turn, after, k', c', runs_bind.mpr ⟨false, c, first, _, hfirst, hrest,
        List.append_assoc _ _ _⟩, hgood⟩

/-- A pass that loses all reads. -/
theorem runs_none {pass : RepairPass} {c : Cluster ι} {n : MetadataNode}
    (hmarks : pass.Marks c.metadata n) : ∃ trace result,
      Runs (Cluster.Serves svc reach) pass.program c trace result { c with metadata := n } := by
  obtain ⟨resp, hscan⟩ := exists_reported svc n
  obtain ⟨loop, hloop⟩ := @repairChunks_runs_lost _ _ svc reach pass.cfg pass.manager
    pass.excludeNode pass.now resp.chunks 0 { c with metadata := n }
  obtain ⟨start, result, hrun, -⟩ := runs_of_loop hmarks hscan hloop
  exact ⟨_, result, hrun⟩

/-- A pass that loses all reads but those of one reported chunk. -/
theorem runs_one {pass : RepairPass} {c : Cluster ι} {n : MetadataNode}
    (hmarks : pass.Marks c.metadata n) {chunk : ChunkInfo} (hreports : n.Reports svc chunk)
    {good : List (Event Rpc Rpc.Reply) → Cluster ι → Prop}
    (hturn : ∀ now, ∃ turn ok c', Runs (Cluster.Serves svc reach)
      (repairChunk pass.cfg pass.manager now pass.excludeNode chunk) { c with metadata := n } turn
        ok c' ∧ good turn c') : ∃ trace result turn c',
      Runs (Cluster.Serves svc reach) pass.program c trace result c' ∧ good turn c' ∧
        turn ⊆ trace := by
  obtain ⟨resp, hscan⟩ := exists_reported svc n
  obtain ⟨before, turn, after, k, c', hloop, hgood⟩ := repairChunks_runs_one hturn
    (hscan.mem_reportedChunks.mpr hreports) pass.now 0
  obtain ⟨start, result, hrun, -⟩ := runs_of_loop hmarks hscan hloop
  refine ⟨_, result, turn, c', hrun, hgood, fun e he => ?_⟩
  simp [he]

end RepairPass

end StorageEngine
