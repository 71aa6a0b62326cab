import StorageEngine.FileMap.Contents
import StorageEngine.Metadata.Snapshot
import StorageEngine.Recovery.Leaks
import StorageEngine.Recovery.ReplicaCount

/-!
# What maintenance does to the files

Repair passes copy chunks and record new replicas, storage nodes register and are marked
offline, and they restart.  None of this changes a file.

* `RepairTurn.backs`: the turn of one chunk, whatever becomes of its calls.
* `Represents.repair`: a whole pass.
* `Represents.registry` and `Represents.restart`: messages about the nodes, and their restarts.
* `Represents.damage` and `Represents.forget`: what becomes of the files when data is lost.
-/

namespace StorageEngine

open Lib Lib.Remote MetadataStore MetadataService StorageClient

/-- The address at which the manager writes to its own node leads to the machine of that node. -/
def ReplicationManager.AtHome {ι : Type} (reach : Str → Option ι) (m : ReplicationManager)
    (s : MetadataStore) : Prop :=
  ∀ node, s.nodes.find m.localNodeId = some node → reach m.localAddress = reach node.address

theorem ReplicationManager.AtHome.congr {ι : Type} {reach : Str → Option ι}
    {m : ReplicationManager} {s s' : MetadataStore} (h : m.AtHome reach s)
    (hnodes : s'.nodes = s.nodes) : m.AtHome reach s' := by
  unfold AtHome
  rw [hnodes]
  exact h

theorem ReplicationManager.AtHome.target {ι : Type} {reach : Str → Option ι}
    {m : ReplicationManager} {s : MetadataStore} (h : m.AtHome reach s) {node : NodeInfo}
    (hfind : s.nodes.find node.id = some node) :
    reach (m.target node.toProto) = reach node.address := by
  rw [ReplicationManager.target]
  split
  · next hlocal =>
    have hlocal' : node.id = m.localNodeId := hlocal
    exact h node (hlocal' ▸ hfind)
  · rfl

section Repair

variable {ι : Type} [DecidableEq ι] {svc cfg : ClusterConfig} {reach : Str → Option ι}
  {m : ReplicationManager} {excludeNode : Str} {chunk : ChunkInfo} {c c' : Cluster ι}
  {content : Str → Bytes} {files : FileMap}

omit [DecidableEq ι] in
/-- A replica that is recorded is on a registered node, whose machine has the chunk. -/
theorem Copied.placed {data : Bytes} {nodes : List NodeInfo}
    {answers : List (ClusterNodeInfo × Bool)} {writes : List (Event Rpc Rpc.Reply)}
    (h : Copied cfg reach m chunk data c nodes answers writes c')
    (hhome : m.AtHome reach c.metadata.store) {rep : ReplicaInfo}
    (hrep : rep ∈ (repairedChunk chunk answers).replicas) :
    ∃ node i, c.metadata.store.nodes.find rep.nodeId = some node ∧ node.online = true ∧
      node.address = rep.address ∧ reach rep.address = some i ∧
      (c'.nodes i).HasWritten chunk.chunkId chunk.objectId data := by
  have hmem : (rep.nodeId, rep.address) ∈
      (acceptedOf answers).map fun node => (node.nodeId, node.address) := by
    rw [← recordAll_replicas chunk.version]
    exact List.mem_map.mpr ⟨rep, hrep, rfl⟩
  obtain ⟨node, hnode, heq⟩ := List.mem_map.mp hmem
  obtain ⟨hid, haddress⟩ := Prod.mk.inj heq
  obtain ⟨i, hi, hwritten⟩ := h.asked.stored node hnode
  obtain ⟨accepted, hsub, haccepted⟩ := h.accepted_sublist
  rw [haccepted] at hnode
  obtain ⟨registered, hregistered, rfl⟩ := List.mem_map.mp hnode
  obtain ⟨hfind, honline⟩ := h.selected.online (hsub.subset hregistered)
  have hsame : registered.id = rep.nodeId := hid
  refine ⟨registered, i, hsame ▸ hfind, honline, haddress, ?_, hwritten⟩
  rw [← haddress, ← hi]
  exact (hhome.target hfind).symm

omit [DecidableEq ι] in
/-- A copied chunk is available on the nodes that have accepted it. -/
theorem Copied.available {data : Bytes} {nodes : List NodeInfo}
    {answers : List (ClusterNodeInfo × Bool)} {writes : List (Event Rpc Rpc.Reply)}
    (h : Copied cfg reach m chunk data c nodes answers writes c')
    (hhome : m.AtHome reach c.metadata.store) (hquorum : Quorum cfg answers)
    (hrequired : cfg.writeAck.required cfg.replicationFactor ≠ 0)
    (hchecksum : chunk.checksum = Checksum.sha256 data) (hchunk : chunk.chunkId.length < 2 ^ 32)
    (hobject : chunk.objectId.length < 2 ^ 32) :
    ChunkAvailable reach c' (repairedChunk chunk answers) data := by
  apply ChunkAvailable.of_readable
  refine ⟨fun hnil => ?_, hchecksum, fun rep hrep => ?_⟩
  · have hlength := repairedChunk_length chunk answers
    rw [hnil, List.length_nil] at hlength
    rw [Quorum, ← required_toNat, ← hlength, Nat.le_zero] at hquorum
    exact hrequired (UInt32.toNat_inj.mp hquorum)
  · obtain ⟨node, i, -, -, -, hi, hwritten⟩ := h.placed hhome hrep
    exact ⟨i, hi, hwritten.stores hchunk hobject⟩

/-- The turn of a chunk writes the content that the chunk has. -/
theorem RepairTurn.backs {trace : List (Event Rpc Rpc.Reply)} {ok : Bool}
    (hturn : RepairTurn svc cfg reach m excludeNode chunk c trace ok c')
    (h : c.Backs reach content files) (hheld : ∃ key, c.metadata.Holds key chunk)
    (hhome : m.AtHome reach c.metadata.store)
    (hrequired : cfg.writeAck.required cfg.replicationFactor ≠ 0) :
    c'.Backs reach content files := by
  obtain ⟨key, hheld⟩ := hheld
  obtain ⟨hchunk, hobject⟩ := h.id_lengths hheld
  have havailable := h.available hheld
  have hcontent : ∀ {data}, Fetched reach c excludeNode chunk data →
      data = content chunk.chunkId := by
    intro data hfetched
    obtain ⟨rep, hrep, -, hread⟩ := hfetched
    exact havailable.data_eq hrep hread
  cases hturn with
  | unread => exact h
  | unselected => exact h
  | refused _ hfetched hcopied =>
    cases hcontent hfetched
    exact h.overwrite hcopied.asked.overwrites hchunk hobject
  | updated _ hfetched hcopied hquorum hreq hupdate =>
    cases hcontent hfetched
    have hwritten := h.overwrite hcopied.asked.overwrites hchunk hobject
    have hcopy := hcopied.available hhome hquorum hrequired havailable.checksum hchunk hobject
    rcases delivers_metadata hupdate with ⟨-, -, rfl⟩ | ⟨-, hnodes, resp, hserves, -⟩
    · exact hwritten
    · subst hreq
      refine hwritten.update hnodes hserves rfl ?_
      rw [updateRequest_fromProto]
      exact hcopy

/-- The turn of one chunk leaves the others as the scan has reported them. -/
theorem RepairTurn.held_later {trace : List (Event Rpc Rpc.Reply)} {ok : Bool}
    (hturn : RepairTurn svc cfg reach m excludeNode chunk c trace ok c')
    (hids : c.metadata.ChunkIds) {rest : List ChunkInfo}
    (hnew : chunk.chunkId ∉ rest.map ChunkInfo.chunkId)
    (hheld : ∀ other ∈ rest, ∃ key, c.metadata.Holds key other) :
    ∀ other ∈ rest, ∃ key, c'.metadata.Holds key other := by
  intro other hother
  have hne : other.chunkId ≠ chunk.chunkId := by
    intro heq
    exact hnew (heq ▸ List.mem_map_of_mem hother)
  obtain ⟨key, hkey⟩ := hheld other hother
  exact ⟨key, ((hturn.agreesOn hids hne).holds key other rfl).mpr hkey⟩

theorem RepairLoop.backs {chunks : List ChunkInfo} {trace : List (Event Rpc Rpc.Reply)}
    (hloop : RepairLoop svc cfg reach m excludeNode chunks c trace c')
    (h : c.Backs reach content files)
    (hheld : ∀ chunk ∈ chunks, ∃ key, c.metadata.Holds key chunk)
    (hnodup : (chunks.map ChunkInfo.chunkId).Nodup) (hhome : m.AtHome reach c.metadata.store)
    (hrequired : cfg.writeAck.required cfg.replicationFactor ≠ 0) :
    c'.Backs reach content files := by
  induction hloop with
  | nil c => exact h
  | cons hturn _ ih =>
    rw [List.map_cons, List.nodup_cons] at hnodup
    rw [List.forall_mem_cons] at hheld
    exact ih (hturn.backs h hheld.1 hhome hrequired)
      (hturn.held_later h.chunkIds hnodup.1 hheld.2) hnodup.2 (hhome.congr (hturn.nodes h.chunkIds))

omit [DecidableEq ι] in
/-- Marking a node leaves its address. -/
theorem RepairPass.Marks.atHome {pass : RepairPass} {n n' : MetadataNode} (h : pass.Marks n n')
    (hhome : m.AtHome reach n.store) : m.AtHome reach n'.store := by
  rcases h with rfl | rfl
  · exact hhome
  · intro node hnode
    rcases pass.marked_find n m.localNodeId with hsame | ⟨-, old, hold, hoffline⟩
    · exact hhome node (hsame ▸ hnode)
    · rw [hoffline] at hnode
      cases hnode
      exact hhome old hold

omit [DecidableEq ι] in
/-- Marking a node leaves the files. -/
theorem RepairPass.Marks.backs {pass : RepairPass} (hmarks : pass.Marks c.metadata c'.metadata)
    (h : c.Backs reach content files) (hnodes : c'.nodes = c.nodes) :
    c'.Backs reach content files := by
  have hobjects : SameObjects c.metadata.store c'.metadata.store := by
    rcases hmarks with hsame | hmarked
    · rw [hsame]
      exact .refl _
    · rw [hmarked]
      exact pass.marked_sameObjects _
  refine h.same (hmarks.chunkIds h.chunkIds) hobjects fun _ i => ?_
  rw [hnodes]

/-- A pass leaves the files, whatever becomes of its calls. -/
theorem Cluster.Represents.repair (h : c.Represents reach files) {pass : RepairPass}
    (hrequired : pass.cfg.writeAck.required pass.cfg.replicationFactor ≠ 0)
    (hhome : pass.manager.AtHome reach c.metadata.store) {trace : List (Event Rpc Rpc.Reply)}
    {result : RecoveryManager.RecoveryResult}
    (hrun : Runs (Cluster.Serves svc reach) pass.program c trace result c') :
    c'.Represents reach files := by
  obtain ⟨content, hbacks⟩ := h
  obtain ⟨c₀, chunks, start, loop, hran⟩ := RepairPass.run hbacks.chunkIds hrun
  exact ⟨content, hran.loop.backs (hran.marks.backs hbacks hran.nodes)
    (fun chunk hchunk => (hran.reports chunk hchunk).1) hran.nodup (hran.marks.atHome hhome)
    hrequired⟩

end Repair

/-! ## The nodes -/

section Nodes

variable {ι : Type} [DecidableEq ι] {svc : ClusterConfig} {reach : Str → Option ι}
  {c c' : Cluster ι} {files : FileMap}

/-- A message about a node leaves the files. -/
theorem Cluster.Represents.registry (h : c.Represents reach files) {q : MetadataRpc}
    (hq : q.AboutNodes) {trace : List (Event Rpc Rpc.Reply)} {r : Option q.Reply}
    (hrun : Runs (Cluster.Serves svc reach) (metadataCall q) c trace r c') :
    c'.Represents reach files := by
  obtain ⟨content, hbacks⟩ := h
  obtain ⟨fate, r, c₁, rest, hcall, hdone, rfl⟩ := runs_call.mp hrun
  obtain ⟨-, -, rfl⟩ := runs_done.mp hdone
  rcases delivers_metadata hcall with ⟨-, -, rfl⟩ | ⟨-, hnodes, resp, hserves, -⟩
  · exact ⟨content, hbacks⟩
  · cases hserves.change with
    | same hobjects _ =>
      refine ⟨content, hbacks.same (hbacks.chunkIds.serve hserves) hobjects fun _ i => ?_⟩
      rw [hnodes]
    | created hcreate => exact (hcreate ▸ hq).elim
    | deleted hdelete => exact (hdelete ▸ hq).elim
    | updated hupdate => exact (hupdate ▸ hq).elim

/-- So does a storage node that is restarted on its directory. -/
theorem Cluster.Represents.restart (h : c.Represents reach files) (i : ι) (names : List Str) :
    (c.setNode i (ChunkStore.construct (c.nodes i).1.basePath (c.nodes i).2 names,
      (c.nodes i).2)).Represents reach files := by
  obtain ⟨content, hbacks⟩ := h
  refine ⟨content, hbacks.same hbacks.chunkIds (.refl _) fun {key chunk} _ j => ?_⟩
  by_cases hj : j = i
  · subst hj
    rw [Cluster.setNode_self, StorageNode.file, StorageNode.file, ChunkStore.construct_basePath]
  · rw [Cluster.setNode_of_ne _ _ hj]

/-- A machine may lose data, as long as each chunk has another copy. -/
theorem Cluster.Represents.damage (h : c.Represents reach files) {i : ι} {disk : FileSystem}
    (hdisk : LeftOf disk (c.nodes i).2)
    (hcopies : (c.setNode i ((c.nodes i).1, disk)).HasCopies reach fun _ => True) :
    (c.setNode i ((c.nodes i).1, disk)).Represents reach files := by
  obtain ⟨content, hbacks⟩ := h
  exact ⟨content, hbacks.damage hdisk hcopies⟩

omit [DecidableEq ι] in
/-- A metadata node that is restarted has forgotten all files. -/
theorem Cluster.Represents.forget (persistPath : Str) (disk : FileSystem) :
    Cluster.Represents reach { c with metadata := { c.metadata with
      store := MetadataStore.construct persistPath disk } } fun _ => none :=
  ⟨fun _ => [], .of_empty (by rw [construct_eq]) (by rw [construct_eq])⟩

end Nodes

end StorageEngine
