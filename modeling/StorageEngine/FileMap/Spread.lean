import StorageEngine.Client.PutQuorum
import StorageEngine.FileMap.Maintenance
import StorageEngine.FileMap.Operations
import StorageEngine.Recovery.Unattended

/-!
# Chunks on several machines

A put that succeeds has its chunks on a quorum of nodes, and so has a repair.  If fewer machines
than a quorum fail, every chunk is still on one that has not.

* `Cluster.Spread`: every chunk is listed on enough nodes, and those that have not failed have it.
* `Spread.hasCopies`: so every chunk has a copy.
* `Spread.put`, `Spread.deleteObject`, `Spread.repair` and `Spread.registry`: what the programs
  keep, whatever becomes of their calls to the storage nodes.
-/

namespace StorageEngine

open Lib Lib.Remote MetadataStore MetadataService StorageClient

variable {ι : Type}

/-- The registered nodes are on the machines with their ids. -/
def MetadataStore.RegisteredAs (s : MetadataStore) (reach : Str → Option ι) (ids : ι → Str) :
    Prop :=
  ∀ id node, s.nodes.find id = some node → ∃ i, ids i = id ∧ reach node.address = some i

/-- The chunk is listed on a quorum of nodes, and on no more than the replication factor.  The
machines that have not failed have it. -/
structure ChunkSpread (svc : ClusterConfig) (reach : Str → Option ι) (ids : ι → Str)
    (failed : Finset ι) (c : Cluster ι) (chunk : ChunkInfo) : Prop where
  enough : quorumSize svc.writeAck svc.replicationFactor ≤
    (chunk.replicas.map ReplicaInfo.nodeId).toFinset.card
  few : chunk.replicas.length ≤ svc.replicationFactor.toNat
  placed : ∀ r ∈ chunk.replicas, ∃ i, ids i = r.nodeId ∧ reach r.address = some i ∧
    (i ∉ failed → ∃ data, (c.nodes i).Stores chunk.chunkId data)

structure Cluster.Spread (svc : ClusterConfig) (reach : Str → Option ι) (ids : ι → Str)
    (failed : Finset ι) (c : Cluster ι) : Prop where
  registered : c.metadata.store.RegisteredAs reach ids
  chunks : ∀ {key chunk}, c.metadata.Holds key chunk → ChunkSpread svc reach ids failed c chunk

variable {svc : ClusterConfig} {reach : Str → Option ι} {ids : ι → Str} {failed : Finset ι}
  {c c' : Cluster ι} {chunk : ChunkInfo}

theorem required_ne_zero {cfg : ClusterConfig}
    (h : quorumSize cfg.writeAck cfg.replicationFactor ≠ 0) :
    cfg.writeAck.required cfg.replicationFactor ≠ 0 := by
  intro hzero
  exact h (by rw [← required_toNat, hzero]; rfl)

/-! ## Copies -/

namespace ChunkSpread

theorem quorum_le (h : ChunkSpread svc reach ids failed c chunk) :
    quorumSize svc.writeAck svc.replicationFactor ≤ svc.replicationFactor.toNat := by
  have hlisted := List.toFinset_card_le (chunk.replicas.map ReplicaInfo.nodeId)
  rw [List.length_map] at hlisted
  exact h.enough.trans (hlisted.trans h.few)

/-- Some listed node has not failed. -/
theorem copy (h : ChunkSpread svc reach ids failed c chunk)
    (hfew : failed.card < quorumSize svc.writeAck svc.replicationFactor) :
    ∃ r ∈ chunk.replicas, ∃ i, i ∉ failed ∧ ids i = r.nodeId ∧ reach r.address = some i ∧
      ∃ data, (c.nodes i).Stores chunk.chunkId data := by
  by_contra hnone
  have hsub : (chunk.replicas.map ReplicaInfo.nodeId).toFinset ⊆ failed.image ids := by
    intro id hid
    obtain ⟨r, hr, rfl⟩ := List.mem_map.mp (List.mem_toFinset.mp hid)
    obtain ⟨i, hi, hreach, hstores⟩ := h.placed r hr
    by_cases hfailed : i ∈ failed
    · exact Finset.mem_image.mpr ⟨i, hfailed, hi⟩
    · exact absurd ⟨r, hr, i, hfailed, hi, hreach, hstores hfailed⟩ hnone
  have hcard := (Finset.card_le_card hsub).trans Finset.card_image_le
  have henough := h.enough
  omega

/-- It can be fetched, if no node is left out but failed ones. -/
theorem fetchable (h : ChunkSpread svc reach ids failed c chunk)
    (hfew : failed.card < quorumSize svc.writeAck svc.replicationFactor) {excludeNode : Str}
    (hexclude : ∀ i, i ∉ failed → ids i ≠ excludeNode) :
    ∃ r ∈ chunk.replicas, r.nodeId ≠ excludeNode ∧ ∃ i, reach r.address = some i ∧ i ∉ failed ∧
      ∃ data, (c.nodes i).Stores chunk.chunkId data := by
  obtain ⟨r, hr, i, hfailed, hi, hreach, hstores⟩ := h.copy hfew
  exact ⟨r, hr, hi ▸ hexclude i hfailed, i, hreach, hfailed, hstores⟩

theorem congr (h : ChunkSpread svc reach ids failed c chunk)
    (hfiles : ∀ i, (c'.nodes i).file chunk.chunkId = (c.nodes i).file chunk.chunkId) :
    ChunkSpread svc reach ids failed c' chunk := by
  refine ⟨h.enough, h.few, fun r hr => ?_⟩
  obtain ⟨i, hi, hreach, hstores⟩ := h.placed r hr
  refine ⟨i, hi, hreach, fun hfailed => ?_⟩
  obtain ⟨data, hdata⟩ := hstores hfailed
  exact ⟨data, hdata.congr (hfiles i)⟩

/-- The chunk may be written again. -/
theorem overwrite (h : ChunkSpread svc reach ids failed c chunk) {chunkId objectId : Str}
    {written : Bytes} (hoverwrites : Cluster.Overwrites chunkId objectId written c c')
    (hchunk : chunkId.length < 2 ^ 32) (hobject : objectId.length < 2 ^ 32) :
    ChunkSpread svc reach ids failed c' chunk := by
  refine ⟨h.enough, h.few, fun r hr => ?_⟩
  obtain ⟨i, hi, hreach, hstores⟩ := h.placed r hr
  refine ⟨i, hi, hreach, fun hfailed => ?_⟩
  rcases hoverwrites.files i chunk.chunkId with hkept | ⟨hid, hwritten⟩
  · obtain ⟨data, hdata⟩ := hstores hfailed
    exact ⟨data, hdata.congr hkept⟩
  · rw [hid]
    exact ⟨written, hwritten.stores hchunk hobject⟩

/-- A chunk of a successful put. -/
theorem of_durable {registry : NodeTable} {nodes : ℕ} {data : Bytes}
    (h : ChunkDurable reach registry c nodes chunk data)
    (hnodes : quorumSize svc.writeAck svc.replicationFactor ≤ nodes)
    (hfew : chunk.replicas.length ≤ svc.replicationFactor.toNat)
    (hregistered : ∀ id node, registry.find id = some node →
      ∃ i, ids i = id ∧ reach node.address = some i) :
    ChunkSpread svc reach ids failed c chunk := by
  refine ⟨hnodes.trans h.distinct, hfew, fun r hr => ?_⟩
  obtain ⟨node, hfind, -, haddress⟩ := h.registered r hr
  obtain ⟨i, hi, hreach⟩ := hregistered _ _ hfind
  obtain ⟨j, hj, hstores⟩ := h.stored r hr
  rw [haddress] at hreach
  rw [hreach] at hj
  cases hj
  exact ⟨i, hi, hreach, fun _ => ⟨data, hstores⟩⟩

end ChunkSpread

namespace Cluster.Spread

/-- Every chunk has a copy on a machine that has not failed. -/
theorem hasCopies (h : c.Spread svc reach ids failed)
    (hfew : failed.card < quorumSize svc.writeAck svc.replicationFactor) :
    c.HasCopies reach fun i => i ∉ failed := by
  intro key chunk hheld
  obtain ⟨r, hr, i, hfailed, -, hreach, data, hstores⟩ := (h.chunks hheld).copy hfew
  exact ⟨r, hr, i, data, hreach, hfailed, hstores⟩

theorem of_empty (hobjects : c.metadata.store.objectsById = ∅)
    (hregistered : c.metadata.store.RegisteredAs reach ids) : c.Spread svc reach ids failed := by
  refine ⟨hregistered, fun hheld => ?_⟩
  obtain ⟨obj, hobj, -⟩ := hheld
  simp [hobjects] at hobj

/-- The objects are the same, and so are the files of their chunks. -/
theorem same (h : c.Spread svc reach ids failed)
    (hregistered : c'.metadata.store.RegisteredAs reach ids)
    (hobjects : SameObjects c.metadata.store c'.metadata.store)
    (hfiles : ∀ {key chunk}, c.metadata.Holds key chunk → ∀ i,
      (c'.nodes i).file chunk.chunkId = (c.nodes i).file chunk.chunkId) :
    c'.Spread svc reach ids failed := by
  refine ⟨hregistered, fun hheld => ?_⟩
  rw [MetadataNode.holds_same hobjects] at hheld
  exact (h.chunks hheld).congr (hfiles hheld)

/-- One machine more fails, and loses what it has. -/
theorem fail [DecidableEq ι] (h : c.Spread svc reach ids failed) (i : ι) (node : StorageNode) :
    (c.setNode i node).Spread svc reach ids (insert i failed) := by
  refine ⟨h.registered, fun hheld => ?_⟩
  have hspread := h.chunks hheld
  refine ⟨hspread.enough, hspread.few, fun r hr => ?_⟩
  obtain ⟨j, hj, hreach, hstores⟩ := hspread.placed r hr
  refine ⟨j, hj, hreach, fun hfailed => ?_⟩
  rw [Finset.mem_insert, not_or] at hfailed
  rw [Cluster.setNode_of_ne _ _ hfailed.1]
  exact hstores hfailed.2

end Cluster.Spread

/-! ## The registry -/

/-- If the call registers a node, it is on the machine with its id. -/
def MetadataRpc.RegistersAs (reach : Str → Option ι) (ids : ι → Str) : MetadataRpc → Prop
  | .registerNode req => ∃ i, ids i = req.nodeId ∧ reach req.address = some i
  | _ => True

/-- A node is set on the machine with its id. -/
theorem MetadataStore.RegisteredAs.set {s s' : MetadataStore} (h : s.RegisteredAs reach ids)
    {node : NodeInfo} (hnodes : s'.nodes = s.nodes.set node)
    (hplaced : ∃ i, ids i = node.id ∧ reach node.address = some i) :
    s'.RegisteredAs reach ids := by
  intro id node' hfind
  rw [hnodes, NodeTable.find_set] at hfind
  split at hfind
  · next heq =>
    cases hfind
    rw [heq]
    exact hplaced
  · exact h id node' hfind

theorem MetadataStore.RegisteredAs.congr {s s' : MetadataStore} (h : s.RegisteredAs reach ids)
    (hnodes : s'.nodes = s.nodes) : s'.RegisteredAs reach ids := by
  intro id node hfind
  rw [hnodes] at hfind
  exact h id node hfind

theorem MetadataService.Serves.registeredAs {q : MetadataRpc} {n n' : MetadataNode} {r : q.Reply}
    (h : Serves svc q n r n') (hq : q.RegistersAs reach ids)
    (hregistered : n.store.RegisteredAs reach ids) : n'.store.RegisteredAs reach ids := by
  have hcases : Rpc.Unattended (.metadata q) → n'.store.RegisteredAs reach ids := by
    intro hunattended
    rcases h.nodes_cases hunattended with hsame | ⟨req, node, now, -, hknown, hset⟩
    · exact hregistered.congr hsame
    · refine hregistered.set hset ?_
      show ∃ i, ids i = node.id ∧ reach node.address = some i
      rw [NodeTable.find_id hknown]
      exact hregistered _ _ hknown
  cases h with
  | registerNode _ req now => exact hregistered.set rfl hq
  | markNodeOffline _ req =>
    rcases markNodeOffline_cases n.store req.nodeId with heq | ⟨node, hknown, heq⟩
    · rw [MetadataService.markNodeOffline, heq]
      exact hregistered
    · rw [MetadataService.markNodeOffline, heq]
      refine hregistered.set rfl ?_
      show ∃ i, ids i = node.id ∧ reach node.address = some i
      rw [NodeTable.find_id hknown]
      exact hregistered _ _ hknown
  | _ => exact hcases trivial

variable [DecidableEq ι] {files : FileMap} {trace : List (Event Rpc Rpc.Reply)}

/-- Programs that say nothing about nodes leave the registry. -/
theorem nodes_of_leavesNodes {α : Type} {p : ClusterProg α} {a : α}
    (hrun : Runs (Cluster.Serves svc reach) p c trace a c') (hissues : p.Issues Rpc.LeavesNodes) :
    c'.metadata.store.nodes = c.metadata.store.nodes := by
  let I : MetadataNode → Prop := fun n => n.store.nodes = c.metadata.store.nodes
  have hkeeps : ∀ {q n resp n'}, Rpc.LeavesNodes (.metadata q) → Serves svc q n resp n' → I n →
      I n' := by
    intro q n resp n' hq hserves hnodes
    rcases hserves.nodes_cases hq.isUnattended with hsame | ⟨req, _, _, rfl, -⟩
    · exact hsame.trans hnodes
    · exact hq.elim
  exact runs_metadata_keeps hkeeps hrun hissues rfl

/-- A message about a node leaves the chunks where they are. -/
theorem Cluster.Spread.registry (h : c.Spread svc reach ids failed) {q : MetadataRpc}
    (hq : q.AboutNodes) (hregisters : q.RegistersAs reach ids) {r : Option q.Reply}
    (hrun : Runs (Cluster.Serves svc reach) (metadataCall q) c trace r c') :
    c'.Spread svc reach ids failed := by
  obtain ⟨fate, r, c₁, rest, hcall, hdone, rfl⟩ := runs_call.mp hrun
  obtain ⟨-, -, rfl⟩ := runs_done.mp hdone
  rcases delivers_metadata hcall with ⟨-, -, rfl⟩ | ⟨-, hnodes, resp, hserves, -⟩
  · exact h
  · cases hserves.change with
    | same hobjects _ =>
      refine h.same (hserves.registeredAs hregisters h.registered) hobjects fun _ i => ?_
      rw [hnodes]
    | created hcreate => exact (hcreate ▸ hq).elim
    | deleted hdelete => exact (hdelete ▸ hq).elim
    | updated hupdate => exact (hupdate ▸ hq).elim

/-- So does a storage node that is restarted on its directory. -/
theorem Cluster.Spread.restart (h : c.Spread svc reach ids failed) (i : ι) (names : List Str) :
    (c.setNode i (ChunkStore.construct (c.nodes i).1.basePath (c.nodes i).2 names,
      (c.nodes i).2)).Spread svc reach ids failed := by
  refine h.same h.registered (.refl _) fun {key chunk} _ j => ?_
  by_cases hj : j = i
  · subst hj
    rw [Cluster.setNode_self, StorageNode.file, StorageNode.file, ChunkStore.construct_basePath]
  · rw [Cluster.setNode_of_ne _ _ hj]

/-! ## Put and delete -/

omit [DecidableEq ι] in
/-- The chunks of a put that ends are on the nodes that have accepted them. -/
theorem StorageClient.ChunksPut.spread {obj : ObjectMetadata} {data : Bytes}
    {todo finals : List ChunkInfo} {offset : UInt64} {registry : NodeTable}
    (h : ChunksPut svc svc reach registry c obj data todo offset finals trace)
    (hserved : ∀ e ∈ trace, ¬UpdateLost e) (hdistinct : DistinctQuorum svc svc registry)
    (hregistered : ∀ id node, registry.find id = some node →
      ∃ i, ids i = id ∧ reach node.address = some i) :
    ∀ chunk ∈ finals, ChunkSpread svc reach ids failed c chunk := by
  induction h with
  | nil => simp
  | cons hchunk _ ih =>
    rw [List.forall_mem_cons]
    have hlost := fun e he => hserved e (List.mem_append_left _ he)
    refine ⟨?_, ih fun e he => hserved e (List.mem_append_right _ he)⟩
    refine .of_durable (hchunk.durable hlost (hchunk.enough hdistinct)) (Nat.le_max_left _ _) ?_
      hregistered
    obtain ⟨store, order, -, -, hsub⟩ := hchunk.selected
    have hlength := congrArg List.length hchunk.recorded
    rw [List.length_map, List.length_map] at hlength
    rw [hchunk.final_eq hlost]
    exact hlength.trans_le (hsub.length_le.trans selectNodes_length_le)

/-- A put leaves the chunks where they are, and its own are on enough nodes. -/
theorem Cluster.Spread.put (h : c.Spread svc reach ids failed) (hids : c.metadata.ChunkIds)
    (hdistinct : DistinctQuorum svc svc c.metadata.store.nodes) {filename owner : Str}
    {data : Bytes} {result : PutResult}
    (hrun : Runs (Cluster.Serves svc reach) (StorageClient.put svc filename data owner) c trace
      result c') (hanswered : ∀ e ∈ trace, MetadataAnswered e) :
    c'.Spread svc reach ids failed := by
  have hregistered := h.registered.congr (nodes_of_leavesNodes hrun (put_leavesNodes _ _ _ _))
  cases put_run hrun with
  | refused message hreq hcall hr =>
    rw [List.forall_mem_singleton] at hanswered
    cases hanswered _ rfl
    obtain ⟨hnodes, resp, rfl, hserves⟩ := hcall.served.metadata_cases
    rcases hserves.create_cases with ⟨-, hsame, -⟩ | ⟨obj, rfl, -⟩
    · obtain rfl : c' = c := Cluster.ext hsame hnodes
      exact h
    · cases hr _ rfl
  | failed message hreq hcreated hnodes hloop =>
    rw [List.forall_mem_cons] at hanswered
    exact h.same hregistered (failed_sameObjects hids hcreated hloop hanswered.2)
      (created_files hids hcreated hnodes hloop)
  | @succeeded _ obj _ _ _ hreq hcreated hnodes hloop =>
    rw [List.forall_mem_cons] at hanswered
    obtain ⟨o, ho, -, -, hput, -, hothers⟩ := hcreated.put hids hloop
    refine ⟨hregistered, fun {key chunk} hheld => ?_⟩
    obtain ⟨o', ho', hchunk⟩ := hheld
    by_cases hkey : key = obj.objectId
    · rw [hkey, ho] at ho'
      cases ho'
      exact hput.spread (fun e he => not_updateLost (hanswered.2 e he)) hdistinct h.registered
        chunk hchunk
    · rw [hothers key hkey] at ho'
      exact (h.chunks ⟨o', ho', hchunk⟩).congr
        (created_files hids hcreated hnodes hloop ⟨o', ho', hchunk⟩)

/-- A deletion leaves the chunks of the other objects. -/
theorem Cluster.Spread.deleteObject (h : c.Spread svc reach ids failed)
    (hids : c.metadata.ChunkIds) {filename : Str} {ok : Bool}
    (hrun : Runs (Cluster.Serves svc reach) (StorageClient.deleteObject filename) c trace ok c')
    (hanswered : ∀ e ∈ trace, MetadataAnswered e) : c'.Spread svc reach ids failed := by
  rcases deleteObject_answered hrun hanswered with
    ⟨id, obj, -, hobj, -, hobjects, hfiles⟩ | ⟨-, -, rfl⟩
  · refine ⟨h.registered.congr
      (nodes_of_leavesNodes hrun (deleteObject_leavesNodes _)),
      fun hheld => ?_⟩
    obtain ⟨hheld, hnot⟩ := hids.holds_of_erase hobj hobjects hheld
    exact (h.chunks hheld).congr (hfiles _ hnot)
  · exact h

/-! ## Repair -/

section Repair

variable {m : ReplicationManager} {excludeNode : Str} {content : Str → Bytes}

omit [DecidableEq ι] in
/-- A chunk that is copied is on the nodes that have accepted it. -/
theorem Copied.spread {data : Bytes} {nodes : List NodeInfo}
    {answers : List (ClusterNodeInfo × Bool)} {writes : List (Event Rpc Rpc.Reply)}
    (h : Copied svc reach m chunk data c nodes answers writes c')
    (hhome : m.AtHome reach c.metadata.store) (hquorum : Quorum svc answers)
    (hregistered : c.metadata.store.RegisteredAs reach ids)
    (hchunk : chunk.chunkId.length < 2 ^ 32) (hobject : chunk.objectId.length < 2 ^ 32) :
    ChunkSpread svc reach ids failed c' (repairedChunk chunk answers) := by
  have hlength := repairedChunk_length chunk answers
  refine ⟨?_, ?_, fun r hr => ?_⟩
  · rw [List.toFinset_card_of_nodup h.replicas_nodup, List.length_map, hlength]
    exact hquorum
  · have hsub := (acceptedOf_sublist answers).length_le
    rw [h.all, List.length_map, h.selected.length_eq] at hsub
    rw [hlength]
    exact hsub.trans (Nat.min_le_left _ _)
  · obtain ⟨node, i, hfind, -, haddress, hi, hwritten⟩ := h.placed hhome hr
    obtain ⟨j, hj, hreach⟩ := hregistered _ _ hfind
    rw [haddress, hi] at hreach
    cases hreach
    exact ⟨i, hj, hi, fun _ => ⟨data, hwritten.stores hchunk hobject⟩⟩

omit [DecidableEq ι] in
theorem Cluster.Spread.overwrite (h : c.Spread svc reach ids failed) {chunkId objectId : Str}
    {written : Bytes} (hoverwrites : Cluster.Overwrites chunkId objectId written c c')
    (hchunk : chunkId.length < 2 ^ 32) (hobject : objectId.length < 2 ^ 32) :
    c'.Spread svc reach ids failed := by
  refine ⟨hoverwrites.metadata ▸ h.registered, fun hheld => ?_⟩
  rw [hoverwrites.metadata] at hheld
  exact (h.chunks hheld).overwrite hoverwrites hchunk hobject

/-- The turn of a chunk leaves the chunks on enough nodes. -/
theorem RepairTurn.spread {ok : Bool}
    (hturn : RepairTurn svc svc reach m excludeNode chunk c trace ok c')
    (hbacks : c.Backs reach content files) (h : c.Spread svc reach ids failed)
    (hheld : ∃ key, c.metadata.Holds key chunk) (hhome : m.AtHome reach c.metadata.store) :
    c'.Spread svc reach ids failed := by
  obtain ⟨key, hheld⟩ := hheld
  obtain ⟨hchunk, hobject⟩ := hbacks.id_lengths hheld
  cases hturn with
  | unread => exact h
  | unselected => exact h
  | refused _ _ hcopied => exact h.overwrite hcopied.asked.overwrites hchunk hobject
  | updated _ _ hcopied hquorum hreq hupdate =>
    subst hreq
    have hmetadata := hcopied.asked.overwrites.metadata
    have hwritten := h.overwrite hcopied.asked.overwrites hchunk hobject
    obtain ⟨hnodes, ⟨rfl, -⟩ | hreplaces⟩ := delivers_update (hmetadata ▸ hbacks.chunkIds) hupdate
    · exact hwritten
    · refine ⟨hwritten.registered.congr hreplaces.nodes, fun {key' chunk'} hheld' => ?_⟩
      rw [updateRequest_fromProto] at hreplaces
      rcases (hreplaces.holds key' chunk').mp hheld' with ⟨-, rfl⟩ | ⟨hold, -⟩
      · exact (hcopied.spread hhome hquorum h.registered hchunk hobject).congr
          fun i => by rw [hnodes]
      · exact (hwritten.chunks hold).congr fun i => by rw [hnodes]

theorem RepairLoop.spread {chunks : List ChunkInfo}
    (hloop : RepairLoop svc svc reach m excludeNode chunks c trace c')
    (hbacks : c.Backs reach content files) (h : c.Spread svc reach ids failed)
    (hheld : ∀ chunk ∈ chunks, ∃ key, c.metadata.Holds key chunk)
    (hnodup : (chunks.map ChunkInfo.chunkId).Nodup) (hhome : m.AtHome reach c.metadata.store)
    (hrequired : svc.writeAck.required svc.replicationFactor ≠ 0) :
    c'.Spread svc reach ids failed := by
  induction hloop with
  | nil c => exact h
  | cons hturn _ ih =>
    rw [List.map_cons, List.nodup_cons] at hnodup
    rw [List.forall_mem_cons] at hheld
    exact ih (hturn.backs hbacks hheld.1 hhome hrequired)
      (hturn.spread hbacks h hheld.1 hhome) (hturn.held_later hbacks.chunkIds hnodup.1 hheld.2)
      hnodup.2 (hhome.congr (hturn.nodes hbacks.chunkIds))

omit [DecidableEq ι] in
/-- Marking a node leaves the chunks where they are. -/
theorem RepairPass.Marks.spread {pass : RepairPass} (hmarks : pass.Marks c.metadata c'.metadata)
    (h : c.Spread svc reach ids failed) (hnodes : c'.nodes = c.nodes) :
    c'.Spread svc reach ids failed := by
  have hmarked : c'.metadata.store.RegisteredAs reach ids := by
    rcases hmarks with hsame | hmarked
    · rw [hsame]
      exact h.registered
    · rw [hmarked, RepairPass.marked]
      split
      · exact h.registered
      · exact (@Serves.markNodeOffline svc c.metadata _).registeredAs trivial h.registered
  refine ⟨hmarked, fun hheld => ?_⟩
  exact (h.chunks (hmarks.holds.mp hheld)).congr fun i => by rw [hnodes]

/-- So does a pass, whatever becomes of its calls. -/
theorem Cluster.Spread.repair (h : c.Spread svc reach ids failed)
    (hbacks : c.Backs reach content files) {pass : RepairPass} (hcfg : pass.cfg = svc)
    (hrequired : svc.writeAck.required svc.replicationFactor ≠ 0)
    (hhome : pass.manager.AtHome reach c.metadata.store)
    {result : RecoveryManager.RecoveryResult}
    (hrun : Runs (Cluster.Serves svc reach) pass.program c trace result c') :
    c'.Spread svc reach ids failed := by
  obtain ⟨c₀, chunks, start, loop, hran⟩ := RepairPass.run hbacks.chunkIds hrun
  exact (hcfg ▸ hran.loop).spread (hran.marks.backs hbacks hran.nodes)
    (hran.marks.spread h hran.nodes) (fun chunk hchunk => (hran.reports chunk hchunk).1)
    hran.nodup (hran.marks.atHome hhome) hrequired

end Repair

end StorageEngine
