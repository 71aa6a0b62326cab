import StorageEngine.Recovery.OneObject
import StorageEngine.Recovery.RepairLoop

/-!
# How many replicas a repair leaves

A repair replaces the replica list of a chunk by the nodes that have accepted it in this
pass.  A quorum of them is enough, however many replicas the list had before.

* `KeepsReplicas` is what should hold of an update.
* `exists_shrinking_run`: a pass that replaces a longer list by one of a quorum.
* `repair_keeps_replicas_iff`: no pass does, if no reported chunk is on more nodes than a
  quorum.
-/

namespace StorageEngine

open Lib.Remote MetadataStore MetadataService RecoveryManager StorageClient

/-- An update that is served leaves its chunk on as many online nodes as it was on before the
pass, at least. -/
def KeepsReplicas {ι : Type} (c c' : Cluster ι) (e : Event Rpc Rpc.Reply) : Prop :=
  ∀ req, e.request = .metadata (.updateChunk req) → e.fate ≠ .requestLost →
    ∀ key old, c.metadata.Holds key old → old.chunkId = req.chunk.chunkId →
      ∃ new, c'.metadata.Holds key new ∧ new.chunkId = old.chunkId ∧
        (c.metadata.store.liveNodes old.replicas).card ≤
          (c'.metadata.store.liveNodes new.replicas).card

/-! ## Marking a node -/

namespace RepairPass

variable (pass : RepairPass) (n : MetadataNode)

/-- Only the failed node goes offline. -/
theorem marked_find (id : Str) : (pass.marked n).store.nodes.find id = n.store.nodes.find id ∨
    pass.failedNodeId = some id ∧ ∃ node, n.store.nodes.find id = some node ∧
      (pass.marked n).store.nodes.find id = some { node with online := false } := by
  rw [marked]
  split
  · exact .inl rfl
  · next failedNodeId hfailed =>
    rcases markNodeOffline_cases n.store failedNodeId with heq | ⟨node, hfind, heq⟩
    · rw [heq]
      exact .inl rfl
    · rw [heq, NodeTable.find_set]
      have hid := NodeTable.find_id hfind
      split
      · next heq =>
        obtain rfl : failedNodeId = id := hid.symm.trans heq.symm
        exact .inr ⟨hfailed, node, hfind, rfl⟩
      · exact .inl rfl

theorem marked_isLive {r : ReplicaInfo} (h : (pass.marked n).store.isLive r = true) :
    n.store.isLive r = true := by
  rw [isLive] at h ⊢
  rcases pass.marked_find n r.nodeId with hsame | ⟨-, node, -, hoffline⟩
  · rwa [← hsame]
  · rw [hoffline] at h
    cases h

/-- Marking a node takes no more than one node offline. -/
theorem card_onlineIds_le :
    n.store.nodes.onlineIds.card ≤ (pass.marked n).store.nodes.onlineIds.card + 1 := by
  have hsub : n.store.nodes.onlineIds ⊆
      insert pass.excludeNode (pass.marked n).store.nodes.onlineIds := by
    intro id hid
    rw [Finset.mem_insert, NodeTable.mem_onlineIds]
    obtain ⟨node, hfind, honline⟩ := NodeTable.mem_onlineIds.mp hid
    rcases pass.marked_find n id with hsame | ⟨hfailed, -⟩
    · exact .inr ⟨node, hsame.trans hfind, honline⟩
    · rw [excludeNode, hfailed]
      exact .inl rfl
  exact (Finset.card_le_card hsub).trans (Finset.card_insert_le _ _)

/-- A chunk that is reported is reported after the mark. -/
theorem Marks.reports {pass : RepairPass} {svc : ClusterConfig} {n n' : MetadataNode}
    (h : pass.Marks n n') {chunk : ChunkInfo} (hreports : n'.Reports svc chunk) :
    (pass.marked n).Reports svc chunk := by
  rcases h with rfl | rfl
  · obtain ⟨⟨key, hholds⟩, hcount⟩ := hreports
    refine ⟨⟨key, (MetadataNode.holds_same (pass.marked_sameObjects n')).mpr hholds⟩, ?_⟩
    refine Nat.lt_of_le_of_lt (List.countP_mono_left fun r _ hlive => ?_) hcount
    exact pass.marked_isLive n' hlive
  · exact hreports

end RepairPass

/-- The nodes that a replica list names are online. -/
theorem MetadataStore.liveNodes_subset (s : MetadataStore) (replicas : List ReplicaInfo) :
    s.liveNodes replicas ⊆ s.nodes.onlineIds := by
  intro id hid
  obtain ⟨r, -, hlive, rfl⟩ := mem_liveNodes.mp hid
  rw [isLive] at hlive
  rw [NodeTable.mem_onlineIds]
  cases hfind : s.nodes.find r.nodeId with
  | none =>
    rw [hfind] at hlive
    cases hlive
  | some node =>
    rw [hfind] at hlive
    exact ⟨node, rfl, hlive⟩

/-- The number of nodes that a copy is recorded on. -/
theorem Copied.card_liveNodes {ι : Type} {cfg : ClusterConfig} {reach : Str → Option ι}
    {m : ReplicationManager} {chunk : ChunkInfo} {data : Bytes} {c c' : Cluster ι}
    {nodes : List NodeInfo} {answers : List (ClusterNodeInfo × Bool)}
    {writes : List (Event Rpc Rpc.Reply)}
    (h : Copied cfg reach m chunk data c nodes answers writes c') {s : MetadataStore}
    (hnodes : s.nodes = c.metadata.store.nodes) :
    (s.liveNodes (repairedChunk chunk answers).replicas).card = (acceptedOf answers).length := by
  have hall : (repairedChunk chunk answers).replicas.filter s.isLive =
      (repairedChunk chunk answers).replicas :=
    List.filter_eq_self.mpr fun rep hrep => isLive_congr hnodes ▸ h.replicas_live rep hrep
  have hnodup : (((repairedChunk chunk answers).replicas.filter s.isLive).map
      ReplicaInfo.nodeId).Nodup := by
    rw [hall]
    exact h.replicas_nodup
  rw [MetadataStore.card_liveNodes hnodup, List.countP_eq_length_filter, hall, repairedChunk_length]

/-! ## An update of a pass -/

section Update

variable {ι : Type} [DecidableEq ι] {svc : ClusterConfig} {reach : Str → Option ι}

/-- An update that is served records the repaired chunk. -/
theorem TurnOf.repaired {cfg : ClusterConfig} {m : ReplicationManager} {excludeNode : Str}
    {chunk : ChunkInfo} {c c' c₁ c₂ c₃ : Cluster ι} {turn : List (Event Rpc Rpc.Reply)} {ok : Bool}
    (h : TurnOf svc cfg reach m excludeNode c c' chunk c₁ turn ok c₃)
    (hholds : c.metadata.Holds chunk.objectId chunk) {data : Bytes} {nodes : List NodeInfo}
    {answers : List (ClusterNodeInfo × Bool)} {writes : List (Event Rpc Rpc.Reply)}
    (hcopied : Copied cfg reach m chunk data c₁ nodes answers writes c₂) {fate : Fate}
    {r : Option (Rpc.Reply (.metadata (.updateChunk (updateRequest chunk
      (recordAll chunk.version answers {}).replicas))))}
    (hupdate : Delivers (Cluster.Serves svc reach) _ fate c₂ r c₃) (hserved : fate ≠ .requestLost) :
    c'.metadata.Holds chunk.objectId (repairedChunk chunk answers) := by
  have hmetadata := hcopied.asked.overwrites.metadata
  obtain ⟨-, hcases⟩ := delivers_update (hmetadata ▸ h.chunkIds) hupdate
  have hold : c₁.metadata.Holds chunk.objectId chunk := (h.before.holds _ _ rfl).mpr hholds
  rcases hcases with ⟨-, hnone⟩ | hreplaces
  · exact absurd ⟨chunk, hmetadata ▸ hold, rfl⟩ (hnone hserved)
  · rw [updateRequest_fromProto] at hreplaces
    have hid : (repairedChunk chunk answers).chunkId = chunk.chunkId := rfl
    exact (h.after.holds _ _ hid).mpr ((hreplaces.holds _ _).mpr (.inl ⟨rfl, rfl⟩))

/-- No pass leaves a chunk on fewer nodes, if the reported chunks are on no more nodes than a
quorum. -/
theorem RepairPass.keeps_replicas {pass : RepairPass} {c c' : Cluster ι}
    (hids : c.metadata.ChunkIds) (hparented : c.metadata.Parented)
    (hcond : ∀ chunk, (pass.marked c.metadata).Reports svc chunk →
      (∃ rep ∈ chunk.replicas, rep.nodeId ≠ pass.excludeNode) →
      pass.cfg.replicationFactor = 0 ∨ (c.metadata.store.liveNodes chunk.replicas).card ≤
        quorumSize pass.cfg.writeAck pass.cfg.replicationFactor)
    {trace : List (Event Rpc Rpc.Reply)} {result : RecoveryResult}
    (hrun : Runs (Cluster.Serves svc reach) pass.program c trace result c') :
    ∀ e ∈ trace, KeepsReplicas c c' e := by
  intro e he req hreq hserved key old hold hid
  obtain ⟨c₀, chunks, start, loop, hran⟩ := RepairPass.run hids hrun
  have hids₀ := hran.chunkIds hids
  have hloop : e ∈ loop := by
    rw [hran.calls] at he
    refine (List.mem_append.mp he).resolve_left fun hstart => ?_
    have hstarts := hran.starts e hstart
    rw [hreq] at hstarts
    exact hstarts
  obtain ⟨chunk, hchunk, c₁, turn, ok, c₃, heturn, hturn⟩ :=
    (hran.loop.exists_turn hids₀ hran.nodup).1 e hloop
  obtain ⟨data, nodes, answers, writes, c₂, fate, r, ⟨rep, hrep, hexclude, -⟩, hcopied, hquorum,
    rfl, hupdate⟩ := hturn.turn.of_update heturn hreq
  cases hreq
  -- the stored chunk is the one that the scan has reported
  have hreports := hran.reports chunk hchunk
  obtain ⟨key', hkey'⟩ := hreports.1
  have hkept := hran.marks.holds.mp hkey'
  obtain ⟨hkey, hsame⟩ := hids.holds_unique hold hkept hid
  subst hkey hsame
  have hown := hparented.of_holds hold
  have hnew := hturn.repaired (hown ▸ hkey') hcopied hupdate hserved
  refine ⟨repairedChunk old answers, hown ▸ hnew, rfl, ?_⟩
  have hnodes : c'.metadata.store.nodes = c₁.metadata.store.nodes := by
    rw [hran.loop.nodes hids₀, hturn.nodes]
  rw [hcopied.card_liveNodes hnodes]
  rcases hcond old (hran.marks.reports hreports) ⟨rep, hrep, hexclude⟩ with hzero | hle
  · -- without a factor there is no node to select
    have hlength := hcopied.selected.length_eq
    rw [hzero] at hlength
    have hnil := List.length_eq_zero_iff.mp (hlength.trans (Nat.zero_min _))
    exact absurd hnil hcopied.nonempty
  · exact hle.trans hquorum

end Update

/-! ## A pass that a quorum accepts -/

/-- A pass can leave a chunk on no more nodes than a quorum. -/
theorem RepairPass.exists_shrinking_run {svc : ClusterConfig} {pass : RepairPass}
    {n : MetadataNode} (hids : n.ChunkIds) (hparented : n.Parented) {chunk : ChunkInfo}
    (hreports : (pass.marked n).Reports svc chunk)
    (hread : ∃ rep ∈ chunk.replicas, rep.nodeId ≠ pass.excludeNode)
    (hfactor : pass.cfg.replicationFactor ≠ 0)
    (hmore : quorumSize pass.cfg.writeAck pass.cfg.replicationFactor <
      (n.store.liveNodes chunk.replicas).card) :
    ∃ (c c' : Cluster Unit) (trace : List (Event Rpc Rpc.Reply)) (result : RecoveryResult),
      c.metadata = n ∧ Runs (Cluster.Serves svc fun _ => some ()) pass.program c trace result c' ∧
        ¬∀ e ∈ trace, KeepsReplicas c c' e := by
  have hmarks : pass.Marks n (pass.marked n) := .inr rfl
  have hids₀ := hmarks.chunkIds hids
  obtain ⟨key, hkey⟩ := hreports.1
  have hheld := hmarks.holds.mp hkey
  obtain rfl := hparented.of_holds hheld
  -- every machine stores the chunk, and a quorum of the selected nodes accepts it
  obtain ⟨node, hstores⟩ := @StorageNode.exists_stores chunk.chunkId []
    (hids.chunkId_length hheld) (by decide)
  obtain ⟨rep, hrep, hexclude⟩ := hread
  have hfetched : Fetched (fun _ => some ()) ⟨pass.marked n, fun _ => node⟩ pass.excludeNode chunk
      [] := ⟨rep, hrep, hexclude, (), rfl, hstores.reads⟩
  obtain ⟨order, horder⟩ := (pass.marked n).store.exists_possible .leastUsed
  have hselected : (pass.marked n).store.LeastUsed pass.cfg.replicationFactor _ :=
    ⟨order, horder, rfl⟩
  have hpos : 0 < pass.cfg.replicationFactor.toNat :=
    Nat.pos_of_ne_zero fun hzero => hfactor (UInt32.toNat_inj.mp hzero)
  have honline := Finset.card_le_card (n.store.liveNodes_subset chunk.replicas)
  have hmarked := pass.card_onlineIds_le n
  have hcount : quorumSize pass.cfg.writeAck pass.cfg.replicationFactor ≤
      ((pass.marked n).store.selectNodes order pass.cfg.replicationFactor .leastUsed).1.length := by
    rw [hselected.length_eq, Nat.le_min]
    exact ⟨quorumSize_le _ hpos, by omega⟩
  obtain ⟨answers, hall, haccepted⟩ := exists_accepted hcount
  have hne := List.ne_nil_of_length_pos ((quorumSize_pos _ hpos).trans_le hcount)
  obtain ⟨trace, result, turn, c', hrun, ⟨⟨r, hturn⟩, hreplaces, hids'⟩, hsub⟩ :=
    @RepairPass.runs_one Unit _ svc (fun _ => some ()) pass ⟨n, fun _ => node⟩ _ hmarks chunk
      hreports (fun turn c' => (∃ r, ⟨.metadata (.updateChunk (updateRequest chunk
          (recordAll chunk.version answers {}).replicas)), .answered, r⟩ ∈ turn) ∧
        (pass.marked n).Replaces c'.metadata chunk.objectId (repairedChunk chunk answers) ∧
        c'.metadata.ChunkIds) fun now => by
      obtain ⟨turn, r, -, -, c', hrun, hturn, -, -, hreplaces, hids'⟩ :=
        repairChunk_runs_updated now hids₀ hkey hfetched hselected hne hall
          (fun _ _ => ⟨(), rfl⟩) haccepted.ge
      exact ⟨turn, true, c', hrun, ⟨r, hturn⟩, hreplaces, hids'⟩
  refine ⟨⟨n, fun _ => node⟩, c', trace, result, rfl, hrun, fun hkeeps => ?_⟩
  obtain ⟨new, hnew, hid, hle⟩ := hkeeps _ (hsub hturn) _ rfl (by simp) _ chunk
    hheld rfl
  -- the new chunk is the repaired one
  have hrepaired := (hreplaces.holds chunk.objectId (repairedChunk chunk answers)).mpr
    (.inl ⟨rfl, rfl⟩)
  obtain ⟨-, rfl⟩ := hids'.holds_unique hnew hrepaired hid
  have hfew := (c'.metadata.store.card_liveNodes_le (repairedChunk chunk answers).replicas).trans
    List.countP_le_length
  rw [repairedChunk_length, haccepted] at hfew
  exact Nat.lt_irrefl _ ((hmore.trans_le hle).trans_le hfew)

/-- In every state that the service reaches, no pass leaves a chunk on fewer online nodes if
and only if no reported chunk that the pass can read is on more of them than a quorum. -/
theorem repair_keeps_replicas_iff {svc : ClusterConfig} {n : MetadataNode}
    (hreached : n.Reached svc MetadataRpc.OwnChunk) (pass : RepairPass) :
    (∀ (ι : Type) [DecidableEq ι] (reach : Str → Option ι) (c c' : Cluster ι)
        (trace : List (Event Rpc Rpc.Reply)) (result : RecoveryResult), c.metadata = n →
      Runs (Cluster.Serves svc reach) pass.program c trace result c' →
        ∀ e ∈ trace, KeepsReplicas c c' e) ↔
      ∀ chunk, (pass.marked n).Reports svc chunk →
        (∃ rep ∈ chunk.replicas, rep.nodeId ≠ pass.excludeNode) →
        pass.cfg.replicationFactor = 0 ∨ (n.store.liveNodes chunk.replicas).card ≤
          quorumSize pass.cfg.writeAck pass.cfg.replicationFactor := by
  constructor
  · intro hkeeps chunk hreports hread
    by_contra hmore
    rw [not_or, Nat.not_le] at hmore
    obtain ⟨c, c', trace, result, hmetadata, hrun, hnot⟩ :=
      RepairPass.exists_shrinking_run hreached.chunkIds hreached.parented hreports hread hmore.1
        hmore.2
    exact hnot (hkeeps Unit _ c c' trace result hmetadata hrun)
  · rintro hcond ι _ reach c c' trace result rfl hrun
    exact RepairPass.keeps_replicas hreached.chunkIds hreached.parented hcond hrun

/-! ## Five nodes -/

section FiveNodes

private def fiveNodes : List (Str × Str) :=
  [(str "n1", str "n1:1"), (str "n2", str "n2:1"), (str "n3", str "n3:1"), (str "n4", str "n4:1"),
    (str "n5", str "n5:1")]

private def factor (replicationFactor : UInt32) : ClusterConfig :=
  { replicationFactor := replicationFactor }

/-- A chunk on the first of the nodes. -/
private def spread (count : ℕ) : ChunkInfo :=
  { chunkId := draw 1
    objectId := draw 0
    version := 1
    replicas := (fiveNodes.take count).map fun entry =>
      { nodeId := entry.1, address := entry.2, version := 1 } }

private def fivePass (replicationFactor : UInt32) : RepairPass :=
  { cfg := factor replicationFactor
    manager := { localNodeId := str "n1", localAddress := str "n1:1" }
    now := fun _ => 0 }

private theorem fiveNodes_nodup : (fiveNodes.map Prod.fst).Nodup := by decide

private theorem spread_isLive {replicationFactor : UInt32} {count : ℕ} :
    ∀ r ∈ (spread count).replicas,
      (oneObject (factor replicationFactor) fiveNodes (spread count)).store.isLive r = true := by
  intro r hr
  obtain ⟨entry, hentry, rfl⟩ := List.mem_map.mp hr
  rw [oneObject_isLive fiveNodes_nodup]
  exact decide_eq_true (List.mem_map_of_mem (List.mem_of_mem_take hentry))

private theorem spread_countP {replicationFactor : UInt32} {count : ℕ} (hcount : count ≤ 5) :
    (spread count).replicas.countP
      (oneObject (factor replicationFactor) fiveNodes (spread count)).store.isLive = count := by
  rw [List.countP_eq_length.mpr spread_isLive, spread, List.length_map, List.length_take]
  exact Nat.min_eq_left hcount

private theorem spread_reports {replicationFactor : UInt32} {count : ℕ} (hcount : count ≤ 5)
    (hfew : count < replicationFactor.toNat) :
    (oneObject (factor replicationFactor) fiveNodes (spread count)).Reports
      (factor replicationFactor) (spread count) := by
  refine ⟨⟨draw 0, oneObject_holds.mpr ⟨rfl, rfl⟩⟩, ?_⟩
  rw [spread_countP hcount]
  exact hfew

/-- With a factor of 3 a chunk on two nodes is not on fewer after any pass. -/
theorem repair_keeps_two :
    (oneObject (factor 3) fiveNodes (spread 2)).Reached (factor 3) MetadataRpc.OwnChunk ∧
      ∀ (c c' : Cluster Unit) (trace : List (Event Rpc Rpc.Reply)) (result : RecoveryResult),
        c.metadata = oneObject (factor 3) fiveNodes (spread 2) →
          Runs (Cluster.Serves (factor 3) fun _ => some ()) (fivePass 3).program c trace result c' →
            ∀ e ∈ trace, KeepsReplicas c c' e := by
  have hreached : (oneObject (factor 3) fiveNodes (spread 2)).Reached (factor 3)
      MetadataRpc.OwnChunk := oneObject_reached rfl rfl
  refine ⟨hreached, (repair_keeps_replicas_iff hreached (fivePass 3)).mpr
    (fun chunk hreports _ => .inr ?_) Unit fun _ => some ()⟩
  obtain ⟨⟨key, hholds⟩, -⟩ := hreports
  obtain ⟨-, rfl⟩ := (@oneObject_holds (factor 3) fiveNodes _ _ _).mp hholds
  exact (MetadataStore.card_liveNodes_le _ _).trans (spread_countP (by decide)).le

/-- With a factor of 5 a chunk on four nodes is on three after a pass that two nodes refuse. -/
theorem repair_drops_fourth : ∃ (c c' : Cluster Unit) (trace : List (Event Rpc Rpc.Reply))
    (result : RecoveryResult), c.metadata.Reached (factor 5) MetadataRpc.OwnChunk ∧
      Runs (Cluster.Serves (factor 5) fun _ => some ()) (fivePass 5).program c trace result c' ∧
        ¬∀ e ∈ trace, KeepsReplicas c c' e := by
  have hreached : (oneObject (factor 5) fiveNodes (spread 4)).Reached (factor 5)
      MetadataRpc.OwnChunk := oneObject_reached rfl rfl
  have hcard : ((oneObject (factor 5) fiveNodes (spread 4)).store.liveNodes
      (spread 4).replicas).card = 4 := by
    have hnodup : ((spread 4).replicas.map ReplicaInfo.nodeId).Nodup := by decide
    rw [MetadataStore.card_liveNodes (hnodup.sublist (List.filter_sublist.map _)),
      spread_countP (by decide)]
  obtain ⟨c, c', trace, result, hmetadata, hrun, hnot⟩ :=
    @RepairPass.exists_shrinking_run (factor 5) (fivePass 5) _ hreached.chunkIds hreached.parented
      (spread 4) (spread_reports (by decide) (by decide)) ⟨_, List.mem_cons_self, by decide⟩
      (by decide) (by rw [hcard]; decide)
  exact ⟨c, c', trace, result, hmetadata ▸ hreached, hrun, hnot⟩

end FiveNodes

end StorageEngine
