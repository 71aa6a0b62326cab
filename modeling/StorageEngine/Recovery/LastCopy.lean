import StorageEngine.Recovery.OneObject
import StorageEngine.Recovery.RepairLoop

/-!
# The good copies of a chunk

A repair copies what the first replica returns, and a storage node returns bytes that agree
with the header of its own file only.  So a pass can write bytes that the recorded checksum
of the chunk does not belong to, also over the copies that it belongs to.

* `KeepsGoodCopies` is what should hold of a pass.
* `SafeToRepair` is the condition on one chunk.
* `repair_keeps_good_copies_iff`: the pass keeps the good copies if and only if all chunks
  meet the condition.
-/

namespace StorageEngine

open Lib.Remote MetadataStore MetadataService RecoveryManager StorageClient

section GoodCopies

variable {ι : Type}

/-- Some online replica of the chunk holds data with the recorded checksum. -/
def HasGoodCopy (reach : Str → Option ι) (c : Cluster ι) (chunk : ChunkInfo) : Prop :=
  ∃ rep ∈ chunk.replicas, c.metadata.store.isLive rep = true ∧
    ∃ data, c.ReadsAt reach rep.address chunk.chunkId data ∧
      Checksum.sha256 data = chunk.checksum

/-- What a pass from `c` to `c'` should do: a chunk with a good copy still has one, and only
data with the recorded checksum is copied. -/
structure KeepsGoodCopies (reach : Str → Option ι) (c c' : Cluster ι)
    (trace : List (Event Rpc Rpc.Reply)) : Prop where
  kept : ∀ key chunk, c.metadata.Holds key chunk → HasGoodCopy reach c chunk →
    ∃ chunk', c'.metadata.Holds key chunk' ∧ chunk'.chunkId = chunk.chunkId ∧
      chunk'.checksum = chunk.checksum ∧ HasGoodCopy reach c' chunk'
  copies : ∀ key chunk, c.metadata.Holds key chunk → chunk.checksum ≠ [] →
    ∀ e ∈ trace, ∀ address q fate r header data, e = ⟨.storage address q, fate, r⟩ →
      q.written = some (header, data) → header.chunkId = chunk.chunkId →
        Checksum.sha256 data = chunk.checksum

/-- What the chunk needs before a pass that scans the metadata `n`.

`fetched` is about what the pass can read, and `alone` about a pass that selects one node,
which is its own: it writes to `local_address`, and records the registered address. -/
structure SafeToRepair (svc : ClusterConfig) (reach : Str → Option ι) (pass : RepairPass)
    (c : Cluster ι) (n : MetadataNode) (chunk : ChunkInfo) : Prop where
  marked : HasGoodCopy reach c chunk → HasGoodCopy reach { c with metadata := n } chunk
  fetched : n.Reports svc chunk → chunk.checksum ≠ [] → pass.cfg.replicationFactor ≠ 0 →
    n.store.nodes.onlineIds.Nonempty → ∀ data, Fetched reach c pass.excludeNode chunk data →
      Checksum.sha256 data = chunk.checksum
  alone : n.Reports svc chunk → HasGoodCopy reach c chunk →
    (∃ data, Fetched reach c pass.excludeNode chunk data) → pass.cfg.replicationFactor = 1 →
      ∀ node : NodeInfo, n.store.LeastUsed 1 [node] → node.id = pass.manager.localNodeId →
        reach pass.manager.localAddress ≠ none →
          reach node.address = reach pass.manager.localAddress ∨
            ∃ data, c.ReadsAt reach node.address chunk.chunkId data ∧
              Checksum.sha256 data = chunk.checksum

theorem HasGoodCopy.checksum_ne_nil {reach : Str → Option ι} {c : Cluster ι} {chunk : ChunkInfo}
    (h : HasGoodCopy reach c chunk) : chunk.checksum ≠ [] := by
  obtain ⟨rep, -, -, data, -, hchecksum⟩ := h
  exact hchecksum ▸ Checksum.sha256_ne_nil data

theorem HasGoodCopy.congr {reach : Str → Option ι} {c c' : Cluster ι} {chunk : ChunkInfo}
    (h : HasGoodCopy reach c chunk) (hsame : c.AgreesOn chunk.chunkId c')
    (hnodes : c'.metadata.store.nodes = c.metadata.store.nodes) : HasGoodCopy reach c' chunk := by
  obtain ⟨rep, hrep, hlive, data, hread, hchecksum⟩ := h
  exact ⟨rep, hrep, by rwa [isLive_congr hnodes], data, hsame.readsAt.mpr hread, hchecksum⟩

end GoodCopies

/-! ## Copies with the recorded checksum -/

section Copied

variable {ι : Type} {cfg : ClusterConfig} {reach : Str → Option ι} {m : ReplicationManager}
  {chunk : ChunkInfo} {data : Bytes} {c c' : Cluster ι} {nodes : List NodeInfo}
  {answers : List (ClusterNodeInfo × Bool)} {writes : List (Event Rpc Rpc.Reply)}

/-- A copy reads what it read before or the data that is copied. -/
theorem Cluster.Overwrites.readsAt {chunkId objectId : Str}
    (h : Cluster.Overwrites chunkId objectId data c c') (hchunk : chunkId.length < 2 ^ 32)
    (hobject : objectId.length < 2 ^ 32) {address : Str} {stored : Bytes}
    (hread : c.ReadsAt reach address chunkId stored) :
    c'.ReadsAt reach address chunkId stored ∨ c'.ReadsAt reach address chunkId data := by
  obtain ⟨i, hreach, hstored⟩ := hread
  rcases h.files i chunkId with hsame | ⟨-, hwritten⟩
  · exact .inl ⟨i, hreach, (StorageNode.reads_congr hsame).mpr hstored⟩
  · exact .inr ⟨i, hreach, (hwritten.stores hchunk hobject).reads⟩

/-- A turn that writes has a factor, and a node that is online. -/
theorem Copied.selects (h : Copied cfg reach m chunk data c nodes answers writes c') :
    cfg.replicationFactor ≠ 0 ∧ c.metadata.store.nodes.onlineIds.Nonempty := by
  have hlength := h.selected.length_eq
  have hpos := List.length_pos_iff.mpr h.nonempty
  constructor
  · intro hzero
    rw [hzero] at hlength
    exact absurd (hlength.trans (Nat.zero_min _)) hpos.ne'
  · refine Finset.card_pos.mp ?_
    omega

/-- Copies of good data leave a good copy. -/
theorem Copied.hasGoodCopy (h : Copied cfg reach m chunk data c nodes answers writes c')
    (hchunk : chunk.chunkId.length < 2 ^ 32) (hobject : chunk.objectId.length < 2 ^ 32)
    (hdata : Checksum.sha256 data = chunk.checksum) (hgood : HasGoodCopy reach c chunk) :
    HasGoodCopy reach c' chunk := by
  obtain ⟨rep, hrep, hlive, stored, hread, hchecksum⟩ := hgood
  have hoverwrites := h.asked.overwrites
  refine ⟨rep, hrep, by rwa [hoverwrites.metadata], ?_⟩
  rcases hoverwrites.readsAt hchunk hobject hread with hread | hread
  · exact ⟨stored, hread, hchecksum⟩
  · exact ⟨data, hread, hdata⟩

/-- Some node that has accepted has the data under its registered address, or the only one is
the node of the pass. -/
theorem Copied.accepted_cases (h : Copied cfg reach m chunk data c nodes answers writes c')
    (hchunk : chunk.chunkId.length < 2 ^ 32) (hobject : chunk.objectId.length < 2 ^ 32)
    (hquorum : Quorum cfg answers) :
    (∃ node ∈ acceptedOf answers, c'.ReadsAt reach node.address chunk.chunkId data) ∨
      ∃ node : NodeInfo, node.toProto ∈ acceptedOf answers ∧ cfg.replicationFactor = 1 ∧
        c.metadata.store.LeastUsed 1 [node] ∧ node.id = m.localNodeId ∧
        c'.ReadsAt reach m.localAddress chunk.chunkId data := by
  obtain ⟨accepted, hsub, heq⟩ := h.accepted_sublist
  have hstored : ∀ node ∈ acceptedOf answers,
      c'.ReadsAt reach (m.target node) chunk.chunkId data := by
    intro node hnode
    obtain ⟨i, hreach, hwritten⟩ := h.asked.stored node hnode
    exact ⟨i, hreach, (hwritten.stores hchunk hobject).reads⟩
  by_cases hother : ∃ node ∈ acceptedOf answers, node.nodeId ≠ m.localNodeId
  · obtain ⟨node, hnode, hne⟩ := hother
    have hread := hstored node hnode
    rw [ReplicationManager.target, if_neg hne] at hread
    exact .inl ⟨node, hnode, hread⟩
  · -- no node is selected twice, so only one has accepted
    have hlocal : ∀ node ∈ acceptedOf answers, node.nodeId = m.localNodeId := fun node hnode =>
      not_not.mp fun hne => hother ⟨node, hnode, hne⟩
    rw [Quorum, heq, List.length_map] at hquorum
    rw [heq] at hlocal hstored ⊢
    have hselected := h.selected.length_eq
    have hpos : 0 < cfg.replicationFactor.toNat := by
      have hlength := List.length_pos_iff.mpr h.nonempty
      omega
    have hsame : accepted.map NodeInfo.id = List.replicate accepted.length m.localNodeId :=
      List.map_eq_replicate_iff.mpr fun node hnode =>
        hlocal node.toProto (List.mem_map_of_mem hnode)
    have hfew : accepted.length ≤ 1 :=
      List.nodup_replicate.mp (hsame ▸ h.selected.ids_nodup.sublist (hsub.map _))
    have hsome := quorumSize_pos cfg.writeAck hpos
    obtain ⟨node, rfl⟩ := List.length_eq_one_iff.mp (show accepted.length = 1 by omega)
    have hfactor : cfg.replicationFactor = 1 :=
      UInt32.toNat_inj.mp (factor_of_quorumSize (hquorum.trans hfew) hpos)
    have hnode := List.mem_map_of_mem (f := NodeInfo.toProto) (List.mem_singleton_self node)
    have hread := hstored _ hnode
    rw [ReplicationManager.target, if_pos (hlocal _ hnode)] at hread
    have hnodes : [node] = nodes := hsub.eq_of_length_le (by
      rw [hselected, hfactor]
      exact Nat.min_le_left _ _)
    have hleast := h.selected
    rw [hfactor, ← hnodes] at hleast
    exact .inr ⟨node, hnode, hfactor, hleast, hlocal _ hnode, hread⟩

/-- The repaired chunk has a good copy. -/
theorem Copied.repaired_hasGoodCopy (h : Copied cfg reach m chunk data c nodes answers writes c')
    (hchunk : chunk.chunkId.length < 2 ^ 32) (hobject : chunk.objectId.length < 2 ^ 32)
    (hquorum : Quorum cfg answers) (hdata : Checksum.sha256 data = chunk.checksum)
    (halone : cfg.replicationFactor = 1 → ∀ node : NodeInfo, c.metadata.store.LeastUsed 1 [node] →
      node.id = m.localNodeId → reach m.localAddress ≠ none →
        reach node.address = reach m.localAddress ∨
          ∃ stored, c.ReadsAt reach node.address chunk.chunkId stored ∧
            Checksum.sha256 stored = chunk.checksum)
    {c'' : Cluster ι} (hfiles : c''.nodes = c'.nodes)
    (hnodes : c''.metadata.store.nodes = c.metadata.store.nodes) :
    HasGoodCopy reach c'' (repairedChunk chunk answers) := by
  have hread : ∃ node ∈ acceptedOf answers, ∃ stored,
      c'.ReadsAt reach node.address chunk.chunkId stored ∧
        Checksum.sha256 stored = chunk.checksum := by
    rcases h.accepted_cases hchunk hobject hquorum with
      ⟨node, hnode, hread⟩ | ⟨node, hnode, hfactor, hleast, hlocal, hread⟩
    · exact ⟨node, hnode, data, hread, hdata⟩
    · obtain ⟨i, hreach, hstored⟩ := hread
      refine ⟨node.toProto, hnode, ?_⟩
      rcases halone hfactor node hleast hlocal (by simp [hreach]) with hsame | hgood
      · exact ⟨data, ⟨i, hsame.trans hreach, hstored⟩, hdata⟩
      · obtain ⟨stored, hread, hchecksum⟩ := hgood
        rcases h.asked.overwrites.readsAt hchunk hobject hread with hread | hread
        · exact ⟨stored, hread, hchecksum⟩
        · exact ⟨data, hread, hdata⟩
  obtain ⟨node, hnode, stored, ⟨i, hreach, hstored⟩, hchecksum⟩ := hread
  obtain ⟨rep, hrep, haddress⟩ := recordAll_listed chunk.version hnode
  refine ⟨rep, hrep, ?_, stored, ⟨i, haddress ▸ hreach, hfiles ▸ hstored⟩, hchecksum⟩
  rw [isLive_congr hnodes]
  exact h.replicas_live rep hrep

end Copied

theorem MetadataStore.LeastUsed.congr {s s' : MetadataStore} {count : UInt32}
    {nodes : List NodeInfo} (h : s.LeastUsed count nodes) (hnodes : s'.nodes = s.nodes) :
    s'.LeastUsed count nodes := by
  obtain ⟨order, ⟨hvisits, hperm, hsorted⟩, rfl⟩ := h
  refine ⟨order, ⟨hnodes ▸ hvisits, hperm, hsorted⟩, ?_⟩
  unfold MetadataStore.selectNodes
  dsimp only
  split <;> rfl

/-! ## One turn -/

section Turn

variable {ι : Type} [DecidableEq ι] {svc cfg : ClusterConfig} {reach : Str → Option ι}
  {m : ReplicationManager} {excludeNode : Str} {chunk : ChunkInfo} {c c' : Cluster ι}
  {turn : List (Event Rpc Rpc.Reply)} {ok : Bool}

/-- A turn leaves its chunk with a good copy. -/
theorem RepairTurn.hasGoodCopy (h : RepairTurn svc cfg reach m excludeNode chunk c turn ok c')
    (hids : c.metadata.ChunkIds) (hholds : c.metadata.Holds chunk.objectId chunk)
    (hgood : HasGoodCopy reach c chunk)
    (hmatch : cfg.replicationFactor ≠ 0 → c.metadata.store.nodes.onlineIds.Nonempty →
      ∀ data, Fetched reach c excludeNode chunk data → Checksum.sha256 data = chunk.checksum)
    (halone : (∃ data, Fetched reach c excludeNode chunk data) → cfg.replicationFactor = 1 →
      ∀ node : NodeInfo, c.metadata.store.LeastUsed 1 [node] → node.id = m.localNodeId →
        reach m.localAddress ≠ none → reach node.address = reach m.localAddress ∨
          ∃ stored, c.ReadsAt reach node.address chunk.chunkId stored ∧
            Checksum.sha256 stored = chunk.checksum) :
    ∃ chunk', c'.metadata.Holds chunk.objectId chunk' ∧ chunk'.chunkId = chunk.chunkId ∧
      chunk'.checksum = chunk.checksum ∧ HasGoodCopy reach c' chunk' := by
  have hchunk := hids.chunkId_length hholds
  have hobject := hids.key_length hholds
  cases h with
  | unread => exact ⟨chunk, hholds, rfl, rfl, hgood⟩
  | unselected => exact ⟨chunk, hholds, rfl, rfl, hgood⟩
  | @refused _ _ data _ _ _ _ hfetched hcopied =>
    have hdata := hmatch hcopied.selects.1 hcopied.selects.2 data hfetched
    refine ⟨chunk, ?_, rfl, rfl, hcopied.hasGoodCopy hchunk hobject hdata hgood⟩
    rw [hcopied.asked.overwrites.metadata]
    exact hholds
  | @updated _ _ data _ answers _ _ _ _ _ _ hfetched hcopied hquorum hreq hupdate =>
    subst hreq
    have hdata := hmatch hcopied.selects.1 hcopied.selects.2 data hfetched
    have hmetadata := hcopied.asked.overwrites.metadata
    obtain ⟨hnodes, ⟨rfl, -⟩ | hreplaces⟩ := delivers_update (hmetadata ▸ hids) hupdate
    · refine ⟨chunk, ?_, rfl, rfl, hcopied.hasGoodCopy hchunk hobject hdata hgood⟩
      rw [hmetadata]
      exact hholds
    · rw [updateRequest_fromProto] at hreplaces
      refine ⟨repairedChunk chunk answers, (hreplaces.holds _ _).mpr (.inl ⟨rfl, rfl⟩), rfl, rfl,
        hcopied.repaired_hasGoodCopy hchunk hobject hquorum hdata (halone ⟨data, hfetched⟩) hnodes
          ?_⟩
      rw [hreplaces.nodes, hmetadata]

end Turn

/-! ## The pass -/

section Pass

variable {ι : Type} [DecidableEq ι] {svc : ClusterConfig} {reach : Str → Option ι}
  {pass : RepairPass} {c c' c₀ : Cluster ι} {trace start loop : List (Event Rpc Rpc.Reply)}
  {chunks : List ChunkInfo}

/-- The turn of a chunk starts with what there was before the pass. -/
theorem RepairPass.Ran.readsAt (h : Ran svc reach pass c trace c' c₀ chunks start loop)
    {chunk : ChunkInfo} {c₁ c₂ : Cluster ι} {turn : List (Event Rpc Rpc.Reply)} {ok : Bool}
    (hturn : TurnOf svc pass.cfg reach pass.manager pass.excludeNode c₀ c' chunk c₁ turn ok c₂)
    {address : Str} {data : Bytes} : c₁.ReadsAt reach address chunk.chunkId data ↔
      c.ReadsAt reach address chunk.chunkId data := by
  rw [hturn.before.readsAt, Cluster.ReadsAt, Cluster.ReadsAt, h.nodes]

/-- A pass leaves a chunk that is safe with a good copy. -/
theorem RepairPass.Ran.kept (h : Ran svc reach pass c trace c' c₀ chunks start loop)
    (hids : c.metadata.ChunkIds) (hparented : c.metadata.Parented) {key : Str} {chunk : ChunkInfo}
    (hholds : c.metadata.Holds key chunk)
    (hsafe : SafeToRepair svc reach pass c c₀.metadata chunk) (hgood : HasGoodCopy reach c chunk) :
    ∃ chunk', c'.metadata.Holds key chunk' ∧ chunk'.chunkId = chunk.chunkId ∧
      chunk'.checksum = chunk.checksum ∧ HasGoodCopy reach c' chunk' := by
  have hids₀ := h.chunkIds hids
  have hkept : c₀.metadata.Holds key chunk := h.marks.holds.mpr hholds
  have hmarked : HasGoodCopy reach c₀ chunk := by
    have hc₀ : { c with metadata := c₀.metadata } = c₀ := Cluster.ext rfl h.nodes.symm
    exact hc₀ ▸ hsafe.marked hgood
  have hstores := h.loop.nodes hids₀
  by_cases hid : chunk.chunkId ∈ chunks.map ChunkInfo.chunkId
  · obtain ⟨other, hother, hsame⟩ := List.mem_map.mp hid
    have hreports := h.reports other hother
    obtain ⟨key', hkey'⟩ := hreports.1
    obtain ⟨-, rfl⟩ := hids₀.holds_unique hkey' hkept hsame
    obtain rfl := hparented.of_holds hholds
    obtain ⟨c₁, turn, ok, c₃, -, -, hturn⟩ :=
      (h.loop.exists_turn hids₀ h.nodup).2 other hother
    have hfetched : ∀ {data}, Fetched reach c₁ pass.excludeNode other data ↔
        Fetched reach c pass.excludeNode other data := by
      simp only [Fetched, h.readsAt hturn, implies_true]
    obtain ⟨chunk', hheld, hid', hchecksum, hgood'⟩ := hturn.turn.hasGoodCopy hturn.chunkIds
      ((hturn.before.holds _ _ rfl).mpr hkept) (hmarked.congr hturn.before hturn.nodes)
      (fun hfactor honline data hdata => hsafe.fetched hreports hgood.checksum_ne_nil hfactor
        (hturn.nodes ▸ honline) data (hfetched.mp hdata))
      (fun hdata hfactor node hleast hlocal hreach => by
        simp only [hfetched] at hdata
        simp only [h.readsAt hturn]
        exact hsafe.alone hreports hgood hdata hfactor node (hleast.congr hturn.nodes.symm) hlocal
          hreach)
    refine ⟨chunk', (hturn.after.holds _ _ hid').mpr hheld, hid', hchecksum, ?_⟩
    have hnodes : c'.metadata.store.nodes = c₃.metadata.store.nodes := by
      rw [hstores, hturn.turn.nodes hturn.chunkIds, hturn.nodes]
    exact hgood'.congr (hid' ▸ hturn.after) hnodes
  · have hagrees := h.loop.agreesOn hids₀ hid
    exact ⟨chunk, (hagrees.holds _ _ rfl).mpr hkept, rfl, rfl, hmarked.congr hagrees hstores⟩

/-- A pass over chunks that are safe copies good data only. -/
theorem RepairPass.Ran.copies (h : Ran svc reach pass c trace c' c₀ chunks start loop)
    (hids : c.metadata.ChunkIds) {key : Str} {chunk : ChunkInfo}
    (hholds : c.metadata.Holds key chunk)
    (hsafe : SafeToRepair svc reach pass c c₀.metadata chunk) (hchecksum : chunk.checksum ≠ [])
    {e : Event Rpc Rpc.Reply} (he : e ∈ trace) {address : Str} {q : StorageRpc} {fate : Fate}
    {r : Option (Rpc.Reply (.storage address q))} (heq : e = ⟨.storage address q, fate, r⟩)
    {header : ChunkHeader} {data : Bytes} (hwritten : q.written = some (header, data))
    (hid : header.chunkId = chunk.chunkId) : Checksum.sha256 data = chunk.checksum := by
  have hids₀ := h.chunkIds hids
  have hloop : e ∈ loop := by
    rw [h.calls] at he
    refine (List.mem_append.mp he).resolve_left fun hstart => ?_
    have hstarts := h.starts e hstart
    rw [heq] at hstarts
    exact hstarts
  obtain ⟨other, hother, c₁, turn, ok, c₃, heturn, hturn⟩ :=
    (h.loop.exists_turn hids₀ h.nodup).1 e hloop
  obtain ⟨hid', hfetched, nodes, answers, writes, c₂, hcopied⟩ :=
    hturn.turn.of_write heturn heq hwritten
  have hreports := h.reports other hother
  obtain ⟨key', hkey'⟩ := hreports.1
  obtain ⟨-, rfl⟩ := hids₀.holds_unique hkey' (h.marks.holds.mpr hholds) (hid'.symm.trans hid)
  simp only [Fetched, h.readsAt hturn] at hfetched
  exact hsafe.fetched hreports hchecksum hcopied.selects.1 (hturn.nodes ▸ hcopied.selects.2) data
    hfetched

/-! ## Passes that go wrong -/

/-- A pass can write whatever it fetches. -/
theorem RepairPass.exists_write {n : MetadataNode} (hmarks : pass.Marks c.metadata n)
    {chunk : ChunkInfo} (hreports : n.Reports svc chunk) (hfactor : pass.cfg.replicationFactor ≠ 0)
    (honline : n.store.nodes.onlineIds.Nonempty) {data : Bytes}
    (hfetched : Fetched reach c pass.excludeNode chunk data) :
    ∃ trace result c', Runs (Cluster.Serves svc reach) pass.program c trace result c' ∧
      ∃ address q fate r, ⟨.storage address q, fate, r⟩ ∈ trace ∧
        q.WritesChunk chunk.chunkId chunk.objectId data := by
  have hpos : 0 < pass.cfg.replicationFactor.toNat :=
    Nat.pos_of_ne_zero fun hzero => hfactor (UInt32.toNat_inj.mp hzero)
  obtain ⟨order, horder⟩ := n.store.exists_possible .leastUsed
  have hselected : n.store.LeastUsed pass.cfg.replicationFactor _ := ⟨order, horder, rfl⟩
  have hne := List.ne_nil_of_length_pos (hselected.length_eq ▸
    Nat.lt_min.mpr ⟨hpos, Finset.card_pos.mpr honline⟩)
  -- all selected nodes refuse
  obtain ⟨answers, hall, haccepted⟩ := exists_accepted (Nat.zero_le (n.store.selectNodes order
    pass.cfg.replicationFactor .leastUsed).1.length)
  have hnone := List.length_eq_zero_iff.mp haccepted
  have hturn : ∀ now, ∃ turn ok c', Runs (Cluster.Serves svc reach)
      (repairChunk pass.cfg pass.manager now pass.excludeNode chunk) { c with metadata := n } turn
        ok c' ∧ ∃ address q fate r, ⟨.storage address q, fate, r⟩ ∈ turn ∧
          q.WritesChunk chunk.chunkId chunk.objectId data := by
    intro now
    obtain ⟨rep, hrep, hexclude, hread⟩ := hfetched
    obtain ⟨reads, hfetch⟩ := @fetch_runs _ _ svc reach chunk pass.excludeNode chunk.replicas
      { c with metadata := n } data rep hrep hexclude hread
    obtain ⟨writes, c₁, hcopied, hrefused, -⟩ := @repairChunk_runs _ _ svc pass.cfg reach
      pass.manager now _ _ _ _ _ _ _ hfetch hread.length_lt hselected hne hall (by simp [hnone])
    have hquorum : ¬Quorum pass.cfg answers := by
      rw [Quorum, haccepted, Nat.not_le]
      exact quorumSize_pos _ hpos
    refine ⟨_, _, _, hrefused hquorum, ?_⟩
    have hcalls := hcopied.asked.calls
    cases hcalls with
    | nil => exact absurd (List.map_eq_nil_iff.mp hall.symm) hne
    | cons hanswer _ =>
      obtain ⟨q, fate, r, rfl, hwrites, -⟩ := hanswer
      exact ⟨_, q, fate, r, by simp, hwrites⟩
  obtain ⟨trace, result, turn, c', hrun, ⟨address, q, fate, r, he, hwrites⟩, hsub⟩ :=
    RepairPass.runs_one hmarks hreports hturn
  exact ⟨trace, result, c', hrun, address, q, fate, r, hsub he, hwrites⟩

/-- A pass with a factor of 1 can record the chunk on its own node only. -/
theorem RepairPass.exists_alone {n : MetadataNode} (hmarks : pass.Marks c.metadata n)
    (hids : n.ChunkIds) {chunk : ChunkInfo} (hholds : n.Holds chunk.objectId chunk)
    (hreports : n.Reports svc chunk) {data : Bytes}
    (hfetched : Fetched reach c pass.excludeNode chunk data)
    (hfactor : pass.cfg.replicationFactor = 1) {node : NodeInfo}
    (hleast : n.store.LeastUsed 1 [node]) (hlocal : node.id = pass.manager.localNodeId) {i : ι}
    (hreach : reach pass.manager.localAddress = some i) :
    ∃ trace result c', Runs (Cluster.Serves svc reach) pass.program c trace result c' ∧
      n.Replaces c'.metadata chunk.objectId (repairedChunk chunk [(node.toProto, true)]) ∧
      c'.metadata.ChunkIds ∧ ∀ j, j ≠ i → c'.nodes j = c.nodes j := by
  have htarget : reach (pass.manager.target node.toProto) = some i := by
    have hown : node.toProto.nodeId = pass.manager.localNodeId := hlocal
    rw [ReplicationManager.target, if_pos hown, hreach]
  have hquorum : Quorum pass.cfg [(node.toProto, true)] := by
    rw [Quorum, hfactor]
    exact quorumSize_le pass.cfg.writeAck Nat.one_pos
  have hturn : ∀ now, ∃ turn ok c', Runs (Cluster.Serves svc reach)
      (repairChunk pass.cfg pass.manager now pass.excludeNode chunk) { c with metadata := n } turn
        ok c' ∧ n.Replaces c'.metadata chunk.objectId (repairedChunk chunk [(node.toProto, true)]) ∧
          c'.metadata.ChunkIds ∧ ∀ j, j ≠ i → c'.nodes j = c.nodes j := by
    intro now
    obtain ⟨turn, r, writes, c₁, c', hrun, -, hcopied, hnodes, hreplaces, hids'⟩ :=
      @repairChunk_runs_updated _ _ svc reach pass.cfg pass.manager now pass.excludeNode chunk data
        { c with metadata := n } [node] [(node.toProto, true)] hids hholds hfetched
        (hfactor ▸ hleast) (by simp) rfl (by simp [htarget]) hquorum
    refine ⟨turn, true, c', hrun, hreplaces, hids', fun j hj => ?_⟩
    rw [hnodes]
    refine hcopied.asked.elsewhere j ?_
    rw [List.forall_mem_singleton, htarget]
    exact fun heq => hj (Option.some.inj heq).symm
  obtain ⟨trace, result, turn, c', hrun, hgood, -⟩ := RepairPass.runs_one hmarks hreports hturn
  exact ⟨trace, result, c', hrun, hgood⟩

/-- In every state that the service reaches, a pass keeps the good copies, in all its runs, if
and only if all stored chunks are safe, whether its node has been marked or not. -/
theorem repair_keeps_good_copies_iff (hreached : c.metadata.Reached svc MetadataRpc.OwnChunk)
    (pass : RepairPass) :
    (∀ trace result c', Runs (Cluster.Serves svc reach) pass.program c trace result c' →
      KeepsGoodCopies reach c c' trace) ↔
      ∀ n, pass.Marks c.metadata n → ∀ key chunk, c.metadata.Holds key chunk →
        SafeToRepair svc reach pass c n chunk := by
  have hids := hreached.chunkIds
  constructor
  · intro hkeeps n hmarks key chunk hholds
    have hkept : n.Holds key chunk := hmarks.holds.mpr hholds
    refine ⟨fun hgood => ?_, fun hreports hchecksum hfactor honline data hfetched => ?_,
      fun hreports hgood hfetched hfactor node hleast hlocal hreach => ?_⟩
    · obtain ⟨trace, result, hrun⟩ := @RepairPass.runs_none _ _ svc reach pass c n hmarks
      obtain ⟨chunk', hheld, hid, -, hgood'⟩ := (hkeeps trace result _ hrun).kept key chunk hholds
        hgood
      obtain ⟨-, rfl⟩ := (hmarks.chunkIds hids).holds_unique hheld hkept hid
      exact hgood'
    · obtain ⟨trace, result, c', hrun, address, q, fate, r, he, header, hwritten, hid, -⟩ :=
        RepairPass.exists_write hmarks hreports hfactor honline hfetched
      exact (hkeeps trace result c' hrun).copies key chunk hholds hchecksum _ he address q fate r
        header data rfl hwritten hid
    · obtain ⟨i, hi⟩ := Option.ne_none_iff_exists'.mp hreach
      obtain ⟨data, hfetched⟩ := hfetched
      obtain rfl := MetadataNode.Parented.of_holds hreached.parented hholds
      obtain ⟨trace, result, c', hrun, hreplaces, hids', helsewhere⟩ :=
        RepairPass.exists_alone hmarks (hmarks.chunkIds hids) hkept hreports hfetched hfactor hleast
          hlocal hi
      obtain ⟨chunk', hheld, hid, -, rep, hrep, -, stored, hread, hchecksum⟩ :=
        (hkeeps trace result c' hrun).kept _ chunk hholds hgood
      have hrepaired := (hreplaces.holds chunk.objectId _).mpr (.inl ⟨rfl, rfl⟩)
      obtain ⟨-, rfl⟩ := hids'.holds_unique hheld hrepaired hid
      -- its only replica is on the node of the pass
      have haddress : rep.address = node.address := by
        have hmem := List.mem_map_of_mem (f := fun r => (r.nodeId, r.address)) hrep
        rw [repairedChunk, recordAll_replicas, acceptedOf_cons, if_pos rfl, acceptedOf_nil] at hmem
        exact (Prod.mk.inj (List.mem_singleton.mp hmem)).2
      rw [haddress] at hread
      obtain ⟨j, hj, hstored⟩ := hread
      by_cases hsame : j = i
      · exact .inl (hj.trans (hsame ▸ hi.symm))
      · rw [helsewhere j hsame] at hstored
        exact .inr ⟨stored, ⟨j, hj, hstored⟩, hchecksum⟩
  · intro hsafe trace result c' hrun
    obtain ⟨c₀, chunks, start, loop, hran⟩ := RepairPass.run hids hrun
    refine ⟨fun key chunk hholds hgood => ?_,
      fun key chunk hholds hchecksum e he address q fate r header data heq hwritten hid => ?_⟩
    · exact hran.kept hids hreached.parented hholds (hsafe _ hran.marks key chunk hholds) hgood
    · exact hran.copies hids hholds (hsafe _ hran.marks key chunk hholds) hchecksum he heq hwritten
        hid

end Pass

/-! ## Two copies -/

section TwoCopies

private def copyNodes : List (Str × Str) := [(str "n1", str "n1:1"), (str "n2", str "n2:1")]

/-- A chunk on both nodes, of which the byte 7 is recorded. -/
private def copied : ChunkInfo :=
  { chunkId := draw 1
    objectId := draw 0
    checksum := Checksum.sha256 [7]
    version := 1
    replicas := copyNodes.map fun entry =>
      { nodeId := entry.1, address := entry.2, version := 1 } }

private theorem copied_checksum : copied.checksum = Checksum.sha256 [7] := by rw [copied]

private def machineOf (address : Str) : Option Bool :=
  if address = str "n1:1" then some false else if address = str "n2:1" then some true else none

private def copyPass : RepairPass :=
  { cfg := {}
    manager := { localNodeId := str "n1", localAddress := str "n1:1" }
    now := fun _ => 0 }

/-- Both nodes have registered, and each stores a byte for the chunk. -/
private structure StoresBytes (c : Cluster Bool) (first second : UInt8) : Prop where
  metadata : c.metadata = oneObject {} copyNodes copied
  first : (c.nodes false).Stores (draw 1) [first]
  second : (c.nodes true).Stores (draw 1) [second]

private theorem exists_storesBytes (first second : UInt8) :
    ∃ c : Cluster Bool, StoresBytes c first second := by
  obtain ⟨n, hfirst⟩ := @StorageNode.exists_stores (draw 1) [first] (draw_length 1) (by simp)
  obtain ⟨n', hsecond⟩ := @StorageNode.exists_stores (draw 1) [second] (draw_length 1) (by simp)
  exact ⟨⟨oneObject {} copyNodes copied, fun i => if i then n' else n⟩, rfl, hfirst, hsecond⟩

section Fixture

variable {c : Cluster Bool} {first second : UInt8} (h : StoresBytes c first second)

include h

private theorem StoresBytes.holds : c.metadata.Holds (draw 0) copied := by
  rw [h.metadata]
  exact oneObject_holds.mpr ⟨rfl, rfl⟩

private theorem StoresBytes.reports : c.metadata.Reports {} copied := by
  refine ⟨⟨_, h.holds⟩, ?_⟩
  have hcount : copied.replicas.countP c.metadata.store.isLive ≤ 2 := List.countP_le_length
  exact hcount.trans_lt (by decide)

private theorem StoresBytes.readsFirst : c.ReadsAt machineOf (str "n1:1") (draw 1) [first] :=
  ⟨false, by decide, h.first.reads⟩

private theorem StoresBytes.readsSecond : c.ReadsAt machineOf (str "n2:1") (draw 1) [second] :=
  ⟨true, by decide, h.second.reads⟩

end Fixture

private theorem read_cases {c : Cluster Bool} {first second : Bytes}
    (hfirst : (c.nodes false).Reads (draw 1) first) (hsecond : (c.nodes true).Reads (draw 1) second)
    {address : Str} {data : Bytes} (h : c.ReadsAt machineOf address (draw 1) data) :
    data = first ∨ data = second := by
  obtain ⟨i, -, hread⟩ := h
  cases i with
  | false => exact .inl (hread.unique hfirst)
  | true => exact .inr (hread.unique hsecond)

/-- Both nodes store the byte 7, and a pass keeps it. -/
theorem repair_keeps_equal_copies : ∃ c : Cluster Bool, HasGoodCopy machineOf c copied ∧
    ∀ trace result c', Runs (Cluster.Serves {} machineOf) copyPass.program c trace result c' →
      KeepsGoodCopies machineOf c c' trace := by
  obtain ⟨c, h⟩ := exists_storesBytes 7 7
  have hlive : ∀ rep ∈ copied.replicas, c.metadata.store.isLive rep = true := by
    intro rep hrep
    obtain ⟨entry, hentry, rfl⟩ := List.mem_map.mp hrep
    rw [h.metadata, oneObject_isLive (by decide)]
    exact decide_eq_true (List.mem_map_of_mem hentry)
  have hreached : c.metadata.Reached {} MetadataRpc.OwnChunk := by
    rw [h.metadata]
    exact oneObject_reached rfl rfl
  refine ⟨c, ⟨_, List.mem_cons_self, hlive _ List.mem_cons_self, [7], h.readsFirst,
      copied_checksum.symm⟩,
    (@repair_keeps_good_copies_iff Bool _ {} machineOf c hreached copyPass).mpr
      fun n hmarks key chunk hholds => ?_⟩
  obtain rfl : n = c.metadata := hmarks.elim id id
  rw [h.metadata] at hholds
  obtain ⟨rfl, rfl⟩ := oneObject_holds.mp hholds
  refine ⟨id, fun _ _ _ _ data hfetched => ?_, fun _ _ _ hfactor => absurd hfactor (by decide)⟩
  obtain ⟨rep, -, -, hread⟩ := hfetched
  obtain rfl : data = [7] := (read_cases h.first.reads h.second.reads hread).elim id id
  exact copied_checksum.symm

/-- The first node stores the byte 8.  A pass copies it over the byte 7 of the second. -/
theorem repair_destroys_good_copy : ∃ (c c' : Cluster Bool) (trace : List (Event Rpc Rpc.Reply))
    (result : RecoveryResult), c.metadata.Reached {} MetadataRpc.OwnChunk ∧
      Runs (Cluster.Serves {} machineOf) copyPass.program c trace result c' ∧
        ¬KeepsGoodCopies machineOf c c' trace := by
  obtain ⟨c, h⟩ := exists_storesBytes 8 7
  have hreached : c.metadata.Reached {} MetadataRpc.OwnChunk := by
    rw [h.metadata]
    exact oneObject_reached rfl rfl
  have hfetched : Fetched machineOf c [] copied [8] :=
    ⟨_, List.mem_cons_self, by decide, h.readsFirst⟩
  have hleast : c.metadata.store.LeastUsed 3 (copyNodes.map newNode) :=
    leastUsed_registered (by rw [h.metadata, oneObject_nodes]) (by decide) (.refl copyNodes) 3
  let answers := copyNodes.map fun entry => ((newNode entry).toProto, true)
  have hturn : ∀ now, ∃ turn ok c', Runs (Cluster.Serves {} machineOf)
      (repairChunk copyPass.cfg copyPass.manager now copyPass.excludeNode copied)
        { c with metadata := c.metadata } turn ok c' ∧
      c'.metadata.Holds (draw 0) (repairedChunk copied answers) ∧ c'.metadata.ChunkIds ∧
        ∀ i, (c'.nodes i).Reads (draw 1) [8] := by
    intro now
    obtain ⟨turn, r, writes, c₁, c', hrun, -, hcopied, hnodes, hreplaces, hids'⟩ :=
      @RepairPass.repairChunk_runs_updated _ _ {} machineOf copyPass.cfg copyPass.manager now []
        copied [8] c _ answers hreached.chunkIds h.holds hfetched hleast (by decide) rfl (by decide)
        (Nat.le_refl 2)
    refine ⟨turn, true, c', hrun, (hreplaces.holds _ _).mpr (.inl ⟨rfl, rfl⟩), hids', ?_⟩
    have hwritten : ∀ node ∈ acceptedOf answers, ∀ i,
        machineOf (copyPass.manager.target node) = some i → (c'.nodes i).Reads (draw 1) [8] := by
      intro node hnode i hi
      obtain ⟨j, hj, hwritten⟩ := hcopied.asked.stored node hnode
      obtain rfl : i = j := Option.some.inj (hi.symm.trans hj)
      rw [hnodes]
      exact (hwritten.stores (draw_length 1) (draw_length 0)).reads
    intro i
    cases i with
    | false => exact hwritten _ List.mem_cons_self false (by decide)
    | true => exact hwritten _ (List.mem_cons_of_mem _ List.mem_cons_self) true (by decide)
  obtain ⟨trace, result, turn, c', hrun, ⟨hheld, hids', hreads⟩, -⟩ :=
    RepairPass.runs_one (.inl rfl) h.reports hturn
  refine ⟨c, c', trace, result, hreached, hrun, fun hkeeps => ?_⟩
  have hlive : c.metadata.store.isLive { nodeId := str "n2", address := str "n2:1", version := 1 } =
      true := by
    rw [h.metadata, oneObject_isLive (by decide)]
    decide
  obtain ⟨chunk', hheld', hid, hchecksum, rep, -, -, data, hread, hgood⟩ :=
    hkeeps.kept (draw 0) copied h.holds
      ⟨_, List.mem_cons_of_mem _ List.mem_cons_self, hlive, [7], h.readsSecond,
        copied_checksum.symm⟩
  obtain ⟨-, rfl⟩ := hids'.holds_unique hheld' hheld hid
  have hdata : data = [8] := (read_cases (hreads false) (hreads true) hread).elim id id
  rw [hdata, hchecksum, copied_checksum] at hgood
  exact Checksum.sha256_eight_ne_seven hgood

end TwoCopies

end StorageEngine
