import StorageEngine.Recovery.OneObject
import StorageEngine.Recovery.RepairLoop

/-!
# A repair pass that succeeds

What `repair_under_replicated_chunks` leaves behind when all its calls succeed and enough
nodes are online.  It takes the empty node id to exclude no node, but a node can have it.

* `Converged` is what the pass should achieve.
* `RepairTurn.succeeds`: a chunk that can be fetched is on all the nodes that it needs.
* `RepairPass.Outcomes` puts the turns together.
* `repair_converges_iff`: the pass converges, if no chunk is readable only on a node with
  the empty id.
-/

namespace StorageEngine

open Lib.Remote MetadataStore MetadataService RecoveryManager StorageClient

section Converged

variable {ι : Type}

/-- Some replica of the chunk can be read. -/
def Readable (reach : Str → Option ι) (c : Cluster ι) (chunk : ChunkInfo) : Prop :=
  ∃ rep ∈ chunk.replicas, ∃ data, c.ReadsAt reach rep.address chunk.chunkId data

/-- The call is answered, unless its address leads nowhere, and a write is acknowledged. -/
def Succeeds (reach : Str → Option ι) (e : Event Rpc Rpc.Reply) : Prop :=
  Responds reach e ∧ ∀ address q fate r, e = ⟨.storage address q, fate, r⟩ → q.written ≠ none →
    StorageRpc.acknowledged q r = true

/-- The chunk is recorded on so many distinct nodes, which are online. -/
structure RecordedOn (s : MetadataStore) (count : UInt32) (chunk : ChunkInfo) : Prop where
  distinct : (chunk.replicas.map ReplicaInfo.nodeId).Nodup
  enough : chunk.replicas.length = count.toNat
  online : ∀ rep ∈ chunk.replicas, s.isLive rep = true

/-- What a pass from `c` to `c'` should achieve. -/
structure Converged [DecidableEq ι] (svc : ClusterConfig) (reach : Str → Option ι)
    (pass : RepairPass) (c c' : Cluster ι) : Prop where
  remaining : ∀ chunk, c'.metadata.Reports svc chunk ↔
    c.metadata.Reports svc chunk ∧ ¬Readable reach c chunk
  repaired : ∀ key chunk, c.metadata.Holds key chunk → c.metadata.Reports svc chunk →
    Readable reach c chunk → ∃ chunk', c'.metadata.Holds key chunk' ∧
      chunk'.chunkId = chunk.chunkId ∧
      RecordedOn c'.metadata.store svc.replicationFactor chunk'
  untouched : ∀ key chunk, c.metadata.Holds key chunk → ¬c.metadata.Reports svc chunk →
    c'.metadata.Holds key chunk ∧
      ∀ i, (c'.nodes i).file chunk.chunkId = (c.nodes i).file chunk.chunkId
  idle : ∀ trace result c'', Runs (Cluster.Serves svc reach) pass.program c' trace result c'' →
    c'' = c'

end Converged

/-! ## A turn that succeeds -/

section Turn

variable {ι : Type} {svc cfg : ClusterConfig} {reach : Str → Option ι}
  {m : ReplicationManager} {excludeNode : Str} {chunk : ChunkInfo} {c c' : Cluster ι}

/-- If all writes succeed, all nodes have accepted. -/
theorem Asked.all_accepted {target : ClusterNodeInfo → Str} {chunkId objectId : Str}
    {data : Bytes} {answers : List (ClusterNodeInfo × Bool)} {writes : List (Event Rpc Rpc.Reply)}
    (h : Asked reach target chunkId objectId data c answers writes c')
    (hsucceeds : ∀ e ∈ writes, Succeeds reach e) : acceptedOf answers = answers.map Prod.fst := by
  have hcalls := h.calls
  clear h
  induction hcalls with
  | nil => rfl
  | @cons answer e answers writes hanswer _ ih =>
    rw [List.forall_mem_cons] at hsucceeds
    obtain ⟨node, ok⟩ := answer
    obtain ⟨q, fate, r, rfl, ⟨header, hwritten, -⟩, hok, -⟩ := hanswer
    have hack : ok = true :=
      hok.trans (hsucceeds.1.2 _ q fate r rfl (by rw [hwritten]; simp))
    rw [hack, acceptedOf_cons, if_pos rfl, ih hsucceeds.2, List.map_cons]

theorem Asked.succeeds {target : ClusterNodeInfo → Str} {chunkId objectId : Str} {data : Bytes}
    {answers : List (ClusterNodeInfo × Bool)} {writes : List (Event Rpc Rpc.Reply)}
    (h : Asked reach target chunkId objectId data c answers writes c')
    (hall : ∀ answer ∈ answers, answer.2 = true) : ∀ e ∈ writes, Succeeds reach e := by
  have hcalls := h.calls
  clear h
  induction hcalls with
  | nil => simp
  | @cons answer e answers writes hanswer _ ih =>
    rw [List.forall_mem_cons] at hall ⊢
    obtain ⟨q, fate, r, rfl, -, hok, hfate⟩ := hanswer
    rw [hall.1] at hok
    refine ⟨⟨.inl (hfate ?_), ?_⟩, ih hall.2⟩
    · rintro rfl
      rw [q.acknowledged_none] at hok
      cases hok
    · rintro _ _ _ _ heq -
      cases heq
      exact hok.symm

/-- A metadata call that is answered succeeds. -/
theorem succeeds_metadata {q : MetadataRpc} {r : Option (Rpc.Reply (.metadata q))} :
    Succeeds reach ⟨.metadata q, .answered, r⟩ := by
  refine ⟨.inl rfl, ?_⟩
  rintro _ _ _ _ heq -
  cases heq

theorem RepairPass.Starts.succeeds {e : Event Rpc Rpc.Reply} (h : Starts e.request)
    (hfate : e.fate = .answered) : Succeeds reach e := by
  obtain ⟨q, fate, r⟩ := e
  cases hfate
  cases q with
  | metadata q => exact succeeds_metadata
  | storage address q => exact h.elim

variable [DecidableEq ι]

/-- A turn whose calls succeed fetches nothing, or puts the chunk on as many nodes as it
needs. -/
theorem RepairTurn.succeeds {turn : List (Event Rpc Rpc.Reply)} {ok : Bool}
    (h : RepairTurn svc cfg reach m excludeNode chunk c turn ok c') (hids : c.metadata.ChunkIds)
    (hholds : c.metadata.Holds chunk.objectId chunk)
    (hsucceeds : ∀ e ∈ turn, Succeeds reach e) (hpos : 0 < cfg.replicationFactor.toNat)
    (honline : cfg.replicationFactor.toNat ≤ c.metadata.store.nodes.onlineIds.card) :
    c' = c ∧ (∀ data, ¬Fetched reach c excludeNode chunk data) ∨
      (∃ data, Fetched reach c excludeNode chunk data) ∧ ∃ answers,
        c'.metadata.Holds chunk.objectId (repairedChunk chunk answers) ∧
          RecordedOn c'.metadata.store cfg.replicationFactor (repairedChunk chunk answers) := by
  have hall : ∀ {data nodes answers writes c₁}, Copied cfg reach m chunk data c nodes answers
      writes c₁ → (∀ e ∈ writes, Succeeds reach e) →
        (acceptedOf answers).length = cfg.replicationFactor.toNat := by
    intro data nodes answers writes c₁ hcopied hwrites
    rw [hcopied.asked.all_accepted hwrites, hcopied.all, List.length_map,
      hcopied.selected.length_eq, Nat.min_eq_left honline]
  cases h with
  | unread _ hnone => exact .inl ⟨rfl, hnone fun e he => (hsucceeds e he).1⟩
  | unselected _ _ hnone =>
    -- there is a node to select
    have hfate := responds_metadata (hsucceeds _
      (List.mem_append_right _ (List.mem_singleton_self _))).1
    have hlength := (hnone hfate).length_eq
    rw [List.length_nil, Nat.min_eq_left honline] at hlength
    omega
  | refused _ _ hcopied hquorum =>
    have hlength := hall hcopied fun e he => hsucceeds e (by simp [he])
    refine absurd ?_ hquorum
    rw [Quorum, hlength]
    exact quorumSize_le cfg.writeAck hpos
  | @updated _ _ data nodes answers c₁ _ req fate r _ hfetched hcopied _ hreq hupdate =>
    subst hreq
    have hlength := hall hcopied fun e he => hsucceeds e (by simp [he])
    have hfate := responds_metadata
      (hsucceeds ⟨.metadata (.updateChunk _), fate, r⟩ (by simp)).1
    have hmetadata := hcopied.asked.overwrites.metadata
    obtain ⟨-, hcases⟩ := delivers_update (hmetadata ▸ hids) hupdate
    rcases hcases with ⟨-, hnone⟩ | hreplaces
    · exact absurd ⟨chunk, hmetadata ▸ hholds, rfl⟩ (hnone (by rw [hfate]; decide))
    · rw [updateRequest_fromProto] at hreplaces
      refine .inr ⟨⟨data, hfetched⟩, answers, (hreplaces.holds _ _).mpr (.inl ⟨rfl, rfl⟩),
        hcopied.replicas_nodup, (repairedChunk_length _ _).trans hlength, fun rep hrep => ?_⟩
      have hlive := hcopied.replicas_live rep hrep
      rwa [isLive_congr (hreplaces.nodes.trans (by rw [hmetadata]))]

end Turn

/-! ## A pass that succeeds -/

section Pass

variable {ι : Type} [DecidableEq ι] {svc : ClusterConfig} {reach : Str → Option ι}

theorem RecordedOn.congr {s s' : MetadataStore} {count : UInt32} {chunk : ChunkInfo}
    (h : RecordedOn s count chunk) (hnodes : s'.nodes = s.nodes) : RecordedOn s' count chunk :=
  ⟨h.distinct, h.enough, isLive_congr hnodes ▸ h.online⟩

/-- A chunk that is on enough nodes is not reported. -/
theorem RecordedOn.not_reports {n : MetadataNode} {chunk : ChunkInfo}
    (h : RecordedOn n.store svc.replicationFactor chunk) : ¬n.Reports svc chunk := by
  rintro ⟨-, hcount⟩
  rw [List.countP_eq_length.mpr h.online, h.enough] at hcount
  exact Nat.lt_irrefl _ hcount

theorem MetadataNode.Reports.congr {n n' : MetadataNode} {key : Str} {chunk : ChunkInfo}
    (h : n.Reports svc chunk) (hholds : n'.Holds key chunk)
    (hnodes : n'.store.nodes = n.store.nodes) : n'.Reports svc chunk := by
  refine ⟨⟨key, hholds⟩, ?_⟩
  rw [isLive_congr hnodes]
  exact h.2

namespace RepairPass

/-- The pass that excludes no node scans the metadata as it is. -/
theorem Ran.start_eq {pass : RepairPass} (hpass : pass.failedNodeId = none) {c c' c₀ : Cluster ι}
    {chunks : List ChunkInfo} {trace start loop : List (Event Rpc Rpc.Reply)}
    (h : Ran svc reach pass c trace c' c₀ chunks start loop) : c₀ = c := by
  refine Cluster.ext ?_ h.nodes
  rcases h.marks with hmarks | hmarks
  · exact hmarks
  · rw [hmarks, marked, hpass]

/-- What a pass that succeeds does to a reported chunk: nothing, if it cannot fetch it. -/
inductive Outcome (svc : ClusterConfig) (reach : Str → Option ι) (c c' : Cluster ι)
    (chunk : ChunkInfo) : Prop where
  | left (hsame : c.AgreesOn chunk.chunkId c') (hnone : ∀ data, ¬Fetched reach c [] chunk data)
  | repaired {data : Bytes} {chunk' : ChunkInfo} (hfetched : Fetched reach c [] chunk data)
      (hid : chunk'.chunkId = chunk.chunkId) (hholds : c'.metadata.Holds chunk.objectId chunk')
      (hrecorded : RecordedOn c'.metadata.store svc.replicationFactor chunk')

section Succeeds

variable {pass : RepairPass} {c c' c₀ : Cluster ι} {chunks : List ChunkInfo}
  {trace start loop : List (Event Rpc Rpc.Reply)}

/-- The chunks that the pass goes over are those that are reported. -/
theorem Ran.mem_chunks (h : Ran svc reach pass c trace c' c₀ chunks start loop)
    (hpass : pass.failedNodeId = none) (hsucceeds : ∀ e ∈ trace, Succeeds reach e)
    {chunk : ChunkInfo} : chunk ∈ chunks ↔ c.metadata.Reports svc chunk := by
  rw [← h.start_eq hpass]
  refine ⟨h.reports chunk, (h.complete fun e he => ?_).2 chunk⟩
  exact (hsucceeds e (by simp [h.calls, he])).1

theorem Ran.nodes_eq (h : Ran svc reach pass c trace c' c₀ chunks start loop)
    (hpass : pass.failedNodeId = none) (hids : c.metadata.ChunkIds) :
    c'.metadata.store.nodes = c.metadata.store.nodes := by
  obtain rfl := h.start_eq hpass
  exact h.loop.nodes hids

theorem Ran.outcome (h : Ran svc reach pass c trace c' c₀ chunks start loop)
    (hpass : pass.failedNodeId = none)
    (hfactor : pass.cfg.replicationFactor = svc.replicationFactor)
    (hids : c.metadata.ChunkIds) (hparented : c.metadata.Parented)
    (honline : svc.replicationFactor.toNat ≤ c.metadata.store.nodes.onlineIds.card)
    (hsucceeds : ∀ e ∈ trace, Succeeds reach e) {chunk : ChunkInfo}
    (hreports : c.metadata.Reports svc chunk) : Outcome svc reach c c' chunk := by
  have hmem := (h.mem_chunks hpass hsucceeds).mpr hreports
  have hnodes := h.nodes_eq hpass hids
  obtain rfl := h.start_eq hpass
  have hexclude : pass.excludeNode = [] := by rw [excludeNode, hpass, Option.getD_none]
  obtain ⟨c₁, turn, ok, c₂, hsub, -, hturn⟩ := (h.loop.exists_turn hids h.nodup).2 chunk hmem
  obtain ⟨⟨key, obj, hobj, hchunk⟩, hcount⟩ := hreports
  have hholds : c₀.metadata.Holds chunk.objectId chunk := by
    rw [hparented hobj chunk hchunk]
    exact ⟨obj, hobj, hchunk⟩
  have hcalls : ∀ e ∈ turn, Succeeds reach e := fun e he =>
    hsucceeds e (by rw [h.calls]; exact List.mem_append_right _ (hsub he))
  have hresult := hturn.turn.succeeds hturn.chunkIds
    ((hturn.before.holds _ _ rfl).mpr hholds) hcalls (by rw [hfactor]; omega)
    (by rw [hfactor, hturn.nodes]; exact honline)
  rw [hexclude] at hresult
  rcases hresult with ⟨rfl, hnone⟩ | ⟨⟨data, hfetched⟩, answers, hnew, hrecorded⟩
  · exact .left (hturn.before.trans hturn.after) fun data hfetched =>
      hnone data (hturn.before.fetched.mpr hfetched)
  · have hstore : c'.metadata.store.nodes = c₂.metadata.store.nodes := by
      rw [hnodes, hturn.turn.nodes hturn.chunkIds, hturn.nodes]
    rw [hfactor] at hrecorded
    have hid : (repairedChunk chunk answers).chunkId = chunk.chunkId := rfl
    exact .repaired (hturn.before.fetched.mp hfetched) hid
      ((hturn.after.holds _ _ hid).mpr hnew) (hrecorded.congr hstore)

end Succeeds

/-- What a pass that succeeds does to all chunks: it leaves those that are not reported. -/
structure Outcomes (svc : ClusterConfig) (reach : Str → Option ι) (c c' : Cluster ι) : Prop where
  chunkIds : c.metadata.ChunkIds
  chunkIds' : c'.metadata.ChunkIds
  nodes : c'.metadata.store.nodes = c.metadata.store.nodes
  reported : ∀ {chunk}, c.metadata.Reports svc chunk → Outcome svc reach c c' chunk
  others : ∀ {id}, (∀ chunk, c.metadata.Reports svc chunk → chunk.chunkId ≠ id) →
    c.AgreesOn id c'

theorem Ran.outcomes {pass : RepairPass} {c c' c₀ : Cluster ι} {chunks : List ChunkInfo}
    {trace start loop : List (Event Rpc Rpc.Reply)}
    (h : Ran svc reach pass c trace c' c₀ chunks start loop) (hpass : pass.failedNodeId = none)
    (hfactor : pass.cfg.replicationFactor = svc.replicationFactor)
    (hids : c.metadata.ChunkIds) (hparented : c.metadata.Parented)
    (honline : svc.replicationFactor.toNat ≤ c.metadata.store.nodes.onlineIds.card)
    (hsucceeds : ∀ e ∈ trace, Succeeds reach e) : Outcomes svc reach c c' where
  chunkIds := hids
  chunkIds' := h.loop.chunkIds (h.chunkIds hids)
  nodes := h.nodes_eq hpass hids
  reported := h.outcome hpass hfactor hids hparented honline hsucceeds
  others := by
    intro id hother
    have hloop := h.loop
    rw [h.start_eq hpass] at hloop
    refine hloop.agreesOn hids fun hlisted => ?_
    obtain ⟨chunk, hchunk, rfl⟩ := List.mem_map.mp hlisted
    exact hother chunk ((h.mem_chunks hpass hsucceeds).mp hchunk) rfl

namespace Outcomes

variable {c c' : Cluster ι} {key : Str} {chunk : ChunkInfo}

omit [DecidableEq ι]

/-- A reported chunk that the pass leaves is reported again. -/
theorem reports_of_agreesOn (h : Outcomes svc reach c c') (hreports : c.metadata.Reports svc chunk)
    (hsame : c.AgreesOn chunk.chunkId c') : c'.metadata.Reports svc chunk := by
  obtain ⟨key, hholds⟩ := hreports.1
  exact hreports.congr ((hsame.holds key _ rfl).mpr hholds) h.nodes

/-- A held chunk that is not reported shares its id with none that is. -/
theorem agreesOn_of_not_reports (h : Outcomes svc reach c c') (hholds : c.metadata.Holds key chunk)
    (hnot : ¬c.metadata.Reports svc chunk) : c.AgreesOn chunk.chunkId c' := by
  refine h.others fun other hother hsame => hnot ?_
  obtain ⟨key', hkey'⟩ := hother.1
  obtain ⟨-, rfl⟩ := h.chunkIds.holds_unique hholds hkey' hsame.symm
  exact hother

/-- A chunk that is reported after the pass was reported before, and is one that it leaves. -/
theorem left_of_reports (h : Outcomes svc reach c c') (hreports' : c'.metadata.Reports svc chunk) :
    c.metadata.Reports svc chunk ∧ c.AgreesOn chunk.chunkId c' ∧
      ∀ data, ¬Fetched reach c [] chunk data := by
  obtain ⟨key, hholds'⟩ := hreports'.1
  by_cases hlisted : ∃ other, c.metadata.Reports svc other ∧ other.chunkId = chunk.chunkId
  · obtain ⟨other, hother, hsame⟩ := hlisted
    cases h.reported hother with
    | left hagrees hnone =>
      have hholds := (hagrees.holds key chunk hsame.symm).mp hholds'
      obtain ⟨key', hkey'⟩ := hother.1
      obtain ⟨-, rfl⟩ := h.chunkIds.holds_unique hholds hkey' hsame.symm
      exact ⟨hother, hagrees, hnone⟩
    | repaired _ hid' hnew hrecorded =>
      obtain ⟨-, rfl⟩ := h.chunkIds'.holds_unique hholds' hnew (hsame.symm.trans hid'.symm)
      exact absurd hreports' hrecorded.not_reports
  · have hother : ∀ other, c.metadata.Reports svc other → other.chunkId ≠ chunk.chunkId :=
      fun other hother hsame => hlisted ⟨other, hother, hsame⟩
    have hholds := ((h.others hother).holds key chunk rfl).mp hholds'
    exact absurd rfl (hother chunk (hreports'.congr hholds h.nodes.symm))

/-- When a pass can fetch all the chunks that can be read, the unreadable ones remain. -/
theorem remaining (h : Outcomes svc reach c c')
    (hunreadable : ∀ chunk, c.metadata.Reports svc chunk →
      (∀ data, ¬Fetched reach c [] chunk data) → ¬Readable reach c chunk) (chunk : ChunkInfo) :
    c'.metadata.Reports svc chunk ↔ c.metadata.Reports svc chunk ∧ ¬Readable reach c chunk := by
  constructor
  · intro hreports'
    obtain ⟨hreports, -, hnone⟩ := h.left_of_reports hreports'
    exact ⟨hreports, hunreadable chunk hreports hnone⟩
  · intro ⟨hreports, hnot⟩
    cases h.reported hreports with
    | left hsame _ => exact h.reports_of_agreesOn hreports hsame
    | repaired hfetched =>
      obtain ⟨rep, hrep, -, hread⟩ := hfetched
      exact absurd ⟨rep, hrep, _, hread⟩ hnot

end Outcomes

end RepairPass

/-- In every state that the service reaches with enough nodes online, a pass whose calls
succeed converges if and only if no reported chunk is readable only on nodes with the empty
id. -/
theorem repair_converges_iff {pass : RepairPass} (hpass : pass.failedNodeId = none)
    (hfactor : pass.cfg.replicationFactor = svc.replicationFactor) {c c' : Cluster ι}
    (hreached : c.metadata.Reached svc MetadataRpc.OwnChunk)
    (honline : svc.replicationFactor.toNat ≤ c.metadata.store.nodes.onlineIds.card)
    {trace : List (Event Rpc Rpc.Reply)} {result : RecoveryResult}
    (hrun : Runs (Cluster.Serves svc reach) pass.program c trace result c')
    (hsucceeds : ∀ e ∈ trace, Succeeds reach e) :
    Converged svc reach pass c c' ↔
      ∀ chunk, c.metadata.Reports svc chunk → Readable reach c chunk →
        ∃ rep ∈ chunk.replicas, rep.nodeId ≠ [] ∧
          ∃ data, c.ReadsAt reach rep.address chunk.chunkId data := by
  have hids := hreached.chunkIds
  obtain ⟨c₀, chunks, start, loop, hran⟩ := RepairPass.run hids hrun
  have houtcomes :=
    hran.outcomes hpass hfactor hids hreached.parented honline hsucceeds
  constructor
  · intro hconverged chunk hreports hreadable
    cases houtcomes.reported hreports with
    | left hsame _ =>
      have hleft := houtcomes.reports_of_agreesOn hreports hsame
      exact absurd hreadable ((hconverged.remaining chunk).mp hleft).2
    | repaired hfetched =>
      obtain ⟨rep, hrep, hne, hread⟩ := hfetched
      exact ⟨rep, hrep, hne, _, hread⟩
  · intro hcond
    -- a chunk that is left cannot be read
    have hunreadable : ∀ chunk, c.metadata.Reports svc chunk →
        (∀ data, ¬Fetched reach c [] chunk data) → ¬Readable reach c chunk := by
      intro chunk hreports hnone hreadable
      obtain ⟨rep, hrep, hne, data, hread⟩ := hcond chunk hreports hreadable
      exact hnone data ⟨rep, hrep, hne, hread⟩
    have hremaining := houtcomes.remaining hunreadable
    refine ⟨hremaining, fun key chunk hholds hreports hreadable => ?_,
      fun key chunk hholds hnot => ?_, fun trace' result' c'' hrun' => ?_⟩
    · cases houtcomes.reported hreports with
      | left _ hnone => exact absurd hreadable (hunreadable chunk hreports hnone)
      | @repaired data chunk' _ hid hnew hrecorded =>
        obtain ⟨obj, hobj, hchunk⟩ := hholds
        rw [hreached.parented hobj chunk hchunk] at hnew
        exact ⟨chunk', hnew, hid, hrecorded⟩
    · have hsame := houtcomes.agreesOn_of_not_reports hholds hnot
      exact ⟨(hsame.holds key chunk rfl).mpr hholds, hsame.files⟩
    · obtain ⟨c₁, chunks', start', loop', hran'⟩ := RepairPass.run houtcomes.chunkIds' hrun'
      obtain rfl := hran'.start_eq hpass
      refine hran'.loop.idle fun chunk hchunk data hfetched => ?_
      have hreports' := hran'.reports chunk hchunk
      obtain ⟨-, hsame, -⟩ := houtcomes.left_of_reports hreports'
      obtain ⟨rep, hrep, -, hread⟩ := hfetched
      exact ((hremaining chunk).mp hreports').2 ⟨rep, hrep, data, hsame.readsAt.mp hread⟩

end Pass

/-! ## One node that leaves and one that joins -/

section Stray

/-- One replica per chunk. -/
private def lonely : ClusterConfig := { replicationFactor := 1 }

/-- A chunk whose only replica is on the node with this id. -/
private def stray (nodeId : Str) : ChunkInfo :=
  { chunkId := draw 1
    objectId := draw 0
    version := 1
    replicas := [{ nodeId := nodeId, address := str "n0:1", isPrimary := true, version := 1 }] }

/-- The node with this id has registered and has gone offline, and then a node has joined. -/
private def strayNode (nodeId : Str) : MetadataNode :=
  let n := oneObject lonely [(nodeId, str "n0:1")] (stray nodeId)
  { n with store :=
      { n.store with
        nodes := (n.store.nodes.set { newNode (nodeId, str "n0:1") with online := false }).set
          (newNode (str "n1", str "n1:1")) } }

private theorem strayNode_reached (nodeId : Str) :
    (strayNode nodeId).Reached lonely MetadataRpc.OwnChunk := by
  have hfind : (oneObject lonely [(nodeId, str "n0:1")] (stray nodeId)).store.nodes.find nodeId =
      some (newNode (nodeId, str "n0:1")) := by
    rw [oneObject_nodes, registered, NodeTable.find_set, newNode, if_pos rfl]
  have hoffline := @Serves.markNodeOffline lonely
    (oneObject lonely [(nodeId, str "n0:1")] (stray nodeId)) { nodeId := nodeId }
  rw [MetadataService.markNodeOffline, MetadataStore.markNodeOffline, hfind] at hoffline
  have hreached : MetadataNode.Reached lonely MetadataRpc.OwnChunk _ :=
    Relation.ReflTransGen.tail (oneObject_reached rfl rfl)
      ⟨.markNodeOffline _, _, trivial, hoffline⟩
  exact hreached.tail ⟨.registerNode { nodeId := str "n1", address := str "n1:1" }, _, trivial,
    .registerNode _ _ 0⟩

private theorem strayNode_online (nodeId : Str) :
    1 ≤ (strayNode nodeId).store.nodes.onlineIds.card := by
  refine Finset.card_pos.mpr ⟨str "n1", NodeTable.mem_onlineIds.mpr
    ⟨newNode (str "n1", str "n1:1"), ?_, rfl⟩⟩
  rw [strayNode, NodeTable.find_set, newNode, if_pos rfl]

private theorem strayNode_reports {nodeId : Str} (hne : nodeId ≠ str "n1") :
    (stray nodeId).replicas.countP (strayNode nodeId).store.isLive < 1 := by
  have hoffline : (strayNode nodeId).store.isLive
      { nodeId := nodeId, address := str "n0:1", isPrimary := true, version := 1 } = false := by
    rw [isLive, strayNode, NodeTable.find_set, newNode, if_neg hne, NodeTable.find_set, newNode,
      if_pos rfl]
  rw [stray, List.countP_singleton, hoffline]
  decide

/-- The pass of the node that joins. -/
private def strayPass : RepairPass :=
  { cfg := lonely
    manager := { localNodeId := str "n1", localAddress := str "n1:1" }
    now := fun _ => 0 }

private def everywhere : Str → Option Unit := fun _ => some ()

private theorem strayNode_scan {nodeId : Str} (hne : nodeId ≠ str "n1") :
    Serves lonely .getUnderReplicatedChunks (strayNode nodeId)
      { chunks := [(stray nodeId).toProto] } (strayNode nodeId) :=
  @serves_scan_oneObject lonely [(nodeId, str "n0:1")] (stray nodeId) (strayNode nodeId) rfl
    (strayNode_reports hne)

private theorem strayNode_reported {nodeId : Str} (hne : nodeId ≠ str "n1") :
    (strayNode nodeId).Reports lonely (stray nodeId) :=
  (strayNode_scan hne).mem_reportedChunks.mp (by
    rw [reportedChunks, List.map_singleton, ChunkInfo.fromProto_toProto]
    exact List.mem_singleton_self _)

/-- A pass copies the chunk to the node that has joined. -/
theorem repair_converges_stray : ∃ (c c' : Cluster Unit) (chunk : ChunkInfo),
    c.metadata.Reports lonely chunk ∧ Readable everywhere c chunk ∧
      Converged lonely everywhere strayPass c c' := by
  have hne : str "n0" ≠ str "n1" := by decide
  obtain ⟨n, hstores⟩ := @StorageNode.exists_stores (draw 1) [] (draw_length 1) (by decide)
  let c : Cluster Unit := ⟨strayNode (str "n0"), fun _ => n⟩
  have hread : c.ReadsAt everywhere (str "n0:1") (draw 1) [] := ⟨(), rfl, hstores.reads⟩
  -- the only node that is online is selected
  obtain ⟨order, horder⟩ := c.metadata.store.exists_possible .leastUsed
  have hselected :
      c.metadata.store.LeastUsed 1 (c.metadata.store.selectNodes order 1 .leastUsed).1 :=
    ⟨order, horder, rfl⟩
  have hlength := hselected.length_eq.trans (Nat.min_eq_left (strayNode_online (str "n0")))
  obtain ⟨node, hnode⟩ := List.length_eq_one_iff.mp hlength
  rw [hnode] at hselected
  obtain ⟨resp, hfirst⟩ := @readFromReplica_runs _ _ lonely everywhere
    { nodeId := str "n0", address := str "n0:1", isPrimary := true, version := 1 } _ _ _ hread
  have hfetch : Runs (Cluster.Serves lonely everywhere)
      (fetchChunkFromReplica (stray (str "n0")) [] (stray (str "n0")).replicas) c _ (some []) c :=
    runs_bind.mpr ⟨some [], c, _, [], hfirst, .done _ _, rfl⟩
  obtain ⟨writes, c₁, hcopied, -, hupdated⟩ := @repairChunk_runs Unit _ lonely lonely everywhere
    strayPass.manager 0 [] _ _ _ _ _ [(node.toProto, true)] hfetch (by decide) hselected (by simp)
    rfl (fun _ _ => ⟨(), rfl⟩)
  have hturn := hupdated .answered _ _ (Nat.le_refl 1) (.answered (.metadata
    (.updateChunk c₁.metadata _ 0)))
  have hloop : Runs (Cluster.Serves lonely everywhere) (repairChunks lonely strayPass.manager []
      strayPass.now [(stray (str "n0")).toProto] 0) c _ _ _ :=
    runs_bind.mpr ⟨true, _, _, [], by rw [ChunkInfo.fromProto_toProto]; exact hturn, .done _ _, rfl⟩
  obtain ⟨start, result, hrun, hstarts, hanswered⟩ := @RepairPass.runs_of_loop Unit _ lonely
    everywhere strayPass c _ _ _ _ _ (.inl rfl) (strayNode_scan hne) hloop
  have hreadable : Readable everywhere c (stray (str "n0")) :=
    ⟨_, List.mem_singleton_self _, [], hread⟩
  refine ⟨c, _, _, strayNode_reported hne, hreadable, (@repair_converges_iff Unit _ lonely
    everywhere strayPass rfl rfl c _ (strayNode_reached (str "n0")) (strayNode_online (str "n0"))
    _ _ hrun fun e he => ?_).mpr fun chunk hreports _ => ?_⟩
  · rcases List.mem_append.mp he with he | he
    · exact (hstarts e he).succeeds (hanswered rfl e he)
    · have hwrites := hcopied.asked.succeeds (by simp)
      simp only [List.append_nil, List.cons_append, List.nil_append, List.mem_cons,
        List.mem_append, List.not_mem_nil, or_false] at he
      rcases he with rfl | rfl | he | rfl
      · refine ⟨.inl rfl, ?_⟩
        rintro _ _ _ _ heq hwritten
        cases heq
        exact absurd rfl hwritten
      · exact succeeds_metadata
      · exact hwrites e he
      · exact succeeds_metadata
  · obtain ⟨⟨key, hholds⟩, -⟩ := hreports
    obtain ⟨-, rfl⟩ := (@oneObject_holds lonely [(str "n0", str "n0:1")] _ _ _).mp hholds
    exact ⟨_, List.mem_singleton_self _, by decide, [], hread⟩

/-- A pass leaves a chunk that it could read, on a node with the empty id. -/
theorem repair_skips_empty_id : ∃ (pass : RepairPass) (c c' : Cluster Unit)
    (trace : List (Event Rpc Rpc.Reply)) (result : RecoveryResult),
    pass.failedNodeId = none ∧ pass.cfg.replicationFactor = lonely.replicationFactor ∧
      c.metadata.Reached lonely MetadataRpc.OwnChunk ∧
      lonely.replicationFactor.toNat ≤ c.metadata.store.nodes.onlineIds.card ∧
      Runs (Cluster.Serves lonely everywhere) pass.program c trace result c' ∧
      (∀ e ∈ trace, Succeeds everywhere e) ∧ ¬Converged lonely everywhere pass c c' := by
  have hne : ([] : Str) ≠ str "n1" := by decide
  obtain ⟨n, hstores⟩ := @StorageNode.exists_stores (draw 1) [] (draw_length 1) (by decide)
  let c : Cluster Unit := ⟨strayNode [], fun _ => n⟩
  have hloop : Runs (Cluster.Serves lonely everywhere)
      (repairChunks lonely strayPass.manager [] strayPass.now [(stray []).toProto] 0) c [] 0 c := by
    refine runs_bind.mpr ⟨false, c, [], [], runs_bind.mpr ⟨none, c, [], [], ?_, .done _ _, rfl⟩,
      .done _ _, rfl⟩
    rw [ChunkInfo.fromProto_toProto, stray, fetchChunkFromReplica, if_pos rfl]
    exact .done _ _
  obtain ⟨start, result, hrun, hstarts, hanswered⟩ := @RepairPass.runs_of_loop Unit _ lonely
    everywhere strayPass c c _ _ _ _ (.inl rfl) (strayNode_scan hne) hloop
  refine ⟨strayPass, c, c, _, result, rfl, rfl, strayNode_reached [], strayNode_online [], hrun,
    fun e he => ?_, fun hconverged => ?_⟩
  · rw [List.append_nil] at he
    exact (hstarts e he).succeeds (hanswered rfl e he)
  · have hreported := strayNode_reported hne
    have hremaining := (hconverged.remaining (stray [])).mp hreported
    exact hremaining.2 ⟨_, List.mem_singleton_self _, [], (), rfl, hstores.reads⟩

end Stray

end StorageEngine
