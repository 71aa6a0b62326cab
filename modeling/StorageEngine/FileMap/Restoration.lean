import StorageEngine.FileMap.Spread
import StorageEngine.Recovery.Convergence

/-!
# A repair that goes well

A pass goes well if only the machines that have failed are silent.

* `fetch_available` and `repairChunk_selects`: such a pass fetches every chunk that it goes over.
* `Spread.recover`: if the failed machines are offline, it makes up for their failures.
* `exists_pass`: as long as a quorum of nodes is online, there is such a pass.
-/

namespace StorageEngine

open Lib Lib.Remote MetadataStore MetadataService RecoveryManager StorageClient

variable {ι : Type} [DecidableEq ι] {svc : ClusterConfig} {reach : Str → Option ι} {ids : ι → Str}
  {failed : Finset ι} {c c' : Cluster ι} {files : FileMap} {trace : List (Event Rpc Rpc.Reply)}

/-! ## A pass that goes well -/

/-- The metadata service answers, and so do the machines that have not failed.  Writes are
accepted. -/
structure GoesWell (reach : Str → Option ι) (failed : Finset ι) (e : Event Rpc Rpc.Reply) :
    Prop where
  metadata : MetadataAnswered e
  up : AnswersIfUp reach (fun i => i ∉ failed) e
  accepted : ∀ address q, e.request = .storage address q → q.written ≠ none → Succeeds reach e

omit [DecidableEq ι] in
theorem Responds.metadataAnswered {e : Event Rpc Rpc.Reply} (h : Responds reach e) :
    MetadataAnswered e := by
  intro q hq
  rcases h with hfate | ⟨address, q', hq', -⟩
  · exact hfate
  · rw [hq] at hq'
    cases hq'

omit [DecidableEq ι] in
theorem Responds.answersIfUp {up : ι → Prop} {e : Event Rpc Rpc.Reply} (h : Responds reach e) :
    AnswersIfUp reach up e := by
  intro address q i hq hi _
  rcases h with hfate | ⟨address', q', hq', hnone⟩
  · exact hfate
  · rw [hq] at hq'
    cases hq'
    rw [hi] at hnone
    cases hnone

omit [DecidableEq ι] in
/-- A pass whose calls all succeed goes well. -/
theorem Succeeds.goesWell {e : Event Rpc Rpc.Reply} (h : Succeeds reach e) :
    GoesWell reach failed e :=
  ⟨h.1.metadataAnswered, h.1.answersIfUp, fun _ _ _ _ => h⟩

/-- A pass can fetch a chunk that is on a machine that answers. -/
theorem fetch_available {up : ι → Prop} {chunk : ChunkInfo} {excludeNode : Str}
    {reps : List ReplicaInfo} (hstored : ∃ r ∈ reps, r.nodeId ≠ excludeNode ∧ ∃ i,
      reach r.address = some i ∧ up i ∧ ∃ data, (c.nodes i).Stores chunk.chunkId data)
    {result : Option Bytes}
    (hrun : Runs (Cluster.Serves svc reach) (fetchChunkFromReplica chunk excludeNode reps) c trace
      result c') (hup : ∀ e ∈ trace, AnswersIfUp reach up e) : result ≠ none := by
  induction reps generalizing c trace with
  | nil =>
    obtain ⟨r, hr, -⟩ := hstored
    cases hr
  | cons rep reps ih =>
    rw [fetchChunkFromReplica] at hrun
    obtain ⟨r, hr, hne, i, hi, hupi, data, hstores⟩ := hstored
    rcases List.mem_cons.mp hr with rfl | hr
    · rw [if_neg hne] at hrun
      obtain ⟨found, c₁, first, rest, hfirst, hrest, rfl⟩ := runs_bind.mp hrun
      obtain ⟨fate, reply, c₂, last, hcall, hlast, rfl⟩ := runs_rpc.mp hfirst
      have hfate : fate = .answered := hup _ (List.mem_append_left _ List.mem_cons_self) _ _ i rfl
        hi hupi
      subst hfate
      obtain ⟨j, n, hj, hserves, -⟩ := hcall.served.storage_cases
      rw [hi] at hj
      cases hj
      obtain ⟨-, resp, rfl, hsuccess, -⟩ := hserves.read hstores
      obtain ⟨-, rfl, rfl⟩ := runs_done.mp hlast
      simp only [hsuccess, if_true] at hrest
      obtain ⟨-, rfl, -⟩ := runs_done.mp hrest
      simp
    · have htail : ∃ r ∈ reps, r.nodeId ≠ excludeNode ∧ ∃ i, reach r.address = some i ∧ up i ∧
          ∃ data, (c.nodes i).Stores chunk.chunkId data :=
        ⟨r, hr, hne, i, hi, hupi, data, hstores⟩
      split at hrun
      · exact ih htail hrun hup
      · obtain ⟨found, c₁, first, rest, hfirst, hrest, rfl⟩ := runs_bind.mp hrun
        obtain ⟨rfl, -⟩ := readFromReplica_run hfirst
        rw [List.forall_mem_append] at hup
        cases found with
        | none => exact ih htail hrest hup.2
        | some data =>
          obtain ⟨-, rfl, -⟩ := runs_done.mp hrest
          simp

/-- So it goes on to select nodes for the chunk. -/
theorem repairChunk_selects {up : ι → Prop} {cfg : ClusterConfig} {m : ReplicationManager}
    {now : TimestampMs} {chunk : ChunkInfo} {excludeNode : Str}
    (hstored : ∃ r ∈ chunk.replicas, r.nodeId ≠ excludeNode ∧ ∃ i,
      reach r.address = some i ∧ up i ∧ ∃ data, (c.nodes i).Stores chunk.chunkId data) {ok : Bool}
    (hrun : Runs (Cluster.Serves svc reach) (repairChunk cfg m now excludeNode chunk) c trace ok
      c') (hup : ∀ e ∈ trace, AnswersIfUp reach up e) : ¬ReadsOnly chunk.chunkId trace := by
  obtain ⟨found, c₁, reads, rest, hfetch, hrest, rfl⟩ := runs_bind.mp hrun
  rw [List.forall_mem_append] at hup
  obtain ⟨data, rfl⟩ := Option.ne_none_iff_exists'.mp (fetch_available hstored hfetch hup.1)
  obtain ⟨result, c₂, copies, last, hreplicate, -, rfl⟩ := runs_bind.mp hrest
  obtain ⟨fate, r, c₃, writes, -, -, rfl⟩ := runs_rpc.mp hreplicate
  intro hreads
  obtain ⟨address, heq⟩ := hreads _
    (List.mem_append_right _ (List.mem_append_left _ List.mem_cons_self))
  cases heq

section Recover

variable {m : ReplicationManager} {excludeNode : Str} {content : Str → Bytes}

omit [DecidableEq ι] in
/-- All nodes that are selected accept the chunk, and they are a quorum. -/
theorem Copied.quorum_of_goesWell {chunk : ChunkInfo} {data : Bytes} {nodes : List NodeInfo}
    {answers : List (ClusterNodeInfo × Bool)} {writes : List (Event Rpc Rpc.Reply)}
    (h : Copied svc reach m chunk data c nodes answers writes c')
    (hgood : ∀ e ∈ writes, GoesWell reach failed e)
    (hfactor : quorumSize svc.writeAck svc.replicationFactor ≤ svc.replicationFactor.toNat)
    (honline : quorumSize svc.writeAck svc.replicationFactor ≤
      c.metadata.store.nodes.onlineIds.card) : Quorum svc answers := by
  have hsucceeds : ∀ e ∈ writes, Succeeds reach e := by
    intro e he
    obtain ⟨address, q, fate, r, rfl, header, hwritten, -⟩ := h.asked.writes e he
    exact (hgood _ he).accepted _ _ rfl (by simp [hwritten])
  rw [Quorum, h.asked.all_accepted hsucceeds, h.all, List.length_map, h.selected.length_eq]
  exact Nat.le_min.mpr ⟨hfactor, honline⟩

/-- The turn of a chunk that has a copy puts it on nodes that have all got it. -/
theorem RepairTurn.restores {chunk : ChunkInfo} {ok : Bool}
    (hturn : RepairTurn svc svc reach m excludeNode chunk c trace ok c')
    (hbacks : c.Backs reach content files) (h : c.Spread svc reach ids failed)
    (hheld : ∃ key, c.metadata.Holds key chunk) (hhome : m.AtHome reach c.metadata.store)
    (hgood : ∀ e ∈ trace, GoesWell reach failed e) (hreads : ¬ReadsOnly chunk.chunkId trace)
    (hquorum : quorumSize svc.writeAck svc.replicationFactor ≠ 0)
    (honline : quorumSize svc.writeAck svc.replicationFactor ≤
      c.metadata.store.nodes.onlineIds.card) {key : Str} {chunk' : ChunkInfo}
    (hheld' : c'.metadata.Holds key chunk') (hid : chunk'.chunkId = chunk.chunkId) :
    ChunkSpread svc reach ids ∅ c' chunk' := by
  obtain ⟨old, hold⟩ := hheld
  obtain ⟨hchunk, hobject⟩ := hbacks.id_lengths hold
  have hspread := h.chunks hold
  have hfactor := hspread.quorum_le
  cases hturn with
  | unread hreadsOnly => exact absurd hreadsOnly hreads
  | unselected _ _ hnone =>
    -- there is a node to select
    have hanswered := (hgood _ (List.mem_append_right _ (List.mem_singleton_self _))).metadata
    have hlength := (hnone (hanswered _ rfl)).length_eq
    rw [List.length_nil, eq_comm, Nat.min_eq_zero_iff] at hlength
    omega
  | refused _ _ hcopied hrefused =>
    refine absurd (hcopied.quorum_of_goesWell (fun e he => hgood e ?_) hfactor honline) hrefused
    exact List.mem_append_right _ (List.mem_cons_of_mem _ he)
  | @updated _ _ _ _ _ _ _ req fate r _ _ hcopied hquorum' hreq hupdate =>
    have hfate : fate = .answered :=
      (hgood ⟨.metadata (.updateChunk req), fate, r⟩ (by simp)).metadata _ rfl
    subst hreq hfate
    have hmetadata := hcopied.asked.overwrites.metadata
    have hids' := delivers_chunkIds hupdate (hmetadata ▸ hbacks.chunkIds)
    obtain ⟨hnodes, ⟨-, hnone⟩ | hreplaces⟩ := delivers_update (hmetadata ▸ hbacks.chunkIds) hupdate
    · refine absurd ⟨chunk, ?_, rfl⟩ (hnone (by simp))
      show Cluster.metadata _ |>.Holds chunk.objectId chunk
      rw [hmetadata, MetadataNode.Parented.of_holds hbacks.parented hold]
      exact hold
    · rw [updateRequest_fromProto] at hreplaces
      have hnew := (hreplaces.holds _ _).mpr (.inl ⟨rfl, rfl⟩)
      obtain ⟨-, rfl⟩ := hids'.holds_unique hheld' hnew hid
      exact (hcopied.spread hhome hquorum' h.registered hchunk hobject).congr
        fun i => by rw [hnodes]

/-- The loop of such a pass: the chunks that it goes over are on nodes that have all got them. -/
theorem repairChunks_restores {pbs : List ChunkMetadata} {now : ℕ → TimestampMs} {k n : UInt32}
    (hrun : Runs (Cluster.Serves svc reach) (repairChunks svc m excludeNode now pbs k) c trace n
      c') (hbacks : c.Backs reach content files) (h : c.Spread svc reach ids failed)
    (hfew : failed.card < quorumSize svc.writeAck svc.replicationFactor)
    (hexclude : ∀ i, i ∉ failed → ids i ≠ excludeNode)
    (hheld : ∀ chunk ∈ pbs.map ChunkMetadata.fromProto, ∃ key, c.metadata.Holds key chunk)
    (hnodup : ((pbs.map ChunkMetadata.fromProto).map ChunkInfo.chunkId).Nodup)
    (hhome : m.AtHome reach c.metadata.store) (hgood : ∀ e ∈ trace, GoesWell reach failed e)
    (honline : quorumSize svc.writeAck svc.replicationFactor ≤
      c.metadata.store.nodes.onlineIds.card) {key : Str} {chunk : ChunkInfo}
    (hheld' : c'.metadata.Holds key chunk)
    (hmem : chunk.chunkId ∈ (pbs.map ChunkMetadata.fromProto).map ChunkInfo.chunkId) :
    ChunkSpread svc reach ids ∅ c' chunk := by
  have hquorum : quorumSize svc.writeAck svc.replicationFactor ≠ 0 := by omega
  have hrequired := required_ne_zero hquorum
  induction pbs generalizing c trace now k with
  | nil => cases hmem
  | cons pb rest ih =>
    obtain ⟨ok, c₁, first, later, hfirst, hlater, rfl⟩ := runs_bind.mp hrun
    rw [List.map_cons] at hheld hnodup hmem
    rw [List.forall_mem_cons] at hheld
    rw [List.map_cons, List.nodup_cons] at hnodup
    rw [List.forall_mem_append] at hgood
    have hturn := repairChunk_run hfirst
    have hbacks₁ := hturn.backs hbacks hheld.1 hhome hrequired
    have hnodes := hturn.nodes hbacks.chunkIds
    rw [List.map_cons, List.mem_cons] at hmem
    rcases hmem with hid | hmem
    · -- the later turns leave the chunk of this one
      obtain ⟨old, hold⟩ := hheld.1
      have hreads := repairChunk_selects ((h.chunks hold).fetchable hfew hexclude) hfirst
        fun e he => (hgood.1 e he).up
      have hsame : c₁.AgreesOn chunk.chunkId c' :=
        (repairChunks_run hlater).agreesOn hbacks₁.chunkIds (hid ▸ hnodup.1)
      have hheld₁ := (hsame.holds key chunk rfl).mp hheld'
      exact (hturn.restores hbacks h hheld.1 hhome hgood.1 hreads hquorum honline hheld₁
        hid).congr hsame.files
    · exact ih hlater hbacks₁ (hturn.spread hbacks h hheld.1 hhome)
        (hturn.held_later hbacks.chunkIds hnodup.1 hheld.2) hnodup.2 (hhome.congr hnodes) hgood.2
        (by rw [hnodes]; exact honline) hmem

/-- What a pass does whose metadata calls are answered. -/
theorem RepairPass.run_answered {pass : RepairPass} (hids : c.metadata.ChunkIds)
    {result : RecoveryResult}
    (hrun : Runs (Cluster.Serves svc reach) pass.program c trace result c')
    (hanswered : ∀ e ∈ trace, MetadataAnswered e) :
    ∃ (pbs : List ChunkMetadata) (loop : List (Event Rpc Rpc.Reply)) (n : UInt32),
      Runs (Cluster.Serves svc reach)
        (repairChunks pass.cfg pass.manager pass.excludeNode pass.now pbs 0)
        { c with metadata := pass.marked c.metadata } loop n c' ∧ loop ⊆ trace ∧
      (∀ chunk, chunk ∈ pbs.map ChunkMetadata.fromProto ↔
        (pass.marked c.metadata).Reports svc chunk) ∧
      ((pbs.map ChunkMetadata.fromProto).map ChunkInfo.chunkId).Nodup := by
  rw [program] at hrun
  cases hfailed : pass.failedNodeId with
  | none =>
    rw [hfailed] at hrun
    have hmarked : pass.marked c.metadata = c.metadata := by rw [marked, hfailed]
    rw [hmarked, excludeNode, hfailed, Option.getD_none]
    obtain ⟨fate, r, c₁, rest, hscan, hrest, rfl⟩ := runs_rpc.mp hrun
    rw [List.forall_mem_cons] at hanswered
    obtain ⟨rfl, hreports, hnodup, hanswer⟩ := delivers_scan hscan hids
    obtain ⟨hsome, hall⟩ := hanswer (hanswered.1 _ rfl)
    obtain ⟨resp, rfl⟩ := Option.ne_none_iff_exists'.mp hsome
    obtain ⟨n, c₂, loop, last, hloop, hlast, rfl⟩ := runs_bind.mp hrest
    obtain ⟨-, -, rfl⟩ := runs_done.mp hlast
    exact ⟨resp.chunks, loop, n, hloop, by simp, fun chunk => ⟨hreports chunk, hall chunk⟩,
      hnodup⟩
  | some failedNodeId =>
    rw [hfailed] at hrun
    obtain ⟨fate, r, c₁, rest, hmark, hrest, rfl⟩ := runs_rpc.mp hrun
    obtain ⟨fate', r', c₂, rest', hscan, hrest', rfl⟩ := runs_rpc.mp hrest
    rw [List.forall_mem_cons, List.forall_mem_cons] at hanswered
    have hfate : fate = .answered := hanswered.1 _ rfl
    subst hfate
    obtain ⟨hnodes, resp, -, hserves⟩ := hmark.served.metadata_cases
    obtain rfl : c₁ = { c with metadata := pass.marked c.metadata } := by
      refine Cluster.ext ?_ hnodes
      rw [hserves.mark_store, marked, hfailed]
    have hmarks : pass.Marks c.metadata (pass.marked c.metadata) := .inr rfl
    obtain ⟨rfl, hreports, hnodup, hanswer⟩ := delivers_scan hscan (hmarks.chunkIds hids)
    obtain ⟨hsome, hall⟩ := hanswer (hanswered.2.1 _ rfl)
    obtain ⟨resp', rfl⟩ := Option.ne_none_iff_exists'.mp hsome
    obtain ⟨n, c₃, loop, last, hloop, hlast, rfl⟩ := runs_bind.mp hrest'
    obtain ⟨-, -, rfl⟩ := runs_done.mp hlast
    rw [excludeNode, hfailed, Option.getD_some]
    exact ⟨resp'.chunks, loop, n, hloop, fun e he => by simp [he],
      fun chunk => ⟨hreports chunk, hall chunk⟩, hnodup⟩

/-- A pass that goes well, with the failed machines offline, makes up for their failures. -/
theorem Cluster.Spread.recover (h : c.Spread svc reach ids failed)
    (hbacks : c.Backs reach content files)
    (hfew : failed.card < quorumSize svc.writeAck svc.replicationFactor) {pass : RepairPass}
    (hcfg : pass.cfg = svc) (hhome : pass.manager.AtHome reach c.metadata.store)
    (hexclude : ∀ i, i ∉ failed → ids i ≠ pass.excludeNode)
    (hoffline : ∀ i ∈ failed, ids i ∉ (pass.marked c.metadata).store.nodes.onlineIds)
    (honline : quorumSize svc.writeAck svc.replicationFactor ≤
      (pass.marked c.metadata).store.nodes.onlineIds.card) {result : RecoveryResult}
    (hrun : Runs (Cluster.Serves svc reach) pass.program c trace result c')
    (hgood : ∀ e ∈ trace, GoesWell reach failed e) : c'.Spread svc reach ids ∅ := by
  obtain ⟨pbs, loop, n, hloop, hsub, hreports, hnodup⟩ :=
    RepairPass.run_answered hbacks.chunkIds hrun fun e he => (hgood e he).metadata
  rw [hcfg] at hloop
  have hmarks : pass.Marks c.metadata (pass.marked c.metadata) := .inr rfl
  let c₀ : Cluster ι := { c with metadata := pass.marked c.metadata }
  have hbacks₀ : c₀.Backs reach content files := hmarks.backs hbacks rfl
  have hspread₀ : c₀.Spread svc reach ids failed := hmarks.spread h rfl
  have hhome₀ : pass.manager.AtHome reach c₀.metadata.store := hmarks.atHome hhome
  have hheld₀ : ∀ chunk ∈ pbs.map ChunkMetadata.fromProto, ∃ key, c₀.metadata.Holds key chunk :=
    fun chunk hchunk => ((hreports chunk).mp hchunk).1
  have hturns := repairChunks_run hloop
  refine ⟨hspread₀.registered.congr (hturns.nodes hbacks₀.chunkIds), fun {key chunk} hheld => ?_⟩
  by_cases hmem : chunk.chunkId ∈ (pbs.map ChunkMetadata.fromProto).map ChunkInfo.chunkId
  · exact repairChunks_restores hloop hbacks₀ hspread₀ hfew hexclude hheld₀ hnodup hhome₀
      (fun e he => hgood e (hsub he)) honline hheld hmem
  · -- a chunk that is not reported is on nodes that are all online
    have hsame := hturns.agreesOn hbacks₀.chunkIds hmem
    have hheld := (hsame.holds key chunk rfl).mp hheld
    have hspread := hspread₀.chunks hheld
    have hlive : ∀ r ∈ chunk.replicas, c₀.metadata.store.isLive r = true := by
      rw [← List.countP_eq_length]
      refine le_antisymm List.countP_le_length
        (hspread.few.trans (Nat.le_of_not_lt fun hless => ?_))
      exact hmem (List.mem_map_of_mem ((hreports chunk).mpr ⟨⟨key, hheld⟩, hless⟩))
    refine ChunkSpread.congr ⟨hspread.enough, hspread.few, fun r hr => ?_⟩ hsame.files
    obtain ⟨i, hi, hreach, hstores⟩ := hspread.placed r hr
    refine ⟨i, hi, hreach, fun _ => hstores fun hfailed => hoffline i hfailed ?_⟩
    rw [hi, ← MetadataStore.isLive_iff]
    exact hlive r hr

/-! ## Such a pass is possible -/

/-- A read can be answered, unless its address leads nowhere. -/
theorem readFromReplica_runs_responds (rep : ReplicaInfo) (chunkId : Str) (c : Cluster ι) :
    ∃ e result, Runs (Cluster.Serves svc reach) (ReplicationManager.readFromReplica rep chunkId) c
      [e] result c ∧ Responds reach e := by
  cases hi : reach rep.address with
  | none =>
    exact ⟨_, none, runs_rpc.mpr ⟨.requestLost, none, c, [], .requestLost c, .done _ _, rfl⟩,
      .inr ⟨_, _, rfl, hi⟩⟩
  | some i =>
    have hserves : Cluster.Serves svc reach (.storage rep.address (.readChunk
        { chunkId := chunkId })) c _ (c.setNode i (c.nodes i)) :=
      .storage hi (.readChunk (c.nodes i) { chunkId := chunkId })
    have hsame : c.setNode i (c.nodes i) = c := by
      rw [Cluster.setNode, Function.update_eq_self]
    rw [hsame] at hserves
    exact ⟨_, _, runs_rpc.mpr ⟨.answered, _, c, [], .answered hserves, .done _ _, rfl⟩, .inl rfl⟩

/-- All reads of a chunk can be. -/
theorem fetch_runs_responds (chunk : ChunkInfo) (excludeNode : Str) (reps : List ReplicaInfo)
    (c : Cluster ι) : ∃ trace result, Runs (Cluster.Serves svc reach)
      (fetchChunkFromReplica chunk excludeNode reps) c trace result c ∧
        ∀ e ∈ trace, Responds reach e := by
  induction reps with
  | nil => exact ⟨[], none, .done _ _, by simp⟩
  | cons rep reps ih =>
    obtain ⟨later, result, hlater, hresponds⟩ := ih
    rw [fetchChunkFromReplica]
    split
    · exact ⟨later, result, hlater, hresponds⟩
    · obtain ⟨e, found, hfirst, hfound⟩ :=
        @readFromReplica_runs_responds _ _ svc reach rep chunk.chunkId c
      cases found with
      | none =>
        exact ⟨e :: later, result, runs_bind.mpr ⟨none, c, [e], later, hfirst, hlater, rfl⟩,
          List.forall_mem_cons.mpr ⟨hfound, hresponds⟩⟩
      | some data =>
        exact ⟨[e], some data, runs_bind.mpr ⟨some data, c, [e], [], hfirst, .done _ _, rfl⟩,
          List.forall_mem_singleton.mpr hfound⟩

/-- The turn of a chunk can succeed. -/
theorem exists_turn {chunk : ChunkInfo} (now : TimestampMs)
    (h : c.Spread svc reach ids failed) (hheld : ∃ key, c.metadata.Holds key chunk)
    (hfew : failed.card < quorumSize svc.writeAck svc.replicationFactor)
    (hexclude : ∀ i, i ∉ failed → ids i ≠ excludeNode) (hhome : m.AtHome reach c.metadata.store)
    (honline : quorumSize svc.writeAck svc.replicationFactor ≤
      c.metadata.store.nodes.onlineIds.card) :
    ∃ turn ok c', Runs (Cluster.Serves svc reach) (repairChunk svc m now excludeNode chunk) c turn
      ok c' ∧ ∀ e ∈ turn, Succeeds reach e := by
  obtain ⟨key, hheld⟩ := hheld
  have hspread := h.chunks hheld
  obtain ⟨reads, found, hfetch, hresponds⟩ := @fetch_runs_responds _ _ svc reach chunk
    excludeNode chunk.replicas c
  obtain ⟨-, hreadsOnly, hread, -⟩ := fetch_run hfetch
  have hsucceeds : ∀ e ∈ reads, Succeeds reach e := by
    intro e he
    refine ⟨hresponds e he, ?_⟩
    rintro _ _ _ _ rfl hwritten
    obtain ⟨address, heq⟩ := hreadsOnly _ he
    cases heq
    exact absurd rfl hwritten
  have hgood : ∀ e ∈ reads, GoesWell reach failed e := fun e he => (hsucceeds e he).goesWell
  obtain ⟨data, rfl⟩ := Option.ne_none_iff_exists'.mp
    (fetch_available (hspread.fetchable hfew hexclude) hfetch fun e he => (hgood e he).up)
  have hlt : data.length < 2 ^ 64 := by
    obtain ⟨rep, -, -, hat⟩ := hread data rfl
    exact hat.length_lt
  obtain ⟨order, hpossible⟩ := exists_possible c.metadata.store .leastUsed
  obtain ⟨nodes, hselected⟩ : ∃ nodes, c.metadata.store.LeastUsed svc.replicationFactor nodes :=
    ⟨_, order, hpossible, rfl⟩
  have hfactor := hspread.quorum_le
  have hlength : quorumSize svc.writeAck svc.replicationFactor ≤ nodes.length := by
    rw [hselected.length_eq]
    exact Nat.le_min.mpr ⟨hfactor, honline⟩
  have hne : nodes ≠ [] := by
    rintro rfl
    rw [List.length_nil] at hlength
    omega
  -- all nodes that are selected accept
  let answers := nodes.map fun node => (node.toProto, true)
  have hall : answers.map Prod.fst = nodes.map NodeInfo.toProto := by simp [answers]
  have haccepted : acceptedOf answers = nodes.map NodeInfo.toProto := by
    simp only [acceptedOf, answers, List.filter_map, Function.comp_def, List.filter_true,
      List.map_map]
  have hreach : ∀ node ∈ acceptedOf answers, ∃ i, reach (m.target node) = some i := by
    rw [haccepted, List.forall_mem_map]
    intro node hnode
    obtain ⟨hfind, -⟩ := hselected.online hnode
    obtain ⟨i, -, hi⟩ := h.registered _ _ hfind
    exact ⟨i, (hhome.target hfind).trans hi⟩
  have hquorum : Quorum svc answers := by
    rw [Quorum, haccepted, List.length_map]
    exact hlength
  obtain ⟨writes, c₁, hcopied, -, hupdated⟩ := @repairChunk_runs _ _ svc svc reach m now
    excludeNode chunk data c nodes reads answers hfetch hlt hselected hne hall hreach
  have hserves : Cluster.Serves svc reach (.metadata (.updateChunk (updateRequest chunk
      (recordAll chunk.version answers {}).replicas))) c₁ _ _ :=
    .metadata (.updateChunk c₁.metadata _ 0)
  refine ⟨_, true, _, hupdated _ _ _ hquorum (.answered hserves), ?_⟩
  have hwrites := hcopied.asked.succeeds (by simp [answers])
  simp only [List.forall_mem_append, List.forall_mem_cons]
  exact ⟨hsucceeds, succeeds_metadata, hwrites, succeeds_metadata, by simp⟩

/-- So can a loop over chunks. -/
theorem exists_turns {pbs : List ChunkMetadata} (now : ℕ → TimestampMs) (k : UInt32)
    (hbacks : c.Backs reach content files) (h : c.Spread svc reach ids failed)
    (hfew : failed.card < quorumSize svc.writeAck svc.replicationFactor)
    (hexclude : ∀ i, i ∉ failed → ids i ≠ excludeNode)
    (hheld : ∀ chunk ∈ pbs.map ChunkMetadata.fromProto, ∃ key, c.metadata.Holds key chunk)
    (hnodup : ((pbs.map ChunkMetadata.fromProto).map ChunkInfo.chunkId).Nodup)
    (hhome : m.AtHome reach c.metadata.store)
    (honline : quorumSize svc.writeAck svc.replicationFactor ≤
      c.metadata.store.nodes.onlineIds.card) :
    ∃ loop n c', Runs (Cluster.Serves svc reach) (repairChunks svc m excludeNode now pbs k) c loop
      n c' ∧ ∀ e ∈ loop, Succeeds reach e := by
  have hquorum : quorumSize svc.writeAck svc.replicationFactor ≠ 0 := by omega
  have hrequired := required_ne_zero hquorum
  induction pbs generalizing c now k with
  | nil => exact ⟨[], k, c, .done _ _, by simp⟩
  | cons pb rest ih =>
    rw [List.map_cons] at hheld hnodup
    rw [List.forall_mem_cons] at hheld
    rw [List.map_cons, List.nodup_cons] at hnodup
    obtain ⟨turn, ok, c₁, hfirst, hturn⟩ :=
      exists_turn (now 0) h hheld.1 hfew hexclude hhome honline
    have hturned := repairChunk_run hfirst
    have hnodes := hturned.nodes hbacks.chunkIds
    obtain ⟨later, n, c', hlater, hrest⟩ := ih (fun i => now (i + 1)) (if ok then k + 1 else k)
      (hturned.backs hbacks hheld.1 hhome hrequired) (hturned.spread hbacks h hheld.1 hhome)
      (hturned.held_later hbacks.chunkIds hnodup.1 hheld.2) hnodup.2 (hhome.congr hnodes)
      (by rw [hnodes]; exact honline)
    exact ⟨turn ++ later, n, c', runs_bind.mpr ⟨ok, c₁, turn, later, hfirst, hlater, rfl⟩,
      List.forall_mem_append.mpr ⟨hturn, hrest⟩⟩

/-- A pass can succeed as long as a quorum of nodes is online. -/
theorem exists_pass (hbacks : c.Backs reach content files) (h : c.Spread svc reach ids failed)
    (hfew : failed.card < quorumSize svc.writeAck svc.replicationFactor) {pass : RepairPass}
    (hcfg : pass.cfg = svc) (hhome : pass.manager.AtHome reach c.metadata.store)
    (hexclude : ∀ i, i ∉ failed → ids i ≠ pass.excludeNode)
    (honline : quorumSize svc.writeAck svc.replicationFactor ≤
      (pass.marked c.metadata).store.nodes.onlineIds.card) :
    ∃ trace result c', Runs (Cluster.Serves svc reach) pass.program c trace result c' ∧
      ∀ e ∈ trace, Succeeds reach e := by
  subst hcfg
  have hmarks : pass.Marks c.metadata (pass.marked c.metadata) := .inr rfl
  let c₀ : Cluster ι := { c with metadata := pass.marked c.metadata }
  have hbacks₀ : c₀.Backs reach content files := hmarks.backs hbacks rfl
  obtain ⟨resp, hscan⟩ := exists_reported pass.cfg (pass.marked c.metadata)
  have hserves : Cluster.Serves pass.cfg reach (.metadata .getUnderReplicatedChunks) c₀ (some resp)
      c₀ := .metadata hscan
  obtain ⟨-, hreports, hnodup, -⟩ :=
    RepairPass.delivers_scan (.answered hserves) hbacks₀.chunkIds
  obtain ⟨loop, n, c', hloop, hsucceeds⟩ := @exists_turns _ _ pass.cfg reach ids failed c₀ files
    pass.manager pass.excludeNode content resp.chunks pass.now 0 hbacks₀ (hmarks.spread h rfl) hfew
    hexclude (fun chunk hchunk => (hreports chunk hchunk).1) hnodup (hmarks.atHome hhome) honline
  obtain ⟨start, result, hrun, hstarts, hanswered⟩ := RepairPass.runs_of_loop hmarks hscan hloop
  refine ⟨_, result, c', hrun, List.forall_mem_append.mpr ⟨fun e he => ?_, hsucceeds⟩⟩
  exact (hstarts e he).succeeds (hanswered rfl e he)

end Recover

end StorageEngine
