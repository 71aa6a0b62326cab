import StorageEngine.Client.PutSuccess
import StorageEngine.Metadata.Selection

/-!
# How many nodes a put has written to

`put` counts the writes that were acknowledged, and takes the nodes to write to
from `SelectNodes`.  The count is a number of nodes only if the selected nodes
are distinct, and round robin selects a node twice.  This module proves when a
successful put is on as many nodes as its policy asks for: whenever the quorum is
at least one node, and the round-robin loop picks distinct nodes or the quorum is
too small to notice.
-/

namespace StorageEngine.StorageClient

open Lib.Remote MetadataStore

/-! ## What is asked for -/

/-- The chunk is recorded with, and stored on, so many nodes. -/
structure ChunkDurable {ι : Type} (reach : Str → Option ι) (registry : NodeTable)
    (c : Cluster ι) (nodes : ℕ) (chunk : ChunkInfo) (data : Bytes) : Prop where
  distinct : nodes ≤ (chunk.replicas.map ReplicaInfo.nodeId).toFinset.card
  registered : ∀ r ∈ chunk.replicas, ∃ node, registry.find r.nodeId = some node ∧
    node.online = true ∧ node.address = r.address
  stored : ∀ r ∈ chunk.replicas, c.StoredAt reach r.address chunk.chunkId data

/-- Every chunk of the object is on so many nodes, with its part of the data. -/
def Durable {ι : Type} (reach : Str → Option ι) (registry : NodeTable) (c : Cluster ι)
    (nodes : ℕ) (objectId : Str) (data : Bytes) : Prop :=
  ∃ o, c.metadata.store.objectsById.lookup objectId = some o ∧
    List.Forall₂ (ChunkDurable reach registry c nodes) o.chunks
      ((pieces data (o.chunks.map ChunkInfo.toProto) 0).map Prod.snd)

/-- All calls of the metadata service are answered. -/
def MetadataAnswered (trace : List (Event Rpc Rpc.Reply)) : Prop :=
  ∀ e ∈ trace, ∀ q, e.request = .metadata q → e.fate = .answered

theorem MetadataAnswered.not_updateLost {trace : List (Event Rpc Rpc.Reply)}
    (h : MetadataAnswered trace) : ∀ e ∈ trace, ¬UpdateLost e := by
  rintro e he ⟨req, reply, rfl⟩
  cases h _ he _ rfl

/-! ## Enough nodes -/

section Enough

variable {ι : Type} {svc cfg : ClusterConfig} {reach : Str → Option ι} {registry : NodeTable}
  {c : Cluster ι} {obj : ObjectMetadata}

/-- When the acknowledged writes of a chunk are on enough nodes. -/
structure DistinctQuorum (svc cfg : ClusterConfig) (registry : NodeTable) : Prop where
  positive : quorumSize cfg.writeAck cfg.replicationFactor ≠ 0
  rounds : svc.loadBalance = .roundRobin →
    quorumSize cfg.writeAck cfg.replicationFactor ≤ 1 ∨ registry.onlineIds.card = 0 ∨
      cfg.replicationFactor.toNat ≤ registry.onlineIds.card ∧
        (2 ^ 64 % registry.onlineIds.card = 0 ∨
          cfg.replicationFactor.toNat ≤ 2 ^ 64 % registry.onlineIds.card)

/-- The nodes that have acknowledged a chunk are enough. -/
theorem ChunkPut.enough {planned final : ChunkInfo} {data : Bytes}
    {trace : List (Event Rpc Rpc.Reply)} {accepted : List NodeInfo}
    {replicas : List ReplicaInfo}
    (h : ChunkPut svc cfg reach registry c obj planned final data trace accepted replicas)
    (hdistinct : DistinctQuorum svc cfg registry) :
    max (quorumSize cfg.writeAck cfg.replicationFactor) 1 ≤
      (accepted.map NodeInfo.id).toFinset.card := by
  obtain ⟨store, order, hnodes, hpossible, hsub⟩ := h.selected
  have hlength : accepted.length ≤ cfg.replicationFactor.toNat :=
    Nat.le_trans hsub.length_le selectNodes_length_le
  have hquorum : quorumSize cfg.writeAck cfg.replicationFactor ≤ accepted.length := by
    have hq := h.quorum
    have hlt := UInt32.toNat_lt cfg.replicationFactor
    rw [UInt32.lt_iff_toNat_lt, required_toNat,
      UInt32.toNat_ofNat_of_lt' (show accepted.length < 2 ^ 32 by omega)] at hq
    omega
  have hpositive := hdistinct.positive
  have hsome : 1 ≤ (accepted.map NodeInfo.id).toFinset.card := by
    rw [Nat.one_le_iff_ne_zero, Finset.card_ne_zero, List.toFinset_nonempty_iff]
    intro hnil
    rw [List.map_eq_nil_iff.mp hnil] at hquorum
    exact hpositive (Nat.le_zero.mp hquorum)
  by_cases hsmall : quorumSize cfg.writeAck cfg.replicationFactor ≤ 1
  · exact Nat.max_le.mpr ⟨Nat.le_trans hsmall hsome, hsome⟩
  · have honline : registry.onlineIds.card ≠ 0 := by
      intro hnone
      rw [selectNodes_of_none_online hpossible (by rw [hnodes]; exact hnone),
        List.sublist_nil] at hsub
      rw [hsub] at hquorum
      exact hpositive (Nat.le_zero.mp hquorum)
    have hnodup : (accepted.map NodeInfo.id).Nodup := by
      refine (selectNodes_ids_nodup hpossible fun hrr => ?_).sublist (hsub.map _)
      rw [hnodes]
      rcases hdistinct.rounds hrr with hle | hnone | hrounds
      · exact absurd hle hsmall
      · exact absurd hnone honline
      · exact hrounds
    rw [List.toFinset_card_of_nodup hnodup, List.length_map]
    exact Nat.max_le.mpr ⟨hquorum, Nat.le_trans (by omega) hquorum⟩

/-- A chunk is on the nodes that have acknowledged it. -/
theorem ChunkPut.durable {planned final : ChunkInfo} {data : Bytes}
    {trace : List (Event Rpc Rpc.Reply)} {accepted : List NodeInfo}
    {replicas : List ReplicaInfo}
    (h : ChunkPut svc cfg reach registry c obj planned final data trace accepted replicas)
    (hserved : ∀ e ∈ trace, ¬UpdateLost e) {nodes : ℕ}
    (henough : nodes ≤ (accepted.map NodeInfo.id).toFinset.card) :
    ChunkDurable reach registry c nodes final data := by
  have hids : replicas.map ReplicaInfo.nodeId = accepted.map NodeInfo.id := by
    have hfst := congrArg (List.map Prod.fst) h.recorded
    rw [List.map_map, List.map_map] at hfst
    exact hfst
  rw [h.final_eq hserved]
  refine ⟨hids.symm ▸ henough, fun r hr => ?_, fun r hr => ?_⟩
  · obtain ⟨node, hmem, hid, haddress⟩ := h.node_of_replica hr
    obtain ⟨store, order, hnodes, hpossible, hsub⟩ := h.selected
    obtain ⟨hfind, honline⟩ := selectNodes_online hpossible (hsub.subset hmem)
    rw [hnodes, hid] at hfind
    exact ⟨node, hfind, honline, haddress⟩
  · obtain ⟨node, hmem, -, haddress⟩ := h.node_of_replica hr
    rw [← haddress]
    exact h.stored node hmem

theorem ChunksPut.durable {data : Bytes} {todo finals : List ChunkInfo} {offset : UInt64}
    {trace : List (Event Rpc Rpc.Reply)}
    (h : ChunksPut svc cfg reach registry c obj data todo offset finals trace)
    (hserved : ∀ e ∈ trace, ¬UpdateLost e) (hdistinct : DistinctQuorum svc cfg registry) :
    List.Forall₂
      (ChunkDurable reach registry c (max (quorumSize cfg.writeAck cfg.replicationFactor) 1))
      finals ((pieces data (todo.map ChunkInfo.toProto) offset).map Prod.snd) := by
  induction h with
  | nil offset => exact .nil
  | cons hchunk _ ih =>
    exact .cons (hchunk.durable (fun e he => hserved e (List.mem_append_left _ he))
        (hchunk.enough hdistinct))
      (ih fun e he => hserved e (List.mem_append_right _ he))

end Enough

/-! ## Too few nodes

A run of `put` in which chosen nodes acknowledge the only chunk of an empty
file. -/

/-- Between a part and the whole there are parts of every length. -/
theorem exists_sublist_of_length {α : Type} {part whole : List α} (h : part.Sublist whole)
    {n : ℕ} (hpart : part.length ≤ n) (hwhole : n ≤ whole.length) :
    ∃ middle : List α, part.Sublist middle ∧ middle.Sublist whole ∧ middle.length = n := by
  induction h generalizing n with
  | slnil => exact ⟨[], .slnil, .slnil, (Nat.le_zero.mp hwhole).symm⟩
  | @cons part whole a hsub ih =>
    rcases Nat.lt_or_ge whole.length n with hlt | hge
    · exact ⟨a :: whole, hsub.cons a, List.Sublist.refl _, Nat.le_antisymm hlt hwhole⟩
    · obtain ⟨middle, hleft, hright, hlength⟩ := ih hpart hge
      exact ⟨middle, hleft, hright.cons a, hlength⟩
  | @cons_cons part whole a _ ih =>
    cases n with
    | zero => cases hpart
    | succ n =>
      obtain ⟨middle, hleft, hright, hlength⟩ :=
        ih (Nat.le_of_succ_le_succ hpart) (Nat.le_of_succ_le_succ hwhole)
      exact ⟨a :: middle, hleft.cons_cons a, hright.cons_cons a, congrArg Nat.succ hlength⟩

section TooFew

variable {svc cfg : ClusterConfig} {store : MetadataStore}

/-- `UpdateChunk` records the replicas of the only chunk of an empty file. -/
private theorem update_empty {filename owner : Str}
    {answers : List (ClusterNodeInfo × Bool)} {s : MetadataStore}
    (hobjects : s.objectsById = (emptyCreated svc cfg filename owner store).store.objectsById) :
    ∃ o chunk, ((MetadataService.updateChunk 0 s
        (emptyUpdate svc cfg filename owner answers)).2.objectsById.lookup (draw 0) = some o) ∧
      o.chunks = [chunk] ∧ chunk.replicas = (recordAll 1 answers {}).replicas := by
  have hlookup : s.objectsById.lookup (draw 0) = some (emptyObject svc cfg filename owner) := by
    rw [hobjects]
    exact Finmap.lookup_insert _
  simp only [MetadataService.updateChunk, emptyUpdate, ChunkInfo.fromProto_toProto, updateChunk,
    hlookup]
  exact ⟨_, _, Finmap.lookup_insert _, rfl, rfl⟩

/-- Any part of the selected nodes that makes a quorum can be what a successful put
records. -/
theorem put_empty_accepted {order : NodeOrder} (hpossible : order.Possible store svc.loadBalance)
    (hfree : str "a.txt" ∉ store.filenameToId) {accepted : List NodeInfo}
    (hsub : accepted.Sublist
      (store.selectNodes order cfg.replicationFactor svc.loadBalance).1)
    (hquorum : ¬UInt32.ofNat accepted.length < cfg.writeAck.required cfg.replicationFactor)
    (node : StorageNode) :
    ∃ (trace : List (Event Rpc Rpc.Reply)) (c' : Cluster Unit),
      Runs (Cluster.Serves svc fun _ => some ()) (put cfg (str "a.txt") [] (str "default"))
        ⟨{ store := store }, fun _ => node⟩ trace
        { success := true, objectId := draw 0, message := str "Upload complete" } c' ∧
      MetadataAnswered trace ∧
      ∃ o chunk, c'.metadata.store.objectsById.lookup (draw 0) = some o ∧
        o.chunks = [chunk] ∧
        chunk.replicas.map ReplicaInfo.nodeId = accepted.map NodeInfo.id := by
  obtain ⟨answers, hnodes, haccepted⟩ := exists_answers (hsub.map NodeInfo.toProto)
  have hupload : EmptyUpload svc cfg (fun _ => some ()) store order answers := by
    refine ⟨hpossible, hnodes, fun _ _ => ⟨(), rfl⟩, ?_⟩
    rw [recordAll_successCount, haccepted, List.length_map]
    exact hquorum
  obtain ⟨first, writes, c₂, hwrites, hfirst, hobjects, hruns⟩ := @put_empty_success Unit _ svc
    cfg (fun _ => some ()) (str "a.txt") (str "default") store (fun _ => node) hfree _ _ hupload
  have hrun := hruns .answered _ _ (.answered (.metadata (.updateChunk c₂.metadata _ 0)))
  refine ⟨_, _, hrun, fun e he q hq => ?_, ?_⟩
  · rcases List.mem_append.mp he with he | he
    · exact hfirst e he
    · rcases List.mem_append.mp he with he | he
      · obtain ⟨address, q', hq'⟩ := hwrites e he
        rw [hq] at hq'
        cases hq'
      · rw [List.mem_singleton.mp he]
  · obtain ⟨o, chunk, ho, hchunks, hrecorded⟩ := update_empty hobjects
    refine ⟨o, chunk, ho, hchunks, ?_⟩
    rw [hrecorded, recordAll_nodeIds, haccepted, List.map_map]
    rfl

/-- An object whose only chunk has too few nodes is not durable. -/
private theorem not_durable {c : Cluster Unit} {reach : Str → Option Unit}
    {registry : NodeTable} {nodes : ℕ} {objectId : Str} {o : ObjectInfo} {chunk : ChunkInfo}
    {accepted : List NodeInfo} (ho : c.metadata.store.objectsById.lookup objectId = some o)
    (hchunks : o.chunks = [chunk])
    (hids : chunk.replicas.map ReplicaInfo.nodeId = accepted.map NodeInfo.id)
    (hfew : (accepted.map NodeInfo.id).toFinset.card < nodes) {data : Bytes} :
    ¬Durable reach registry c nodes objectId data := by
  rintro ⟨o', ho', hdurable⟩
  rw [ho] at ho'
  cases ho'
  rw [hchunks] at hdurable
  cases hdurable with
  | cons hchunk _ =>
    have hdistinct := hchunk.distinct
    rw [hids] at hdistinct
    omega

/-- Without a distinct quorum, some nodes of some selection are a quorum of too few
nodes. -/
theorem exists_repeated_quorum {registry : NodeTable}
    (h : ¬DistinctQuorum svc cfg registry) :
    ∃ (store : MetadataStore) (order : NodeOrder) (accepted : List NodeInfo),
      store.nodes = registry ∧ store.filenameToId = ∅ ∧
        order.Possible store svc.loadBalance ∧
        accepted.Sublist (store.selectNodes order cfg.replicationFactor svc.loadBalance).1 ∧
        ¬UInt32.ofNat accepted.length < cfg.writeAck.required cfg.replicationFactor ∧
        (accepted.map NodeInfo.id).toFinset.card <
          max (quorumSize cfg.writeAck cfg.replicationFactor) 1 := by
  obtain ⟨order, hpossible⟩ :=
    exists_possible ({ nodes := registry } : MetadataStore) svc.loadBalance
  by_cases hpositive : quorumSize cfg.writeAck cfg.replicationFactor = 0
  · refine ⟨{ nodes := registry }, order, [], rfl, rfl, hpossible, List.nil_sublist _, ?_, ?_⟩
    · rw [UInt32.lt_iff_toNat_lt, required_toNat, hpositive]
      exact Nat.not_lt_zero _
    · rw [hpositive]
      exact Nat.one_pos
  · have hrounds := fun hrounds => h ⟨hpositive, hrounds⟩
    rw [imp_false, Classical.not_imp, not_or, not_or, Nat.not_le] at hrounds
    obtain ⟨hrr, htwo, honline, hrepeats⟩ := hrounds
    rw [hrr] at hpossible ⊢
    obtain ⟨index, hdup, hlength⟩ := selectNodes_repeats hpossible honline hrepeats
    rw [List.nodup_iff_sublist, not_forall] at hdup
    obtain ⟨node, hdup⟩ := hdup
    obtain ⟨accepted, htwice, hsub, haccepted⟩ := exists_sublist_of_length (not_not.mp hdup)
      (show 2 ≤ quorumSize cfg.writeAck cfg.replicationFactor from htwo)
      (by rw [hlength]; exact quorumSize_le_of_one_lt htwo)
    refine ⟨{ nodes := registry, roundRobinIndex := index }, order, accepted, rfl, rfl,
      ⟨hpossible.visits, hpossible.perm, hpossible.sorted⟩, hsub, ?_, ?_⟩
    · have hle := quorumSize_le_of_one_lt htwo
      have hlt := UInt32.toNat_lt cfg.replicationFactor
      rw [UInt32.lt_iff_toNat_lt, required_toNat, haccepted,
        UInt32.toNat_ofNat_of_lt' (show quorumSize _ _ < 2 ^ 32 by omega)]
      exact Nat.lt_irrefl _
    · have hne : (accepted.map NodeInfo.id).toFinset.card ≠ accepted.length := by
        intro hcard
        rw [← List.length_map (f := NodeInfo.id)] at hcard
        have hnodup := Multiset.toFinset_card_eq_card_iff_nodup.mp hcard
        exact List.nodup_iff_sublist.mp (List.Nodup.of_map _ hnodup) node htwice
      have hle := List.toFinset_card_le (accepted.map NodeInfo.id)
      rw [List.length_map] at hle
      omega

end TooFew

/-- For a configuration and the registered nodes: in every successful put whose
metadata calls are answered, every chunk is on as many nodes as the policy asks for
and on one at least, if and only if the quorum is distinct. -/
theorem put_durable_iff (svc cfg : ClusterConfig) (registry : NodeTable) :
    (∀ (ι : Type) [DecidableEq ι] (reach : Str → Option ι) (c c' : Cluster ι)
      (filename owner : Str) (data : Bytes) (trace : List (Event Rpc Rpc.Reply))
      (result : PutResult), c.metadata.store.nodes = registry → data.length < 2 ^ 64 →
      Runs (Cluster.Serves svc reach) (put cfg filename data owner) c trace result c' →
      MetadataAnswered trace → result.success = true →
      Durable reach registry c' (max (quorumSize cfg.writeAck cfg.replicationFactor) 1)
        result.objectId data) ↔
      DistinctQuorum svc cfg registry := by
  constructor
  · intro h
    by_contra hdistinct
    obtain ⟨store, order, accepted, hnodes, hnames, hpossible, hsub, hquorum, hfew⟩ :=
      exists_repeated_quorum hdistinct
    obtain ⟨trace, c', hrun, hanswered, o, chunk, ho, hchunks, hids⟩ :=
      put_empty_accepted hpossible (by rw [hnames]; exact Finmap.notMem_empty) hsub hquorum
        (ChunkStore.construct (str "/data") ∅ [], ∅)
    exact not_durable ho hchunks hids hfew
      (h Unit _ _ _ _ _ _ _ _ hnodes (by decide) hrun hanswered rfl)
  · intro hdistinct ι _ reach c c' filename owner data trace result hnodes hlength hrun
      hanswered hsuccess
    obtain ⟨loop, planned, final, hdone, hresult, rfl⟩ := put_completed hlength hrun hsuccess
    have hput := hdone.chunks
    rw [hnodes] at hput
    refine ⟨final, by rw [hresult]; exact hdone.stored, ?_⟩
    rw [hput.pieces_eq]
    exact hput.durable (fun e he => hanswered.not_updateLost e (List.mem_cons_of_mem _ he))
      hdistinct

/-- With one node, round robin selects it three times, and a put that asks for three
nodes under `All` reports success. -/
theorem put_repeats_node :
    ∃ (trace : List (Event Rpc Rpc.Reply)) (c' : Cluster Unit),
      Runs (Cluster.Serves { loadBalance := .roundRobin } fun _ => some ())
        (put { replicationFactor := 3, writeAck := .all } (str "a.txt") [] (str "default"))
        ⟨{ store := oneNodeStore }, fun _ => (ChunkStore.construct (str "/data") ∅ [], ∅)⟩ trace
        { success := true, objectId := draw 0, message := str "Upload complete" } c' ∧
      MetadataAnswered trace ∧
      ¬Durable (fun _ => some ()) oneNodeStore.nodes c' (max (quorumSize .all 3) 1) (draw 0)
        [] := by
  obtain ⟨trace, c', hrun, hanswered, o, chunk, ho, hchunks, hids⟩ :=
    @put_empty_accepted { loadBalance := .roundRobin } { replicationFactor := 3, writeAck := .all }
      oneNodeStore _ (oneNode_possible _) Finmap.notMem_empty [oneNode, oneNode, oneNode]
      (List.Sublist.refl _) (by decide) (ChunkStore.construct (str "/data") ∅ [], ∅)
  exact ⟨trace, c', hrun, hanswered, not_durable ho hchunks hids (by decide)⟩

end StorageEngine.StorageClient
