import StorageEngine.Client.PutQuorum
import StorageEngine.Metadata.Placement

/-!
# When a put succeeds

A put needs its quorum for each chunk, from the nodes that are selected for it.  How many of the
online nodes may refuse its writes depends on how many nodes are selected, which is the
replication factor, or fewer if fewer are online.

* `selectNodes_covers`: so many different nodes are selected, whatever the strategy.
* `putChunk_available`: one turn of the loop, by the selected nodes that accept its writes.
* `put_available`: the whole call.
-/

namespace StorageEngine

open Lib Lib.Remote MetadataStore

/-! ## The nodes that accept writes -/

namespace NodeTable

/-- The online nodes at the addresses where writes are accepted. -/
def acceptingIds (t : NodeTable) (accepts : Str → Bool) : Finset Str :=
  t.onlineIds.filter fun id => (t.find id).any fun node => accepts node.address

variable {t : NodeTable} {accepts : Str → Bool} {selected : List NodeInfo}

theorem mem_acceptingIds {node : NodeInfo} (hfind : t.find node.id = some node)
    (honline : node.online = true) :
    node.id ∈ t.acceptingIds accepts ↔ accepts node.address = true := by
  rw [acceptingIds, Finset.mem_filter, mem_onlineIds]
  simp [hfind, honline]

variable (honline : ∀ node ∈ selected, t.find node.id = some node ∧ node.online = true)

include honline

/-- The selected nodes that refuse are not more than all that refuse. -/
theorem card_selected_le :
    (selected.map NodeInfo.id).toFinset.card + (t.acceptingIds accepts).card ≤
      (selected.filter fun node => accepts node.address).length + t.onlineIds.card := by
  have hsub : (selected.map NodeInfo.id).toFinset ⊆
      ((selected.filter fun node => accepts node.address).map NodeInfo.id).toFinset ∪
        (t.onlineIds \ t.acceptingIds accepts) := by
    intro id hid
    rw [List.mem_toFinset, List.mem_map] at hid
    obtain ⟨node, hnode, rfl⟩ := hid
    obtain ⟨hfind, hup⟩ := honline node hnode
    rw [Finset.mem_union, Finset.mem_sdiff, mem_acceptingIds hfind hup, List.mem_toFinset]
    by_cases haccepts : accepts node.address = true
    · exact .inl (List.mem_map_of_mem (List.mem_filter.mpr ⟨hnode, haccepts⟩))
    · exact .inr ⟨mem_onlineIds.mpr ⟨node, hfind, hup⟩, haccepts⟩
  have hcard := (Finset.card_le_card hsub).trans (Finset.card_union_le _ _)
  have hids := List.toFinset_card_le
    ((selected.filter fun node => accepts node.address).map NodeInfo.id)
  have hincluded : t.acceptingIds accepts ⊆ t.onlineIds := Finset.filter_subset _ _
  have hrefusing := Finset.card_sdiff_add_card_eq_card hincluded
  rw [List.length_map] at hids
  omega

/-- Different nodes that accept are not more than all that accept. -/
theorem length_accepting_le (hnodup : (selected.map NodeInfo.id).Nodup) :
    (selected.filter fun node => accepts node.address).length ≤
      (t.acceptingIds accepts).card := by
  have hids : ((selected.filter fun node => accepts node.address).map NodeInfo.id).Nodup :=
    hnodup.sublist (List.filter_sublist.map _)
  rw [← List.length_map (f := NodeInfo.id), ← List.toFinset_card_of_nodup hids]
  apply Finset.card_le_card
  intro id hid
  rw [List.mem_toFinset, List.mem_map] at hid
  obtain ⟨node, hnode, rfl⟩ := hid
  obtain ⟨hselected, haccepts⟩ := List.mem_filter.mp hnode
  obtain ⟨hfind, hup⟩ := honline node hselected
  exact (mem_acceptingIds hfind hup).mpr haccepts

end NodeTable

/-- A created object has no more chunks than bytes, or one. -/
theorem MetadataService.Serves.create_length {svc : ClusterConfig} {req : CreateObjectRequest}
    {n n' : MetadataNode} {resp : CreateObjectResponse}
    (h : MetadataService.Serves svc (.createObject req) n resp n') (hok : resp.success = true) :
    resp.object.chunks.length ≤ req.size.toNat + 1 := by
  cases h with
  | createObject _ _ _ hcreate =>
    rw [MetadataService.createObject] at hcreate
    split at hcreate
    · cases hcreate
    · cases hcreate
      cases hok
    · next obj store heq =>
      cases hcreate
      obtain ⟨chunks, hplan, -, rfl, -⟩ := createObject_created heq
      simpa [newObject] using planChunks_length_le hplan

namespace StorageClient

variable {ι : Type} [DecidableEq ι] {svc cfg : ClusterConfig} {reach : Str → Option ι}
  {accepts : Str → Bool} {trace : List (Event Rpc Rpc.Reply)}

/-- The writes to these addresses are acknowledged, and no others. -/
def AcceptedBy (accepts : Str → Bool) (e : Event Rpc Rpc.Reply) : Prop :=
  ∀ address q fate r, e = ⟨.storage address q, fate, r⟩ → q.acknowledged r = accepts address

/-! ## One turn of the loop -/

theorem acceptedOf_eq {target : ClusterNodeInfo → Str} {chunkId objectId : Str} {data : Bytes}
    {answers : List (ClusterNodeInfo × Bool)}
    (hcalls : List.Forall₂ (AnsweredBy target chunkId objectId data) answers trace)
    (haccepted : ∀ e ∈ trace, AcceptedBy accepts e) :
    acceptedOf answers = (answers.map Prod.fst).filter fun node => accepts (target node) := by
  induction hcalls with
  | nil => rfl
  | @cons answer e answers trace hanswer _ ih =>
    rw [List.forall_mem_cons] at haccepted
    obtain ⟨q, fate, r, heq, -, hok, -⟩ := hanswer
    have haccepts := haccepted.1 _ q fate r heq
    rw [← hok] at haccepts
    rw [List.map_cons, List.filter_cons, ← haccepts, ← ih haccepted.2]
    exact acceptedOf_cons _ _ _

/-- A turn ends without a message if and only if a quorum of the selected nodes accepts. -/
theorem putChunk_available {data : Bytes} {obj : ObjectMetadata} {pb : ChunkMetadata}
    {offset : UInt64} {c c' : Cluster ι} {failure : Option Str}
    (hrun : Runs (Cluster.Serves svc reach) (putChunk cfg data obj pb offset) c trace failure c')
    (hanswered : MetadataAnswered trace) (haccepted : ∀ e ∈ trace, AcceptedBy accepts e) :
    ∃ order : NodeOrder, order.Possible c.metadata.store svc.loadBalance ∧
      (failure = none ↔ quorumSize cfg.writeAck cfg.replicationFactor ≤
        ((c.metadata.store.selectNodes order cfg.replicationFactor svc.loadBalance).1.filter
          fun node => accepts node.address).length) ∧
      (failure = none → c'.metadata.store.nodes = c.metadata.store.nodes ∧
        c'.metadata.store.roundRobinIndex = (c.metadata.store.selectNodes order
          cfg.replicationFactor svc.loadBalance).2.roundRobinIndex) := by
  obtain ⟨fate, r, c₁, rest, hcall, hrest, rfl⟩ := runs_rpc.mp hrun
  unfold MetadataAnswered at hanswered
  rw [List.forall_mem_cons] at hanswered haccepted
  have hfate : fate = .answered := hanswered.1 _ rfl
  subst hfate
  obtain ⟨-, selected, rfl, hserves⟩ := hcall.served.metadata_cases
  obtain ⟨order, hpossible, hnodes, hmetadata⟩ := hserves.select_nodes
  rw [MetadataService.strategyOf_nil] at hpossible hnodes hmetadata
  obtain ⟨progress, c₂, writes, last, hwrites, hlast, rfl⟩ := runs_bind.mp hrest
  obtain ⟨answers, hasked, rfl, hall⟩ :=
    writeToNodes_asked (isWrite_writeChunkToNode _ _ obj.objectId) hwrites
  rw [List.forall_mem_append] at hanswered haccepted
  -- the nodes that are counted
  have hlength : (acceptedOf answers).length =
      ((c.metadata.store.selectNodes order cfg.replicationFactor svc.loadBalance).1.filter
        fun node => accepts node.address).length := by
    rw [acceptedOf_eq hall.calls haccepted.2.1, hasked, hnodes, List.filter_map, List.length_map]
    rfl
  have hfew : (acceptedOf answers).length ≤ cfg.replicationFactor.toNat := by
    rw [hlength]
    exact (List.length_filter_le _ _).trans selectNodes_length_le
  have hquorum : (recordAll 1 answers {}).successCount <
        cfg.writeAck.required cfg.replicationFactor ↔
      (acceptedOf answers).length < quorumSize cfg.writeAck cfg.replicationFactor := by
    have hbound := UInt32.toNat_lt cfg.replicationFactor
    rw [recordAll_successCount, UInt32.lt_iff_toNat_lt, required_toNat,
      UInt32.toNat_ofNat_of_lt' (show (acceptedOf answers).length < 2 ^ 32 by omega)]
  refine ⟨order, hpossible, ?_, ?_⟩
  · rw [← hlength, ← Nat.not_lt, ← hquorum]
    split at hlast
    · next hless =>
      obtain ⟨fate, r, c₃, later, -, hdone, rfl⟩ := runs_rpc.mp hlast
      obtain ⟨-, rfl, -⟩ := runs_done.mp hdone
      simp [hless]
    · next hless =>
      obtain ⟨fate, r, c₃, later, -, hdone, rfl⟩ := runs_rpc.mp hlast
      obtain ⟨-, rfl, -⟩ := runs_done.mp hdone
      simp [hless]
  · intro hnone
    split at hlast
    · obtain ⟨fate, r, c₃, later, -, hdone, rfl⟩ := runs_rpc.mp hlast
      obtain ⟨-, hmessage, -⟩ := runs_done.mp hdone
      rw [hnone] at hmessage
      cases hmessage
    · obtain ⟨fate, r, c₃, later, hupdate, hdone, rfl⟩ := runs_rpc.mp hlast
      obtain ⟨-, -, rfl⟩ := runs_done.mp hdone
      have hbefore : c₂.metadata = c₁.metadata := hall.overwrites.metadata
      have hselected : c₂.metadata.store = (c.metadata.store.selectNodes order
          cfg.replicationFactor svc.loadBalance).2 := by rw [hbefore, hmetadata]
      rcases delivers_metadata hupdate with ⟨-, -, rfl⟩ | ⟨-, -, resp, hserved, -⟩
      · rw [hselected]
        exact ⟨selectNodes_nodes _ _ _ _, rfl⟩
      · obtain ⟨now, hafter⟩ := hserved.update_store
        rw [hafter]
        refine ⟨(updateChunk_nodes _ _ _ _).trans ?_, ?_⟩
        · rw [hselected]
          exact selectNodes_nodes _ _ _ _
        · rw [updateChunk_index, hselected]

/-! ## The whole call -/

section Call

variable {registry : NodeTable} {c c' : Cluster ι}

/-- So many online nodes refuse that a quorum of any selection accepts. -/
def Tolerates (cfg : ClusterConfig) (registry : NodeTable) (accepts : Str → Bool) : Prop :=
  quorumSize cfg.writeAck cfg.replicationFactor + registry.onlineIds.card ≤
    min cfg.replicationFactor.toNat registry.onlineIds.card + (registry.acceptingIds accepts).card

/-- The loop goes through all its turns. -/
theorem putChunks_available (hquorum : Tolerates cfg registry accepts) {data : Bytes}
    {obj : ObjectMetadata} {todo : List ChunkMetadata} {offset : UInt64} {failure : Option Str}
    (hrun : Runs (Cluster.Serves svc reach) (putChunks cfg data obj todo offset) c trace failure
      c') (hanswered : MetadataAnswered trace) (haccepted : ∀ e ∈ trace, AcceptedBy accepts e)
    (hregistry : c.metadata.store.nodes = registry)
    (hwrap : svc.loadBalance = .roundRobin → c.metadata.store.roundRobinIndex.toNat +
      cfg.replicationFactor.toNat * todo.length ≤ 2 ^ 64) : failure = none := by
  induction todo generalizing c offset trace with
  | nil => exact (runs_done.mp hrun).2.1
  | cons pb todo ih =>
    obtain ⟨ended, c₁, turn, later, hturn, hlater, rfl⟩ := runs_bind.mp hrun
    unfold MetadataAnswered at hanswered
    rw [List.forall_mem_append] at hanswered haccepted
    obtain ⟨order, hpossible, hended, hleaves⟩ :=
      putChunk_available hturn hanswered.1 haccepted.1
    have hfactor : cfg.replicationFactor.toNat * (pb :: todo).length =
        cfg.replicationFactor.toNat * todo.length + cfg.replicationFactor.toNat := by
      rw [List.length_cons, Nat.mul_succ]
    have hcovers := @selectNodes_covers _ _ cfg.replicationFactor _ hpossible
      fun hstrategy => by have := hwrap hstrategy; omega
    have hcount := @NodeTable.card_selected_le c.metadata.store.nodes accepts
      (c.metadata.store.selectNodes order cfg.replicationFactor svc.loadBalance).1
      fun node hnode => selectNodes_online hpossible hnode
    rw [hregistry] at hcovers hcount
    have hnone : ended = none := by
      rw [hended]
      unfold Tolerates at hquorum
      omega
    subst hnone
    obtain ⟨hnodes, hindex⟩ := hleaves rfl
    refine ih hlater hanswered.2 haccepted.2 (hnodes.trans hregistry) fun hstrategy => ?_
    have hmoved := selectNodes_index_le order c.metadata.store cfg.replicationFactor
      svc.loadBalance
    have hbefore := hwrap hstrategy
    rw [hindex]
    omega

/-- The loop ends in its first turn, if the nodes that accept are no quorum. -/
theorem putChunks_refused
    (hfew : (registry.acceptingIds accepts).card < quorumSize cfg.writeAck cfg.replicationFactor)
    {data : Bytes} {obj : ObjectMetadata} {todo : List ChunkMetadata} (htodo : todo ≠ [])
    {offset : UInt64} {failure : Option Str}
    (hrun : Runs (Cluster.Serves svc reach) (putChunks cfg data obj todo offset) c trace failure
      c') (hanswered : MetadataAnswered trace) (haccepted : ∀ e ∈ trace, AcceptedBy accepts e)
    (hregistry : c.metadata.store.nodes = registry)
    (hwrap : svc.loadBalance = .roundRobin →
      c.metadata.store.roundRobinIndex.toNat + cfg.replicationFactor.toNat ≤ 2 ^ 64 ∧
        cfg.replicationFactor.toNat ≤ registry.onlineIds.card) : failure ≠ none := by
  obtain ⟨pb, rest, rfl⟩ := List.exists_cons_of_ne_nil htodo
  obtain ⟨ended, c₁, turn, later, hturn, hlater, rfl⟩ := runs_bind.mp hrun
  unfold MetadataAnswered at hanswered
  rw [List.forall_mem_append] at hanswered haccepted
  obtain ⟨order, hpossible, hended, -⟩ := putChunk_available hturn hanswered.1 haccepted.1
  rw [← hregistry] at hwrap hfew
  have hdifferent := @selectNodes_different _ _ cfg.replicationFactor _ hpossible
    (fun hstrategy => (hwrap hstrategy).1) fun hstrategy => (hwrap hstrategy).2
  have hcount := @NodeTable.length_accepting_le c.metadata.store.nodes accepts
    (c.metadata.store.selectNodes order cfg.replicationFactor svc.loadBalance).1
    (fun node hnode => selectNodes_online hpossible hnode) hdifferent
  cases ended with
  | none =>
    have henough := hended.mp rfl
    omega
  | some message =>
    rw [(runs_done.mp hlater).2.1]
    exact Option.some_ne_none _

/-- The loop of a put, for an object that has been created. -/
theorem created_available {req : CreateObjectRequest} {obj : ObjectInfo} {c₁ : Cluster ι}
    {data : Bytes} {failure : Option Str}
    (hcreated : MetadataService.Created svc req c.metadata obj c₁.metadata)
    (hcount : obj.chunks.length ≤ data.length + 1)
    (hrun : Runs (Cluster.Serves svc reach)
      (putChunks cfg data obj.toProto obj.toProto.chunks 0) c₁ trace failure c')
    (hanswered : MetadataAnswered trace) (haccepted : ∀ e ∈ trace, AcceptedBy accepts e)
    (hwrap : svc.loadBalance = .roundRobin → c.metadata.store.roundRobinIndex.toNat +
      cfg.replicationFactor.toNat * (data.length + 1) ≤ 2 ^ 64) :
    (Tolerates cfg c.metadata.store.nodes accepts → failure = none) ∧
      ((svc.loadBalance = .roundRobin →
          cfg.replicationFactor.toNat ≤ c.metadata.store.nodes.onlineIds.card) →
        (c.metadata.store.nodes.acceptingIds accepts).card <
          quorumSize cfg.writeAck cfg.replicationFactor → failure ≠ none) := by
  have hnodes : c₁.metadata.store.nodes = c.metadata.store.nodes := by rw [hcreated.store]
  have hindex : c₁.metadata.store.roundRobinIndex = c.metadata.store.roundRobinIndex := by
    rw [hcreated.store]
  have hlength : obj.toProto.chunks.length = obj.chunks.length := by simp
  have hturns : cfg.replicationFactor.toNat * obj.toProto.chunks.length ≤
      cfg.replicationFactor.toNat * (data.length + 1) :=
    Nat.mul_le_mul_left _ (hlength ▸ hcount)
  have hturn : cfg.replicationFactor.toNat * 1 ≤
      cfg.replicationFactor.toNat * (data.length + 1) :=
    Nat.mul_le_mul_left _ (Nat.le_add_left _ _)
  refine ⟨fun htolerates => ?_, fun hfactor hfew => ?_⟩
  · refine putChunks_available htolerates hrun hanswered haccepted hnodes fun hstrategy => ?_
    have hbefore := hwrap hstrategy
    rw [hindex]
    omega
  · have hchunks : obj.toProto.chunks ≠ [] := by simpa using hcreated.nonempty
    refine putChunks_refused hfew hchunks hrun hanswered haccepted hnodes fun hstrategy => ?_
    have hbefore := hwrap hstrategy
    rw [hindex]
    exact ⟨by omega, hfactor hstrategy⟩

/-- A put of a new name, with the nodes at some addresses accepting its writes.  It succeeds if
so few online nodes refuse that every selection has a quorum of others, and it fails if those
that accept are no quorum. -/
theorem put_available {filename owner : Str} {data : Bytes} {result : PutResult}
    (hlength : data.length < 2 ^ 64) (hfree : filename ∉ c.metadata.store.filenameToId)
    (hrun : Runs (Cluster.Serves svc reach) (put cfg filename data owner) c trace result c')
    (hanswered : MetadataAnswered trace) (haccepted : ∀ e ∈ trace, AcceptedBy accepts e)
    (hwrap : svc.loadBalance = .roundRobin → c.metadata.store.roundRobinIndex.toNat +
      cfg.replicationFactor.toNat * (data.length + 1) ≤ 2 ^ 64) :
    (Tolerates cfg c.metadata.store.nodes accepts → result.success = true) ∧
      ((svc.loadBalance = .roundRobin →
          cfg.replicationFactor.toNat ≤ c.metadata.store.nodes.onlineIds.card) →
        (c.metadata.store.nodes.acceptingIds accepts).card <
          quorumSize cfg.writeAck cfg.replicationFactor → result.success = false) := by
  have hdelivered := hrun.delivered
  have hcount : ∀ {obj : ObjectInfo}, (∃ c₁ c₂, Delivers (Cluster.Serves svc reach)
      (.metadata (.createObject (createRequest cfg filename data owner))) .answered c₁
        (some { success := true, object := obj.toProto }) c₂) →
      obj.chunks.length ≤ data.length + 1 := by
    intro obj hcreate
    obtain ⟨c₁, c₂, hcall⟩ := hcreate
    obtain ⟨-, resp, hresp, hserves⟩ := hcall.served.metadata_cases
    cases hresp
    have hbound := hserves.create_length rfl
    rw [createRequest, UInt64.toNat_ofNat_of_lt' hlength] at hbound
    simpa using hbound
  unfold MetadataAnswered at hanswered
  cases put_run hrun with
  | refused message hreq hcall hr =>
    subst hreq
    have hfate := hanswered _ (List.mem_singleton_self _) _ rfl
    dsimp only at hfate
    subst hfate
    obtain ⟨-, resp, rfl, hserves⟩ := hcall.served.metadata_cases
    rcases hserves.create_cases with ⟨-, -, htaken⟩ | ⟨obj, rfl, -⟩
    · exact absurd htaken hfree
    · cases hr _ rfl
  | failed message hreq hcreated hnodes hloop =>
    subst hreq
    rw [List.forall_mem_cons] at hanswered haccepted hdelivered
    have hends := created_available hcreated (hcount hdelivered.1) hloop hanswered.2 haccepted.2
      hwrap
    exact ⟨fun htolerates => absurd (hends.1 htolerates) (Option.some_ne_none _), fun _ _ => rfl⟩
  | succeeded hreq hcreated hnodes hloop =>
    subst hreq
    rw [List.forall_mem_cons] at hanswered haccepted hdelivered
    have hends := created_available hcreated (hcount hdelivered.1) hloop hanswered.2 haccepted.2
      hwrap
    exact ⟨fun _ => rfl, fun hfactor hfew => absurd rfl (hends.2 hfactor hfew)⟩

/-- An empty file is put on one node, which accepts it. -/
theorem put_available_one_node :
    ∃ (trace : List (Event Rpc Rpc.Reply)) (result : PutResult) (c' : Cluster Unit),
      Runs (Cluster.Serves {} fun _ => some ())
        (put { replicationFactor := 1 } (str "a.txt") [] (str "default"))
        ⟨{ store := oneNodeStore }, fun _ => (ChunkStore.construct (str "/data") ∅ [], ∅)⟩ trace
        result c' ∧ result.success = true := by
  obtain ⟨selected, writes, c₁, c₂, hselect, hwrites, hasked, -, -⟩ :=
    @empty_upload_runs Unit _ {} { replicationFactor := 1 } (fun _ => some ()) (str "a.txt")
      (str "default") oneNodeStore (fun _ => (ChunkStore.construct (str "/data") ∅ [], ∅)) _
      [(oneNode.toProto, true)] (oneNode_possible _) rfl (fun _ _ => ⟨(), rfl⟩)
  have hfree : str "a.txt" ∉ oneNodeStore.filenameToId := Finmap.notMem_empty
  have hrun := put_empty_runs hfree (putChunk_runs_update hselect hwrites (by decide) rfl
    (.answered (.metadata (.updateChunk c₂.metadata _ 0))))
  refine ⟨_, _, _, hrun, (@put_available _ _ _ _ _ (fun _ => true) _ _ _ _ _ _ _ (by decide) hfree
    hrun ?_ ?_ (by decide)).1 (show 1 + 1 ≤ min 1 1 + 1 by decide)⟩
  · intro e he q hq
    simp only [List.mem_cons, List.mem_append, List.not_mem_nil, or_false] at he
    rcases he with rfl | rfl | he | rfl
    · rfl
    · rfl
    · obtain ⟨address, q', hq'⟩ := hwrites.trace_allowed (writeToNodes_issues _ _) e he
      rw [hq'] at hq
      cases hq
    · rfl
  · intro e he address q fate r heq
    subst heq
    simp only [List.mem_cons, List.mem_append, List.not_mem_nil, or_false] at he
    rcases he with heq | heq | he | heq
    · cases heq
    · cases heq
    · cases hasked.calls with
      | cons hanswer hnone =>
        cases hnone
        obtain ⟨q', fate', r', hwrite, -, hok, -⟩ := hanswer
        have heq := (List.mem_singleton.mp he).trans hwrite
        cases heq
        exact hok.symm
    · cases heq

end Call

end StorageClient

end StorageEngine
