import StorageEngine.Client.StorageClient
import StorageEngine.Cluster.Files
import StorageEngine.Lib.Interleaving

/-!
# The loop over the selected nodes

`put` and `replicate_chunk` write a chunk to the selected nodes in the same way: one call
for each node, of which the accepted ones are counted and recorded.

* `writeToNodes_asked`: every run of the loop is a list of answers, one for each node.
* `Asked.writesFile_iff` and `Asked.stored`: which nodes have the chunk then.
* `writeToNodes_runs`: every list of answers is that of a run.
* `writeToNodes_keeps`: what one write preserves, the loop preserves.
-/

namespace StorageEngine

open Lib.Remote

/-- The program is one call, which writes the chunk, and tells whether it is accepted. -/
def IsWrite (write : ClusterProg Bool) (address chunkId objectId : Str) (data : Bytes) : Prop :=
  ∃ q : StorageRpc, q.WritesChunk chunkId objectId data ∧
    write = .call (.storage address q) fun r => .done (q.acknowledged r)

/-- The progress after the nodes have accepted or refused, one after another. -/
def StorageClient.recordAll (version : UInt32) :
    List (ClusterNodeInfo × Bool) → WriteProgress → WriteProgress
  | [], p => p
  | (node, ok) :: answers, p =>
    recordAll version answers (if ok then p.record node version else p)

/-- The nodes that have accepted. -/
def acceptedOf (answers : List (ClusterNodeInfo × Bool)) : List ClusterNodeInfo :=
  (answers.filter Prod.snd).map Prod.fst

@[simp] theorem acceptedOf_nil : acceptedOf [] = [] := rfl

@[simp] theorem acceptedOf_cons (node : ClusterNodeInfo) (ok : Bool)
    (answers : List (ClusterNodeInfo × Bool)) :
    acceptedOf ((node, ok) :: answers) =
      if ok then node :: acceptedOf answers else acceptedOf answers := by
  cases ok <;> rfl

theorem acceptedOf_sublist (answers : List (ClusterNodeInfo × Bool)) :
    (acceptedOf answers).Sublist (answers.map Prod.fst) :=
  List.filter_sublist.map _

/-- Any part of the nodes can be what accepts. -/
theorem exists_answers {part nodes : List ClusterNodeInfo} (h : part.Sublist nodes) :
    ∃ answers : List (ClusterNodeInfo × Bool), answers.map Prod.fst = nodes ∧
      acceptedOf answers = part := by
  induction h with
  | slnil => exact ⟨[], rfl, rfl⟩
  | @cons part nodes node _ ih =>
    obtain ⟨answers, hnodes, hpart⟩ := ih
    exact ⟨(node, false) :: answers, by simp [hnodes], by simp [hpart]⟩
  | @cons_cons part nodes node _ ih =>
    obtain ⟨answers, hnodes, hpart⟩ := ih
    exact ⟨(node, true) :: answers, by simp [hnodes], by simp [hpart]⟩

theorem mem_acceptedOf {answers : List (ClusterNodeInfo × Bool)} {node : ClusterNodeInfo} :
    node ∈ acceptedOf answers ↔ (node, true) ∈ answers := by
  simp [acceptedOf]

namespace StorageClient

/-- The number of nodes that a policy asks for. -/
def quorumSize (ack : WriteAckPolicy) (replicationFactor : UInt32) : ℕ :=
  match ack with
  | .all => replicationFactor.toNat
  | .majority => replicationFactor.toNat / 2 + 1

/-- A quorum is larger than the replication factor only if the factor is 0. -/
theorem quorumSize_le (ack : WriteAckPolicy) {replicationFactor : UInt32}
    (hpos : 0 < replicationFactor.toNat) :
    quorumSize ack replicationFactor ≤ replicationFactor.toNat := by
  cases ack with
  | all => exact Nat.le_refl _
  | majority =>
    rw [quorumSize]
    omega

theorem quorumSize_pos (ack : WriteAckPolicy) {replicationFactor : UInt32}
    (hpos : 0 < replicationFactor.toNat) : 0 < quorumSize ack replicationFactor := by
  cases ack with
  | all => exact hpos
  | majority => exact Nat.succ_pos _

/-- A quorum of one node is that of a factor of 1. -/
theorem factor_of_quorumSize {ack : WriteAckPolicy} {replicationFactor : UInt32}
    (h : quorumSize ack replicationFactor ≤ 1) (hpos : 0 < replicationFactor.toNat) :
    replicationFactor.toNat = 1 := by
  cases ack <;> rw [quorumSize] at h <;> omega

theorem quorumSize_le_of_one_lt {ack : WriteAckPolicy} {replicationFactor : UInt32}
    (h : 1 < quorumSize ack replicationFactor) :
    quorumSize ack replicationFactor ≤ replicationFactor.toNat := by
  refine quorumSize_le ack (Nat.pos_of_ne_zero fun hzero => ?_)
  cases ack <;> simp [quorumSize, hzero] at h

theorem required_toNat (ack : WriteAckPolicy) (replicationFactor : UInt32) :
    (ack.required replicationFactor).toNat = quorumSize ack replicationFactor := by
  cases ack with
  | all => rfl
  | majority =>
    have hlt := UInt32.toNat_lt replicationFactor
    have hhalf : (replicationFactor / 2).toNat = replicationFactor.toNat / 2 :=
      UInt32.toNat_div _ _
    rw [WriteAckPolicy.required, UInt32.toNat_add, hhalf]
    exact Nat.mod_eq_of_lt (show replicationFactor.toNat / 2 + 1 < 2 ^ 32 by omega)

/-- The records of the loop over the nodes. -/
theorem recordAll_accepted (version : UInt32) (answers : List (ClusterNodeInfo × Bool))
    (p : WriteProgress) :
    (recordAll version answers p).successCount =
        p.successCount + UInt32.ofNat (acceptedOf answers).length ∧
      (recordAll version answers p).replicas.map (fun r => (r.nodeId, r.address)) =
        p.replicas.map (fun r => (r.nodeId, r.address)) ++
          (acceptedOf answers).map fun node => (node.nodeId, node.address) := by
  induction answers generalizing p with
  | nil => simp [recordAll]
  | cons answer answers ih =>
    obtain ⟨node, ok⟩ := answer
    obtain ⟨hcount, hreplicas⟩ := ih (if ok then p.record node version else p)
    rw [recordAll, hcount, hreplicas]
    cases ok with
    | false => simp
    | true =>
      have hsucc : p.successCount + 1 + UInt32.ofNat (acceptedOf answers).length =
          p.successCount + UInt32.ofNat ((acceptedOf answers).length + 1) := by
        rw [UInt32.ofNat_add]
        ac_rfl
      simp [WriteProgress.record, hsucc]

/-- The replicas that a loop records from the start. -/
theorem recordAll_replicas (version : UInt32) (answers : List (ClusterNodeInfo × Bool)) :
    (recordAll version answers {}).replicas.map (fun r => (r.nodeId, r.address)) =
      (acceptedOf answers).map fun node => (node.nodeId, node.address) := by
  simpa using (recordAll_accepted version answers {}).2

theorem recordAll_nodeIds (version : UInt32) (answers : List (ClusterNodeInfo × Bool)) :
    (recordAll version answers {}).replicas.map ReplicaInfo.nodeId =
      (acceptedOf answers).map ClusterNodeInfo.nodeId := by
  have hmap := congrArg (List.map Prod.fst) (recordAll_replicas version answers)
  rw [List.map_map, List.map_map] at hmap
  exact hmap

/-- A node that has accepted is recorded under its address. -/
theorem recordAll_listed (version : UInt32) {answers : List (ClusterNodeInfo × Bool)}
    {node : ClusterNodeInfo} (hnode : node ∈ acceptedOf answers) :
    ∃ rep ∈ (recordAll version answers {}).replicas, rep.address = node.address := by
  have hmem := List.mem_map_of_mem (f := fun node => (node.nodeId, node.address)) hnode
  rw [← recordAll_replicas version] at hmem
  obtain ⟨rep, hrep, heq⟩ := List.mem_map.mp hmem
  exact ⟨rep, hrep, (Prod.mk.inj heq).2⟩

theorem recordAll_successCount (version : UInt32) (answers : List (ClusterNodeInfo × Bool)) :
    (recordAll version answers {}).successCount =
      UInt32.ofNat (acceptedOf answers).length := by
  simpa using (recordAll_accepted version answers {}).1

end StorageClient

/-! ## Runs of the loop -/

section Loop

variable {ι : Type} [DecidableEq ι] {svc : ClusterConfig} {reach : Str → Option ι}
  {write : ClusterNodeInfo → ClusterProg Bool} {version : UInt32}
  {target : ClusterNodeInfo → Str} {chunkId objectId : Str} {data : Bytes}

/-- The call to a node and its answer. -/
def AnsweredBy (target : ClusterNodeInfo → Str) (chunkId objectId : Str) (data : Bytes)
    (answer : ClusterNodeInfo × Bool) (e : Event Rpc Rpc.Reply) : Prop :=
  ∃ q fate r, e = ⟨.storage (target answer.1) q, fate, r⟩ ∧
    q.WritesChunk chunkId objectId data ∧ answer.2 = StorageRpc.acknowledged q r ∧
    (r ≠ none → fate = .answered)

/-- The loop has asked these nodes: from the cluster `c` to `c'`. -/
structure Asked (reach : Str → Option ι) (target : ClusterNodeInfo → Str)
    (chunkId objectId : Str) (data : Bytes) (c : Cluster ι)
    (answers : List (ClusterNodeInfo × Bool)) (trace : List (Event Rpc Rpc.Reply))
    (c' : Cluster ι) : Prop where
  calls : List.Forall₂ (AnsweredBy target chunkId objectId data) answers trace
  overwrites : Cluster.Overwrites chunkId objectId data c c'
  stored : ∀ node ∈ acceptedOf answers, ∃ i, reach (target node) = some i ∧
    (c'.nodes i).HasWritten chunkId objectId data
  appears : (∀ e ∈ trace, Responds reach e) → ∀ i id, (c'.nodes i).file id ≠ none →
    (c.nodes i).file id ≠ none ∨ ∃ e ∈ trace, WritesFile reach e i id
  elsewhere : ∀ i, (∀ answer ∈ answers, reach (target answer.1) ≠ some i) → c'.nodes i = c.nodes i

omit [DecidableEq ι] in
/-- The machines on which the calls write the chunk are those of the nodes that accept. -/
theorem Asked.writesFile_iff {c c' : Cluster ι} {answers : List (ClusterNodeInfo × Bool)}
    {trace : List (Event Rpc Rpc.Reply)}
    (h : Asked reach target chunkId objectId data c answers trace c') {i : ι} {id : Str} :
    (∃ e ∈ trace, WritesFile reach e i id) ↔
      id = chunkId ∧ ∃ node ∈ acceptedOf answers, reach (target node) = some i := by
  have hone : ∀ answer e, AnsweredBy target chunkId objectId data answer e →
      (WritesFile reach e i id ↔ id = chunkId ∧ answer.2 = true ∧
        reach (target answer.1) = some i) := by
    rintro answer e ⟨q, fate, r, rfl, ⟨header, hwritten, hid, -⟩, hok, -⟩
    constructor
    · rintro ⟨_, _, _, _, header', data', heq, hi, hack, hwritten', hid'⟩
      cases heq
      rw [hwritten] at hwritten'
      cases hwritten'
      exact ⟨hid'.symm.trans hid, hok.trans hack, hi⟩
    · rintro ⟨hid', hack, hi⟩
      exact ⟨_, q, fate, r, header, data, rfl, hi, hok.symm.trans hack, hwritten,
        hid.trans hid'.symm⟩
  have hcalls := h.calls
  clear h
  induction hcalls with
  | nil => simp
  | @cons answer e answers trace hanswer _ ih =>
    obtain ⟨node, ok⟩ := answer
    simp only [List.mem_cons, exists_eq_or_imp, hone _ _ hanswer, ih, acceptedOf_cons]
    cases ok <;> simp [and_or_left]

omit [DecidableEq ι] in
theorem Asked.writes {c c' : Cluster ι} {answers : List (ClusterNodeInfo × Bool)}
    {trace : List (Event Rpc Rpc.Reply)}
    (h : Asked reach target chunkId objectId data c answers trace c') :
    ∀ e ∈ trace, ∃ address q fate r, e = ⟨.storage address q, fate, r⟩ ∧
      q.WritesChunk chunkId objectId data := by
  have hcalls := h.calls
  clear h
  induction hcalls with
  | nil => simp
  | cons hanswer _ ih =>
    rw [List.forall_mem_cons]
    obtain ⟨q, fate, r, rfl, hwrites, -⟩ := hanswer
    exact ⟨⟨_, q, fate, r, rfl, hwrites⟩, ih⟩

omit [DecidableEq ι] in
theorem Asked.refl (c : Cluster ι) : Asked reach target chunkId objectId data c [] [] c :=
  ⟨.nil, .refl c, by simp, fun _ _ _ => .inl, fun _ _ => rfl⟩

/-- One call more at the start. -/
theorem Asked.cons {c c₁ c' : Cluster ι} {node : ClusterNodeInfo} {q : StorageRpc} {fate : Fate}
    {r : Option (Rpc.Reply (.storage (target node) q))}
    (hcall : Delivers (Cluster.Serves svc reach) (.storage (target node) q) fate c r c₁)
    (hwrites : q.WritesChunk chunkId objectId data)
    {answers : List (ClusterNodeInfo × Bool)} {trace : List (Event Rpc Rpc.Reply)}
    (h : Asked reach target chunkId objectId data c₁ answers trace c') :
    Asked reach target chunkId objectId data c ((node, q.acknowledged r) :: answers)
      (⟨.storage (target node) q, fate, r⟩ :: trace) c' := by
  obtain ⟨hoverwrites, hstored⟩ := delivers_overwrites hcall hwrites
  refine ⟨.cons ⟨q, fate, r, rfl, hwrites, rfl, hcall.answered_of_reply⟩ h.calls,
    hoverwrites.trans h.overwrites, fun node' hnode' => ?_, fun hresponds i id hfile => ?_,
    fun i hi => ?_⟩
  · rw [acceptedOf_cons] at hnode'
    split at hnode'
    · next hack =>
      rcases List.mem_cons.mp hnode' with rfl | hnode'
      · obtain ⟨i, hreach, hwritten⟩ := hstored hack
        exact ⟨i, hreach, h.overwrites.hasWritten hwritten⟩
      · exact h.stored node' hnode'
    · exact h.stored node' hnode'
  · rw [List.forall_mem_cons] at hresponds
    rcases h.appears hresponds.2 i id hfile with hfile | ⟨e, he, hwritten⟩
    · rcases (delivers_file hcall hresponds.1 i id).mp hfile with hwritten | ⟨hfile, -⟩
      · exact .inr ⟨_, List.mem_cons_self, hwritten⟩
      · exact .inl hfile
    · exact .inr ⟨e, List.mem_cons_of_mem _ he, hwritten⟩
  · rw [List.forall_mem_cons] at hi
    exact (h.elsewhere i hi.2).trans (delivers_elsewhere hcall hi.1)

variable (hwrite : ∀ node, IsWrite (write node) (target node) chunkId objectId data)

include hwrite

theorem writeToNodes_asked {nodes : List ClusterNodeInfo} {p p' : WriteProgress}
    {c c' : Cluster ι} {trace : List (Event Rpc Rpc.Reply)}
    (hrun : Runs (Cluster.Serves svc reach) (writeToNodes write version nodes p) c trace p'
      c') :
    ∃ answers, answers.map Prod.fst = nodes ∧ p' = StorageClient.recordAll version answers p ∧
      Asked reach target chunkId objectId data c answers trace c' := by
  induction nodes generalizing p c trace with
  | nil =>
    obtain ⟨rfl, rfl, rfl⟩ := runs_done.mp hrun
    exact ⟨[], rfl, rfl, .refl _⟩
  | cons node nodes ih =>
    obtain ⟨ok, c₁, first, rest, hfirst, hrest, rfl⟩ := runs_bind.mp hrun
    obtain ⟨q, hwrites, heq⟩ := hwrite node
    rw [heq] at hfirst
    obtain ⟨fate, r, c₂, last, hcall, hdone, rfl⟩ := runs_call.mp hfirst
    obtain ⟨rfl, rfl, rfl⟩ := runs_done.mp hdone
    obtain ⟨answers, rfl, rfl, hasked⟩ := ih hrest
    exact ⟨(node, q.acknowledged r) :: answers, rfl, rfl, .cons hcall hwrites hasked⟩

/-- Any nodes whose machines can be reached can accept. -/
theorem writeToNodes_runs (hlength : data.length < 2 ^ 64)
    (answers : List (ClusterNodeInfo × Bool))
    (hreach : ∀ node ∈ acceptedOf answers, ∃ i, reach (target node) = some i)
    (p : WriteProgress) (c : Cluster ι) :
    ∃ writes c', Runs (Cluster.Serves svc reach)
        (writeToNodes write version (answers.map Prod.fst) p) c writes
        (StorageClient.recordAll version answers p) c' ∧
      Asked reach target chunkId objectId data c answers writes c' ∧
      ∀ e ∈ writes, Responds reach e := by
  induction answers generalizing p c with
  | nil => exact ⟨[], c, .done _ _, .refl c, by simp⟩
  | cons answer answers ih =>
    obtain ⟨node, ok⟩ := answer
    obtain ⟨q, hwrites, heq⟩ := hwrite node
    have hcall : ∃ fate r c₁, Delivers (Cluster.Serves svc reach) (.storage (target node) q)
        fate c r c₁ ∧ q.acknowledged r = ok ∧
          Responds reach ⟨.storage (target node) q, fate, r⟩ := by
      cases ok with
      | false =>
        cases hi : reach (target node) with
        | none =>
          exact ⟨.requestLost, none, c, .requestLost c, q.acknowledged_none, .inr ⟨_, _, rfl, hi⟩⟩
        | some i =>
          obtain ⟨r, hserves, hack⟩ := StorageService.serves_refusal (c.nodes i) hwrites
          exact ⟨.answered, _, _, .answered (.storage hi hserves), hack, .inl rfl⟩
      | true =>
        obtain ⟨i, hi⟩ := hreach node (by simp)
        obtain ⟨r, n, hserves, hack⟩ := StorageService.serves_write (c.nodes i) hwrites hlength
        exact ⟨.answered, _, _, .answered (.storage hi hserves), hack, .inl rfl⟩
    obtain ⟨fate, r, c₁, hdelivers, hack, hresponds⟩ := hcall
    obtain ⟨writes, c', hrest, hasked, hrespond⟩ := ih
      (fun node' hnode' => hreach node' (by cases ok <;> simp [hnode']))
      (if ok then p.record node version else p) c₁
    have hfirst : Runs (Cluster.Serves svc reach) (write node) c
        [⟨.storage (target node) q, fate, r⟩] ok c₁ := by
      rw [heq]
      refine runs_call.mpr ⟨fate, r, c₁, [], hdelivers, ?_, rfl⟩
      rw [hack]
      exact .done _ _
    refine ⟨_, c', runs_bind.mpr ⟨ok, c₁, _, writes, hfirst, hrest, rfl⟩, ?_,
      List.forall_mem_cons.mpr ⟨hresponds, hrespond⟩⟩
    rw [← hack]
    exact .cons hdelivers hwrites hasked

end Loop

/-! ## The calls of the loop -/

/-- What one write and its record preserve, the loop preserves. -/
theorem writeToNodes_keeps {rule : List (Event Rpc Rpc.Reply) → Rpc → Prop}
    {Inv : WriteProgress → List (Event Rpc Rpc.Reply) → Prop}
    {write : ClusterNodeInfo → ClusterProg Bool} {version : UInt32}
    {history : List (Event Rpc Rpc.Reply)}
    (hwrite : ∀ node p later, Inv p (history ++ later) → (write node).Keeps rule
      (fun ok now => Inv (if ok then p.record node version else p) now) (history ++ later))
    (nodes : List ClusterNodeInfo) {p : WriteProgress} (hp : Inv p history) :
    (writeToNodes write version nodes p).Keeps rule Inv history := by
  have hloop : ∀ p later, Inv p (history ++ later) →
      (writeToNodes write version nodes p).Keeps rule Inv (history ++ later) := by
    induction nodes with
    | nil => exact fun p later hp => .done hp
    | cons node nodes ih =>
      intro p later hp
      refine (hwrite node p later hp).bind fun ok more hrecorded => ?_
      rw [List.append_assoc] at hrecorded ⊢
      exact ih _ _ hrecorded
  have hstart := hloop p []
  rw [List.append_nil] at hstart
  exact hstart hp

namespace StorageClient

/-- The chunk is in the object of a response to its creation. -/
def CreatedIn (history : List (Event Rpc Rpc.Reply)) (obj : ObjectMetadata)
    (pb : ChunkMetadata) : Prop :=
  ∃ req fate created, ⟨.metadata (.createObject req), fate, some created⟩ ∈ history ∧
    created.success = true ∧ obj = created.object ∧ pb ∈ created.object.chunks

theorem CreatedIn.mono {history later : List (Event Rpc Rpc.Reply)} {obj : ObjectMetadata}
    {pb : ChunkMetadata} (h : CreatedIn history obj pb) : CreatedIn (history ++ later) obj pb := by
  obtain ⟨req, fate, created, hmem, hcreated⟩ := h
  exact ⟨req, fate, created, List.mem_append_left _ hmem, hcreated⟩

/-- A put keeps a rule that allows its start, and that its turns for the chunks of the created
object keep. -/
theorem put_keeps_rule {rule : List (Event Rpc Rpc.Reply) → Rpc → Prop} {cfg : ClusterConfig}
    {filename owner : Str} {data : Bytes}
    (hcreate : rule [] (.metadata (.createObject (createRequest cfg filename data owner))))
    (hturn : ∀ history obj pb offset, CreatedIn history obj pb →
      (putChunk cfg data obj pb offset).Keeps rule (fun _ _ => True) history) :
    (put cfg filename data owner).Keeps rule (fun _ _ => True) [] := by
  have hloop : ∀ {obj : ObjectMetadata} {chunks : List ChunkMetadata}
      {history : List (Event Rpc Rpc.Reply)}, (∀ pb ∈ chunks, CreatedIn history obj pb) →
      ∀ offset, (putChunks cfg data obj chunks offset).Keeps rule (fun _ _ => True) history := by
    intro obj chunks
    induction chunks with
    | nil => exact fun _ _ => .done trivial
    | cons pb rest ih =>
      intro history hcreated offset
      refine (hturn history obj pb offset (hcreated pb List.mem_cons_self)).bind
        fun failure later _ => ?_
      cases failure with
      | some message => exact .done trivial
      | none => exact ih (fun pb' hpb' => (hcreated pb' (List.mem_cons_of_mem _ hpb')).mono) _
  refine .call hcreate fun fate r => ?_
  cases r with
  | none => exact .done trivial
  | some created =>
    simp only [Prog.bind]
    split
    · exact .done trivial
    · next hok =>
      refine (hloop (fun pb hpb => ?_) 0).bind fun failure later _ => ?_
      · exact ⟨_, fate, created, List.mem_singleton_self _, Bool.eq_true_of_not_eq_false hok, rfl,
          hpb⟩
      · cases failure <;> exact .done trivial

end StorageClient

end StorageEngine
