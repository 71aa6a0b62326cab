import StorageEngine.Client.PutRun
import StorageEngine.Cluster.Layout
import StorageEngine.Recovery.Detection
import StorageEngine.Recovery.RepairPass

/-!
# The layout of the objects among all that runs

Any number of puts, repair passes and other programs that take turns.  Only puts and
repair passes call `UpdateChunk`, and both send back a chunk that the metadata service has
sent them before, with the replicas of one loop over the selected nodes.

* `Party` is what takes part, and `LayoutRule` is what its updates keep to.
* `KeepsLayout` is what should hold of every step.
* `WrapsIndex`: an object is created with more chunks than a 32-bit index can number.
* `layout_kept_iff`: the layout is kept in every step exactly if no step does that.
-/

namespace StorageEngine

open Lib Lib.Remote MetadataStore MetadataService StorageClient

/-! ## The replicas that an update sends -/

theorem PrimaryFirst.concat {replicas : List ReplicaInfo} (h : PrimaryFirst replicas)
    {r : ReplicaInfo} (hr : r.isPrimary = replicas.isEmpty) : PrimaryFirst (replicas ++ [r]) := by
  cases replicas with
  | nil => exact ⟨hr, by simp⟩
  | cons first rest =>
    refine ⟨h.1, fun r' hr' => ?_⟩
    rcases List.mem_append.mp hr' with hr' | hr'
    · exact h.2 r' hr'
    · rw [List.mem_singleton.mp hr', hr]
      rfl

/-- The flag of the loop tells whether there is a replica yet. -/
structure WriteProgress.Ordered (p : WriteProgress) : Prop where
  primarySet : p.primarySet = !p.replicas.isEmpty
  primaryFirst : PrimaryFirst p.replicas

theorem WriteProgress.ordered_empty : WriteProgress.Ordered {} :=
  ⟨rfl, trivial⟩

theorem WriteProgress.Ordered.record {p : WriteProgress} (h : p.Ordered)
    (node : ClusterNodeInfo) (version : UInt32) : (p.record node version).Ordered where
  primarySet := by simp [WriteProgress.record]
  primaryFirst := h.primaryFirst.concat (by rw [h.primarySet, Bool.not_not])

/-! ## What takes part -/

/-- Any call but `UpdateChunk`. -/
def Rpc.NoUpdate : Rpc → Prop
  | .metadata (.updateChunk _) => False
  | _ => True

inductive Party where
  | put (cfg : ClusterConfig) (filename : Str) (data : Bytes) (owner : Str)
  | repair (pass : RepairPass)
  | other (program : ClusterProg Unit) (hprogram : program.Issues Rpc.NoUpdate)

namespace Party

def program : Party → ClusterProg Unit
  | .put cfg filename data owner => do
    let _ ← StorageClient.put cfg filename data owner
    return ()
  | .repair pass => do
    let _ ← pass.program
    return ()
  | .other program _ => program

/-- The slot of a chunk that a reply has sent. -/
inductive Received : Event Rpc Rpc.Reply → ChunkSlot → Prop where
  | created {req : CreateObjectRequest} {fate : Fate} {resp : CreateObjectResponse}
      {pb : ChunkMetadata} (hok : resp.success = true) (hpb : pb ∈ resp.object.chunks) :
      Received ⟨.metadata (.createObject req), fate, some resp⟩
        { pb.slot with objectId := resp.object.objectId }
  | reported {fate : Fate} {resp : GetUnderReplicatedChunksResponse} {pb : ChunkMetadata}
      (hpb : pb ∈ resp.chunks) :
      Received ⟨.metadata .getUnderReplicatedChunks, fate, some resp⟩ pb.slot

/-- An update sends the slot of a chunk that was received, to its object. -/
def LayoutRule (history : List (Event Rpc Rpc.Reply)) : Rpc → Prop
  | .metadata (.updateChunk req) => (∃ e ∈ history, Received e req.chunk.slot) ∧
      req.chunk.objectId = req.objectId ∧ PrimaryFirst req.chunk.fromProto.replicas
  | _ => True

theorem noUpdate_rule (history : List (Event Rpc Rpc.Reply)) (q : Rpc) (h : q.NoUpdate) :
    LayoutRule history q := by
  cases q with
  | metadata q => cases q <;> first | exact h.elim | exact trivial
  | storage address q => exact trivial

theorem copies_noUpdate (q : Rpc) (h : RepairPass.Copies q) : q.NoUpdate := by
  cases q with
  | metadata q => cases q <;> first | exact h.elim | exact trivial
  | storage address q => exact trivial

/-- The loop over the nodes records the first one that accepts as the primary. -/
theorem writeToNodes_ordered {write : ClusterNodeInfo → ClusterProg Bool} {version : UInt32}
    (hwrite : ∀ node, (write node).Issues Rpc.NoUpdate) (nodes : List ClusterNodeInfo)
    (history : List (Event Rpc Rpc.Reply)) :
    (writeToNodes write version nodes {}).Keeps LayoutRule (fun p _ => p.Ordered) history := by
  refine writeToNodes_keeps (fun node p later hp => ?_) nodes WriteProgress.ordered_empty
  refine ((hwrite node).keeps noUpdate_rule _).imp fun ok more _ => ?_
  split
  · exact hp.record node version
  · exact hp

theorem writeChunkToNode_issues (address : Str) (chunk : ChunkInfo) (data : Bytes)
    (objectId : Str) :
    (StorageClient.writeChunkToNode address chunk data objectId).Issues Rpc.NoUpdate :=
  .call trivial fun _ => .done _

/-- A put sends the chunks of the object that it has created. -/
theorem putChunk_keeps {history : List (Event Rpc Rpc.Reply)} {obj : ObjectMetadata}
    {chunkPb : ChunkMetadata}
    (hreceived : ∃ e ∈ history, Received e { chunkPb.slot with objectId := obj.objectId })
    (cfg : ClusterConfig) (data : Bytes) (offset : UInt64) :
    (StorageClient.putChunk cfg data obj chunkPb offset).Keeps LayoutRule (fun _ _ => True)
      history := by
  obtain ⟨e, he, hslot⟩ := hreceived
  refine .call trivial fun fate r => ?_
  cases r with
  | none => exact .done trivial
  | some selected =>
    refine (writeToNodes_ordered (fun node => writeChunkToNode_issues _ _ _ _) _ _).bind
      fun progress later hordered => ?_
    split
    · exact .call trivial fun fate r => .done trivial
    · refine .call ⟨⟨e, ?_, hslot⟩, rfl, ?_⟩ fun fate r => .done trivial
      · simp [he]
      · rw [ChunkInfo.fromProto_toProto]
        exact hordered.primaryFirst

theorem put_keeps (cfg : ClusterConfig) (filename : Str) (data : Bytes) (owner : Str) :
    (StorageClient.put cfg filename data owner).Keeps LayoutRule (fun _ _ => True) [] := by
  apply StorageClient.put_keeps_rule trivial
  rintro history obj pb offset ⟨req, fate, created, hmem, hok, rfl, hpb⟩
  exact putChunk_keeps ⟨_, hmem, .created hok hpb⟩ cfg data offset

/-- Replication returns the replicas of one loop, or none. -/
theorem replicateChunk_keeps (m : ReplicationManager) (now : TimestampMs) (chunk : ChunkInfo)
    (data : Bytes) (replicationFactor : UInt32) (ackPolicy : WriteAckPolicy)
    (history : List (Event Rpc Rpc.Reply)) :
    (m.replicateChunk now chunk data replicationFactor ackPolicy).Keeps LayoutRule
      (fun result _ => PrimaryFirst result.replicas) history := by
  refine .call trivial fun fate r => ?_
  cases r with
  | none => exact .done trivial
  | some selected =>
    simp only [Prog.bind]
    split
    · exact .done trivial
    · refine (writeToNodes_ordered (fun node => ?_) _ _).bind
        fun progress later hordered => .done hordered.primaryFirst
      exact (RepairPass.writeToSelected_places m _ data node).imp
        fun q hq => copies_noUpdate q (hq.copies q)

theorem repairChunk_keeps {history : List (Event Rpc Rpc.Reply)} {pb : ChunkMetadata}
    (hreceived : ∃ e ∈ history, Received e pb.slot) (cfg : ClusterConfig)
    (m : ReplicationManager) (now : TimestampMs) (excludeNode : Str) :
    (RecoveryManager.repairChunk cfg m now excludeNode pb.fromProto).Keeps LayoutRule
      (fun _ _ => True) history := by
  obtain ⟨e, he, hslot⟩ := hreceived
  refine (((RepairPass.fetchChunkFromReplica_issues _ _ _).imp copies_noUpdate).keeps
    noUpdate_rule history).bind fun data later _ => ?_
  cases data with
  | none => exact .done trivial
  | some data =>
    refine (replicateChunk_keeps m now _ data _ _ _).bind fun result later' hprimary => ?_
    split
    · refine .call ⟨⟨e, by simp [he], hslot⟩, rfl, ?_⟩ fun fate r => .done trivial
      rw [RecoveryManager.updateRequest, ChunkInfo.fromProto_toProto]
      exact hprimary
    · exact .done trivial

/-- A pass sends the chunks that a scan has reported. -/
theorem repair_keeps (pass : RepairPass) :
    pass.program.Keeps LayoutRule (fun _ _ => True) [] := by
  apply RepairPass.program_keeps (fun _ _ => trivial) (fun _ => trivial)
  intro history pb now excludeNode hreported
  obtain ⟨fate, resp, hmem, hpb⟩ := hreported
  exact repairChunk_keeps ⟨_, hmem, .reported hpb⟩ _ _ _ _

/-- All updates keep the rule. -/
theorem keeps (party : Party) : party.program.Keeps LayoutRule (fun _ _ => True) [] := by
  cases party with
  | put cfg filename data owner =>
    exact (put_keeps cfg filename data owner).bind fun _ _ _ => .done trivial
  | repair pass => exact (repair_keeps pass).bind fun _ _ _ => .done trivial
  | other program hprogram => exact hprogram.keeps noUpdate_rule []

/-! ## Steps -/

/-- A step of parties that take turns. -/
abbrev Turn (P ι : Type) :=
  Transition (Threads P Rpc Rpc.Reply (Cluster ι) Unit) (Action P Rpc Rpc.Reply)

variable {P ι : Type}

/-- The metadata before the step. -/
def Turn.before (step : Turn P ι) : MetadataStore := step.source.state.metadata.store

/-- The metadata after the step. -/
def Turn.after (step : Turn P ι) : MetadataStore := step.target.state.metadata.store

/-- The step creates this object. -/
structure Creates (step : Turn P ι) (key : Str) (planned : ObjectInfo) : Prop where
  called : ∃ req, step.label.event.request = .metadata (.createObject req)
  absent : step.before.objectsById.lookup key = none
  stored : step.after.objectsById.lookup key = some planned

/-- After the step the stored objects are laid out as they were planned when they were
created, and an update has changed only the chunk that it addresses. -/
structure KeepsLayout (before : List (Turn P ι)) (step : Turn P ι) : Prop where
  laidOut : step.after.LaidOut
  planned : ∀ {key obj}, step.after.objectsById.lookup key = some obj →
    ∃ creation ∈ before ++ [step], ∃ planned, Creates creation key planned ∧
      obj.layout = planned.layout
  updates : ∀ req fate r, step.label.event = ⟨.metadata (.updateChunk req), fate, r⟩ →
    (step.after = step.before ∧ ∀ resp : StatusResponse, r = some resp → resp.success = false) ∨
      UpdatesOnly req step.before step.after

/-- The step creates an object with more than `2 ^ 32` chunks. -/
def WrapsIndex (svc : ClusterConfig) (step : Turn P ι) : Prop :=
  ∃ req, step.label.event.request = .metadata (.createObject req) ∧
    step.label.event.fate ≠ .requestLost ∧ req.filename ∉ step.before.filenameToId ∧
    2 ^ 32 * (chunkSizeBytes svc req).toNat < req.size.toNat

/-- What holds before each step. -/
structure Inv (before : List (Turn P ι)) (n : MetadataNode) : Prop where
  numbered : n.Numbered
  received : ∀ step ∈ before, ∀ slot, Received step.label.event slot → n.Agrees slot
  planned : ∀ {key obj}, n.store.objectsById.lookup key = some obj →
    ∃ creation ∈ before, ∃ planned, Creates creation key planned ∧ obj.layout = planned.layout

theorem inv_start (nodes : NodeTable) :
    Inv ([] : List (Turn P ι)) { store := { nodes := nodes } } where
  numbered := MetadataNode.numbered_start nodes
  received := by simp
  planned h := by simp at h

section Served

variable {svc : ClusterConfig} {n n' : MetadataNode} {q : MetadataRpc}

/-- A reply has slots of chunks that are stored. -/
theorem agrees_of_received {fate : Fate} {resp : q.Reply} (hserves : Serves svc q n resp n')
    (hn' : n'.Numbered) {slot : ChunkSlot}
    (h : Received ⟨.metadata q, fate, some resp⟩ slot) : n'.Agrees slot := by
  have hstored : ∀ {key c}, n'.Holds key c → n'.Agrees c.slot := by
    intro key c hc
    have hissued : c.chunkId ∈ n'.issued := by
      obtain ⟨obj, hobj, hmem⟩ := hc
      exact (hn'.ids.drawn hobj _ (List.mem_cons_of_mem _ (List.mem_map_of_mem hmem))).1
    refine ⟨hissued, fun {key' c'} hc' hid => ?_⟩
    rw [(hn'.ids.holds_unique hc' hc hid).2]
  cases h with
  | @created req _ _ pb hok hpb =>
    rcases hserves.create_cases with ⟨hrefused, -⟩ | ⟨obj, rfl, hcreated⟩
    · rw [hrefused] at hok
      cases hok
    · obtain ⟨c, hc, rfl⟩ := List.mem_map.mp hpb
      have hlookup : n'.store.objectsById.lookup obj.objectId = some obj := by
        rw [hcreated.store]
        exact Finmap.lookup_insert _
      have hslot : { c.toProto.slot with objectId := obj.toProto.objectId } = c.slot := by
        rw [ChunkInfo.slot_toProto, ObjectInfo.toProto_objectId,
          ← (hcreated.planned c hc).objectId]
        rfl
      rw [hslot]
      exact hstored ⟨obj, hlookup, hc⟩
  | @reported _ _ pb hpb =>
    obtain ⟨hsame, -⟩ := hserves.reported
    obtain ⟨obj, chunk, ⟨⟨key, hkey⟩, hchunk⟩, -, rfl⟩ := hserves.mem_reported.mp hpb
    rw [← hsame] at hkey
    exact hstored ⟨obj, hkey, hchunk⟩

end Served

section Step

variable [DecidableEq P] [DecidableEq ι] {svc : ClusterConfig} {reach : Str → Option ι}
  {before : List (Turn P ι)} {step : Turn P ι}

/-- What becomes of a call: it leaves the metadata and has no reply with a chunk, or the
metadata service serves it. -/
theorem step_cases (hstep : Threads.Step (Cluster.Serves svc reach) step.source step.label
      step.target) :
    (step.target.state.metadata = step.source.state.metadata ∧
        (∀ slot, ¬Received step.label.event slot) ∧
        ∀ q fate r, step.label.event = ⟨.metadata q, fate, r⟩ → fate = .requestLost ∧ r = none) ∨
      ∃ q fate r resp, step.label.event = ⟨.metadata q, fate, r⟩ ∧ fate ≠ .requestLost ∧
        Serves svc q step.source.state.metadata resp step.target.state.metadata ∧
        (r = none ∨ r = some resp) := by
  have hdelivers := hstep.delivers
  obtain ⟨source, ⟨process, q, fate, r⟩, target⟩ := step
  cases q with
  | storage address q =>
    refine .inl ⟨delivers_storage_metadata hdelivers, fun slot h => ?_, fun q fate r h => ?_⟩
    · cases h
    · cases h
  | metadata q =>
    rcases delivers_metadata hdelivers with ⟨hfate, hr, hsame⟩ | ⟨hfate, -, resp, hserves, -, hr⟩
    · refine .inl ⟨by rw [hsame], fun slot h => ?_, fun q' fate' r' h => ?_⟩
      · simp only at hr
        subst hr
        cases h
      · cases h
        exact ⟨hfate, hr⟩
    · exact .inr ⟨q, fate, r, resp, rfl, hfate, hserves, hr⟩

omit [DecidableEq ι] in
/-- A call that keeps the rule is faithful. -/
theorem Inv.faithful {n : MetadataNode} (h : Inv before n) {p : P} {q : MetadataRpc}
    (hrule : LayoutRule (callsOf p before) (.metadata q)) : q.Faithful n := by
  cases q with
  | updateChunk req =>
    obtain ⟨⟨e, he, hslot⟩, howner, hprimary⟩ := hrule
    obtain ⟨t, ht, hlabel⟩ := mem_callsOf.mp he
    exact ⟨howner, h.received t ht _ (by rw [hlabel]; exact hslot), hprimary⟩
  | _ => exact trivial

theorem Inv.after (h : Inv before step.source.state.metadata)
    (hstep : Threads.Step (Cluster.Serves svc reach) step.source step.label step.target)
    (hrule : LayoutRule (callsOf step.label.process before) step.label.event.request) :
    Inv (before ++ [step]) step.target.state.metadata := by
  have hmem : ∀ {t}, t ∈ before ++ [step] → t ∈ before ∨ t = step := fun ht =>
    (List.mem_append.mp ht).imp_right List.mem_singleton.mp
  rcases step_cases hstep with ⟨hsame, hnone, -⟩ | ⟨q, fate, r, resp, hevent, -, hserves, hr⟩
  · rw [hsame]
    refine ⟨h.numbered, fun t ht slot hslot => ?_, fun {key obj} hobj => ?_⟩
    · rcases hmem ht with ht | rfl
      · exact h.received t ht slot hslot
      · exact absurd hslot (hnone slot)
    · obtain ⟨creation, hcreation, hplanned⟩ := h.planned hobj
      exact ⟨creation, List.mem_append_left _ hcreation, hplanned⟩
  · rw [hevent] at hrule
    have hfaithful := h.faithful hrule
    have hnumbered := h.numbered.serve hfaithful hserves
    refine ⟨hnumbered, fun t ht slot hslot => ?_, fun {key obj} hobj => ?_⟩
    · rcases hmem ht with ht | rfl
      · exact (h.received t ht slot hslot).serve hfaithful hserves
      · rw [hevent] at hslot
        rcases hr with rfl | rfl
        · cases hslot
        · exact agrees_of_received hserves hnumbered hslot
    · rcases h.numbered.layout_serve hfaithful hserves hobj with
        ⟨old, hold, hlayout, -⟩ | ⟨req, rfl, habsent, -⟩
      · obtain ⟨creation, hcreation, planned, hcreates, hplanned⟩ := h.planned hold
        exact ⟨creation, List.mem_append_left _ hcreation, planned, hcreates,
          hlayout.trans hplanned⟩
      · exact ⟨step, List.mem_append_right _ (List.mem_singleton_self _), obj,
          ⟨⟨req, by rw [hevent]⟩, habsent, hobj⟩, rfl⟩

/-- Only the index of a chunk can be wrong after a step. -/
theorem Inv.keepsLayout (h : Inv before step.source.state.metadata)
    (hstep : Threads.Step (Cluster.Serves svc reach) step.source step.label step.target)
    (hrule : LayoutRule (callsOf step.label.process before) step.label.event.request)
    (hlaid : step.after.LaidOut) : KeepsLayout before step := by
  refine ⟨hlaid, (h.after hstep hrule).planned, fun req fate r hevent => ?_⟩
  rcases step_cases hstep with ⟨hsame, -, hlost⟩ | ⟨q, fate', r', resp, hevent', -, hserves, hr⟩
  · refine .inl ⟨by rw [Turn.after, hsame, Turn.before], ?_⟩
    rw [(hlost _ fate r hevent).2]
    intro resp hresp
    cases hresp
  · rw [hevent'] at hevent
    cases hevent
    rcases h.numbered.update_cases hserves with ⟨hsame, hfailed⟩ | honly
    · refine .inl ⟨by rw [Turn.after, hsame, Turn.before], fun resp' hresp' => ?_⟩
      rcases hr with rfl | rfl
      · cases hresp'
      · cases hresp'
        exact hfailed
    · exact .inr honly

/-- An object is too long after a step only if it was before, or if the step creates it. -/
theorem Inv.length_le (h : Inv before step.source.state.metadata)
    (hstep : Threads.Step (Cluster.Serves svc reach) step.source step.label step.target)
    (hrule : LayoutRule (callsOf step.label.process before) step.label.event.request)
    (hwraps : ¬WrapsIndex svc step)
    (hshort : ∀ key obj, step.before.objectsById.lookup key = some obj →
      obj.chunks.length ≤ 2 ^ 32) :
    ∀ key obj, step.after.objectsById.lookup key = some obj → obj.chunks.length ≤ 2 ^ 32 := by
  intro key obj hobj
  rcases step_cases hstep with ⟨hsame, -, -⟩ | ⟨q, fate, r, resp, hevent, hfate, hserves, -⟩
  · rw [Turn.after, hsame] at hobj
    exact hshort key obj hobj
  · rw [hevent] at hrule
    rcases h.numbered.layout_serve (h.faithful hrule) hserves hobj with
      ⟨old, hold, hlayout, -⟩ | ⟨req, rfl, -, hcreated, hcounted⟩
    · have hlength := congrArg List.length hlayout
      rw [ObjectInfo.layout, ObjectInfo.layout, List.length_map, List.length_map] at hlength
      rw [hlength]
      exact hshort key old hold
    · rw [hcounted.length_le_iff Nat.one_le_two_pow]
      by_contra hlong
      refine hwraps ⟨req, by rw [hevent], by rw [hevent]; exact hfate, hcreated.free, ?_⟩
      omega

/-- After a step that wraps, an index is not its position. -/
theorem Inv.not_laidOut (h : Inv before step.source.state.metadata)
    (hstep : Threads.Step (Cluster.Serves svc reach) step.source step.label step.target)
    (hrule : LayoutRule (callsOf step.label.process before) step.label.event.request)
    (hwraps : WrapsIndex svc step) : ¬step.after.LaidOut := by
  intro hlaid
  obtain ⟨req, hreq, hfate, hfree, hlong⟩ := hwraps
  have hnumbered := (h.after hstep hrule).numbered
  rcases step_cases hstep with ⟨-, -, hlost⟩ | ⟨q, fate, r, resp, hevent, -, hserves, -⟩
  · obtain ⟨source, ⟨process, q, fate, r⟩, target⟩ := step
    cases hreq
    exact hfate (hlost _ fate r rfl).1
  · rw [hevent] at hreq
    cases hreq
    rcases hserves.create_counted with ⟨-, -, hmem⟩ | ⟨obj, -, hcreated, hcounted⟩
    · exact hfree hmem
    · have hlookup : step.after.objectsById.lookup obj.objectId = some obj := by
        rw [Turn.after, hcreated.store]
        exact Finmap.lookup_insert _
      have hlength := hnumbered.laidOut_iff.mp hlaid _ obj hlookup
      rw [hcounted.length_le_iff Nat.one_le_two_pow] at hlength
      omega

end Step

/-! ## Runs -/

section Runs

variable [DecidableEq P] [DecidableEq ι] {svc : ClusterConfig} {reach : Str → Option ι}
  {trace : List (Turn P ι)} {t' : Threads P Rpc Rpc.Reply (Cluster ι) Unit}

/-- The invariant holds before every step. -/
theorem run_inv (parties : P → Party) (c : Cluster ι) {nodes : NodeTable}
    (hstart : c.metadata = { store := { nodes := nodes } })
    (hrun : Run (Threads.Step (Cluster.Serves svc reach)) ⟨c, fun p => (parties p).program⟩ trace
      t') {before after : List (Turn P ι)} {step : Turn P ι}
    (htrace : trace = before ++ step :: after) : Inv before step.source.state.metadata := by
  have hrule := Run.keeps hrun (fun _ => []) fun p => (parties p).keeps
  have hbefore := @Run.invariant_before _ _ _
    (fun before (t : Threads P Rpc Rpc.Reply (Cluster ι) Unit) => Inv before t.state.metadata)
    _ _ _ hrun
  refine hbefore ?_ (fun before step after htrace hstep h => ?_) before step after htrace
  · rw [hstart]
    exact inv_start nodes
  · exact h.after hstep (hrule before step after htrace)

/-- In every interleaving, every step keeps the layout of the stored objects exactly if no
step creates an object with more chunks than an index can number. -/
theorem layout_kept_iff (parties : P → Party) (c : Cluster ι) (hempty : c.metadata = {})
    (hrun : Run (Threads.Step (Cluster.Serves svc reach)) ⟨c, fun p => (parties p).program⟩ trace
      t') :
    (∀ before step after, trace = before ++ step :: after → KeepsLayout before step) ↔
      ∀ step ∈ trace, ¬WrapsIndex svc step := by
  have hrule := Run.keeps hrun (fun _ => []) fun p => (parties p).keeps
  have hstep : ∀ {before step after}, trace = before ++ step :: after →
      Threads.Step (Cluster.Serves svc reach) step.source step.label step.target := by
    intro before step after htrace
    rw [htrace] at hrun
    exact hrun.split_step.2.1
  constructor
  · intro hkeeps step hmem hwraps
    obtain ⟨before, after, htrace⟩ := List.append_of_mem hmem
    have hinv := run_inv parties c hempty hrun htrace
    exact hinv.not_laidOut (hstep htrace) (hrule before step after htrace) hwraps
      (hkeeps before step after htrace).laidOut
  · intro hcond before step after htrace
    have hnever : ∀ {before step after}, trace = before ++ step :: after →
        ¬WrapsIndex svc step := by
      intro before step after htrace
      exact hcond step (by simp [htrace])
    have hinv := run_inv parties c hempty hrun htrace
    have hlength := @Run.invariant_before _ _ _
      (fun _ (t : Threads P Rpc Rpc.Reply (Cluster ι) Unit) => ∀ key obj,
        t.state.metadata.store.objectsById.lookup key = some obj → obj.chunks.length ≤ 2 ^ 32)
      _ _ _ hrun
    have hshort := hlength (by simp [hempty]) (fun before step after htrace hstep h =>
      (run_inv parties c hempty hrun htrace).length_le hstep (hrule before step after htrace)
        (hnever htrace) h) before step after htrace
    have hafter := hinv.length_le (hstep htrace) (hrule before step after htrace) (hnever htrace)
      hshort
    have hnumbered := (hinv.after (hstep htrace) (hrule before step after htrace)).numbered
    exact hinv.keepsLayout (hstep htrace) (hrule before step after htrace)
      (hnumbered.laidOut_iff.mpr hafter)

end Runs

/-! ## A long object -/

section Long

/-- The draws of a service that counts. -/
private def counted (k : ℕ) : Str := generateUuid 0 (UInt64.ofNat k)

private theorem counted_inj {i j : ℕ} (hi : i < 2 ^ 48) (hj : j < 2 ^ 48)
    (h : counted i = counted j) : i = j := by
  have hlow := generateUuid_inj h
  rw [UInt64.toNat_ofNat', UInt64.toNat_ofNat'] at hlow
  omega

/-- An object of any length that ids can be drawn for can be created. -/
theorem serves_create_first {svc : ClusterConfig} {req : CreateObjectRequest}
    (hchunkSize : chunkSizeBytes svc req ≠ 0)
    (hsize : req.size.toNat ≤ 2 ^ 40 * (chunkSizeBytes svc req).toNat) :
    ∃ resp n', Serves svc (.createObject req) {} resp n' := by
  obtain ⟨chunks, hplan⟩ := Option.isSome_iff_exists.mp
    ((planChunks_isSome_iff (fun k => counted (k + 1)) (counted 0) req.size _).mpr
      (.inr hchunkSize))
  have hlength := (planChunks_length_le_iff hplan Nat.one_le_two_pow).mpr hsize
  have hids : counted 0 :: chunks.map ChunkInfo.chunkId =
      (List.range (chunks.length + 1)).map counted := by
    rw [List.range_succ_eq_map, List.map_cons, List.map_map]
    congr 1
    apply List.ext_getElem
    · simp
    · intro i hi hi'
      rw [List.getElem_map, List.getElem_map, List.getElem_range]
      rw [List.length_map] at hi
      exact (planChunks_index hplan (List.getElem?_eq_getElem hi)).2
  have hcreate : ∃ resp store, MetadataService.createObject svc counted 0 {} req =
      some (resp, store) ∧ resp.ids = counted 0 :: chunks.map ChunkInfo.chunkId := by
    have hfree : req.filename ∉ ({} : MetadataStore).filenameToId := Finmap.notMem_empty
    unfold MetadataService.createObject MetadataStore.createObject
    dsimp only
    rw [if_neg hfree]
    unfold chunkSizeBytes at hplan
    rw [hplan]
    refine ⟨_, _, rfl, ?_⟩
    simp [CreateObjectResponse.ids, newObject, Function.comp_def]
  obtain ⟨resp, store, hcreate, hresp⟩ := hcreate
  refine ⟨resp, _, .createObject (fun k => ⟨_, _, rfl⟩) ?_ (by simp) hcreate⟩
  rw [hresp, hids]
  refine List.Nodup.map_on (fun i hi j hj h => ?_) List.nodup_range
  rw [List.mem_range] at hi hj
  exact counted_inj (by omega) (by omega) h

/-- An object of `2 ^ 52 + 1` bytes in chunks of one mebibyte. -/
private def longRequest : CreateObjectRequest :=
  { filename := str "a.txt", size := 4503599627370497, chunkSizeMb := 1 }

/-- A program that makes one call. -/
private def oneCall (q : Rpc) : ClusterProg Unit := do
  let _ ← Prog.rpc q
  return ()

private theorem oneCall_issues {q : Rpc} (h : q.NoUpdate) : (oneCall q).Issues Rpc.NoUpdate :=
  .call h fun _ => .done _

private def emptyCluster : Cluster Unit :=
  ⟨{}, fun _ => (ChunkStore.construct (str "/data") ∅ [], ∅)⟩

/-- The last chunk of a long object has the index of its first. -/
theorem long_object_wraps : ∃ (parties : Unit → Party)
    (t' : Threads Unit Rpc Rpc.Reply (Cluster Unit) Unit) (trace : List (Turn Unit Unit)),
    Run (Threads.Step (Cluster.Serves {} fun _ => some ()))
        ⟨emptyCluster, fun p => (parties p).program⟩ trace t' ∧
      ¬∀ before step after, trace = before ++ step :: after → KeepsLayout before step := by
  obtain ⟨resp, n', hserves⟩ := @serves_create_first {} longRequest (by decide) (by decide)
  let q : Rpc := .metadata (.createObject longRequest)
  let parties : Unit → Party := fun _ => .other (oneCall q) (oneCall_issues trivial)
  have hstep := Threads.Step.call (p := ()) (t := ⟨emptyCluster, fun p => (parties p).program⟩)
    rfl (.answered (.metadata hserves : Cluster.Serves {} (fun _ => some ()) q emptyCluster _ _))
  refine ⟨parties, _, _, .single hstep, fun hkeeps => ?_⟩
  have hlaid := (hkeeps [] _ [] rfl).laidOut
  have hnot := @Inv.not_laidOut Unit Unit _ _ {} _ [] ⟨_, _, _⟩ (inv_start .empty) hstep
    (by exact trivial)
  exact hnot ⟨longRequest, rfl, by simp, Finmap.notMem_empty, by decide⟩ hlaid

end Long

/-! ## One put -/

/-- A node registers, and a put writes an empty file to it. -/
theorem layout_kept_one_put : ∃ (parties : Bool → Party)
    (t' : Threads Bool Rpc Rpc.Reply (Cluster Unit) Unit) (trace : List (Turn Bool Unit)),
    Run (Threads.Step (Cluster.Serves {} fun _ => some ()))
        ⟨emptyCluster, fun p => (parties p).program⟩ trace t' ∧
      (∃ step ∈ trace, ∃ req fate r,
        step.label.event = ⟨.metadata (.updateChunk req), fate, r⟩) ∧
      ∀ before step after, trace = before ++ step :: after → KeepsLayout before step := by
  let cfg : ClusterConfig := { replicationFactor := 1 }
  let q : Rpc := .metadata (.registerNode { nodeId := oneNode.id, address := oneNode.address })
  let parties : Bool → Party := fun p =>
    if p then .put cfg (str "a.txt") [] [] else .other (oneCall q) (oneCall_issues trivial)
  -- the registration
  have hregister : Serves {} (.registerNode { nodeId := oneNode.id, address := oneNode.address })
      {} { success := true, message := str "Registered" } { store := oneNodeStore } :=
    .registerNode _ _ 0
  have hfirst := Threads.Step.call (p := false)
    (t := ⟨emptyCluster, fun p => (parties p).program⟩) rfl
    (.answered (.metadata hregister : Cluster.Serves {} (fun _ => some ()) q emptyCluster _ _))
  -- the put
  obtain ⟨selected, writes, c₁, c₂, hselect, hwrites, hasked, -, -⟩ :=
    @empty_upload_runs _ _ {} cfg (fun _ => some ()) (str "a.txt") [] oneNodeStore
      emptyCluster.nodes { visited := [oneNode], arranged := [oneNode] } [(oneNode.toProto, true)]
      (oneNode_possible _) rfl fun _ _ => ⟨(), rfl⟩
  let update := emptyUpdate {} cfg (str "a.txt") [] [(oneNode.toProto, true)]
  obtain ⟨r, c', hupdate⟩ : ∃ r c', Delivers (Cluster.Serves {} fun _ => some ())
      (.metadata (.updateChunk update)) .answered c₂ r c' :=
    ⟨_, _, .answered (.metadata (.updateChunk _ _ 0))⟩
  have hput := put_empty_runs Finmap.notMem_empty
    (putChunk_runs_update hselect hwrites (by decide) rfl hupdate)
  obtain ⟨trace, hrun, hlabels⟩ := ((Advances.of_runs hput).bind fun _ => .done ()).run true
    (Function.update (fun p => (parties p).program) false (.done ())) rfl
  have hfull := (Run.single hfirst).trans hrun
  refine ⟨parties, _, _, hfull, ?_, (layout_kept_iff parties emptyCluster rfl hfull).mpr ?_⟩
  · have hlast : ⟨true, ⟨.metadata (.updateChunk update), .answered, r⟩⟩ ∈
        trace.map Transition.label := by
      rw [hlabels]
      exact List.mem_map_of_mem (List.mem_cons_of_mem _ (List.mem_cons_of_mem _
        (List.mem_append_right writes (List.mem_singleton_self _))))
    obtain ⟨step, hstep, hlabel⟩ := List.mem_map.mp hlast
    exact ⟨step, List.mem_append_right _ hstep, _, _, _, by rw [hlabel]⟩
  · intro step hstep hwraps
    obtain ⟨req, hreq, -, -, hlong⟩ := hwraps
    rcases List.mem_append.mp hstep with hstep | hstep
    · rw [List.mem_singleton.mp hstep] at hreq
      cases hreq
    · have hlabel : step.label ∈ trace.map Transition.label := List.mem_map_of_mem hstep
      rw [hlabels] at hlabel
      obtain ⟨e, he, hevent⟩ := List.mem_map.mp hlabel
      rw [← hevent] at hreq
      simp only [List.mem_cons, List.mem_append, List.not_mem_nil, or_false] at he
      rcases he with rfl | rfl | he | rfl
      · cases hreq
        exact absurd hlong (Nat.not_lt_zero _)
      · cases hreq
      · obtain ⟨address, q, fate, r, rfl, -⟩ := hasked.writes e he
        cases hreq
      · cases hreq

end Party

end StorageEngine
