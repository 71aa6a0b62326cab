import StorageEngine.Client.Leaks
import StorageEngine.Recovery.RepairLoop

/-!
# Files that repairs leave

A repair writes a chunk to the nodes that it selects.  If their quorum is too small it
records none of them, and otherwise it records only them.  So it leaves files on nodes that
had accepted, in the first case, and on nodes that had the chunk before, in the second.

* `TidyRepair` excludes both.
* `repair_noLeak`: a tidy repair leaks nothing.
* `run_noLeak_of_tidy`: calls that are all tidy leak nothing, one after another.
-/

namespace StorageEngine

open Lib Lib.Remote MetadataStore MetadataService RecoveryManager StorageClient

section Repair

variable {ι : Type}

/-- The call updates the chunk. -/
def UpdatesChunk (e : Event Rpc Rpc.Reply) (id : Str) : Prop :=
  ∃ req, e.request = .metadata (.updateChunk req) ∧ req.chunk.chunkId = id

/-- The calls of a repair from `c` account for the files of the chunk. -/
structure TidyChunk (reach : Str → Option ι) (m : ReplicationManager) (c : Cluster ι)
    (trace : List (Event Rpc Rpc.Reply)) (chunk : ChunkInfo) : Prop where
  refused : (∀ e ∈ trace, ¬UpdatesChunk e chunk.chunkId) → ∀ i,
    (∃ e ∈ trace, WritesFile reach e i chunk.chunkId) →
      ∃ rep ∈ chunk.replicas, reach rep.address = some i
  updated : (∃ e ∈ trace, UpdatesChunk e chunk.chunkId) → ∀ i,
    (c.nodes i).file chunk.chunkId ≠ none → ∃ e ∈ trace, WritesFile reach e i chunk.chunkId
  own : (∃ e ∈ trace, UpdatesChunk e chunk.chunkId) → ∀ i, reach m.localAddress = some i →
    (∃ e ∈ trace, WritesFile reach e i chunk.chunkId) →
      ∀ node, c.metadata.store.nodes.find m.localNodeId = some node → reach node.address = some i

/-- A repair accounts for the files of all chunks.

* `TidyChunk.refused`: if too few nodes accept the chunk, they are replicas of it already.
* `TidyChunk.updated`: otherwise all nodes that have the chunk accept it.
* `TidyChunk.own`: a node that repairs is registered under the address that it writes to. -/
def TidyRepair (reach : Str → Option ι) (m : ReplicationManager) (c : Cluster ι)
    (trace : List (Event Rpc Rpc.Reply)) : Prop :=
  ∀ key chunk, c.metadata.Holds key chunk → TidyChunk reach m c trace chunk

variable {reach : Str → Option ι} {m : ReplicationManager} {chunk : ChunkInfo} {c c₁ : Cluster ι}
  {trace turn : List (Event Rpc Rpc.Reply)}

theorem Concerns.of_updates {e : Event Rpc Rpc.Reply} {id : Str} (h : UpdatesChunk e id) :
    Concerns id e :=
  .inl h

theorem Concerns.of_writesFile {e : Event Rpc Rpc.Reply} {i : ι} {id : Str}
    (h : WritesFile reach e i id) : Concerns id e := by
  obtain ⟨address, q, fate, r, header, data, rfl, -, -, hwritten, hid⟩ := h
  exact .inr ⟨address, q, fate, r, header, data, rfl, hwritten, hid⟩

theorem RepairPass.Starts.not_concerns {e : Event Rpc Rpc.Reply} (h : RepairPass.Starts e.request)
    {id : Str} : ¬Concerns id e := by
  rintro (⟨req, hreq, -⟩ | ⟨address, q, fate, r, header, data, rfl, -⟩)
  · rw [hreq] at h
    exact h
  · exact h

/-- What a pass does to a chunk is in one turn. -/
theorem TidyChunk.of_turn (h : TidyChunk reach m c trace chunk) (hsub : turn ⊆ trace)
    (hall : ∀ e ∈ trace, Concerns chunk.chunkId e → e ∈ turn)
    (hsame : c.AgreesOn chunk.chunkId c₁)
    (hnodes : c₁.metadata.store.nodes = c.metadata.store.nodes) :
    TidyChunk reach m c₁ turn chunk := by
  have hupdates : (∃ e ∈ turn, UpdatesChunk e chunk.chunkId) ↔
      ∃ e ∈ trace, UpdatesChunk e chunk.chunkId :=
    ⟨fun ⟨e, he, hupdates⟩ => ⟨e, hsub he, hupdates⟩,
      fun ⟨e, he, hupdates⟩ => ⟨e, hall e he (.of_updates hupdates), hupdates⟩⟩
  have hwrites : ∀ i, (∃ e ∈ turn, WritesFile reach e i chunk.chunkId) ↔
      ∃ e ∈ trace, WritesFile reach e i chunk.chunkId := fun i =>
    ⟨fun ⟨e, he, hwrites⟩ => ⟨e, hsub he, hwrites⟩,
      fun ⟨e, he, hwrites⟩ => ⟨e, hall e he (.of_writesFile hwrites), hwrites⟩⟩
  refine ⟨fun hnone i hwritten => h.refused (fun e he hupdate => ?_) i ((hwrites i).mp hwritten),
    fun hupdate i hfile => ?_, fun hupdate i hlocal hwritten node hnode => ?_⟩
  · obtain ⟨e', he', hupdate'⟩ := hupdates.mpr ⟨e, he, hupdate⟩
    exact hnone e' he' hupdate'
  · rw [hsame.files] at hfile
    exact (hwrites i).mpr (h.updated (hupdates.mp hupdate) i hfile)
  · rw [hnodes] at hnode
    exact h.own (hupdates.mp hupdate) i hlocal ((hwrites i).mp hwritten) node hnode

end Repair

/-! ## One turn -/

section Turn

variable {ι : Type} [DecidableEq ι] {svc cfg : ClusterConfig} {reach : Str → Option ι}
  {m : ReplicationManager} {excludeNode : Str} {chunk : ChunkInfo} {c c' : Cluster ι}
  {turn : List (Event Rpc Rpc.Reply)} {ok : Bool}

omit [DecidableEq ι] in
/-- A node that has accepted a copy is recorded under the address of a machine with a file. -/
theorem Copied.listed {data : Bytes} {nodes : List NodeInfo}
    {answers : List (ClusterNodeInfo × Bool)} {writes : List (Event Rpc Rpc.Reply)}
    (h : Copied cfg reach m chunk data c nodes answers writes c') {i : ι} {id : Str}
    {e : Event Rpc Rpc.Reply} (he : e ∈ writes) (hwritten : WritesFile reach e i id)
    (hown : reach m.localAddress = some i → ∀ node,
      c.metadata.store.nodes.find m.localNodeId = some node → reach node.address = some i) :
    ∃ rep ∈ (repairedChunk chunk answers).replicas, reach rep.address = some i := by
  obtain ⟨-, node, hnode, hreach⟩ := h.asked.writesFile_iff.mp ⟨e, he, hwritten⟩
  obtain ⟨rep, hrep, haddress⟩ := recordAll_listed chunk.version hnode
  refine ⟨rep, hrep, ?_⟩
  rw [haddress]
  by_cases hlocal : node.nodeId = m.localNodeId
  · obtain ⟨accepted, hsub, heq⟩ := h.accepted_sublist
    rw [heq] at hnode
    obtain ⟨info, hinfo, rfl⟩ := List.mem_map.mp hnode
    rw [ReplicationManager.target, if_pos hlocal] at hreach
    refine hown hreach info ?_
    rw [← hlocal]
    exact (h.selected.online (hsub.subset hinfo)).1
  · rwa [ReplicationManager.target, if_neg hlocal] at hreach

/-- A tidy turn accounts for its chunk. -/
theorem RepairTurn.accounted (h : RepairTurn svc cfg reach m excludeNode chunk c turn ok c')
    (hids : c.metadata.ChunkIds) (hholds : c.metadata.Holds chunk.objectId chunk)
    (haccounted : Accounted reach c chunk.chunkId) (hresponds : ∀ e ∈ turn, Responds reach e)
    (htidy : TidyChunk reach m c turn chunk) : Accounted reach c' chunk.chunkId := by
  cases h with
  | unread => exact haccounted
  | unselected => exact haccounted
  | refused hreads _ hcopied =>
    simp only [List.forall_mem_append, List.forall_mem_cons] at hresponds
    intro i hfile
    rw [hcopied.asked.overwrites.metadata]
    rcases hcopied.asked.appears hresponds.2.2 i _ hfile with hfile | ⟨e, he, hwritten⟩
    · exact haccounted i hfile
    · refine ⟨_, chunk, hholds, rfl, htidy.refused ?_ i ⟨e, by simp [he], hwritten⟩⟩
      rintro e' he' ⟨req, hreq, -⟩
      rcases List.mem_append.mp he' with he' | he'
      · exact hreads.not_update he' req hreq
      · rcases List.mem_cons.mp he' with rfl | he'
        · cases hreq
        · exact hcopied.not_update he' req hreq
  | @updated reads writes data nodes answers c₁ _ req fate r hreads _ hcopied _ hreq hupdate =>
    subst hreq
    simp only [List.forall_mem_append, List.forall_mem_cons] at hresponds
    have hfate := responds_metadata (hresponds.2.2.2.1)
    have hmetadata := hcopied.asked.overwrites.metadata
    obtain ⟨hnodes, ⟨-, hnone⟩ | hreplaces⟩ := delivers_update (hmetadata ▸ hids) hupdate
    · exact absurd ⟨chunk, hmetadata ▸ hholds, rfl⟩ (hnone (by rw [hfate]; decide))
    · rw [updateRequest_fromProto] at hreplaces
      have hupdates : ∃ e ∈ reads ++ (⟨.metadata (.selectNodes (selectRequest
          cfg.replicationFactor)), .answered, some { nodes := nodes.map NodeInfo.toProto }⟩ ::
            (writes ++ [⟨.metadata (.updateChunk (updateRequest chunk
              (recordAll chunk.version answers {}).replicas)), fate, r⟩])),
          UpdatesChunk e chunk.chunkId :=
        ⟨_, List.mem_append_right _ (List.mem_cons_of_mem _ (List.mem_append_right _
          (List.mem_singleton_self _))), _, rfl, rfl⟩
      intro i hfile
      rw [hnodes] at hfile
      -- in either case the machine has accepted the copy
      obtain ⟨e, he, hwritten⟩ : ∃ e ∈ writes, WritesFile reach e i chunk.chunkId := by
        rcases hcopied.asked.appears hresponds.2.2.1 i _ hfile with hfile | hwritten
        · obtain ⟨e, he, hwritten⟩ := htidy.updated hupdates i hfile
          obtain ⟨address, q, fate', r', header, data', rfl, -, -, hdata, -⟩ := id hwritten
          refine ⟨_, ?_, hwritten⟩
          rcases List.mem_append.mp he with he | he
          · rw [hreads.not_write he] at hdata
            cases hdata
          · simpa using he
        · exact hwritten
      refine ⟨_, _, (hreplaces.holds _ _).mpr (.inl ⟨rfl, rfl⟩), rfl,
        hcopied.listed he hwritten fun hlocal =>
          htidy.own hupdates i hlocal ⟨e, by simp [he], hwritten⟩⟩

end Turn

/-! ## A repair -/

section Pass

variable {ι : Type} [DecidableEq ι] {svc cfg : ClusterConfig} {reach : Str → Option ι}
  {c c' : Cluster ι} {trace : List (Event Rpc Rpc.Reply)}

theorem repair_noLeak {m : ReplicationManager} {now : ℕ → TimestampMs} {result : RecoveryResult}
    (hids : c.metadata.ChunkIds) (hparented : c.metadata.Parented) (h : NoLeak reach c)
    (hrun : Runs (Cluster.Serves svc reach) (repairUnderReplicatedChunks cfg m now) c trace result
      c') (hundisturbed : ∀ e ∈ trace, Undisturbed reach e) (htidy : TidyRepair reach m c trace) :
    NoLeak reach c' := by
  obtain ⟨c₀, chunks, start, loop, hran⟩ :=
    @RepairPass.run _ _ svc reach { cfg := cfg, manager := m, now := now } c c' trace result hids
      hrun
  have hsame : c₀ = c := Cluster.ext (hran.marks.elim id id) hran.nodes
  subst hsame
  have hcalls := hran.calls
  subst hcalls
  intro id
  by_cases hid : id ∈ chunks.map ChunkInfo.chunkId
  · obtain ⟨chunk, hchunk, rfl⟩ := List.mem_map.mp hid
    obtain ⟨⟨key, hholds⟩, -⟩ := hran.reports chunk hchunk
    obtain rfl := MetadataNode.Parented.of_holds hparented hholds
    obtain ⟨c₁, turn, ok, c₂, hsub, hall, hturn⟩ :=
      (hran.loop.exists_turn hids hran.nodup).2 chunk hchunk
    have hchunkTidy : TidyChunk reach m c₁ turn chunk := by
      refine (htidy _ chunk hholds).of_turn (fun e he => List.mem_append_right _ (hsub he))
        (fun e he hconcerns => ?_) hturn.before hturn.nodes
      rcases List.mem_append.mp he with he | he
      · exact absurd hconcerns (hran.starts e he).not_concerns
      · exact hall e he hconcerns
    refine (hturn.turn.accounted hturn.chunkIds ((hturn.before.holds _ _ rfl).mpr hholds)
      ((h _).congr hturn.before) (fun e he => ?_) hchunkTidy).congr hturn.after
    exact (hundisturbed e (List.mem_append_right _ (hsub he))).1
  · exact (h id).congr (hran.loop.agreesOn hids hid)

end Pass

/-! ## Calls one after another -/

/-- A message of a storage node, or of the heartbeat manager about it. -/
def MetadataRpc.AboutNodes : MetadataRpc → Prop
  | .registerNode _ | .nodeHeartbeat _ | .markNodeOffline _ => True
  | _ => False

/-- A call that runs alone. -/
inductive SoloCall where
  | put (cfg : ClusterConfig) (filename : Str) (data : Bytes) (owner : Str)
  | deleteObject (filename : Str)
  | repair (cfg : ClusterConfig) (m : ReplicationManager) (now : ℕ → TimestampMs)
  | registry (q : MetadataRpc) (hq : q.AboutNodes)

namespace SoloCall

def program : SoloCall → ClusterProg Unit
  | .put cfg filename data owner => do
    let _ ← StorageClient.put cfg filename data owner
    return ()
  | .deleteObject filename => do
    let _ ← StorageClient.deleteObject filename
    return ()
  | .repair cfg m now => do
    let _ ← repairUnderReplicatedChunks cfg m now
    return ()
  | .registry q _ => do
    let _ ← metadataCall q
    return ()

variable {ι : Type}

/-- What the answers to the call have to be. -/
def Tidy (reach : Str → Option ι) (c : Cluster ι) (trace : List (Event Rpc Rpc.Reply)) :
    SoloCall → Prop
  | .put .. => TidyPut reach trace
  | .repair _ m _ => TidyRepair reach m c trace
  | .deleteObject _ | .registry _ _ => True

/-- The next call runs from `c` to `c'`, with these events, of which none is lost. -/
structure Step [DecidableEq ι] (svc : ClusterConfig) (reach : Str → Option ι) (c : Cluster ι)
    (label : SoloCall × List (Event Rpc Rpc.Reply)) (c' : Cluster ι) : Prop where
  run : Runs (Cluster.Serves svc reach) label.1.program c label.2 () c'
  undisturbed : ∀ e ∈ label.2, Undisturbed reach e

/-- The metadata is as the calls leave it, and all files are accounted for. -/
structure Intact (reach : Str → Option ι) (c : Cluster ι) : Prop where
  chunkIds : c.metadata.ChunkIds
  parented : c.metadata.Parented
  noLeak : NoLeak reach c

theorem issues (call : SoloCall) : call.program.Issues Rpc.OwnChunk := by
  cases call with
  | put cfg filename data owner =>
    refine Prog.Issues.bind ?_ fun _ => .done _
    refine .call trivial fun r => ?_
    cases r with
    | none => exact .done _
    | some created =>
      simp only [Prog.bind]
      split
      · exact .done _
      · refine .bind ((putChunks_issues _ _ _ _ _).imp fun q hq => ?_) fun failure => ?_
        · cases q with
          | storage address q => exact trivial
          | metadata q =>
            cases q with
            | updateChunk req => exact hq.2.trans hq.1.symm
            | _ => exact trivial
        · cases failure <;> exact .done _
  | deleteObject filename =>
    refine Prog.Issues.bind ((ClientCall.deleteObject_keeps filename).issues fun _ q hq => ?_)
      fun _ => .done _
    cases q with
    | storage address q => exact trivial
    | metadata q =>
      cases q with
      | updateChunk req => exact hq.elim
      | _ => exact trivial
  | repair cfg m now =>
    refine Prog.Issues.bind (RepairPass.keeps { cfg := cfg, manager := m, now := now }
      |>.issues fun _ q hq => ?_) fun _ => .done _
    cases q with
    | storage address q => exact trivial
    | metadata q =>
      cases q with
      | updateChunk req =>
        obtain ⟨pb, replicas, -, rfl⟩ := hq
        exact rfl
      | _ => exact trivial
  | registry q hq =>
    refine .call ?_ fun r => .done _
    cases q with
    | updateChunk req => exact hq.elim
    | _ => exact trivial

section Run

variable [DecidableEq ι] {svc : ClusterConfig} {reach : Str → Option ι} {c c' : Cluster ι}

theorem registry_noLeak {q : MetadataRpc} (hq : q.AboutNodes) {trace : List (Event Rpc Rpc.Reply)}
    {r : Option q.Reply} (hrun : Runs (Cluster.Serves svc reach) (metadataCall q) c trace r c')
    (h : NoLeak reach c) : NoLeak reach c' := by
  obtain ⟨fate, r, c₁, rest, hcall, hdone, rfl⟩ := runs_call.mp hrun
  obtain ⟨rfl, rfl, rfl⟩ := runs_done.mp hdone
  rcases delivers_metadata hcall with ⟨-, -, rfl⟩ | ⟨-, hnodes, resp, hserves, -⟩
  · exact h
  · cases hserves.change with
    | same hobjects _ => exact fun id => (h id).congr (.of_sameObjects hobjects hnodes)
    | created hcreate => exact (hcreate ▸ hq).elim
    | deleted hdelete => exact (hdelete ▸ hq).elim
    | updated hupdate => exact (hupdate ▸ hq).elim

/-- A tidy call keeps the cluster intact. -/
theorem step_intact {label : SoloCall × List (Event Rpc Rpc.Reply)}
    (h : Step svc reach c label c') (hintact : Intact reach c)
    (htidy : label.1.Tidy reach c label.2) : Intact reach c' := by
  obtain ⟨call, trace⟩ := label
  obtain ⟨hrun, hundisturbed⟩ := h
  obtain ⟨hids, hparented⟩ :=
    runs_parented hrun call.issues hintact.chunkIds hintact.parented
  refine ⟨hids, hparented, ?_⟩
  cases call with
  | put cfg filename data owner =>
    obtain ⟨result, c₁, first, last, hput, hdone, rfl⟩ := runs_bind.mp hrun
    obtain ⟨rfl, -, rfl⟩ := runs_done.mp hdone
    rw [List.append_nil] at hundisturbed htidy
    exact put_noLeak hintact.chunkIds hintact.noLeak hput hundisturbed htidy
  | deleteObject filename =>
    obtain ⟨result, c₁, first, last, hdelete, hdone, rfl⟩ := runs_bind.mp hrun
    obtain ⟨rfl, -, rfl⟩ := runs_done.mp hdone
    rw [List.append_nil] at hundisturbed
    exact deleteObject_noLeak hintact.chunkIds hintact.noLeak hdelete hundisturbed
  | repair cfg m now =>
    obtain ⟨result, c₁, first, last, hrepair, hdone, rfl⟩ := runs_bind.mp hrun
    obtain ⟨rfl, -, rfl⟩ := runs_done.mp hdone
    rw [List.append_nil] at hundisturbed htidy
    exact repair_noLeak hintact.chunkIds hintact.parented hintact.noLeak hrepair hundisturbed htidy
  | registry q hq =>
    obtain ⟨r, c₁, first, last, hcall, hdone, rfl⟩ := runs_bind.mp hrun
    obtain ⟨rfl, -, rfl⟩ := runs_done.mp hdone
    exact registry_noLeak hq hcall hintact.noLeak

/-- Calls that are all tidy leak nothing: from a cluster without objects and files, every
state between them accounts for all files. -/
theorem run_noLeak_of_tidy
    {run : List (Transition (Cluster ι) (SoloCall × List (Event Rpc Rpc.Reply)))}
    (hmetadata : c.metadata = {}) (hfiles : ∀ i id, (c.nodes i).file id = none)
    (hrun : Run (Step svc reach) c run c')
    (htidy : ∀ t ∈ run, t.label.1.Tidy reach t.source t.label.2) :
    NoLeak reach c ∧ ∀ t ∈ run, NoLeak reach t.target := by
  have hempty : NoLeak reach c := fun id i hfile => absurd (hfiles i id) hfile
  have hstart : Intact reach c :=
    ⟨hmetadata ▸ MetadataNode.chunkIds_empty, hmetadata ▸ MetadataNode.parented_empty, hempty⟩
  refine ⟨hempty, hrun.forall_of (fun s l s' hstep hintact hcond => ?_) hstart htidy⟩
  have hafter := step_intact hstep hintact hcond
  exact ⟨hafter.noLeak, hafter⟩

end Run

/-! ## One put on one node -/

section OneNode

private def onlyMachine : Str → Option Unit := fun _ => some ()

private def emptyNodes : Unit → StorageNode := fun _ => ({ basePath := str "/data" }, ∅)

private theorem emptyNodes_file (i : Unit) (id : Str) : (emptyNodes i).file id = none :=
  Finmap.lookup_empty _

/-- The node registers, and a file is put. -/
private theorem put_runs {cfg : ClusterConfig} {trace : List (Event Rpc Rpc.Reply)}
    {result : PutResult} {c' : Cluster Unit}
    (hput : Runs (Cluster.Serves {} onlyMachine) (StorageClient.put cfg (str "a.txt") [] [])
      ⟨{ store := oneNodeStore }, emptyNodes⟩ trace result c')
    (hundisturbed : ∀ e ∈ trace, Undisturbed onlyMachine e) :
    ∃ run last, Run (Step {} onlyMachine) ⟨{}, emptyNodes⟩ run c' ∧ last ∈ run ∧
      last.target = c' ∧ (TidyPut onlyMachine trace →
        ∀ t ∈ run, t.label.1.Tidy onlyMachine t.source t.label.2) := by
  have hserves : MetadataService.Serves {}
      (.registerNode { nodeId := str "n1", address := str "n1:1" })
      {} { success := true, message := str "Registered" } { store := oneNodeStore } :=
    .registerNode _ _ 0
  have hregister : Step {} onlyMachine ⟨{}, emptyNodes⟩
      (.registry (.registerNode { nodeId := str "n1", address := str "n1:1" }) trivial, [_])
      ⟨{ store := oneNodeStore }, emptyNodes⟩ :=
    ⟨runs_rpc.mpr ⟨.answered, _, _, [], .answered (.metadata hserves), .done _ _, rfl⟩,
      List.forall_mem_singleton.mpr (.of_answered _ _)⟩
  have hstep : Step {} onlyMachine ⟨{ store := oneNodeStore }, emptyNodes⟩
      (.put cfg (str "a.txt") [] [], trace) c' :=
    ⟨runs_bind.mpr ⟨result, c', trace, [], hput, .done _ _, (List.append_nil _).symm⟩, hundisturbed⟩
  refine ⟨_, _, .head hregister (.single hstep), List.mem_cons_of_mem _ List.mem_cons_self, rfl,
    fun htidy => ?_⟩
  rw [List.forall_mem_cons, List.forall_mem_singleton]
  exact ⟨trivial, htidy⟩

/-- The node has the file that it has accepted. -/
private theorem accepted_file {c c' : Cluster Unit} {writes : List (Event Rpc Rpc.Reply)}
    (h : Asked onlyMachine ClusterNodeInfo.address (draw 1) (draw 0) [] c [(oneNode.toProto, true)]
      writes c') : (c'.nodes ()).file (draw 1) ≠ none := by
  obtain ⟨i, -, header, now, -, -, -, hfile⟩ := h.stored oneNode.toProto List.mem_cons_self
  rw [hfile]
  simp

/-- A put whose quorum accepts leaves a file that is accounted for. -/
theorem put_noLeak_one_node : ∃ (c c' : Cluster Unit)
    (run : List (Transition (Cluster Unit) (SoloCall × List (Event Rpc Rpc.Reply)))),
    Run (Step {} fun _ => some ()) c run c' ∧ (c'.nodes ()).file (draw 1) ≠ none ∧
      NoLeak (fun _ => some ()) c' := by
  let cfg : ClusterConfig := { replicationFactor := 1 }
  obtain ⟨selected, writes, c₁, c₂, hselect, hwrites, hasked, hresponds, hobjects⟩ :=
    @empty_upload_runs _ _ {} cfg onlyMachine (str "a.txt") [] oneNodeStore emptyNodes
      { visited := [oneNode], arranged := [oneNode] } [(oneNode.toProto, true)]
      (oneNode_possible _) rfl fun _ _ => ⟨(), rfl⟩
  have hupdate : Delivers (Cluster.Serves {} onlyMachine)
      (.metadata (.updateChunk (emptyUpdate {} cfg (str "a.txt") [] [(oneNode.toProto, true)])))
      .answered c₂ _ _ := .answered (.metadata (.updateChunk _ _ 0))
  have hput := put_empty_runs Finmap.notMem_empty
    (putChunk_runs_update hselect hwrites (by decide) rfl hupdate)
  obtain ⟨run, last, hrun, hlast, htarget, htidy⟩ := put_runs hput (by
    simp only [List.forall_mem_cons, List.forall_mem_append]
    exact ⟨.of_answered _ _, .of_answered _ _, hasked.undisturbed hresponds, .of_answered _ _,
      by simp⟩)
  have hfile := accepted_file hasked
  refine ⟨_, _, run, hrun, hfile, htarget ▸ ?_⟩
  refine (run_noLeak_of_tidy rfl emptyNodes_file hrun (htidy ?_)).2 last hlast
  -- no call deletes an object
  rintro ⟨e, he, req, hreq⟩
  simp only [List.mem_cons, List.mem_append, List.not_mem_nil, or_false] at he
  rcases he with rfl | rfl | he | rfl
  · cases hreq
  · cases hreq
  · obtain ⟨address, q, fate, r, rfl, -⟩ := hasked.writes e he
    cases hreq
  · cases hreq

/-- A put whose quorum fails leaves the file of the node that had accepted. -/
theorem put_leaks : ∃ (c c' : Cluster Unit)
    (run : List (Transition (Cluster Unit) (SoloCall × List (Event Rpc Rpc.Reply)))),
    c.metadata = {} ∧ (∀ i id, (c.nodes i).file id = none) ∧
      Run (Step {} fun _ => some ()) c run c' ∧ ¬NoLeak (fun _ => some ()) c' := by
  obtain ⟨selected, writes, c₁, c₂, hselect, hwrites, hasked, hresponds, hobjects⟩ :=
    @empty_upload_runs _ _ {} {} onlyMachine (str "a.txt") [] oneNodeStore emptyNodes
      { visited := [oneNode], arranged := [oneNode] } [(oneNode.toProto, true)]
      (oneNode_possible _) rfl fun _ _ => ⟨(), rfl⟩
  have hdelete : Delivers (Cluster.Serves {} onlyMachine)
      (.metadata (.deleteObject { objectId := draw 0 })) .answered c₂ _ _ :=
    .answered (.metadata (.deleteObject _ _))
  have hput := put_empty_runs Finmap.notMem_empty
    (putChunk_runs_delete hselect hwrites (by decide) hdelete)
  obtain ⟨run, last, hrun, -⟩ := put_runs hput (by
    simp only [List.forall_mem_cons, List.forall_mem_append]
    exact ⟨.of_answered _ _, .of_answered _ _, hasked.undisturbed hresponds, .of_answered _ _,
      by simp⟩)
  refine ⟨_, _, run, rfl, emptyNodes_file, hrun, fun hleak => ?_⟩
  have hfile := accepted_file hasked
  obtain ⟨key, chunk, ⟨obj, hobj, -⟩, -⟩ := hleak (draw 1) () hfile
  -- there is no object any more
  have hlookup : c₂.metadata.store.objectsById.lookup (draw 0) =
      some (emptyObject {} {} (str "a.txt") []) := by
    rw [hobjects]
    exact Finmap.lookup_insert _
  have hid : draw 0 ≠ [] := by decide
  simp only [MetadataService.deleteObject, ne_eq, hid, not_false_eq_true, if_true,
    MetadataStore.deleteObject, hlookup] at hobj
  obtain ⟨hne, hobj⟩ := lookup_erase_cases hobj
  rw [hobjects, emptyCreated, Finmap.lookup_insert_of_ne _ hne] at hobj
  cases hobj

end OneNode

end SoloCall

end StorageEngine
