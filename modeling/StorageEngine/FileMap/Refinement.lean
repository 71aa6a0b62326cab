import StorageEngine.FileMap.Maintenance
import StorageEngine.FileMap.Operations

/-!
# The cluster refines a map of files

`FileMap.Step` says what the calls of a client do to a map of files and what they return.
`Cluster.Performs` is what they do on the cluster, one after another, among repairs, restarts and
losses of data.

* `Cluster.Performs.simulates`: the cluster stays the same as the map, step by step.
* `refines_file_map`: so all that clients see of a cluster, they could see of a map.
-/

namespace StorageEngine

open Lib Lib.Remote MetadataStore StorageClient

/-- What a client, an operator or an accident does, with what the client gets to see. -/
inductive FileOp where
  | put (filename : Str) (data : Bytes) (stored : Bool)
  | get (filename : Str) (found : Option Bytes)
  | head (filename : Str) (size : Option UInt64)
  | delete (filename : Str) (deleted : Bool)
  | list (namePrefix : Str) (rows : List (Str × UInt64))
  | maintain
  | forget

/-- What is seen of a map of files.

* A put may be refused for any reason, and must be if the name is taken.
* A file may have the empty name, but it is not found or deleted under it. -/
inductive FileMap.Step (files : FileMap) : FileOp → FileMap → Prop where
  | stored {filename : Str} {data : Bytes} (hfree : files filename = none) :
      Step files (.put filename data true) (Function.update files filename (some data))
  | refused {filename : Str} {data : Bytes} : Step files (.put filename data false) files
  | get {filename : Str} : Step files (.get filename (files.visible filename)) files
  | head {filename : Str} :
      Step files (.head filename ((files.visible filename).map FileMap.sizeOf)) files
  | deleted {filename : Str} (hfile : files.visible filename ≠ none) :
      Step files (.delete filename true) (Function.update files filename none)
  | missing {filename : Str} (hnone : files.visible filename = none) :
      Step files (.delete filename false) files
  | list {namePrefix : Str} {rows : List (Str × UInt64)} (hrows : files.Lists namePrefix rows) :
      Step files (.list namePrefix rows) files
  | maintain : Step files .maintain files
  | forget : Step files .forget fun _ => none

variable {ι : Type} [DecidableEq ι]

/-- One operation runs on the cluster.

* The metadata service answers the calls of the clients.  Its answers to a repair and to
  messages about nodes can be lost.
* A storage node may refuse or miss any call.  Only for a download, each chunk has a copy on some
  machine that answers.
* A quorum is not empty, and a node that repairs writes to its own machine. -/
inductive Cluster.Performs (svc : ClusterConfig) (reach : Str → Option ι) (c : Cluster ι) :
    FileOp → Cluster ι → Prop where
  | put {cfg : ClusterConfig} {filename owner : Str} {data : Bytes} {result : PutResult}
      {trace : List (Event Rpc Rpc.Reply)} {c' : Cluster ι} (hlength : data.length < 2 ^ 64)
      (hrequired : cfg.writeAck.required cfg.replicationFactor ≠ 0)
      (hrun : Runs (Cluster.Serves svc reach) (StorageClient.put cfg filename data owner) c trace
        result c') (hanswered : ∀ e ∈ trace, MetadataAnswered e) :
      Performs svc reach c (.put filename data result.success) c'
  | get {filename : Str} {result : GetResult} {trace : List (Event Rpc Rpc.Reply)}
      {c' : Cluster ι} {up : ι → Prop} (hcopies : c.HasCopies reach up)
      (hrun : Runs (Cluster.Serves svc reach) (StorageClient.get filename) c trace result c')
      (hanswered : ∀ e ∈ trace, MetadataAnswered e)
      (hup : ∀ e ∈ trace, AnswersIfUp reach up e) :
      Performs svc reach c (.get filename result.found) c'
  | head {filename : Str} {info : Option ObjectInfo} {trace : List (Event Rpc Rpc.Reply)}
      {c' : Cluster ι}
      (hrun : Runs (Cluster.Serves svc reach) (StorageClient.head filename) c trace info c')
      (hanswered : ∀ e ∈ trace, MetadataAnswered e) :
      Performs svc reach c (.head filename (info.map ObjectInfo.size)) c'
  | delete {filename : Str} {ok : Bool} {trace : List (Event Rpc Rpc.Reply)} {c' : Cluster ι}
      (hrun : Runs (Cluster.Serves svc reach) (StorageClient.deleteObject filename) c trace ok c')
      (hanswered : ∀ e ∈ trace, MetadataAnswered e) :
      Performs svc reach c (.delete filename ok) c'
  | list {sort : List ObjectInfo → List ObjectInfo} (hsort : SortsByFilename sort)
      {namePrefix : Str} {s' : MetadataStore}
      {calls : List (Event ListObjectsRequest fun _ => ListObjectsResponse)}
      {result : List ObjectInfo}
      (hrun : Runs (ServesListing sort) (StorageClient.list namePrefix) c.metadata.store calls
        result s') (hanswered : ∀ e ∈ calls, e.fate = .answered) :
      Performs svc reach c
        (.list namePrefix (result.map fun info => (info.filename, info.size))) c
  | repair {pass : RepairPass}
      (hrequired : pass.cfg.writeAck.required pass.cfg.replicationFactor ≠ 0)
      (hhome : pass.manager.AtHome reach c.metadata.store) {trace : List (Event Rpc Rpc.Reply)}
      {result : RecoveryManager.RecoveryResult} {c' : Cluster ι}
      (hrun : Runs (Cluster.Serves svc reach) pass.program c trace result c') :
      Performs svc reach c .maintain c'
  | registry {q : MetadataRpc} (hq : q.AboutNodes) {trace : List (Event Rpc Rpc.Reply)}
      {r : Option q.Reply} {c' : Cluster ι}
      (hrun : Runs (Cluster.Serves svc reach) (metadataCall q) c trace r c') :
      Performs svc reach c .maintain c'
  | restart (i : ι) (names : List Str) :
      Performs svc reach c .maintain
        (c.setNode i (ChunkStore.construct (c.nodes i).1.basePath (c.nodes i).2 names,
          (c.nodes i).2))
  | damage {i : ι} {disk : FileSystem} (hdisk : LeftOf disk (c.nodes i).2)
      (hcopies : (c.setNode i ((c.nodes i).1, disk)).HasCopies reach fun _ => True) :
      Performs svc reach c .maintain (c.setNode i ((c.nodes i).1, disk))
  | restartMetadata (persistPath : Str) (disk : FileSystem) :
      Performs svc reach c .forget { c with metadata := { c.metadata with
        store := MetadataStore.construct persistPath disk } }

variable {svc : ClusterConfig} {reach : Str → Option ι} {c c' : Cluster ι} {files : FileMap}

/-- Each operation on the cluster is one on the map that it stores. -/
theorem Cluster.Performs.simulates {op : FileOp} (h : c.Performs svc reach op c')
    (hfiles : c.Represents reach files) :
    ∃ files', files.Step op files' ∧ c'.Represents reach files' := by
  cases h with
  | put hlength hrequired hrun hanswered =>
    rcases hfiles.put hlength hrequired hrun hanswered with
      ⟨hstored, hfree, hafter⟩ | ⟨hrefused, hafter⟩
    · rw [hstored]
      exact ⟨_, .stored hfree, hafter⟩
    · rw [hrefused]
      exact ⟨_, .refused, hafter⟩
  | get hcopies hrun hanswered hup =>
    obtain ⟨rfl, hfound⟩ := hfiles.get hcopies hrun hanswered hup
    rw [hfound]
    exact ⟨_, .get, hfiles⟩
  | head hrun hanswered =>
    obtain ⟨rfl, hsize⟩ := hfiles.head hrun hanswered
    rw [hsize]
    exact ⟨_, .head, hfiles⟩
  | delete hrun hanswered =>
    rcases hfiles.deleteObject hrun hanswered with ⟨rfl, hfile, hafter⟩ | ⟨rfl, hnone, rfl⟩
    · exact ⟨_, .deleted hfile, hafter⟩
    · exact ⟨_, .missing hnone, hfiles⟩
  | list hsort hrun hanswered => exact ⟨_, .list (hfiles.list hsort hrun hanswered), hfiles⟩
  | repair hrequired hhome hrun => exact ⟨_, .maintain, hfiles.repair hrequired hhome hrun⟩
  | registry hq hrun => exact ⟨_, .maintain, hfiles.registry hq hrun⟩
  | restart i names => exact ⟨_, .maintain, hfiles.restart i names⟩
  | damage hdisk hcopies => exact ⟨_, .maintain, hfiles.damage hdisk hcopies⟩
  | restartMetadata persistPath disk => exact ⟨_, .forget, .forget persistPath disk⟩

/-- All that is seen of a cluster without objects can be seen of an empty map. -/
theorem refines_file_map {run : List (Transition (Cluster ι) FileOp)}
    (hobjects : c.metadata.store.objectsById = ∅) (hnames : c.metadata.store.filenameToId = ∅)
    (hrun : Run (Cluster.Performs svc reach) c run c') :
    ∃ (seen : List (Transition FileMap FileOp)) (files : FileMap),
      Run FileMap.Step (fun _ => none) seen files ∧
        seen.map Transition.label = run.map Transition.label ∧ c'.Represents reach files := by
  have hstart : c.Represents reach fun _ => none := ⟨fun _ => [], .of_empty hobjects hnames⟩
  exact hrun.simulates (fun _ _ _ _ hstep hfiles => hstep.simulates hfiles) hstart

omit [DecidableEq ι] in
/-- A machine that has a copy may answer. -/
theorem Cluster.Represents.hasCopies (h : c.Represents reach files) :
    c.HasCopies reach fun _ => True := by
  obtain ⟨content, hbacks⟩ := h
  intro key chunk hheld
  obtain ⟨r, hr, i, hi, hstores⟩ := (hbacks.available hheld).stored
  exact ⟨r, hr, i, _, hi, trivial, hstores⟩

/-- An empty file can be put on nodes that answer as given, with the metadata service answering. -/
theorem put_empty_answered {cfg : ClusterConfig} {filename owner : Str} {store : MetadataStore}
    {nodes : ι → StorageNode} (hfree : filename ∉ store.filenameToId) {order : NodeOrder}
    {answers : List (ClusterNodeInfo × Bool)}
    (hupload : EmptyUpload svc cfg reach store order answers) :
    ∃ (trace : List (Event Rpc Rpc.Reply)) (c' : Cluster ι),
      Runs (Cluster.Serves svc reach) (StorageClient.put cfg filename [] owner)
        ⟨{ store := store }, nodes⟩ trace
        { success := true, objectId := draw 0, message := str "Upload complete" } c' ∧
      ∀ e ∈ trace, MetadataAnswered e := by
  obtain ⟨first, writes, c₂, hwrites, hfirst, -, hruns⟩ :=
    @put_empty_success _ _ svc cfg reach filename owner store nodes hfree order answers hupload
  refine ⟨_, _, hruns .answered _ _ (.answered (.metadata (.updateChunk c₂.metadata _ 0))), ?_⟩
  intro e he q hq
  rcases List.mem_append.mp he with he | he
  · exact hfirst _ he
  · rcases List.mem_append.mp he with he | he
    · obtain ⟨address, q', hq'⟩ := hwrites _ he
      rw [hq'] at hq
      cases hq
    · rw [List.mem_singleton.mp he]

/-- The file is read back, and then the metadata node forgets it. -/
theorem refines_file_map_one_node :
    ∃ (run : List (Transition (Cluster Unit) FileOp)) (c' : Cluster Unit)
      (seen : List (Transition FileMap FileOp)) (files : FileMap),
      run.map Transition.label =
          [.put (str "a.txt") [] true, .get (str "a.txt") (some []), .forget] ∧
        Run FileMap.Step (fun _ => none) seen files ∧
        seen.map Transition.label = run.map Transition.label ∧
        c'.Represents (fun _ => some ()) files := by
  obtain ⟨trace, c₁, hput, hanswered⟩ := @put_empty_answered Unit _ _ _ _ (str "a.txt")
    (str "default") _ (fun _ => (ChunkStore.construct (str "/data") ∅ [], ∅)) Finmap.notMem_empty
    _ _ oneNode_upload
  have hstart : Cluster.Represents (fun _ => some ()) ⟨{ store := oneNodeStore }, fun _ : Unit =>
      (ChunkStore.construct (str "/data") ∅ [], ∅)⟩ fun _ => none :=
    ⟨fun _ => [], .of_empty rfl rfl⟩
  have hputs := Cluster.Performs.put (by decide) (by decide) hput hanswered
  obtain ⟨files, -, hfiles⟩ := hputs.simulates hstart
  -- the download that reads the file back
  obtain ⟨loop, planned, final, hdone, -, rfl⟩ := put_completed (by decide) hput rfl
  rw [List.forall_mem_cons] at hanswered
  obtain ⟨-, ⟨gtrace, got, c₂, hget, hall⟩, hgets⟩ := hdone.readable (by decide) (by decide)
    (by decide) fun e he => not_updateLost (hanswered.2 e he)
  obtain ⟨hsuccess, hdata⟩ := hgets gtrace got c₂ hget hall
  have hgot := Cluster.Performs.get hfiles.hasCopies hget (fun e he _ _ => hall e he)
    fun e he _ _ _ _ _ _ => hall e he
  rw [GetResult.found, if_pos hsuccess, hdata] at hgot
  have hrun := Run.head hputs (.head hgot (.single (.restartMetadata [] ∅)))
  obtain ⟨seen, last, habstract, hlabels, hlast⟩ := refines_file_map rfl rfl hrun
  exact ⟨_, _, seen, last, rfl, habstract, hlabels, hlast⟩

end StorageEngine
