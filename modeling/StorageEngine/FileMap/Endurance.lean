import StorageEngine.FileMap.Refinement
import StorageEngine.FileMap.Restoration

/-!
# Failing machines

Machines fail and lose all that they have.  As long as fewer machines than a write quorum have
failed since a repair that went well, no file is lost.

* `Cluster.Withstands` are the operations of clients, repairs and failures.
* `survives_failures`: what clients see of the cluster, they could see of a map of files.
* `failures_recoverable`: a repair that goes well is always possible.
-/

namespace StorageEngine

open Lib Lib.Remote MetadataStore MetadataService RecoveryManager StorageClient

variable {ι : Type} [DecidableEq ι] {svc : ClusterConfig} {reach : Str → Option ι} {ids : ι → Str}
  {failed : Finset ι} {c c' : Cluster ι} {files : FileMap}

/-! ## Runs with failures -/

/-- One operation runs on the cluster, whose programs all have one configuration.  With the
cluster goes the set of the machines that have failed since a pass has made up for failures.

* As in `Cluster.Performs`, the metadata service answers the clients, and storage nodes may refuse
  or miss any call.  Only for a download, the machines that have not failed answer.
* Fewer machines than a quorum have failed at any time.  What fails may lose anything. -/
inductive Cluster.Withstands (svc : ClusterConfig) (reach : Str → Option ι) (ids : ι → Str) :
    Cluster ι × Finset ι → FileOp → Cluster ι × Finset ι → Prop where
  | put {c c' : Cluster ι} {failed : Finset ι} {filename owner : Str} {data : Bytes}
      {result : PutResult} {trace : List (Event Rpc Rpc.Reply)} (hlength : data.length < 2 ^ 64)
      (hdistinct : DistinctQuorum svc svc c.metadata.store.nodes)
      (hrun : Runs (Cluster.Serves svc reach) (StorageClient.put svc filename data owner) c trace
        result c') (hanswered : ∀ e ∈ trace, MetadataAnswered e) :
      Withstands svc reach ids (c, failed) (.put filename data result.success) (c', failed)
  | get {c c' : Cluster ι} {failed : Finset ι} {filename : Str} {result : GetResult}
      {trace : List (Event Rpc Rpc.Reply)}
      (hrun : Runs (Cluster.Serves svc reach) (StorageClient.get filename) c trace result c')
      (hanswered : ∀ e ∈ trace, MetadataAnswered e)
      (hup : ∀ e ∈ trace, AnswersIfUp reach (fun i => i ∉ failed) e) :
      Withstands svc reach ids (c, failed) (.get filename result.found) (c', failed)
  | head {c c' : Cluster ι} {failed : Finset ι} {filename : Str} {info : Option ObjectInfo}
      {trace : List (Event Rpc Rpc.Reply)}
      (hrun : Runs (Cluster.Serves svc reach) (StorageClient.head filename) c trace info c')
      (hanswered : ∀ e ∈ trace, MetadataAnswered e) :
      Withstands svc reach ids (c, failed) (.head filename (info.map ObjectInfo.size)) (c', failed)
  | delete {c c' : Cluster ι} {failed : Finset ι} {filename : Str} {ok : Bool}
      {trace : List (Event Rpc Rpc.Reply)}
      (hrun : Runs (Cluster.Serves svc reach) (StorageClient.deleteObject filename) c trace ok c')
      (hanswered : ∀ e ∈ trace, MetadataAnswered e) :
      Withstands svc reach ids (c, failed) (.delete filename ok) (c', failed)
  | list {c : Cluster ι} {failed : Finset ι} {sort : List ObjectInfo → List ObjectInfo}
      (hsort : SortsByFilename sort) {namePrefix : Str} {s' : MetadataStore}
      {calls : List (Event ListObjectsRequest fun _ => ListObjectsResponse)}
      {result : List ObjectInfo}
      (hrun : Runs (ServesListing sort) (StorageClient.list namePrefix) c.metadata.store calls
        result s') (hanswered : ∀ e ∈ calls, e.fate = .answered) :
      Withstands svc reach ids (c, failed)
        (.list namePrefix (result.map fun info => (info.filename, info.size))) (c, failed)
  | repair {c c' : Cluster ι} {failed : Finset ι} {pass : RepairPass} (hcfg : pass.cfg = svc)
      (hhome : pass.manager.AtHome reach c.metadata.store) {trace : List (Event Rpc Rpc.Reply)}
      {result : RecoveryResult}
      (hrun : Runs (Cluster.Serves svc reach) pass.program c trace result c') :
      Withstands svc reach ids (c, failed) .maintain (c', failed)
  | recover {c c' : Cluster ι} {failed : Finset ι} {pass : RepairPass} (hcfg : pass.cfg = svc)
      (hhome : pass.manager.AtHome reach c.metadata.store)
      (hexclude : ∀ i, i ∉ failed → ids i ≠ pass.excludeNode)
      (hoffline : ∀ i ∈ failed, ids i ∉ (pass.marked c.metadata).store.nodes.onlineIds)
      (honline : quorumSize svc.writeAck svc.replicationFactor ≤
        (pass.marked c.metadata).store.nodes.onlineIds.card)
      {trace : List (Event Rpc Rpc.Reply)} {result : RecoveryResult}
      (hrun : Runs (Cluster.Serves svc reach) pass.program c trace result c')
      (hgood : ∀ e ∈ trace, GoesWell reach failed e) :
      Withstands svc reach ids (c, failed) .maintain (c', ∅)
  | registry {c c' : Cluster ι} {failed : Finset ι} {q : MetadataRpc} (hq : q.AboutNodes)
      (hregisters : q.RegistersAs reach ids) {trace : List (Event Rpc Rpc.Reply)}
      {r : Option q.Reply}
      (hrun : Runs (Cluster.Serves svc reach) (metadataCall q) c trace r c') :
      Withstands svc reach ids (c, failed) .maintain (c', failed)
  | restart (c : Cluster ι) (failed : Finset ι) (i : ι) (names : List Str) :
      Withstands svc reach ids (c, failed) .maintain
        (c.setNode i (ChunkStore.construct (c.nodes i).1.basePath (c.nodes i).2 names,
          (c.nodes i).2), failed)
  | fail {c : Cluster ι} {failed : Finset ι} {i : ι} {disk : FileSystem}
      (hdisk : LeftOf disk (c.nodes i).2)
      (hfew : (insert i failed).card < quorumSize svc.writeAck svc.replicationFactor) :
      Withstands svc reach ids (c, failed) .maintain
        (c.setNode i ((c.nodes i).1, disk), insert i failed)
  | restartMetadata (c : Cluster ι) (failed : Finset ι) (persistPath : Str) (disk : FileSystem) :
      Withstands svc reach ids (c, failed) .forget ({ c with metadata := { c.metadata with
        store := MetadataStore.construct persistPath disk } }, failed)

/-- The cluster stores these files, and has them on enough machines. -/
structure Cluster.Secures (svc : ClusterConfig) (reach : Str → Option ι) (ids : ι → Str)
    (s : Cluster ι × Finset ι) (files : FileMap) : Prop where
  represents : s.1.Represents reach files
  spread : s.1.Spread svc reach ids s.2
  few : s.2.card < quorumSize svc.writeAck svc.replicationFactor

/-- Each operation is one on the map of files, and leaves the files on enough machines. -/
theorem Cluster.Withstands.simulates {s s' : Cluster ι × Finset ι} {op : FileOp}
    (h : Cluster.Withstands svc reach ids s op s')
    (hfiles : Cluster.Secures svc reach ids s files) :
    ∃ files', files.Step op files' ∧ Cluster.Secures svc reach ids s' files' := by
  obtain ⟨hrepresents, hspread, hfew⟩ := hfiles
  obtain ⟨content, hbacks⟩ := hrepresents
  have hrepresents : s.1.Represents reach files := ⟨content, hbacks⟩
  have hquorum : quorumSize svc.writeAck svc.replicationFactor ≠ 0 := by omega
  have hrequired := required_ne_zero hquorum
  -- the operation of the map is that of the cluster
  have hsimulates : ∀ {c'}, s.1.Performs svc reach op c' → ∀ {failed},
      c'.Spread svc reach ids failed →
      failed.card < quorumSize svc.writeAck svc.replicationFactor →
      ∃ files', files.Step op files' ∧ Cluster.Secures svc reach ids (c', failed) files' := by
    intro c' hperforms failed hspread' hfew'
    obtain ⟨files', hstep, hfiles'⟩ := hperforms.simulates hrepresents
    exact ⟨files', hstep, hfiles', hspread', hfew'⟩
  cases h with
  | put hlength hdistinct hrun hanswered =>
    exact hsimulates (.put hlength hrequired hrun hanswered)
      (hspread.put hbacks.chunkIds hdistinct hrun hanswered) hfew
  | get hrun hanswered hup =>
    obtain ⟨rfl, -⟩ := hrepresents.get (hspread.hasCopies hfew) hrun hanswered hup
    exact hsimulates (.get (hspread.hasCopies hfew) hrun hanswered hup) hspread hfew
  | head hrun hanswered =>
    obtain ⟨rfl, -⟩ := hrepresents.head hrun hanswered
    exact hsimulates (.head hrun hanswered) hspread hfew
  | delete hrun hanswered =>
    exact hsimulates (.delete hrun hanswered)
      (hspread.deleteObject hbacks.chunkIds hrun hanswered) hfew
  | list hsort hrun hanswered => exact hsimulates (.list hsort hrun hanswered) hspread hfew
  | repair hcfg hhome hrun =>
    exact hsimulates (.repair (hcfg ▸ hrequired) hhome hrun)
      (hspread.repair hbacks hcfg hrequired hhome hrun) hfew
  | recover hcfg hhome hexclude hoffline honline hrun hgood =>
    refine hsimulates (.repair (hcfg ▸ hrequired) hhome hrun)
      (hspread.recover hbacks hfew hcfg hhome hexclude hoffline honline hrun hgood) ?_
    rw [Finset.card_empty]
    omega
  | registry hq hregisters hrun =>
    exact hsimulates (.registry hq hrun) (hspread.registry hq hregisters hrun) hfew
  | restart c failed i names => exact hsimulates (.restart i names) (hspread.restart i names) hfew
  | @fail c failed i disk hdisk hfew' =>
    have hfailed := hspread.fail i ((c.nodes i).1, disk)
    refine hsimulates (.damage hdisk fun {key chunk} hheld => ?_) hfailed hfew'
    obtain ⟨r, hr, j, data, hj, -, hstores⟩ := hfailed.hasCopies hfew' hheld
    exact ⟨r, hr, j, data, hj, trivial, hstores⟩
  | restartMetadata c failed persistPath disk =>
    refine hsimulates (.restartMetadata persistPath disk) (.of_empty ?_ ?_) hfew
    · rw [construct_eq]
    · rw [construct_eq]
      intro id node hfind
      simp at hfind

/-- Every run from an empty cluster is that of a map of files, which are on enough machines. -/
theorem Cluster.Secures.of_run {run : List (Transition (Cluster ι × Finset ι) FileOp)}
    (hobjects : c.metadata.store.objectsById = ∅) (hnames : c.metadata.store.filenameToId = ∅)
    (hregistered : c.metadata.store.RegisteredAs reach ids)
    (hquorum : quorumSize svc.writeAck svc.replicationFactor ≠ 0)
    (hrun : Run (Cluster.Withstands svc reach ids) (c, ∅) run (c', failed)) :
    ∃ (seen : List (Transition FileMap FileOp)) (files : FileMap),
      Run FileMap.Step (fun _ => none) seen files ∧
        seen.map Transition.label = run.map Transition.label ∧
        Cluster.Secures svc reach ids (c', failed) files := by
  have hstart : Cluster.Secures svc reach ids (c, ∅) fun _ => none := by
    refine ⟨⟨fun _ => [], .of_empty hobjects hnames⟩, .of_empty hobjects hregistered, ?_⟩
    rw [Finset.card_empty]
    omega
  exact hrun.simulates (fun _ _ _ _ hstep hfiles => hstep.simulates hfiles) hstart

/-! ## Three nodes -/

private def threeNodes : List (Str × Str) :=
  [(str "n1", str "n1:1"), (str "n2", str "n2:1"), (str "n3", str "n3:1")]

private def machineOfThree (address : Str) : Option (Fin 3) :=
  if address = str "n1:1" then some 0
  else if address = str "n2:1" then some 1
  else if address = str "n3:1" then some 2
  else none

private def nameOfThree (i : Fin 3) : Str := ([str "n1", str "n2", str "n3"])[i]

private def emptyThree : Cluster (Fin 3) :=
  ⟨{ store := { nodes := registered threeNodes } },
    fun _ => (ChunkStore.construct (str "/data") ∅ [], ∅)⟩

private theorem emptyThree_registeredAs :
    emptyThree.metadata.store.RegisteredAs machineOfThree nameOfThree := by
  intro id node hfind
  have hid := NodeTable.find_id hfind
  subst hid
  have hmem := (@find_registered threeNodes (by decide) _).mp hfind
  obtain ⟨entry, hentry, rfl⟩ := List.mem_map.mp hmem
  have hplaced : ∀ entry ∈ threeNodes, ∃ i, nameOfThree i = entry.1 ∧
      machineOfThree entry.2 = some i := by decide
  exact hplaced entry hentry

private theorem three_upload : ∃ order answers,
    EmptyUpload {} {} machineOfThree emptyThree.metadata.store order answers := by
  obtain ⟨order, hpossible, hnodes⟩ := @leastUsed_registered emptyThree.metadata.store
    threeNodes threeNodes rfl (by decide) (.refl _) 3
  refine ⟨order, threeNodes.map fun entry => ((newNode entry).toProto, true), hpossible, ?_,
    by decide, by decide⟩
  rw [← hnodes]
  rfl

/-- The pass after the first node has failed. -/
private def firstFailed : RepairPass :=
  { cfg := {}
    manager := { localNodeId := str "n2", localAddress := str "n2:1" }
    failedNodeId := some (str "n1")
    now := fun _ => 0 }

private abbrev WithstandsThree := Cluster.Withstands {} machineOfThree nameOfThree

private theorem firstFailed_marked {n : MetadataNode}
    (hnodes : n.store.nodes = registered threeNodes) :
    (firstFailed.marked n).store.nodes =
      (registered threeNodes).set { newNode (str "n1", str "n1:1") with online := false } := by
  have hfind : (registered threeNodes).find (str "n1") = some (newNode (str "n1", str "n1:1")) :=
    (@find_registered threeNodes (by decide) (newNode (str "n1", str "n1:1"))).mpr (by decide)
  show (n.store.markNodeOffline (str "n1")).2.nodes = _
  simp only [MetadataStore.markNodeOffline, hnodes, hfind]

/-- The first node can be made up for. -/
private theorem firstFailed_recovers {n : MetadataNode}
    (hnodes : n.store.nodes = registered threeNodes) :
    firstFailed.manager.AtHome machineOfThree n.store ∧
      (∀ i, i ∉ ({0} : Finset (Fin 3)) → nameOfThree i ≠ firstFailed.excludeNode) ∧
      (∀ i ∈ ({0} : Finset (Fin 3)),
        nameOfThree i ∉ (firstFailed.marked n).store.nodes.onlineIds) ∧
      2 ≤ (firstFailed.marked n).store.nodes.onlineIds.card := by
  refine ⟨fun node hfind => ?_, by decide, ?_, ?_⟩
  · rw [hnodes] at hfind
    have hid := NodeTable.find_id hfind
    rw [← hid] at hfind
    have hmem := (@find_registered threeNodes (by decide) _).mp hfind
    have hhome : ∀ node ∈ threeNodes.map newNode, node.id = str "n2" →
        machineOfThree (str "n2:1") = machineOfThree node.address := by decide
    exact hhome node hmem hid
  · rw [firstFailed_marked hnodes]
    decide
  · rw [firstFailed_marked hnodes]
    decide

/-- A file is put on the three nodes, and the first one fails. -/
private theorem put_then_fail : ∃ c₁ c₂ files,
    WithstandsThree (emptyThree, ∅) (.put (str "a.txt") [] true) (c₁, ∅) ∧
      WithstandsThree (c₁, ∅) .maintain (c₂, {0}) ∧
      c₂.metadata.store.nodes = registered threeNodes ∧
      files (str "a.txt") = some [] ∧
      Cluster.Secures {} machineOfThree nameOfThree (c₂, {0}) files := by
  obtain ⟨order, answers, hupload⟩ := three_upload
  obtain ⟨trace, c₁, hput, hanswered⟩ := @put_empty_answered _ _ {} machineOfThree {} (str "a.txt")
    (str "default") _ emptyThree.nodes Finmap.notMem_empty _ _ hupload
  have hnodes := nodes_of_leavesNodes hput (put_leavesNodes _ _ _ _)
  have hputs := @Cluster.Withstands.put _ _ {} machineOfThree nameOfThree _ _ ∅ _ _ _ _ _
    (by decide) ⟨by decide, by simp⟩ hput hanswered
  have hstart : Cluster.Secures {} machineOfThree nameOfThree (emptyThree, ∅) fun _ => none :=
    ⟨⟨fun _ => [], .of_empty rfl rfl⟩, .of_empty rfl emptyThree_registeredAs, by decide⟩
  obtain ⟨files, hstep, hfiles⟩ := hputs.simulates hstart
  cases hstep
  have hfails := @Cluster.Withstands.fail _ _ {} machineOfThree nameOfThree c₁ ∅ 0 ∅
    (fun path contents hnone => by simp at hnone) (by decide)
  obtain ⟨files', hstep', hfiles'⟩ := hfails.simulates hfiles
  cases hstep'
  exact ⟨_, _, _, hputs, hfails, hnodes, by simp, hfiles'⟩

/-! ## Failures again and again -/

/-- Machines fail again and again, and lose all that they have.  As long as fewer than a write
quorum have failed since a pass that went well, all that is seen of the cluster can be seen of a
map of files, and every chunk is on a machine that has not failed. -/
theorem survives_failures {run : List (Transition (Cluster ι × Finset ι) FileOp)}
    (hobjects : c.metadata.store.objectsById = ∅) (hnames : c.metadata.store.filenameToId = ∅)
    (hregistered : c.metadata.store.RegisteredAs reach ids)
    (hquorum : quorumSize svc.writeAck svc.replicationFactor ≠ 0)
    (hrun : Run (Cluster.Withstands svc reach ids) (c, ∅) run (c', failed)) :
    ∃ (seen : List (Transition FileMap FileOp)) (files : FileMap),
      Run FileMap.Step (fun _ => none) seen files ∧
        seen.map Transition.label = run.map Transition.label ∧ c'.Represents reach files ∧
        c'.HasCopies reach fun i => i ∉ failed := by
  obtain ⟨seen, files, habstract, hlabels, hfiles⟩ :=
    Cluster.Secures.of_run hobjects hnames hregistered hquorum hrun
  exact ⟨seen, files, habstract, hlabels, hfiles.represents, hfiles.spread.hasCopies hfiles.few⟩

/-- The failed node is made up for, and then the second node fails. -/
theorem survives_failures_three_nodes :
    ∃ (run : List (Transition (Cluster (Fin 3) × Finset (Fin 3)) FileOp)) (c' : Cluster (Fin 3))
      (seen : List (Transition FileMap FileOp)) (files : FileMap),
      run.map Transition.label = [.put (str "a.txt") [] true, .maintain, .maintain, .maintain,
          .get (str "a.txt") (some [])] ∧
        Run FileMap.Step (fun _ => none) seen files ∧
        seen.map Transition.label = run.map Transition.label ∧
        c'.Represents machineOfThree files ∧
        c'.HasCopies machineOfThree fun i => i ∉ ({1} : Finset (Fin 3)) := by
  obtain ⟨c₁, c₂, files, hput, hfail, hnodes, hfile, hfiles⟩ := put_then_fail
  obtain ⟨hhome, hexclude, hoffline, honline⟩ := firstFailed_recovers hnodes
  obtain ⟨content, hbacks⟩ := hfiles.represents
  obtain ⟨trace, result, c₃, hpass, hsucceeds⟩ :=
    exists_pass hbacks hfiles.spread hfiles.few rfl hhome hexclude honline
  have hrecover : WithstandsThree (c₂, {0}) .maintain (c₃, ∅) :=
    .recover rfl hhome hexclude hoffline honline hpass fun e he => (hsucceeds e he).goesWell
  obtain ⟨files₃, hstep₃, hfiles₃⟩ := hrecover.simulates hfiles
  cases hstep₃
  let c₄ := c₃.setNode 1 ((c₃.nodes 1).1, ∅)
  have hfail' : WithstandsThree (c₃, ∅) .maintain (c₄, {1}) :=
    .fail (fun path contents hnone => by simp at hnone) (by decide)
  obtain ⟨files₄, hstep₄, hfiles₄⟩ := hfail'.simulates hfiles₃
  cases hstep₄
  -- the download from the third node
  obtain ⟨gets, hget, hresponds⟩ :=
    (@get_runsIn (Fin 3) _ {} machineOfThree c₄ c₄ (str "a.txt") _).mpr ⟨rfl, rfl⟩
  have hanswered := fun e he => (hresponds e he).metadataAnswered
  have hup : ∀ e ∈ gets, AnswersIfUp machineOfThree (fun i => i ∉ ({1} : Finset (Fin 3))) e :=
    fun e he => (hresponds e he).answersIfUp
  obtain ⟨-, hfound⟩ := hfiles₄.represents.get (hfiles₄.spread.hasCopies hfiles₄.few) hget
    hanswered hup
  have hgets := @Cluster.Withstands.get _ _ {} machineOfThree nameOfThree _ _ {1} _ _ _ hget
    hanswered hup
  rw [hfound, FileMap.visible, if_pos (by decide), hfile] at hgets
  have hrun := Run.head hput (.head hfail (.head hrecover (.head hfail' (.single hgets))))
  obtain ⟨seen, last, habstract, hlabels, hlast⟩ :=
    survives_failures rfl rfl emptyThree_registeredAs (by decide) hrun
  exact ⟨_, _, seen, last, rfl, habstract, hlabels, hlast⟩

/-- After every such run, a pass that has the failed nodes offline can succeed in all its calls, as
long as a quorum of nodes is online.  It makes up for the failures. -/
theorem failures_recoverable {run : List (Transition (Cluster ι × Finset ι) FileOp)}
    (hobjects : c.metadata.store.objectsById = ∅) (hnames : c.metadata.store.filenameToId = ∅)
    (hregistered : c.metadata.store.RegisteredAs reach ids)
    (hquorum : quorumSize svc.writeAck svc.replicationFactor ≠ 0)
    (hrun : Run (Cluster.Withstands svc reach ids) (c, ∅) run (c', failed)) {pass : RepairPass}
    (hcfg : pass.cfg = svc) (hhome : pass.manager.AtHome reach c'.metadata.store)
    (hexclude : ∀ i, i ∉ failed → ids i ≠ pass.excludeNode)
    (hoffline : ∀ i ∈ failed, ids i ∉ (pass.marked c'.metadata).store.nodes.onlineIds)
    (honline : quorumSize svc.writeAck svc.replicationFactor ≤
      (pass.marked c'.metadata).store.nodes.onlineIds.card) :
    ∃ trace result c'', Runs (Cluster.Serves svc reach) pass.program c' trace result c'' ∧
      (∀ e ∈ trace, Succeeds reach e) ∧ c''.Spread svc reach ids ∅ ∧
      Cluster.Withstands svc reach ids (c', failed) .maintain (c'', ∅) := by
  obtain ⟨-, files, -, -, ⟨content, hbacks⟩, hspread, hfew⟩ :=
    Cluster.Secures.of_run hobjects hnames hregistered hquorum hrun
  obtain ⟨trace, result, c'', hpass, hsucceeds⟩ :=
    exists_pass hbacks hspread hfew hcfg hhome hexclude honline
  have hgood : ∀ e ∈ trace, GoesWell reach failed e := fun e he => (hsucceeds e he).goesWell
  exact ⟨trace, result, c'', hpass, hsucceeds,
    hspread.recover hbacks hfew hcfg hhome hexclude hoffline honline hpass hgood,
    .recover hcfg hhome hexclude hoffline honline hpass hgood⟩

/-- The failed node is made up for. -/
theorem failures_recoverable_three_nodes :
    ∃ (run : List (Transition (Cluster (Fin 3) × Finset (Fin 3)) FileOp))
      (c' c'' : Cluster (Fin 3)), Run WithstandsThree (emptyThree, ∅) run (c', {0}) ∧
        c''.Spread {} machineOfThree nameOfThree ∅ ∧
        WithstandsThree (c', {0}) .maintain (c'', ∅) := by
  obtain ⟨c₁, c₂, -, hput, hfail, hnodes, -⟩ := put_then_fail
  obtain ⟨hhome, hexclude, hoffline, honline⟩ := firstFailed_recovers hnodes
  have hrun := Run.head hput (.single hfail)
  obtain ⟨trace, result, c₃, -, -, hspread, hrecovers⟩ := failures_recoverable rfl rfl
    emptyThree_registeredAs (by decide) hrun rfl hhome hexclude hoffline honline
  exact ⟨_, c₂, c₃, hrun, hspread, hrecovers⟩

end StorageEngine
