import StorageEngine.Client.Listing
import StorageEngine.Client.PutFailure
import StorageEngine.FileMap.Contents
import StorageEngine.Recovery.Leaks

/-!
# What the calls of the client do to the files

Each call of the storage client, as an operation on the map of files.  The metadata service
answers its calls, and the storage nodes may refuse or miss any of theirs.

* `Represents.get`, `Represents.head` and `Represents.list` read the map.
* `Represents.put` and `Represents.deleteObject` change it, or report that they have not.
-/

namespace StorageEngine

open Lib Lib.Remote MetadataStore MetadataService StorageClient

/-- A call of the metadata service is answered. -/
def MetadataAnswered (e : Event Rpc Rpc.Reply) : Prop :=
  ∀ q, e.request = .metadata q → e.fate = .answered

/-- The data that a download returns. -/
def StorageClient.GetResult.found (result : GetResult) : Option Bytes :=
  if result.success then some result.data else none

/-- The size that the metadata has for some data. -/
def FileMap.sizeOf (data : Bytes) : UInt64 :=
  UInt64.ofNat data.length

/-- The rows are the first 10000 files whose names start with the prefix, in the order of their
names, with their sizes. -/
def FileMap.Lists (files : FileMap) (namePrefix : Str) (rows : List (Str × UInt64)) : Prop :=
  ∃ all : List (Str × UInt64),
    (∀ name size, (name, size) ∈ all ↔
      namePrefix <+: name ∧ (files name).map sizeOf = some size) ∧
    all.Pairwise (fun a b => a.1 < b.1) ∧ rows = all.take 10000

variable {ι : Type} [DecidableEq ι] {svc cfg : ClusterConfig} {reach : Str → Option ι}
  {c c' : Cluster ι} {files : FileMap} {trace : List (Event Rpc Rpc.Reply)}

/-! ## Reading -/

/-- A machine that is up answers the calls that reach it. -/
def AnswersIfUp (reach : Str → Option ι) (up : ι → Prop) (e : Event Rpc Rpc.Reply) : Prop :=
  ∀ address q i, e.request = .storage address q → reach address = some i → up i →
    e.fate = .answered

/-- A chunk is read from the first replica that returns its data, whatever becomes of the reads
from machines that are not up. -/
theorem readChunkFromReplicas_available {up : ι → Prop} {chunk : ChunkInfo} {data : Bytes}
    (hchecksum : chunk.checksum = Checksum.sha256 data) {reps : List ReplicaInfo}
    (hgenuine : ∀ r ∈ reps, ∀ data', c.ReadsAt reach r.address chunk.chunkId data' → data' = data)
    (hstored : ∃ r ∈ reps, ∃ i, reach r.address = some i ∧ up i ∧
      (c.nodes i).Stores chunk.chunkId data) {result : Option Bytes}
    (hrun : Runs (Cluster.Serves svc reach) (readChunkFromReplicas chunk reps) c trace result c')
    (hup : ∀ e ∈ trace, AnswersIfUp reach up e) : c' = c ∧ result = some data := by
  induction reps generalizing c trace with
  | nil =>
    obtain ⟨r, hr, -⟩ := hstored
    cases hr
  | cons rep reps ih =>
    rw [List.forall_mem_cons] at hgenuine
    obtain ⟨fate, r, c₁, rest, hcall, hrest, rfl⟩ := runs_rpc.mp hrun
    rw [List.forall_mem_cons] at hup
    obtain ⟨rfl, hread, -⟩ := delivers_read hcall
    by_cases hgood : ∃ i, reach rep.address = some i ∧ up i ∧
        (c₁.nodes i).Stores chunk.chunkId data
    · obtain ⟨i, hi, hupi, hstores⟩ := hgood
      have hfate : fate = .answered := hup.1 _ _ i rfl hi hupi
      subst hfate
      obtain ⟨j, n, hj, hserves, -⟩ := hcall.served.storage_cases
      rw [hi] at hj
      cases hj
      obtain ⟨-, resp, rfl, hsuccess, rfl, hheader⟩ := hserves.read hstores
      have hmatch : ¬(chunk.checksum ≠ [] ∧ resp.header.checksum ≠ chunk.checksum) := by
        rw [hheader, hchecksum]
        simp
      simp only [hsuccess, Bool.true_eq_false, if_false, if_neg hmatch] at hrest
      obtain ⟨-, rfl, rfl⟩ := runs_done.mp hrest
      exact ⟨rfl, rfl⟩
    · -- the replica returns the data, or it is passed over
      have htail : ∃ r ∈ reps, ∃ i, reach r.address = some i ∧ up i ∧
          (c₁.nodes i).Stores chunk.chunkId data := by
        obtain ⟨r', hr', hstored⟩ := hstored
        rcases List.mem_cons.mp hr' with rfl | hr'
        · exact absurd hstored hgood
        · exact ⟨r', hr', hstored⟩
      cases r with
      | none => exact ih hgenuine.2 htail hrest hup.2
      | some resp =>
        dsimp only at hrest
        split at hrest
        · exact ih hgenuine.2 htail hrest hup.2
        · next hsuccess =>
          split at hrest
          · exact ih hgenuine.2 htail hrest hup.2
          · obtain ⟨-, rfl, rfl⟩ := runs_done.mp hrest
            have hsuccess' := Bool.eq_true_of_not_eq_false hsuccess
            exact ⟨rfl, congrArg some (hgenuine.1 _ (hread resp rfl hsuccess'))⟩

theorem getChunks_available {content : Str → Bytes} (h : c.Backs reach content files)
    {up : ι → Prop} (hcopies : c.HasCopies reach up) {chunks : List ChunkInfo}
    (hheld : ∀ chunk ∈ chunks, ∃ key, c.metadata.Holds key chunk) {read : Bytes}
    {result : Option Str × Bytes}
    (hrun : Runs (Cluster.Serves svc reach) (getChunks (chunks.map ChunkInfo.toProto) read) c
      trace result c') (hup : ∀ e ∈ trace, AnswersIfUp reach up e) :
    c' = c ∧ result = (none, read ++ ((chunks.map ChunkInfo.chunkId).map content).flatten) := by
  induction chunks generalizing read c trace with
  | nil =>
    obtain ⟨-, rfl, rfl⟩ := runs_done.mp hrun
    simp
  | cons chunk rest ih =>
    rw [List.forall_mem_cons] at hheld
    obtain ⟨⟨key, hchunk⟩, hrest⟩ := hheld
    obtain ⟨found, c₁, first, later, hfirst, hlater, rfl⟩ := runs_bind.mp hrun
    rw [List.forall_mem_append] at hup
    rw [ChunkInfo.fromProto_toProto] at hfirst
    have havailable := h.available hchunk
    have hstored : ∃ r ∈ chunk.replicas, ∃ i, reach r.address = some i ∧ up i ∧
        (c.nodes i).Stores chunk.chunkId (content chunk.chunkId) := by
      obtain ⟨r, hr, i, data, hi, hupi, hstores⟩ := hcopies hchunk
      have hdata := havailable.data_eq hr ⟨i, hi, hstores.reads⟩
      exact ⟨r, hr, i, hi, hupi, hdata ▸ hstores⟩
    obtain ⟨rfl, rfl⟩ := readChunkFromReplicas_available havailable.checksum
      (fun r hr data' => havailable.data_eq hr) hstored hfirst hup.1
    obtain ⟨rfl, rfl⟩ := ih h hcopies hrest hlater hup.2
    exact ⟨rfl, by simp⟩

/-- What an answered `LocateObject` finds. -/
theorem delivers_locate {filename : Str} {fate : Fate}
    {r : Option (Rpc.Reply (.metadata (.locateObject { filename := filename })))}
    (h : Delivers (Cluster.Serves svc reach)
      (.metadata (.locateObject { filename := filename })) fate c r c')
    (hanswered : MetadataAnswered
      ⟨.metadata (.locateObject { filename := filename }), fate, r⟩) :
    c' = c ∧ r = some (match c.locate filename with
      | none => { success := false, message := str "Object not found" }
      | some obj => { success := true, object := obj.toProto }) := by
  cases hanswered _ rfl
  obtain ⟨rfl, hsame⟩ := serves_locateObject h.served
  exact ⟨hsame, congrArg some (StorageClient.locateObject_eq c filename)⟩

/-- A download returns the file, as long as every chunk has a copy on a machine that is up. -/
theorem Cluster.Represents.get (h : c.Represents reach files) {up : ι → Prop}
    (hcopies : c.HasCopies reach up) {filename : Str} {result : GetResult}
    (hrun : Runs (Cluster.Serves svc reach) (StorageClient.get filename) c trace result c')
    (hanswered : ∀ e ∈ trace, MetadataAnswered e) (hup : ∀ e ∈ trace, AnswersIfUp reach up e) :
    c' = c ∧ result.found = files.visible filename := by
  obtain ⟨content, hbacks⟩ := h
  obtain ⟨fate, r, c₁, rest, hcall, hrest, rfl⟩ := runs_rpc.mp hrun
  rw [List.forall_mem_cons] at hanswered hup
  obtain ⟨rfl, rfl⟩ := delivers_locate hcall hanswered.1
  cases hobj : c₁.locate filename with
  | none =>
    rw [hobj] at hrest
    obtain ⟨-, rfl, rfl⟩ := runs_done.mp hrest
    rw [hbacks.not_located hobj]
    exact ⟨rfl, rfl⟩
  | some obj =>
    rw [hobj] at hrest
    obtain ⟨-, id, -, hstored⟩ := locate_eq_some.mp hobj
    obtain ⟨loop, c₂, reads, last, hloop, hlast, rfl⟩ := runs_bind.mp hrest
    rw [List.forall_mem_append] at hup
    obtain ⟨rfl, rfl⟩ := getChunks_available hbacks hcopies
      (fun chunk hchunk => ⟨id, obj, hstored, hchunk⟩) hloop hup.2.1
    obtain ⟨-, rfl, rfl⟩ := runs_done.mp hlast
    rw [(hbacks.located hobj).1]
    exact ⟨rfl, rfl⟩

theorem Cluster.Represents.head (h : c.Represents reach files) {filename : Str}
    {info : Option ObjectInfo}
    (hrun : Runs (Cluster.Serves svc reach) (StorageClient.head filename) c trace info c')
    (hanswered : ∀ e ∈ trace, MetadataAnswered e) :
    c' = c ∧ info.map ObjectInfo.size = (files.visible filename).map FileMap.sizeOf := by
  obtain ⟨content, hbacks⟩ := h
  obtain ⟨fate, r, c₁, rest, hcall, hrest, rfl⟩ := runs_rpc.mp hrun
  rw [List.forall_mem_cons] at hanswered
  obtain ⟨rfl, rfl⟩ := delivers_locate hcall hanswered.1
  cases hobj : c₁.locate filename with
  | none =>
    rw [hobj] at hrest
    obtain ⟨-, rfl, rfl⟩ := runs_done.mp hrest
    rw [hbacks.not_located hobj]
    exact ⟨rfl, rfl⟩
  | some obj =>
    rw [hobj] at hrest
    obtain ⟨-, rfl, rfl⟩ := runs_done.mp hrest
    obtain ⟨hfile, -, hsize⟩ := hbacks.located hobj
    refine ⟨rfl, ?_⟩
    rw [hfile, Option.map_some, Option.map_some, FileMap.sizeOf, ← hsize, UInt64.ofNat_toNat]
    rfl

omit [DecidableEq ι] in
theorem Cluster.Represents.list (h : c.Represents reach files)
    {sort : List ObjectInfo → List ObjectInfo} (hsort : SortsByFilename sort) {namePrefix : Str}
    {s' : MetadataStore} {calls : List (Event ListObjectsRequest fun _ => ListObjectsResponse)}
    {result : List ObjectInfo}
    (hrun : Runs (ServesListing sort) (StorageClient.list namePrefix) c.metadata.store calls
      result s') (hanswered : ∀ e ∈ calls, e.fate = .answered) :
    files.Lists namePrefix (result.map fun info => (info.filename, info.size)) := by
  obtain ⟨content, hbacks⟩ := h
  obtain ⟨all, hmem, hordered, rfl⟩ :=
    list_answered hbacks.chunkIds.indexed hsort hrun hanswered
  refine ⟨all.map fun obj => (obj.filename, obj.size), fun name size => ?_, ?_, ?_⟩
  · rw [List.mem_map]
    constructor
    · intro hrow
      obtain ⟨obj, hobj, heq⟩ := hrow
      cases heq
      obtain ⟨⟨id, hid⟩, hstarts⟩ := (hmem obj).mp hobj
      obtain ⟨hfile, hsize⟩ := hbacks.objects hid
      refine ⟨hstarts, ?_⟩
      rw [hfile, Option.map_some, FileMap.sizeOf, ← hsize, UInt64.ofNat_toNat]
    · intro hrow
      obtain ⟨hstarts, hfile⟩ := hrow
      rw [Option.map_eq_some_iff] at hfile
      obtain ⟨data, hdata, rfl⟩ := hfile
      obtain ⟨key, obj, hobj, rfl⟩ := hbacks.named hdata
      obtain ⟨hfile, hsize⟩ := hbacks.objects hobj
      rw [hdata] at hfile
      cases hfile
      refine ⟨obj, (hmem obj).mpr ⟨⟨key, hobj⟩, hstarts⟩, ?_⟩
      rw [FileMap.sizeOf, ← hsize, UInt64.ofNat_toNat]
  · rw [List.pairwise_map]
    exact hordered
  · rw [List.map_map, ← List.map_take]
    rfl

/-! ## Deleting -/

theorem deleteChunks_changesOnly (chunks : List ChunkMetadata) :
    (deleteChunks chunks).Issues
      (Rpc.ChangesOnly fun id => id ∈ chunks.map ChunkMetadata.chunkId) := by
  have hreplicas : ∀ {ids : Str → Prop} {chunkId : Str}, ids chunkId →
      ∀ reps, (deleteReplicas chunkId reps).Issues (Rpc.ChangesOnly ids) := by
    intro ids chunkId hid reps
    induction reps with
    | nil => exact .done _
    | cons rep reps ih =>
      refine .call ⟨fun _ _ hwritten => ?_, fun id hdeleted => ?_⟩ fun _ => ih
      · cases hwritten
      · cases hdeleted
        exact hid
  induction chunks with
  | nil => exact .done _
  | cons chunk rest ih =>
    refine .bind (hreplicas (by simp) _) fun _ => ih.imp fun q hq => ?_
    cases q with
    | metadata q => exact trivial
    | storage address q =>
      exact ⟨fun header data hwritten => List.mem_cons_of_mem _ (hq.1 header data hwritten),
        fun id hdeleted => List.mem_cons_of_mem _ (hq.2 id hdeleted)⟩

/-- The chunks that are left when an object is deleted have ids of their own. -/
theorem MetadataNode.ChunkIds.holds_of_erase {n n' : MetadataNode} (h : n.ChunkIds) {id : Str}
    {obj : ObjectInfo} (hobj : n.store.objectsById.lookup id = some obj)
    (hobjects : n'.store.objectsById = n.store.objectsById.erase id) {key : Str}
    {chunk : ChunkInfo} (hheld : n'.Holds key chunk) :
    n.Holds key chunk ∧ chunk.chunkId ∉ obj.chunks.map ChunkInfo.chunkId := by
  obtain ⟨o, ho, hchunk⟩ := hheld
  rw [hobjects] at ho
  obtain ⟨hne, ho⟩ := lookup_erase_cases ho
  refine ⟨⟨o, ho, hchunk⟩, fun hmem => hne ?_⟩
  exact h.disjoint ho hobj _ (List.mem_map_of_mem hchunk) hmem

omit [DecidableEq ι] in
/-- An object is deleted, and files of its chunks. -/
theorem Cluster.Backs.erase {content : Str → Bytes} (h : c.Backs reach content files) {id : Str}
    {obj : ObjectInfo} (hobj : c.metadata.store.objectsById.lookup id = some obj)
    (hids : c'.metadata.ChunkIds) (hparented : c'.metadata.Parented)
    (hobjects : c'.metadata.store.objectsById = c.metadata.store.objectsById.erase id)
    (hfiles : ∀ chunkId, chunkId ∉ obj.chunks.map ChunkInfo.chunkId →
      ∀ i, (c'.nodes i).file chunkId = (c.nodes i).file chunkId) :
    c'.Backs reach content (Function.update files obj.filename none) := by
  have hstill : ∀ {key o}, c'.metadata.store.objectsById.lookup key = some o →
      key ≠ id ∧ c.metadata.store.objectsById.lookup key = some o := by
    intro key o ho
    rw [hobjects] at ho
    exact lookup_erase_cases ho
  refine ⟨hids, hparented, fun {key chunk} hheld => ?_, fun {key o} ho => ?_,
    fun {name data} hfile => ?_⟩
  · obtain ⟨hheld, hnot⟩ := h.chunkIds.holds_of_erase hobj hobjects hheld
    exact (h.available hheld).congr (hfiles _ hnot)
  · obtain ⟨hne, ho⟩ := hstill ho
    have hname : o.filename ≠ obj.filename := fun heq =>
      hne (h.chunkIds.indexed.inverse.key_unique ho hobj heq)
    rw [Function.update_of_ne hname]
    exact h.objects ho
  · by_cases hname : name = obj.filename
    · rw [hname, Function.update_self] at hfile
      cases hfile
    · rw [Function.update_of_ne hname] at hfile
      obtain ⟨key, o, ho, hsame⟩ := h.named hfile
      refine ⟨key, o, ?_, hsame⟩
      rw [hobjects, Finmap.lookup_erase_ne, ho]
      intro heq
      subst heq
      rw [hobj] at ho
      cases ho
      exact hname hsame.symm

/-- What a deletion does whose metadata calls are answered, and what it returns. -/
theorem deleteObject_answered {filename : Str} {ok : Bool}
    (hrun : Runs (Cluster.Serves svc reach) (StorageClient.deleteObject filename) c trace ok c')
    (hanswered : ∀ e ∈ trace, MetadataAnswered e) :
    (∃ id obj, c.locate filename = some obj ∧
        c.metadata.store.objectsById.lookup id = some obj ∧ ok = true ∧
        c'.metadata.store.objectsById = c.metadata.store.objectsById.erase id ∧
        ∀ chunkId, chunkId ∉ obj.chunks.map ChunkInfo.chunkId →
          ∀ i, (c'.nodes i).file chunkId = (c.nodes i).file chunkId) ∨
      c.locate filename = none ∧ ok = false ∧ c' = c := by
  obtain ⟨fate, r, c₁, rest, hcall, hrest, rfl⟩ := runs_rpc.mp hrun
  rw [List.forall_mem_cons] at hanswered
  obtain ⟨rfl, rfl⟩ := delivers_locate hcall hanswered.1
  cases hobj : c₁.locate filename with
  | none =>
    rw [hobj] at hrest
    obtain ⟨-, rfl, rfl⟩ := runs_done.mp hrest
    exact .inr ⟨rfl, rfl, rfl⟩
  | some obj =>
    rw [hobj] at hrest
    obtain ⟨hname, id, hid, hstored⟩ := locate_eq_some.mp hobj
    obtain ⟨done, c₂, deletions, later, hdeletions, hlater, rfl⟩ := runs_bind.mp hrest
    obtain ⟨fate', r', c₃, last, hdelete, hlast, rfl⟩ := runs_rpc.mp hlater
    have hfate : fate' = .answered := hanswered.2
      ⟨.metadata (.deleteObject { filename := filename }), fate', r'⟩ (by simp) _ rfl
    subst hfate
    have hmetadata := metadata_of_deletesFiles hdeletions (deleteChunks_issues _)
    obtain ⟨hnodes, resp, rfl, hserves⟩ := hdelete.served.metadata_cases
    have hdeleted : resp.success = true ∧ c₃.metadata.store.objectsById =
        c₁.metadata.store.objectsById.erase id := by
      rw [hmetadata] at hserves
      have heq := MetadataService.deleteObject_byName hname hid hstored
      generalize c₃.metadata = n at hserves
      cases hserves with
      | deleteObject =>
        rw [heq]
        exact ⟨rfl, rfl⟩
    obtain ⟨-, rfl, rfl⟩ := runs_done.mp hlast
    refine .inl ⟨id, obj, rfl, hstored, hdeleted.1, hdeleted.2, fun chunkId hchunk i => ?_⟩
    rw [hnodes]
    refine file_of_changesOnly hdeletions (deleteChunks_changesOnly _) ?_ i
    rw [ObjectInfo.toProto_chunks, List.map_map]
    exact hchunk

theorem Cluster.Represents.deleteObject (h : c.Represents reach files) {filename : Str}
    {ok : Bool}
    (hrun : Runs (Cluster.Serves svc reach) (StorageClient.deleteObject filename) c trace ok c')
    (hanswered : ∀ e ∈ trace, MetadataAnswered e) :
    (ok = true ∧ files.visible filename ≠ none ∧
        c'.Represents reach (Function.update files filename none)) ∨
      ok = false ∧ files.visible filename = none ∧ c' = c := by
  obtain ⟨content, hbacks⟩ := h
  obtain ⟨hids, hparented⟩ := runs_parented hrun (SoloCall.issues (.deleteObject filename)).of_bind
    hbacks.chunkIds hbacks.parented
  rcases deleteObject_answered hrun hanswered with
    ⟨id, obj, hobj, hstored, rfl, hobjects, hfiles⟩ | ⟨hnone, rfl, rfl⟩
  · obtain ⟨hvisible, hfilename, -⟩ := hbacks.located hobj
    refine .inl ⟨rfl, by rw [hvisible]; simp, content, ?_⟩
    rw [← hfilename]
    exact hbacks.erase hstored hids hparented hobjects hfiles
  · exact .inr ⟨rfl, hbacks.not_located hnone, rfl⟩

/-! ## Putting -/

theorem putChunks_changesOnly (cfg : ClusterConfig) (data : Bytes) (obj : ObjectMetadata)
    (chunks : List ChunkMetadata) (offset : UInt64) :
    (putChunks cfg data obj chunks offset).Issues
      (Rpc.ChangesOnly fun id => id ∈ chunks.map ChunkMetadata.chunkId) := by
  have hwrites : ∀ {ids : Str → Prop} {chunk : ChunkInfo}, ids chunk.chunkId →
      ∀ chunkData nodes p, (writeToNodes
        (fun node => writeChunkToNode node.address chunk chunkData obj.objectId) 1 nodes p).Issues
          (Rpc.ChangesOnly ids) := by
    intro ids chunk hid chunkData nodes
    induction nodes with
    | nil => exact fun p => .done p
    | cons node nodes ih =>
      refine fun p => .bind (.call ⟨fun _ _ hwritten => ?_, fun _ hdeleted => ?_⟩
        fun r => .done _) fun ok => ih _
      · cases hwritten
        exact hid
      · cases hdeleted
  induction chunks generalizing offset with
  | nil => exact .done _
  | cons chunkPb rest ih =>
    refine .bind (.call trivial fun r => ?_) fun failure => ?_
    · cases r with
      | none => exact .done _
      | some selected =>
        refine (hwrites (by simp [uploadOf]) _ _ _).bind fun progress => ?_
        split
        · exact .call trivial fun r => .done _
        · exact .call trivial fun r => .done _
    · cases failure with
      | some message => exact .done _
      | none =>
        refine (ih _).imp fun q hq => ?_
        cases q with
        | metadata q => exact trivial
        | storage address q =>
          exact ⟨fun header data hwritten => List.mem_cons_of_mem _ (hq.1 header data hwritten),
            fun id hdeleted => List.mem_cons_of_mem _ (hq.2 id hdeleted)⟩

/-- A put leaves the size of its object. -/
theorem size_of_putCalls {α : Type} {p : ClusterProg α} {a : α} {objectId : Str} {size : UInt64}
    (hrun : Runs (Cluster.Serves svc reach) p c trace a c')
    (hissues : p.Issues (PutCalls objectId))
    (hsize : ∀ o, c.metadata.store.objectsById.lookup objectId = some o → o.size = size) :
    ∀ o, c'.metadata.store.objectsById.lookup objectId = some o → o.size = size := by
  refine runs_metadata_keeps (I := fun n => ∀ o, n.store.objectsById.lookup objectId = some o →
    o.size = size) (fun {q n resp n'} hq hserves hsize => ?_) hrun hissues hsize
  cases hserves.change with
  | same hobjects _ =>
    rw [hobjects.1]
    exact hsize
  | created hcreate =>
    subst hcreate
    exact hq.elim
  | deleted _ _ hn =>
    subst hn
    exact fun o ho => hsize o (objects_of_delete ho)
  | updated hupdate hobj _ hn =>
    subst hupdate hn
    intro o ho
    rcases lookup_insert_cases ho with ⟨heq, rfl⟩ | ⟨-, ho⟩
    · have hold := hsize _ (heq ▸ hobj)
      exact hold
    · exact hsize o ho

/-- The chunks of a new object get their content. -/
theorem exists_content {P : ChunkInfo → Bytes → Prop} {chunks : List ChunkInfo}
    {datas : List Bytes} (h : List.Forall₂ P chunks datas)
    (hnodup : (chunks.map ChunkInfo.chunkId).Nodup) (content : Str → Bytes) :
    ∃ content' : Str → Bytes,
      (∀ id, id ∉ chunks.map ChunkInfo.chunkId → content' id = content id) ∧
      (chunks.map ChunkInfo.chunkId).map content' = datas ∧
      ∀ chunk ∈ chunks, P chunk (content' chunk.chunkId) := by
  induction h with
  | nil => exact ⟨content, fun _ _ => rfl, rfl, by simp⟩
  | @cons chunk data chunks datas hchunk _ ih =>
    rw [List.map_cons, List.nodup_cons] at hnodup
    obtain ⟨content', hold, hdatas, hall⟩ := ih hnodup.2
    have hother : ∀ id, id ∈ chunks.map ChunkInfo.chunkId →
        Function.update content' chunk.chunkId data id = content' id := by
      intro id hid
      apply Function.update_of_ne
      exact fun heq => hnodup.1 (heq ▸ hid)
    refine ⟨Function.update content' chunk.chunkId data, fun id hid => ?_, ?_, ?_⟩
    · rw [List.map_cons, List.mem_cons, not_or] at hid
      rw [Function.update_of_ne hid.1, hold id hid.2]
    · rw [List.map_cons, List.map_cons, Function.update_self, List.map_congr_left hother, hdatas]
    · rw [List.forall_mem_cons, Function.update_self]
      refine ⟨hchunk, fun other hmem => ?_⟩
      rw [hother _ (List.mem_map_of_mem hmem)]
      exact hall other hmem

omit [DecidableEq ι] in
/-- An object under a new name, whose chunks are available, is a new file. -/
theorem Cluster.Backs.insert {content : Str → Bytes} (h : c.Backs reach content files) {id : Str}
    {obj : ObjectInfo} {datas : List Bytes} (hids : c'.metadata.ChunkIds)
    (hparented : c'.metadata.Parented) (hfree : obj.filename ∉ c.metadata.store.filenameToId)
    (hobj : c'.metadata.store.objectsById.lookup id = some obj)
    (habsent : c.metadata.store.objectsById.lookup id = none)
    (hothers : ∀ key, key ≠ id → c'.metadata.store.objectsById.lookup key =
      c.metadata.store.objectsById.lookup key)
    (hfiles : ∀ {key chunk}, c.metadata.Holds key chunk → ∀ i,
      (c'.nodes i).file chunk.chunkId = (c.nodes i).file chunk.chunkId)
    (havailable : List.Forall₂ (ChunkAvailable reach c') obj.chunks datas)
    (hsize : obj.size.toNat = datas.flatten.length) :
    ∃ content', c'.Backs reach content'
      (Function.update files obj.filename (some datas.flatten)) := by
  obtain ⟨content', hold, hdatas, hall⟩ := exists_content havailable (hids.nodup hobj) content
  -- the chunks of the other objects keep their content
  have hkept : ∀ {key o}, key ≠ id → c.metadata.store.objectsById.lookup key = some o →
      ∀ chunkId ∈ o.chunks.map ChunkInfo.chunkId, content' chunkId = content chunkId := by
    intro key o hne ho chunkId hchunk
    refine hold _ fun hmem => hne ?_
    exact hids.disjoint ((hothers key hne).trans ho) hobj _ hchunk hmem
  refine ⟨content', hids, hparented, fun {key chunk} hheld => ?_, fun {key o} ho => ?_,
    fun {name data} hfile => ?_⟩
  · obtain ⟨o, ho, hchunk⟩ := hheld
    by_cases hkey : key = id
    · rw [hkey, hobj] at ho
      cases ho
      exact hall chunk hchunk
    · rw [hothers key hkey] at ho
      rw [hkept hkey ho _ (List.mem_map_of_mem hchunk)]
      exact (h.available ⟨o, ho, hchunk⟩).congr (hfiles ⟨o, ho, hchunk⟩)
  · by_cases hkey : key = id
    · rw [hkey, hobj] at ho
      cases ho
      rw [ObjectInfo.dataOf, hdatas, Function.update_self]
      exact ⟨rfl, hsize⟩
    · rw [hothers key hkey] at ho
      have hname : o.filename ≠ obj.filename := by
        intro heq
        have hindexed := h.chunkIds.indexed.inverse.indexed ho
        exact hfree (Finmap.mem_of_lookup_eq_some (heq ▸ hindexed))
      have hdata : o.dataOf content' = o.dataOf content := by
        rw [ObjectInfo.dataOf, ObjectInfo.dataOf, List.map_congr_left (hkept hkey ho)]
      rw [Function.update_of_ne hname, hdata]
      exact h.objects ho
  · by_cases hname : name = obj.filename
    · exact ⟨id, obj, hobj, hname.symm⟩
    · rw [Function.update_of_ne hname] at hfile
      obtain ⟨key, o, ho, hsame⟩ := h.named hfile
      have hkey : key ≠ id := by
        intro heq
        rw [heq, habsent] at ho
        cases ho
      exact ⟨key, o, (hothers key hkey).trans ho, hsame⟩

theorem not_updateLost {e : Event Rpc Rpc.Reply} (hanswered : MetadataAnswered e) :
    ¬UpdateLost e := by
  intro hlost
  obtain ⟨req, reply, rfl⟩ := hlost
  cases hanswered _ rfl

/-- A selection that is answered has a reply. -/
theorem not_selectFailed {α : Type} {p : ClusterProg α} {a : α}
    (hrun : Runs (Cluster.Serves svc reach) p c trace a c')
    (hanswered : ∀ e ∈ trace, MetadataAnswered e) : ∀ e ∈ trace, ¬SelectFailed e := by
  intro e he hfailed
  obtain ⟨req, fate, rfl⟩ := hfailed
  obtain ⟨c₁, c₂, hcall⟩ := hrun.delivered _ he
  have hfate : fate = .answered := hanswered _ he _ rfl
  subst hfate
  obtain ⟨-, resp, hr, -⟩ := hcall.served.metadata_cases
  cases hr

/-- A created object has the size of the request. -/
theorem MetadataService.Serves.create_size {req : CreateObjectRequest} {n n' : MetadataNode}
    {resp : CreateObjectResponse} (h : Serves svc (.createObject req) n resp n')
    (hok : resp.success = true) : resp.object.size = req.size := by
  cases h with
  | createObject _ _ _ hcreate =>
    rw [MetadataService.createObject] at hcreate
    split at hcreate
    · cases hcreate
    · cases hcreate
      cases hok
    · next obj store heq =>
      cases hcreate
      obtain ⟨chunks, -, -, rfl, -⟩ := createObject_created heq
      rfl

section Created

variable {req : CreateObjectRequest} {obj : ObjectInfo} {c₁ : Cluster ι} {data : Bytes}
  {loop : List (Event Rpc Rpc.Reply)} {failure : Option Str}

/-- The loop of a put leaves the files of the chunks that there were. -/
theorem created_files (hids : c.metadata.ChunkIds)
    (hcreated : Created svc req c.metadata obj c₁.metadata) (hnodes : c₁.nodes = c.nodes)
    (hloop : Runs (Cluster.Serves svc reach)
      (putChunks cfg data obj.toProto obj.toProto.chunks 0) c₁ loop failure c') {key : Str}
    {chunk : ChunkInfo} (hheld : c.metadata.Holds key chunk) (i : ι) :
    (c'.nodes i).file chunk.chunkId = (c.nodes i).file chunk.chunkId := by
  rw [← hnodes]
  refine file_of_changesOnly hloop (putChunks_changesOnly _ _ _ _ _) (fun hnew => ?_) i
  rw [ObjectInfo.toProto_chunks, List.map_map] at hnew
  obtain ⟨o, ho, hchunk⟩ := hheld
  refine hcreated.fresh chunk.chunkId (List.mem_cons_of_mem _ hnew) ?_
  exact (hids.drawn ho _ (List.mem_cons_of_mem _ (List.mem_map_of_mem hchunk))).1

/-- A put that fails after it has created its object has deleted it again. -/
theorem failed_sameObjects (hids : c.metadata.ChunkIds)
    (hcreated : Created svc req c.metadata obj c₁.metadata) {message : Str}
    (hloop : Runs (Cluster.Serves svc reach)
      (putChunks cfg data obj.toProto obj.toProto.chunks 0) c₁ loop (some message) c')
    (hanswered : ∀ e ∈ loop, MetadataAnswered e) :
    SameObjects c.metadata.store c'.metadata.store := by
  have hstore := hcreated.store
  have habsent : obj.objectId ∉ c.metadata.store.objectsById := by
    intro hmem
    obtain ⟨o, ho⟩ := Finmap.mem_iff.mp hmem
    exact (hcreated.lookup hids ho).1 rfl
  have htouched : Touched obj.toProto.objectId obj.filename c₁.metadata.store
      c₁.metadata.store :=
    ⟨⟨obj, by rw [hstore]; exact Finmap.lookup_insert _, rfl⟩, rfl, rfl⟩
  have hfates : ∀ e ∈ loop, CreatesOrDeletes e → e.fate = .answered := by
    intro e he hkind
    rcases hkind with ⟨req, hreq⟩ | ⟨req, hreq⟩ <;> exact hanswered e he _ hreq
  rcases putChunks_objects hcreated.objectId_ne_nil hcreated.objectId_length
      hcreated.chunkId_length htouched hloop hfates with
    ⟨hnone, -⟩ | ⟨-, ⟨e, he, hfailed⟩, -⟩ | ⟨-, -, hobjects, hnames⟩
  · cases hnone
  · exact absurd hfailed (not_selectFailed hloop hanswered e he)
  · constructor
    · rw [hobjects, hstore]
      exact (erase_insert_self _ _ _).trans (erase_of_notMem habsent)
    · rw [hnames, hstore]
      refine (erase_insert_self _ _ _).trans (erase_of_notMem ?_)
      rw [hcreated.filename]
      exact hcreated.free

/-- The object of a put whose loop ends, and the others. -/
theorem MetadataService.Created.put (hids : c.metadata.ChunkIds)
    (hcreated : Created svc req c.metadata obj c₁.metadata)
    (hloop : Runs (Cluster.Serves svc reach)
      (putChunks cfg data obj.toProto obj.toProto.chunks 0) c₁ loop none c') :
    ∃ o, c'.metadata.store.objectsById.lookup obj.objectId = some o ∧ o.filename = obj.filename ∧
      o.size = obj.size ∧
      ChunksPut svc cfg reach c.metadata.store.nodes c' obj.toProto data obj.chunks 0 o.chunks
        loop ∧
      c.metadata.store.objectsById.lookup obj.objectId = none ∧
      ∀ key, key ≠ obj.objectId → c'.metadata.store.objectsById.lookup key =
        c.metadata.store.objectsById.lookup key := by
  have hstore := hcreated.store
  have hcalls := putChunks_issues cfg data obj.toProto obj.toProto.chunks 0
  have hshort : ∀ chunk ∈ obj.chunks, chunk.chunkId.length < 2 ^ 32 := fun chunk hchunk =>
    hcreated.chunkId_length _ (List.mem_map_of_mem hchunk)
  have hpresent : c₁.metadata.store.objectsById.lookup obj.objectId = some obj := by
    rw [hstore]
    exact Finmap.lookup_insert _
  have hunderway : Underway c₁.metadata.store obj.toProto.objectId obj.filename [] obj.chunks :=
    ⟨⟨obj, hpresent, rfl, rfl, rfl⟩, by simp⟩
  have hregistry : c₁.metadata.store.nodes = c.metadata.store.nodes := by rw [hstore]
  obtain ⟨finals, o, ho, hfilename, -, hchunks, -, hput, -⟩ :=
    putChunks_success hcreated.objectId_length hshort (List.nodup_cons.mp hcreated.nodup).2
      hregistry hunderway hloop
  rw [List.nil_append] at hchunks
  have hfirst : ∀ o', c₁.metadata.store.objectsById.lookup obj.toProto.objectId = some o' →
      o'.size = obj.size := by
    intro o' ho'
    rw [ObjectInfo.toProto_objectId, hpresent] at ho'
    cases ho'
    rfl
  refine ⟨o, ho, hfilename, size_of_putCalls hloop hcalls hfirst o ho, hchunks ▸ hput, ?_,
    fun key hne => ?_⟩
  · by_contra hold
    obtain ⟨o', ho'⟩ := Option.ne_none_iff_exists'.mp hold
    exact (hcreated.lookup hids ho').1 rfl
  · refine (lookup_of_putCalls hloop hcalls hcreated.objectId_ne_nil hne).trans ?_
    rw [hstore, Finmap.lookup_insert_of_ne _ hne]

/-- A put whose loop ends has stored its data. -/
theorem Cluster.Backs.put {content : Str → Bytes} (h : c.Backs reach content files)
    {filename owner : Str} (hlength : data.length < 2 ^ 64)
    (hrequired : cfg.writeAck.required cfg.replicationFactor ≠ 0)
    (hids : c'.metadata.ChunkIds) (hparented : c'.metadata.Parented)
    (hcreated : Created svc (createRequest cfg filename data owner) c.metadata obj c₁.metadata)
    (hnodes : c₁.nodes = c.nodes) (hsized : obj.size = UInt64.ofNat data.length)
    (hloop : Runs (Cluster.Serves svc reach)
      (putChunks cfg data obj.toProto obj.toProto.chunks 0) c₁ loop none c')
    (hanswered : ∀ e ∈ loop, MetadataAnswered e) :
    c'.Represents reach (Function.update files filename (some data)) := by
  obtain ⟨o, ho, hfilename, hsame, hput, habsent, hothers⟩ := hcreated.put h.chunkIds hloop
  have hserved : ∀ e ∈ loop, ¬UpdateLost e := fun e he => not_updateLost (hanswered e he)
  have hsizes : (0 : UInt64).toNat + totalSize (obj.chunks.map ChunkInfo.toProto) =
      data.length := by
    have hsizes := hcreated.sizes
    simp only [createRequest, UInt64.toNat_ofNat_of_lt' hlength] at hsizes
    simp [totalSize, Function.comp_def, hsizes]
  have havailable := (hput.readable hrequired hserved).imp fun chunk data hreadable =>
    ChunkAvailable.of_readable hreadable
  have hflat := pieces_flatten hlength hsizes
  rw [show (0 : UInt64).toNat = 0 from rfl, List.drop_zero] at hflat
  have hsize : o.size.toNat = data.length := by
    rw [hsame, hsized, UInt64.toNat_ofNat_of_lt' hlength]
  have hfree : o.filename ∉ c.metadata.store.filenameToId := by
    rw [hfilename, hcreated.filename]
    exact hcreated.free
  obtain ⟨content', hbacks⟩ := h.insert hids hparented hfree ho habsent hothers
    (created_files h.chunkIds hcreated hnodes hloop) havailable (by rw [hflat, hsize])
  rw [hflat, hfilename, hcreated.filename] at hbacks
  exact ⟨content', hbacks⟩

end Created

/-- A put stores its data under a new name, or it leaves the files as they are. -/
theorem Cluster.Represents.put (h : c.Represents reach files) {filename owner : Str}
    {data : Bytes} (hlength : data.length < 2 ^ 64)
    (hrequired : cfg.writeAck.required cfg.replicationFactor ≠ 0) {result : PutResult}
    (hrun : Runs (Cluster.Serves svc reach) (StorageClient.put cfg filename data owner) c trace
      result c') (hanswered : ∀ e ∈ trace, MetadataAnswered e) :
    (result.success = true ∧ files filename = none ∧
        c'.Represents reach (Function.update files filename (some data))) ∨
      result.success = false ∧ c'.Represents reach files := by
  obtain ⟨content, hbacks⟩ := h
  obtain ⟨hids, hparented⟩ := runs_parented hrun
    (SoloCall.issues (.put cfg filename data owner)).of_bind hbacks.chunkIds hbacks.parented
  have hdelivered := hrun.delivered
  cases put_run hrun with
  | refused message hreq hcall hr =>
    rw [List.forall_mem_singleton] at hanswered
    cases hanswered _ rfl
    obtain ⟨hnodes, resp, rfl, hserves⟩ := hcall.served.metadata_cases
    rcases hserves.create_cases with ⟨-, hsame, -⟩ | ⟨obj, rfl, -⟩
    · obtain rfl : c' = c := Cluster.ext hsame hnodes
      exact .inr ⟨rfl, content, hbacks⟩
    · cases hr _ rfl
  | failed message hreq hcreated hnodes hloop =>
    rw [List.forall_mem_cons] at hanswered
    refine .inr ⟨rfl, content, hbacks.same hids ?_ ?_⟩
    · exact failed_sameObjects hbacks.chunkIds hcreated hloop hanswered.2
    · exact created_files hbacks.chunkIds hcreated hnodes hloop
  | @succeeded req obj c₁ _ loop hreq hcreated hnodes hloop =>
    subst hreq
    rw [List.forall_mem_cons] at hanswered hdelivered
    obtain ⟨⟨c₂, c₃, hcall⟩, -⟩ := hdelivered
    obtain ⟨-, resp, hresp, hserves⟩ := hcall.served.metadata_cases
    cases hresp
    have hfree : files filename = none := by
      by_contra hold
      obtain ⟨old, hfile⟩ := Option.ne_none_iff_exists'.mp hold
      obtain ⟨key, o, ho, rfl⟩ := hbacks.named hfile
      have hindexed := hbacks.chunkIds.indexed.inverse.indexed ho
      exact hcreated.free (Finmap.mem_of_lookup_eq_some hindexed)
    exact .inl ⟨rfl, hfree, hbacks.put hlength hrequired hids hparented hcreated hnodes
      (hserves.create_size rfl) hloop hanswered.2⟩

end StorageEngine
