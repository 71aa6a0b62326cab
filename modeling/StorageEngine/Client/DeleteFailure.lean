import StorageEngine.Client.PutReadable

/-!
# Deletions that fail

`delete_object` has every replica of every chunk deleted, and only then the object in the
metadata.  It fails if it cannot reach the metadata service at the end, and by then the
replicas may be gone.

* `deleteObject_failed`: a deletion that fails has the object deleted in the metadata, or it has
  discarded chunk files and done nothing else.
* `deleteObject_failed_iff` says what it must have left for a download to return the same data
  as before.
* `deleteObject_unheard` and `deleteObject_can_lose` are the two ends: a deletion that nobody
  hears of leaves the object, and any object with a chunk can be lost.
-/

namespace StorageEngine

open Lib.Remote

variable {ι : Type}

/-- The reads of the cluster, if the files in `gone` were not there. -/
def Cluster.answersWithout (reach : Str → Option ι) (c : Cluster ι) (gone : ι → Str → Bool) :
    Answers :=
  fun address chunkId => (reach address).bind fun i =>
    if gone i chunkId then none else (c.nodes i).1.readChunk (c.nodes i).2 chunkId

/-- The chunk files in `gone` have been removed, and the others are as they were. -/
def Cluster.Removed (c : Cluster ι) (gone : ι → Str → Bool) (c' : Cluster ι) : Prop :=
  ∀ i id, (c'.nodes i).file id = if gone i id then none else (c.nodes i).file id

/-- The files that were there before and are not there any more. -/
def Cluster.gone (c c' : Cluster ι) (i : ι) (chunkId : Str) : Bool :=
  ((c.nodes i).file chunkId).isSome && ((c'.nodes i).file chunkId).isNone

/-- Reads depend on the files that are left only. -/
theorem Cluster.Removed.answers {reach : Str → Option ι} {gone : ι → Str → Bool}
    {c c' : Cluster ι} (h : c.Removed gone c') :
    c'.answers reach = c.answersWithout reach gone := by
  funext address chunkId
  rw [Cluster.answers, Cluster.answersWithout]
  cases reach address with
  | none => rfl
  | some i =>
    rw [Option.bind_some, Option.bind_some, StorageNode.readChunk_eq, StorageNode.readChunk_eq,
      h i chunkId]
    cases gone i chunkId <;> rfl

namespace StorageClient

variable [DecidableEq ι] {svc : ClusterConfig} {reach : Str → Option ι} {c c' : Cluster ι}

/-! ## What a deletion leaves -/

/-- The call deletes a chunk. -/
def DeletesChunk (q : Rpc) : Prop :=
  ∃ address req, q = .storage address (.deleteChunk req)

/-- The call has told the machine to delete the chunk. -/
def DeletesFile (reach : Str → Option ι) (e : Event Rpc Rpc.Reply) (i : ι) (chunkId : Str) :
    Prop :=
  ∃ address q, e.request = .storage address q ∧ e.fate ≠ .requestLost ∧
    reach address = some i ∧ q.deleted = some chunkId

/-- The metadata service has served a request to delete an object. -/
def DeletesObject (e : Event Rpc Rpc.Reply) : Prop :=
  (∃ req, e.request = .metadata (.deleteObject req)) ∧ e.fate ≠ .requestLost

/-- Some chunk files are gone, and nothing else has changed for readers. -/
structure Discards (c c' : Cluster ι) : Prop where
  metadata : c'.metadata = c.metadata
  files : ∀ i id, (c'.nodes i).file id = (c.nodes i).file id ∨ (c'.nodes i).file id = none

omit [DecidableEq ι] in
theorem Discards.refl (c : Cluster ι) : Discards c c := ⟨rfl, fun _ _ => .inl rfl⟩

omit [DecidableEq ι] in
theorem Discards.trans {c₁ c₂ c₃ : Cluster ι} (h : Discards c₁ c₂) (h' : Discards c₂ c₃) :
    Discards c₁ c₃ := by
  refine ⟨h'.metadata.trans h.metadata, fun i id => ?_⟩
  rcases h'.files i id with hsame' | hnone
  · rcases h.files i id with hsame | hnone
    · exact .inl (hsame'.trans hsame)
    · exact .inr (hsame'.trans hnone)
  · exact .inr hnone

omit [DecidableEq ι] in
/-- What is gone stays gone. -/
theorem Discards.file_none (h : Discards c c') {i : ι} {id : Str}
    (hnone : (c.nodes i).file id = none) : (c'.nodes i).file id = none := by
  rcases h.files i id with hsame | hnone'
  · exact hsame.trans hnone
  · exact hnone'

omit [DecidableEq ι] in
theorem Discards.locate (h : Discards c c') (filename : Str) :
    c'.locate filename = c.locate filename := by
  rw [Cluster.locate, Cluster.locate, h.metadata]

omit [DecidableEq ι] in
theorem Discards.removed (h : Discards c c') : c.Removed (c.gone c') c' := by
  intro i id
  rw [Cluster.gone]
  cases hfile : (c.nodes i).file id with
  | none =>
    rw [h.file_none hfile]
    rfl
  | some contents =>
    rcases h.files i id with hsame | hnone
    · rw [hsame, hfile]
      rfl
    · rw [hnone]
      rfl

private theorem serves_discards {address : Str} {req : DeleteChunkRequest}
    {r : Option (Rpc.Reply (.storage address (.deleteChunk req)))}
    (h : Cluster.Serves svc reach (.storage address (.deleteChunk req)) c r c') :
    Discards c c' := by
  obtain ⟨i, n, -, hserves, rfl⟩ := h.storage_cases
  have hnode : ∀ id, n.file id = (c.nodes i).file id ∨ n.file id = none := by
    intro id
    cases hserves.fileChange with
    | same _ _ hfiles => exact .inl (hfiles id)
    | wrote _ hwritten => cases hwritten
    | deleted _ _ hfiles =>
      rw [hfiles id]
      split
      · exact .inr rfl
      · exact .inl rfl
  refine ⟨rfl, fun j id => ?_⟩
  by_cases hj : j = i
  · subst hj
    rw [Cluster.setNode_self]
    exact hnode id
  · rw [Cluster.setNode_of_ne _ _ hj]
    exact .inl rfl

/-- A run that only deletes chunks discards files. -/
theorem discards_of_run {α : Type} {p : ClusterProg α} {trace : List (Event Rpc Rpc.Reply)}
    {a : α} (hrun : Runs (Cluster.Serves svc reach) p c trace a c')
    (hissues : p.Issues DeletesChunk) : Discards c c' := by
  refine Runs.invariant (I := fun c' => Discards c c')
    (fun {q fate r c₁ c₂} hq hcall hdiscards => ?_) hrun hissues (.refl c)
  obtain ⟨address, req, rfl⟩ := hq
  apply hdiscards.trans
  cases hcall with
  | answered hserves => exact serves_discards hserves
  | replyLost hserves => exact serves_discards hserves
  | requestLost => exact .refl _

theorem deleteReplicas_issues (chunkId : Str) (reps : List ReplicaLocation) :
    (deleteReplicas chunkId reps).Issues DeletesChunk := by
  induction reps with
  | nil => exact .done ()
  | cons rep reps ih => exact .call ⟨_, _, rfl⟩ fun _ => ih

theorem deleteChunks_issues (chunks : List ChunkMetadata) :
    (deleteChunks chunks).Issues DeletesChunk := by
  induction chunks with
  | nil => exact .done ()
  | cons chunk rest ih => exact (deleteReplicas_issues _ _).bind fun _ => ih

/-- A served `DeleteObject` finds what `LocateObject` finds, and the name leads nowhere then. -/
theorem serves_deleteObject {filename : Str} {obj : ObjectInfo}
    {r : Option (Rpc.Reply (.metadata (.deleteObject { filename := filename })))}
    (hobj : c.locate filename = some obj)
    (h : Cluster.Serves svc reach (.metadata (.deleteObject { filename := filename })) c r c') :
    r = some { success := true, message := str "Deleted" } ∧ c'.locate filename = none := by
  obtain ⟨hname, id, hid, hstored⟩ := locate_eq_some.mp hobj
  cases h with
  | metadata hserves =>
    cases hserves with
    | deleteObject =>
      rw [MetadataService.deleteObject_byName hname hid hstored]
      refine ⟨rfl, Option.eq_none_iff_forall_ne_some.mpr fun obj' hobj' => ?_⟩
      obtain ⟨-, id', hid', hstored'⟩ := locate_eq_some.mp hobj'
      have hsame : id' = id := by
        have hfound := (Lib.lookup_erase_cases hid').2
        rw [hid] at hfound
        exact (Option.some.inj hfound).symm
      rw [hsame] at hstored'
      exact absurd rfl (Lib.lookup_erase_cases hstored').1

/-- A deletion that fails has discarded chunk files, up to `c₁`, and has the object removed from
the metadata or has done nothing else. -/
theorem deleteObject_failed {filename : Str} {obj : ObjectInfo}
    {trace : List (Event Rpc Rpc.Reply)} (hobj : c.locate filename = some obj)
    (hrun : Runs (Cluster.Serves svc reach) (deleteObject filename) c trace false c') :
    ∃ c₁, Discards c c₁ ∧ c'.nodes = c₁.nodes ∧
      ((∃ e ∈ trace, DeletesObject e) ∧ c'.locate filename = none ∨
        (∀ e ∈ trace, ¬DeletesObject e) ∧ c' = c₁) := by
  obtain ⟨fate, r, c₁, rest, hcall, hrest, rfl⟩ := runs_rpc.mp hrun
  have hlocating : ¬DeletesObject
      ⟨.metadata (.locateObject { filename := filename }), fate, r⟩ := by
    intro h
    obtain ⟨⟨req, hreq⟩, -⟩ := h
    cases hreq
  have hlocated : c₁ = c ∧ (r = none ∨ r = some { success := true, object := obj.toProto }) := by
    cases hcall with
    | answered hserves =>
      obtain ⟨hr, hsame⟩ := serves_locateObject hserves
      rw [locateObject_eq, hobj] at hr
      exact ⟨hsame, .inr hr⟩
    | replyLost hserves => exact ⟨(serves_locateObject hserves).2, .inl rfl⟩
    | requestLost => exact ⟨rfl, .inl rfl⟩
  obtain ⟨rfl, rfl | rfl⟩ := hlocated
  · -- nothing has been located
    obtain ⟨rfl, -, rfl⟩ := runs_done.mp hrest
    exact ⟨_, .refl _, rfl, .inr ⟨List.forall_mem_cons.mpr ⟨hlocating, by simp⟩, rfl⟩⟩
  · simp only [Bool.true_eq_false, if_false] at hrest
    obtain ⟨_, c₂, deletions, last, hdeletions, hlast, rfl⟩ := runs_bind.mp hrest
    have hdiscards := discards_of_run hdeletions (deleteChunks_issues _)
    have hothers : ∀ e ∈ deletions, ¬DeletesObject e := by
      intro e he h
      obtain ⟨address, req, hchunk⟩ := hdeletions.trace_allowed (deleteChunks_issues _) e he
      obtain ⟨⟨req', hobject⟩, -⟩ := h
      rw [hchunk] at hobject
      cases hobject
    obtain ⟨fate', r', c₃, none', hcall', hend, rfl⟩ := runs_rpc.mp hlast
    have hobj₂ : c₂.locate filename = some obj := (hdiscards.locate filename).trans hobj
    cases hcall' with
    | answered hserves =>
      obtain ⟨rfl, -⟩ := serves_deleteObject hobj₂ hserves
      obtain ⟨-, hresult, -⟩ := runs_done.mp hend
      cases hresult
    | replyLost hserves =>
      obtain ⟨rfl, -, rfl⟩ := runs_done.mp hend
      refine ⟨c₂, hdiscards, hserves.metadata_cases.1, .inl ⟨⟨_, List.mem_cons_of_mem _
        (List.mem_append_right _ List.mem_cons_self), ⟨_, rfl⟩, by simp⟩, ?_⟩⟩
      exact (serves_deleteObject hobj₂ hserves).2
    | requestLost =>
      obtain ⟨rfl, -, rfl⟩ := runs_done.mp hend
      refine ⟨_, hdiscards, rfl, .inr ⟨List.forall_mem_cons.mpr ⟨hlocating,
        List.forall_mem_append.mpr ⟨hothers, ?_⟩⟩, rfl⟩⟩
      exact List.forall_mem_cons.mpr ⟨fun h => h.2 rfl, by simp⟩

/-! ## What a deletion can lose -/

/-- A file that is gone has been deleted by a call that has reached its machine. -/
theorem deleted_of_gone {α : Type} {p : ClusterProg α} {trace : List (Event Rpc Rpc.Reply)}
    {a : α} (hrun : Runs (Cluster.Serves svc reach) p c trace a c') {i : ι} {id : Str}
    (hgone : c.gone c' i id = true) : ∃ e ∈ trace, DeletesFile reach e i id := by
  rw [Cluster.gone, Bool.and_eq_true, Option.isSome_iff_ne_none, Option.isNone_iff_eq_none]
    at hgone
  obtain ⟨hthere, hgone⟩ := hgone
  induction hrun with
  | done a c => exact absurd hgone hthere
  | @call q next fate c c₁ c' r trace a hcall _ ih =>
    by_cases hnone : (c₁.nodes i).file id = none
    · -- this call has deleted the file
      have hserved : ∀ {r}, Cluster.Serves svc reach q c r c₁ → ∃ address q',
          q = .storage address q' ∧ reach address = some i ∧ q'.deleted = some id := by
        intro r hserves
        cases q with
        | metadata q =>
          rw [hserves.metadata_cases.1] at hnone
          exact absurd hnone hthere
        | storage address q =>
          have hdeletes : reach address = some i ∧ q.deleted = some id ∧ r ≠ none := by
            by_contra hkept
            exact (serves_file hserves i id).mpr (.inr ⟨hthere, hkept⟩) hnone
          exact ⟨address, q, rfl, hdeletes.1, hdeletes.2.1⟩
      cases hcall with
      | answered hserves =>
        obtain ⟨address, q', rfl, hreach, hdeleted⟩ := hserved hserves
        exact ⟨_, List.mem_cons_self, address, q', rfl, by simp, hreach, hdeleted⟩
      | replyLost hserves =>
        obtain ⟨address, q', rfl, hreach, hdeleted⟩ := hserved hserves
        exact ⟨_, List.mem_cons_self, address, q', rfl, by simp, hreach, hdeleted⟩
      | requestLost => exact absurd hnone hthere
    · obtain ⟨e, he, hdeletes⟩ := ih hnone hgone
      exact ⟨e, List.mem_cons_of_mem _ he, hdeletes⟩

/-- Only `DeleteChunk` deletes. -/
private theorem deletesChunk_of_deleted {address : Str} {q : StorageRpc} {id : Str}
    (h : q.deleted = some id) : DeletesChunk (.storage address q) := by
  cases q with
  | deleteChunk req => exact ⟨address, req, rfl⟩
  | writeChunk req => cases h
  | replicateChunk req => cases h
  | readChunk req => cases h

/-- A deletion of which no request to delete anything gets through leaves the object. -/
theorem deleteObject_unheard {filename : Str} {data : Bytes}
    {trace : List (Event Rpc Rpc.Reply)} (hbefore : Downloads svc reach c filename data)
    (hrun : Runs (Cluster.Serves svc reach) (deleteObject filename) c trace false c')
    (hchunks : ∀ e ∈ trace, DeletesChunk e.request → e.fate = .requestLost)
    (hobject : ∀ e ∈ trace, ¬DeletesObject e) : Downloads svc reach c' filename data := by
  obtain ⟨obj, hobj, hread⟩ := downloads_iff.mp hbefore
  obtain ⟨c₁, hdiscards, -, ⟨⟨e, he, hdeletes⟩, -⟩ | ⟨-, rfl⟩⟩ := deleteObject_failed hobj hrun
  · exact absurd hdeletes (hobject e he)
  · have hkept : ∀ i id, c.gone c' i id = false := by
      intro i id
      by_contra hgone
      obtain ⟨e, he, address, q, hrequest, hfate, -, hdeleted⟩ :=
        deleted_of_gone hrun (Bool.eq_true_of_not_eq_false hgone)
      exact hfate (hchunks e he (hrequest ▸ deletesChunk_of_deleted hdeleted))
    have hanswers : c'.answers reach = c.answers reach := by
      rw [hdiscards.removed.answers]
      funext address id
      simp only [Cluster.answersWithout, Cluster.answers, hkept, Bool.false_eq_true, if_false]
    rw [downloads_iff, hdiscards.locate, hanswers]
    exact ⟨obj, hobj, hread⟩

/-- The machine at an address can delete a chunk. -/
private theorem exists_delete (svc : ClusterConfig) (c : Cluster ι) {address : Str} {i : ι}
    (hreach : reach address = some i) (chunkId : Str) :
    ∃ r c', Cluster.Serves svc reach (.storage address (.deleteChunk { chunkId := chunkId })) c r
      c' ∧ (c'.nodes i).file chunkId = none := by
  cases hdelete : (c.nodes i).1.deleteChunk .removed (c.nodes i).2 chunkId with
  | mk result n =>
    refine ⟨_, _, .storage hreach (.deleteChunk hdelete), ?_⟩
    obtain ⟨hbase, ⟨-, hfiles⟩ | ⟨hnone, -⟩⟩ := ChunkStore.deleteChunk_cases hdelete
    · rw [Cluster.setNode_self, StorageNode.file, hbase, hfiles, if_pos rfl]
    · have hsome : ((c.nodes i).1.deleteChunk .removed (c.nodes i).2 chunkId).1 ≠ none := by
        rw [ChunkStore.deleteChunk]
        dsimp only
        split <;> simp
      rw [hdelete] at hsome
      exact absurd hnone hsome

theorem deleteReplicas_can_lose (svc : ClusterConfig) (reach : Str → Option ι) (c : Cluster ι)
    (chunkId : Str) (reps : List ReplicaLocation) :
    ∃ trace c', Runs (Cluster.Serves svc reach) (deleteReplicas chunkId reps) c trace () c' ∧
      ∀ rep ∈ reps, ∀ i, reach rep.address = some i → (c'.nodes i).file chunkId = none := by
  induction reps generalizing c with
  | nil => exact ⟨[], c, .done _ _, by simp⟩
  | cons rep reps ih =>
    cases hreach : reach rep.address with
    | none =>
      obtain ⟨trace, c', hrun, hlost⟩ := ih c
      refine ⟨_, c', .call (.requestLost c) hrun, List.forall_mem_cons.mpr ⟨?_, hlost⟩⟩
      intro i hi
      rw [hreach] at hi
      cases hi
    | some i =>
      obtain ⟨r, c₁, hserves, hfirst⟩ := exists_delete svc c hreach chunkId
      obtain ⟨trace, c', hrun, hlost⟩ := ih c₁
      refine ⟨_, c', .call (.answered hserves) hrun, List.forall_mem_cons.mpr ⟨?_, hlost⟩⟩
      intro j hj
      rw [hreach] at hj
      cases hj
      exact (discards_of_run hrun (deleteReplicas_issues _ _)).file_none hfirst

theorem deleteChunks_can_lose (svc : ClusterConfig) (reach : Str → Option ι) (c : Cluster ι)
    (chunks : List ChunkMetadata) :
    ∃ trace c', Runs (Cluster.Serves svc reach) (deleteChunks chunks) c trace () c' ∧
      ∀ chunk ∈ chunks, ∀ rep ∈ chunk.replicas, ∀ i, reach rep.address = some i →
        (c'.nodes i).file chunk.chunkId = none := by
  induction chunks generalizing c with
  | nil => exact ⟨[], c, .done _ _, by simp⟩
  | cons chunk rest ih =>
    obtain ⟨first, c₁, hfirst, hlost⟩ :=
      deleteReplicas_can_lose svc reach c chunk.chunkId chunk.replicas
    obtain ⟨later, c', hlater, hlost'⟩ := ih c₁
    refine ⟨_, c', runs_bind.mpr ⟨_, c₁, first, later, hfirst, hlater, rfl⟩,
      List.forall_mem_cons.mpr ⟨fun rep hrep i hi => ?_, hlost'⟩⟩
    exact (discards_of_run hlater (deleteChunks_issues _)).file_none (hlost rep hrep i hi)

/-- A deletion that fails at its last call, after a run of its loop. -/
private theorem deleteObject_runs {filename : Str} {obj : ObjectInfo}
    (hobj : c.locate filename = some obj) {deletions : List (Event Rpc Rpc.Reply)}
    (hrun : Runs (Cluster.Serves svc reach) (deleteChunks (obj.chunks.map ChunkInfo.toProto)) c
      deletions () c') :
    Runs (Cluster.Serves svc reach) (deleteObject filename) c
      (⟨.metadata (.locateObject { filename := filename }), .answered,
        some { success := true, object := obj.toProto }⟩ :: (deletions ++
        [⟨.metadata (.deleteObject { filename := filename }), .requestLost, none⟩])) false c' := by
  have hserves : Cluster.Serves svc reach
      (.metadata (.locateObject { filename := filename })) c _ c :=
    .metadata (.locateObject c.metadata { filename := filename })
  rw [locateObject_eq, hobj] at hserves
  refine runs_rpc.mpr ⟨_, _, _, _, .answered hserves, ?_, rfl⟩
  simp only [Bool.true_eq_false, if_false]
  exact runs_bind.mpr ⟨(), c', deletions, _, hrun, .call (.requestLost c') (.done _ _), rfl⟩

/-- Any object with a chunk can be lost in a deletion that fails. -/
theorem deleteObject_can_lose {filename : Str} {obj : ObjectInfo}
    (hobj : c.locate filename = some obj) (hchunks : obj.chunks ≠ []) :
    ∃ trace c', Runs (Cluster.Serves svc reach) (deleteObject filename) c trace false c' ∧
      ∀ data, ¬Downloads svc reach c' filename data := by
  obtain ⟨deletions, c', hrun, hlost⟩ :=
    deleteChunks_can_lose svc reach c (obj.chunks.map ChunkInfo.toProto)
  refine ⟨_, c', deleteObject_runs hobj hrun, fun data hdownloads => ?_⟩
  have hdiscards := discards_of_run hrun (deleteChunks_issues _)
  obtain ⟨obj', hobj', hread⟩ := downloads_iff.mp hdownloads
  rw [hdiscards.locate, hobj] at hobj'
  cases hobj'
  obtain ⟨chunk, rest, hcons⟩ := List.exists_cons_of_ne_nil hchunks
  have hfirst : firstTaken (c'.answers reach) chunk chunk.replicas = none := by
    refine List.findSome?_eq_none_iff.mpr fun rep hrep => ?_
    have hanswer : c'.answers reach rep.address chunk.chunkId = none := by
      rw [Cluster.answers]
      cases hreach : reach rep.address with
      | none => rfl
      | some i =>
        have hnone : (c'.nodes i).file chunk.chunkId = none := by
          refine hlost chunk.toProto ?_ rep.toProto ?_ i hreach
          · rw [hcons]
            exact List.mem_cons_self
          · exact List.mem_map_of_mem hrep
        rw [Option.bind_some, StorageNode.readChunk_eq, hnone]
        rfl
    rw [hanswer]
    rfl
  rw [hcons, readAll, hfirst] at hread
  cases hread

/-- A deletion that fails, and of which no request to delete anything gets through. -/
private theorem exists_deletion_lost {filename : Str} {obj : ObjectInfo}
    (hobj : c.locate filename = some obj) :
    ∃ trace, Runs (Cluster.Serves svc reach) (deleteObject filename) c trace false c := by
  obtain ⟨deletions, _, hrun, -⟩ := exists_runs_lost (Cluster.Serves svc reach)
    (deleteChunks (obj.chunks.map ChunkInfo.toProto)) c
  exact ⟨_, deleteObject_runs hobj hrun⟩

/-- The empty file that has been put on one node can be downloaded. -/
private theorem oneNode_downloads :
    ∃ (trace : List (Event Rpc Rpc.Reply)) (c : Cluster Unit) (obj : ObjectInfo),
      Runs (Cluster.Serves {} fun _ => some ())
        (put { replicationFactor := 1 } (str "a.txt") [] (str "default"))
        ⟨{ store := oneNodeStore }, fun _ => (ChunkStore.construct (str "/data") ∅ [], ∅)⟩ trace
        { success := true, objectId := draw 0, message := str "Upload complete" } c ∧
      c.locate (str "a.txt") = some obj ∧ obj.chunks ≠ [] ∧
      Downloads {} (fun _ => some ()) c (str "a.txt") [] := by
  obtain ⟨trace, c, hrun, hserved⟩ := oneNode_put
  obtain ⟨loop, planned, final, hdone, -, rfl⟩ := put_completed (by decide) hrun rfl
  have hobj : c.locate (str "a.txt") = some final :=
    locate_eq_some.mpr ⟨by decide, _, hdone.located, hdone.stored⟩
  refine ⟨_, c, final, hrun, hobj, ?_, ?_⟩
  · obtain ⟨m, hcreated⟩ := hdone.created
    have hplanned := hcreated.nonempty
    intro hnil
    generalize hchunks : planned.chunks = chunks at hplanned
    have hput := hdone.chunks
    rw [hchunks, hnil] at hput
    cases hput
    exact hplanned rfl
  · have hreadable := hdone.chunks.readable (by decide) fun e he =>
      hserved e (List.mem_cons_of_mem _ he)
    have hread := readAll_of_readable hreadable []
    rw [pieces_flatten (by decide) hdone.sizes] at hread
    exact downloads_iff.mpr ⟨final, hobj, hread⟩

/-- A deletion that fails has removed some chunk files, each in a call that has reached its
machine.  The object is downloaded as before if and only if no request to delete it has been
served and the data can be read without these files. -/
theorem deleteObject_failed_iff {filename : Str} {data : Bytes}
    {trace : List (Event Rpc Rpc.Reply)} (hbefore : Downloads svc reach c filename data)
    (hrun : Runs (Cluster.Serves svc reach) (deleteObject filename) c trace false c') :
    (∃ gone, c.Removed gone c' ∧
      ∀ i id, gone i id = true → ∃ e ∈ trace, DeletesFile reach e i id) ∧
    ∀ gone, c.Removed gone c' →
      (Downloads svc reach c' filename data ↔
        (∀ e ∈ trace, ¬DeletesObject e) ∧
          ∃ obj, c.locate filename = some obj ∧
            readAll (c.answersWithout reach gone) obj.chunks [] = (none, data)) := by
  obtain ⟨obj, hobj, -⟩ := downloads_iff.mp hbefore
  obtain ⟨c₁, hdiscards, hnodes, hmetadata⟩ := deleteObject_failed hobj hrun
  constructor
  · refine ⟨c.gone c', fun i id => ?_, fun i id hgone => deleted_of_gone hrun hgone⟩
    have hremoved := hdiscards.removed i id
    rw [Cluster.gone] at hremoved ⊢
    rw [hnodes]
    exact hremoved
  · intro gone hgone
    rcases hmetadata with ⟨⟨e, he, hdeletes⟩, hnone⟩ | ⟨hothers, hsame⟩
    · constructor
      · intro h
        obtain ⟨obj', hobj', -⟩ := downloads_iff.mp h
        rw [hnone] at hobj'
        cases hobj'
      · intro h
        exact absurd hdeletes (h.1 e he)
    · have hlocate : c'.locate filename = c.locate filename := by
        rw [hsame, hdiscards.locate]
      rw [downloads_iff, hlocate, hgone.answers]
      exact (and_iff_right hothers).symm

/-- The empty file on one node survives a deletion of which no request is served but the
first. -/
theorem deleteObject_failed_one_node : ∃ (c : Cluster Unit)
    (trace : List (Event Rpc Rpc.Reply)), Downloads {} (fun _ => some ()) c (str "a.txt") [] ∧
      Runs (Cluster.Serves {} fun _ => some ()) (deleteObject (str "a.txt")) c trace false c ∧
      (∀ e ∈ trace, ¬DeletesObject e) ∧
      ∃ obj, c.locate (str "a.txt") = some obj ∧
        readAll (c.answersWithout (fun _ => some ()) fun _ _ => false) obj.chunks [] =
          (none, []) := by
  obtain ⟨-, c, obj, -, hobj, -, hbefore⟩ := oneNode_downloads
  obtain ⟨trace, hrun⟩ := @exists_deletion_lost _ _ {} (fun _ => some ()) _ _ _ hobj
  exact ⟨c, trace, hbefore, hrun,
    ((deleteObject_failed_iff hbefore hrun).2 _ fun _ _ => rfl).mp hbefore⟩

/-- The empty file is put on one node and can be downloaded.  A deletion whose last request
is lost fails, and the file cannot be downloaded any more. -/
theorem deleteObject_failed_loses :
    ∃ (upload deletion : List (Event Rpc Rpc.Reply)) (c c' : Cluster Unit),
      Runs (Cluster.Serves {} fun _ => some ())
        (put { replicationFactor := 1 } (str "a.txt") [] (str "default"))
        ⟨{ store := oneNodeStore }, fun _ => (ChunkStore.construct (str "/data") ∅ [], ∅)⟩ upload
        { success := true, objectId := draw 0, message := str "Upload complete" } c ∧
      Downloads {} (fun _ => some ()) c (str "a.txt") [] ∧
      Runs (Cluster.Serves {} fun _ => some ()) (deleteObject (str "a.txt")) c deletion false c' ∧
      ¬Downloads {} (fun _ => some ()) c' (str "a.txt") [] := by
  obtain ⟨trace, c, obj, hput, hobj, hchunks, hbefore⟩ := oneNode_downloads
  obtain ⟨deletion, c', hrun, hlost⟩ :=
    @deleteObject_can_lose _ _ {} (fun _ => some ()) _ _ _ hobj hchunks
  exact ⟨trace, deletion, c, c', hput, hbefore, hrun, hlost []⟩

end StorageClient

end StorageEngine
