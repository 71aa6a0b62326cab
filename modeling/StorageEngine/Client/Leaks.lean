import StorageEngine.Client.DeleteRace
import StorageEngine.Client.PutRun
import StorageEngine.Cluster.Accounted

/-!
# Files that uploads and deletions leave

When the quorum of a chunk fails, `put` deletes the object from the metadata.  The files of
the nodes that had accepted stay where they are.

* `put_noLeak`: a put leaks nothing, unless it deletes its object after a write.
* `deleteObject_noLeak`: a deletion that is alone leaks nothing.
-/

namespace StorageEngine

open Lib Lib.Remote MetadataStore MetadataService StorageClient

variable {ι : Type} [DecidableEq ι] {svc cfg : ClusterConfig} {reach : Str → Option ι}
  {c c' : Cluster ι} {trace : List (Event Rpc Rpc.Reply)}

theorem MetadataService.Serves.locate_same {req : LocateObjectRequest} {n n' : MetadataNode}
    {resp : LocateObjectResponse} (h : Serves svc (.locateObject req) n resp n') : n' = n := by
  cases h with
  | locateObject => rfl

/-- The call deletes an object. -/
def DeletesObject (e : Event Rpc Rpc.Reply) : Prop :=
  ∃ req, e.request = .metadata (.deleteObject req)

/-! ## One chunk of a put -/

omit [DecidableEq ι] in
/-- Writes delete nothing, so they are undisturbed when they are answered. -/
theorem Asked.undisturbed {target : ClusterNodeInfo → Str} {chunkId objectId : Str} {data : Bytes}
    {answers : List (ClusterNodeInfo × Bool)}
    (h : Asked reach target chunkId objectId data c answers trace c')
    (hresponds : ∀ e ∈ trace, Responds reach e) : ∀ e ∈ trace, Undisturbed reach e := by
  refine fun e he => ⟨hresponds e he, ?_⟩
  rintro address q fate r rfl - hdeleted
  obtain ⟨_, _, _, _, heq, header, hwritten, -⟩ := h.writes _ he
  cases heq
  exact absurd (StorageRpc.deleted_of_written hwritten) hdeleted

/-- A turn that does not delete the object accounts for its chunk, and leaves the others. -/
theorem putChunk_accounted {data : Bytes} {obj : ObjectMetadata} {planned : ChunkInfo}
    {offset : UInt64} {result : Option Str} (hids : c.metadata.ChunkIds)
    (hholds : c.metadata.Holds obj.objectId planned) (hreplicas : planned.replicas = [])
    (haccounted : Accounted reach c planned.chunkId)
    (hrun : Runs (Cluster.Serves svc reach) (putChunk cfg data obj planned.toProto offset) c trace
      result c')
    (hundisturbed : ∀ e ∈ trace, Undisturbed reach e) (hkept : ∀ e ∈ trace, ¬DeletesObject e) :
    result = none ∧ Accounted reach c' planned.chunkId ∧ c'.metadata.ChunkIds ∧
      ∀ id, id ≠ planned.chunkId → c.AgreesOn id c' := by
  obtain ⟨fate, r, c₁, rest, hselect, hrest, rfl⟩ := runs_rpc.mp hrun
  rw [List.forall_mem_cons] at hundisturbed hkept
  have hfate := responds_metadata hundisturbed.1.1
  subst hfate
  rcases delivers_metadata hselect with ⟨hlost, -⟩ | ⟨-, hnodes₁, resp, hserves, hanswer, -⟩
  · cases hlost
  obtain rfl := hanswer rfl
  obtain ⟨order, -, -, hmetadata⟩ := hserves.select_nodes
  have hsame : SameObjects c.metadata.store c₁.metadata.store := by
    rw [hmetadata]
    exact selectNodes_sameObjects _ _ _ _
  have hids₁ := delivers_chunkIds hselect hids
  obtain ⟨progress, c₂, writes, last, hwrites, hlast, rfl⟩ := runs_bind.mp hrest
  obtain ⟨answers, -, rfl, hasked⟩ :=
    writeToNodes_asked (isWrite_writeChunkToNode _ _ obj.objectId) hwrites
  have hoverwrites := hasked.overwrites
  split at hlast
  · -- the object is deleted
    obtain ⟨fate, r, c₃, final, -, -, rfl⟩ := runs_rpc.mp hlast
    exact absurd ⟨_, rfl⟩ (hkept.2 ⟨.metadata (.deleteObject _), fate, r⟩ (by simp))
  · obtain ⟨fate, r, c₃, final, hupdate, hdone, rfl⟩ := runs_rpc.mp hlast
    obtain ⟨rfl, rfl, rfl⟩ := runs_done.mp hdone
    have hheld : c₂.metadata.Holds obj.objectId planned := by
      rw [hoverwrites.metadata]
      exact (MetadataNode.holds_same hsame).mpr hholds
    have hids₂ : c₂.metadata.ChunkIds := hoverwrites.metadata ▸ hids₁
    have hfate := responds_metadata (hundisturbed.2 ⟨.metadata (.updateChunk _), fate, r⟩
      (by simp)).1
    obtain ⟨hnodes, ⟨-, hnone⟩ | hreplaces⟩ := delivers_update hids₂ hupdate
    · exact absurd ⟨planned, hheld, rfl⟩ (hnone (by rw [hfate]; decide))
    · rw [ChunkInfo.fromProto_toProto] at hreplaces
      refine ⟨rfl, fun i hfile => ?_, delivers_chunkIds hupdate hids₂, fun id hne => ?_⟩
      · rw [hnodes] at hfile
        have hresponds : ∀ e ∈ writes, Responds reach e := fun e he =>
          (hundisturbed.2 e (List.mem_append_left _ he)).1
        rcases hasked.appears hresponds i _ hfile with hfile | hwritten
        · -- the chunk had no replicas yet
          rw [hnodes₁] at hfile
          obtain ⟨key, chunk, hchunk, hid, rep, hrep, -⟩ := haccounted i hfile
          obtain ⟨-, rfl⟩ := hids.holds_unique hchunk hholds hid
          rw [hreplicas] at hrep
          cases hrep
        · obtain ⟨-, node, hnode, hreach⟩ := hasked.writesFile_iff.mp hwritten
          obtain ⟨rep, hrep, haddress⟩ := recordAll_listed 1 hnode
          exact ⟨_, _, (hreplaces.holds _ _).mpr (.inl ⟨rfl, rfl⟩), rfl, rep, hrep,
            haddress ▸ hreach⟩
      · exact ((Cluster.AgreesOn.of_sameObjects hsame hnodes₁).trans
          (.of_overwrites hoverwrites hne)).trans (.of_replaces hreplaces hnodes hne)

/-! ## A put -/

theorem putChunks_noLeak {data : Bytes} {obj : ObjectMetadata} {todo : List ChunkInfo}
    {offset : UInt64} {result : Option Str} (hids : c.metadata.ChunkIds)
    (hholds : ∀ planned ∈ todo, c.metadata.Holds obj.objectId planned ∧ planned.replicas = [])
    (hnodup : (todo.map ChunkInfo.chunkId).Nodup) (h : NoLeak reach c)
    (hrun : Runs (Cluster.Serves svc reach)
      (putChunks cfg data obj (todo.map ChunkInfo.toProto) offset) c trace result c')
    (hundisturbed : ∀ e ∈ trace, Undisturbed reach e) (hkept : ∀ e ∈ trace, ¬DeletesObject e) :
    NoLeak reach c' := by
  induction todo generalizing offset c trace with
  | nil =>
    obtain ⟨rfl, rfl, rfl⟩ := runs_done.mp hrun
    exact h
  | cons planned rest ih =>
    rw [List.map_cons, List.nodup_cons] at hnodup
    rw [List.forall_mem_cons] at hholds
    rw [List.map_cons] at hrun
    obtain ⟨failure, c₁, turn, later, hturn, hlater, rfl⟩ := runs_bind.mp hrun
    rw [List.forall_mem_append] at hundisturbed hkept
    obtain ⟨rfl, haccounted, hids₁, hothers⟩ := putChunk_accounted hids hholds.1.1 hholds.1.2
      (h planned.chunkId) hturn hundisturbed.1 hkept.1
    refine ih hids₁ (fun other hother => ?_) hnodup.2 (fun id => ?_) hlater hundisturbed.2 hkept.2
    · have hne : other.chunkId ≠ planned.chunkId := fun heq =>
        hnodup.1 (heq ▸ List.mem_map_of_mem hother)
      obtain ⟨hheld, hreplicas⟩ := hholds.2 other hother
      exact ⟨((hothers _ hne).holds _ _ rfl).mpr hheld, hreplicas⟩
    · by_cases hid : id = planned.chunkId
      · exact hid ▸ haccounted
      · exact (h id).congr (hothers id hid)

/-- The calls of a put after it has created the object. -/
def PutCalls (objectId : Str) : Rpc → Prop
  | .metadata (.selectNodes _) => True
  | .metadata (.updateChunk req) => req.objectId = objectId ∧ req.chunk.objectId = objectId
  | .metadata (.deleteObject req) => req = { objectId := objectId }
  | .storage _ (.writeChunk _) => True
  | _ => False

theorem putChunk_issues (cfg : ClusterConfig) (data : Bytes) (obj : ObjectMetadata)
    (chunkPb : ChunkMetadata) (offset : UInt64) :
    (putChunk cfg data obj chunkPb offset).Issues (PutCalls obj.objectId) := by
  have hwrites : ∀ (chunk : ChunkInfo) (chunkData : Bytes) (nodes : List ClusterNodeInfo)
      (p : WriteProgress), (writeToNodes
        (fun node => writeChunkToNode node.address chunk chunkData obj.objectId) 1 nodes p).Issues
          (PutCalls obj.objectId) := by
    intro chunk chunkData nodes p
    induction nodes generalizing p with
    | nil => exact .done p
    | cons node nodes ih => exact .bind (.call trivial fun r => .done _) fun ok => ih _
  refine .call trivial fun r => ?_
  cases r with
  | none => exact .done _
  | some selected =>
    refine (hwrites _ _ _ _).bind fun progress => ?_
    split
    · exact .call rfl fun r => .done _
    · exact .call ⟨rfl, rfl⟩ fun r => .done _

theorem putChunks_issues (cfg : ClusterConfig) (data : Bytes) (obj : ObjectMetadata)
    (chunks : List ChunkMetadata) (offset : UInt64) :
    (putChunks cfg data obj chunks offset).Issues (PutCalls obj.objectId) := by
  induction chunks generalizing offset with
  | nil => exact .done _
  | cons chunkPb rest ih =>
    refine (putChunk_issues cfg data obj chunkPb offset).bind fun failure => ?_
    cases failure with
    | none => exact ih _
    | some message => exact .done _

theorem MetadataService.Serves.lookup_of_putCall {q : MetadataRpc} {n n' : MetadataNode}
    {r : q.Reply} {objectId key : Str} (h : Serves svc q n r n')
    (hq : PutCalls objectId (.metadata q)) (hid : objectId ≠ []) (hne : key ≠ objectId) :
    n'.store.objectsById.lookup key = n.store.objectsById.lookup key := by
  cases h.change with
  | same hobjects _ => rw [hobjects.1]
  | created hcreate =>
    subst hcreate
    exact hq.elim
  | deleted hdelete =>
    subst hdelete
    cases hq
    rw [h.delete_store hid]
    rcases MetadataStore.deleteObject_cases n.store objectId with ⟨heq, -⟩ | ⟨obj, -, heq⟩
    · rw [heq]
    · rw [heq]
      exact Finmap.lookup_erase_ne hne
  | updated hupdate _ _ hn =>
    subst hupdate hn
    exact Finmap.lookup_insert_of_ne _ (hq.1 ▸ hne)

/-- Calls that put an object leave the other objects. -/
theorem lookup_of_putCalls {α : Type} {p : ClusterProg α} {a : α} {objectId key : Str}
    (hrun : Runs (Cluster.Serves svc reach) p c trace a c')
    (hissues : p.Issues (PutCalls objectId)) (hid : objectId ≠ []) (hne : key ≠ objectId) :
    c'.metadata.store.objectsById.lookup key = c.metadata.store.objectsById.lookup key := by
  refine runs_metadata_keeps (I := fun n => n.store.objectsById.lookup key =
    c.metadata.store.objectsById.lookup key) (fun {q n resp n'} hq hserves hsame => ?_) hrun
    hissues rfl
  exact (hserves.lookup_of_putCall hq hid hne).trans hsame

omit [DecidableEq ι] in
/-- They remove no file. -/
theorem PutCalls.not_removesFile {objectId : Str} {e : Event Rpc Rpc.Reply}
    (h : PutCalls objectId e.request) (i : ι) (id : Str) : ¬RemovesFile reach e i id := by
  rintro ⟨address, q, fate, r, rfl, -, hdeleted, -⟩
  cases q with
  | writeChunk req => cases hdeleted
  | replicateChunk req => cases hdeleted
  | readChunk req => cases hdeleted
  | deleteChunk req => exact h

/-- A chunk that is held stays when an object is created. -/
theorem MetadataService.Created.lookup {req : CreateObjectRequest} {n n' : MetadataNode}
    {obj o : ObjectInfo} {key : Str} (h : Created svc req n obj n') (hids : n.ChunkIds)
    (ho : n.store.objectsById.lookup key = some o) :
    key ≠ obj.objectId ∧ n'.store.objectsById.lookup key = some o := by
  have hne : key ≠ obj.objectId := by
    rintro rfl
    refine h.fresh _ List.mem_cons_self ?_
    rw [← hids.indexed.keyed ho]
    exact (hids.drawn ho _ List.mem_cons_self).1
  refine ⟨hne, ?_⟩
  rw [h.store]
  exact (Finmap.lookup_insert_of_ne _ hne).trans ho

/-- The loop of a put after it has created its object. -/
private theorem created_noLeak {data : Bytes} {req : CreateObjectRequest} {obj : ObjectInfo}
    {c₁ : Cluster ι} {loop : List (Event Rpc Rpc.Reply)} {failure : Option Str}
    (hids : c.metadata.ChunkIds) (h : NoLeak reach c)
    (hcreated : Created svc req c.metadata obj c₁.metadata) (hnodes : c₁.nodes = c.nodes)
    (hloop : Runs (Cluster.Serves svc reach) (putChunks cfg data obj.toProto obj.toProto.chunks 0)
      c₁ loop failure c')
    (hundisturbed : ∀ e ∈ loop, Undisturbed reach e)
    (htidy : (∃ e ∈ loop, DeletesObject e) → ∀ e ∈ loop, ∀ i id, ¬WritesFile reach e i id) :
    NoLeak reach c' := by
  have hissues := putChunks_issues cfg data obj.toProto obj.toProto.chunks 0
  by_cases hdeleted : ∃ e ∈ loop, DeletesObject e
  · have hunwritten := htidy hdeleted
    refine h.mono (fun i id hfile => ?_) fun key chunk => ?_
    · have hkept : ∀ e ∈ loop, ¬RemovesFile reach e i id := fun e he =>
        (hloop.trace_allowed hissues e he).not_removesFile i id
      have hfiles := file_of_writes hloop (fun e he => (hundisturbed e he).1) hkept
      rw [hnodes] at hfiles
      exact (hfiles.mp hfile).resolve_right fun ⟨e, he, hwritten⟩ => hunwritten e he i id hwritten
    · rintro ⟨o, ho, hmem⟩
      obtain ⟨hne, hstill⟩ := hcreated.lookup hids ho
      exact ⟨o, (lookup_of_putCalls hloop hissues hcreated.objectId_ne_nil hne).trans hstill, hmem⟩
  · have hstart : NoLeak reach c₁ := h.mono (fun i id => by rw [hnodes]; exact fun hfile => hfile)
      fun key chunk ⟨o, ho, hmem⟩ => ⟨o, (hcreated.lookup hids ho).2, hmem⟩
    refine putChunks_noLeak (hids.create hcreated) (fun planned hplanned => ⟨⟨obj, ?_, hplanned⟩,
      (hcreated.planned planned hplanned).replicas⟩) (List.nodup_cons.mp hcreated.nodup).2 hstart
        hloop hundisturbed fun e he hdelete => hdeleted ⟨e, he, hdelete⟩
    rw [hcreated.store]
    exact Finmap.lookup_insert _

/-- The put deletes no object of which a node has accepted a chunk. -/
def TidyPut (reach : Str → Option ι) (trace : List (Event Rpc Rpc.Reply)) : Prop :=
  (∃ e ∈ trace, DeletesObject e) → ∀ e ∈ trace, ∀ i id, ¬WritesFile reach e i id

theorem put_noLeak {filename owner : Str} {data : Bytes} {result : PutResult}
    (hids : c.metadata.ChunkIds) (h : NoLeak reach c)
    (hrun : Runs (Cluster.Serves svc reach) (put cfg filename data owner) c trace result c')
    (hundisturbed : ∀ e ∈ trace, Undisturbed reach e) (htidy : TidyPut reach trace) :
    NoLeak reach c' := by
  have hloop : ∀ {e loop}, trace = e :: loop →
      (∃ e ∈ loop, DeletesObject e) → ∀ e ∈ loop, ∀ i id, ¬WritesFile reach e i id := by
    rintro e loop rfl ⟨d, hd, hdelete⟩ e' he'
    exact htidy ⟨d, List.mem_cons_of_mem _ hd, hdelete⟩ e' (List.mem_cons_of_mem _ he')
  cases put_run hrun with
  | refused message hreq hcall hr =>
    rcases delivers_metadata hcall with ⟨-, -, rfl⟩ | ⟨-, hnodes, resp, hserves, hanswer, -⟩
    · exact h
    · have hfate := responds_metadata (hundisturbed _ List.mem_cons_self).1
      rcases hserves.create_cases with ⟨-, hsame, -⟩ | ⟨obj, rfl, -⟩
      · rwa [show c' = c from Cluster.ext hsame hnodes]
      · cases hr _ (hanswer hfate)
  | failed message hreq hcreated hnodes hrest =>
    exact created_noLeak hids h hcreated hnodes hrest
      (fun e he => hundisturbed e (List.mem_cons_of_mem _ he)) (hloop rfl)
  | succeeded hreq hcreated hnodes hrest =>
    exact created_noLeak hids h hcreated hnodes hrest
      (fun e he => hundisturbed e (List.mem_cons_of_mem _ he)) (hloop rfl)

/-! ## A deletion -/

/-- The calls of a deletion after it has located the object. -/
def DeletesFiles : Rpc → Prop
  | .storage _ (.deleteChunk _) => True
  | _ => False

theorem deleteChunks_issues (chunks : List ChunkMetadata) :
    (deleteChunks chunks).Issues DeletesFiles := by
  have hreplicas : ∀ chunkId reps, (deleteReplicas chunkId reps).Issues DeletesFiles := by
    intro chunkId reps
    induction reps with
    | nil => exact .done _
    | cons rep reps ih => exact .call trivial fun r => ih
  induction chunks with
  | nil => exact .done _
  | cons chunk rest ih => exact (hreplicas _ _).bind fun _ => ih

theorem metadata_of_deletesFiles {α : Type} {p : ClusterProg α} {a : α}
    (hrun : Runs (Cluster.Serves svc reach) p c trace a c') (hissues : p.Issues DeletesFiles) :
    c'.metadata = c.metadata := by
  refine runs_metadata_keeps (I := fun n => n = c.metadata)
    (fun {q n resp n'} hq hserves hsame => ?_) hrun hissues rfl
  exact hq.elim

/-- The deletions for a located object only remove files, and leave none of its replicas. -/
theorem deleteChunks_removes {located : LocateObjectResponse} (hok : located.success = true)
    (hrun : Runs (Cluster.Serves svc reach) (deleteChunks located.object.chunks) c trace () c')
    (hundisturbed : ∀ e ∈ trace, Undisturbed reach e) {i : ι} {id : Str}
    (hfile : (c'.nodes i).file id ≠ none) :
    (c.nodes i).file id ≠ none ∧ ∀ chunk ∈ located.object.chunks, chunk.chunkId = id →
      ∀ rep ∈ chunk.replicas, reach rep.address ≠ some i := by
  have hcalls := hrun.trace_allowed (deleteChunks_issues _)
  have hunwritten : ∀ e ∈ trace, ¬WritesFile reach e i id := by
    rintro e he ⟨address, q, fate, r, header, data, rfl, -, -, hwritten, -⟩
    have hdeletes := hcalls _ he
    cases q with
    | deleteChunk req => cases hwritten
    | _ => exact hdeletes
  obtain ⟨hfile, hkept⟩ :=
    (file_of_deletions hrun (fun e he => (hundisturbed e he).1) hunwritten).mp hfile
  refine ⟨hfile, fun chunk hchunk hid rep hrep hreach => ?_⟩
  -- the replica has been deleted
  have hstart : ClientCall.StartsAt [] [⟨.metadata (.locateObject {}), .answered, some located⟩]
      located := ⟨hok, .answered, [], rfl⟩
  obtain ⟨e, he, hrequest⟩ := hrun.keeps (ClientCall.deleteChunks_keeps hstart fun _ hmem => hmem)
    chunk hchunk rep hrep
  obtain ⟨q, fate, r⟩ := e
  dsimp only at hrequest
  subst hrequest
  rcases List.mem_cons.mp he with heq | he
  · cases heq
  · have hr := (hundisturbed _ he).2 _ _ _ _ rfl (by rw [hreach]; simp)
      (by simp [StorageRpc.deleted])
    exact hkept _ he ⟨_, _, _, _, rfl, hreach, congrArg some hid, hr⟩

/-- What is there after a deletion was there before. -/
theorem MetadataService.Serves.delete_lookup {req : DeleteObjectRequest} {n n' : MetadataNode}
    {resp : StatusResponse} (h : Serves svc (.deleteObject req) n resp n') {key : Str}
    {o : ObjectInfo} (ho : n'.store.objectsById.lookup key = some o) :
    n.store.objectsById.lookup key = some o := by
  cases h with
  | deleteObject =>
    rcases MetadataService.deleteObject_cases n.store req with heq | ⟨objectId, heq⟩
    · rwa [heq] at ho
    · rw [heq] at ho
      exact objects_of_delete ho

/-- A deletion leaves no file of the object that it has located. -/
theorem deleteObject_noLeak {filename : Str} {result : Bool} (hids : c.metadata.ChunkIds)
    (h : NoLeak reach c)
    (hrun : Runs (Cluster.Serves svc reach) (deleteObject filename) c trace result c')
    (hundisturbed : ∀ e ∈ trace, Undisturbed reach e) : NoLeak reach c' := by
  obtain ⟨fate, r, c₁, rest, hlocate, hrest, rfl⟩ := runs_rpc.mp hrun
  have hsame : c₁ = c := by
    rcases delivers_metadata hlocate with ⟨-, -, rfl⟩ | ⟨-, hnodes, resp, hserves, -⟩
    · rfl
    · exact Cluster.ext hserves.locate_same hnodes
  subst hsame
  cases r with
  | none =>
    obtain ⟨rfl, rfl, rfl⟩ := runs_done.mp hrest
    exact h
  | some located =>
    dsimp only at hrest
    split at hrest
    · obtain ⟨rfl, rfl, rfl⟩ := runs_done.mp hrest
      exact h
    · next hfailed =>
      have hok := Bool.eq_true_of_not_eq_false hfailed
      obtain ⟨⟨⟩, c₂, deletions, last, hdeletions, hlast, rfl⟩ := runs_bind.mp hrest
      obtain ⟨fate', r', c₃, final, hdelete, hdone, rfl⟩ := runs_rpc.mp hlast
      have hfinal : c' = c₃ := by
        cases r' <;> exact (runs_done.mp hdone).2.2
      subst hfinal
      have hmetadata := metadata_of_deletesFiles hdeletions (deleteChunks_issues _)
      rcases delivers_metadata hlocate with ⟨-, hr, -⟩ | ⟨-, -, resp, hserves, -, hr⟩
      · cases hr
      obtain rfl : located = resp := by simpa using hr
      obtain ⟨-, key, obj, hname, hobj, hobject⟩ :=
        ClientCall.serves_locate hids.indexed hserves hok
      rw [List.forall_mem_cons, List.forall_mem_append] at hundisturbed
      intro id i hfile
      have hchanged : c'.nodes = c₂.nodes := by
        rcases delivers_metadata hdelete with ⟨-, -, rfl⟩ | ⟨-, hnodes, -⟩
        · rfl
        · exact hnodes
      rw [hchanged] at hfile
      obtain ⟨hbefore, hremoved⟩ :=
        deleteChunks_removes hok hdeletions hundisturbed.2.1 hfile
      obtain ⟨key', chunk, ⟨o, ho, hmem⟩, hid, rep, hrep, hreach⟩ := h id i hbefore
      refine ⟨key', chunk, ⟨o, ?_, hmem⟩, hid, rep, hrep, hreach⟩
      rcases delivers_metadata hdelete with ⟨-, -, rfl⟩ | ⟨-, -, resp', hserves', -⟩
      · rw [hmetadata]
        exact ho
      · rw [← hmetadata] at ho hname hobj
        cases hgone : c'.metadata.store.objectsById.lookup key' with
        | some o' =>
          have hsame := hserves'.delete_lookup hgone
          rw [ho] at hsame
          exact hsame.symm
        | none =>
          -- then it is the object that has been located
          have hkey := ClientCall.serves_delete hserves' ho hgone
          rw [hname] at hkey
          cases hkey
          rw [hobj] at ho
          cases ho
          refine absurd hreach (hremoved chunk.toProto ?_ hid rep.toProto ?_)
          · rw [hobject]
            exact List.mem_map_of_mem hmem
          · exact List.mem_map_of_mem hrep

end StorageEngine
